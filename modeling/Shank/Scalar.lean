/-
# Scalars

The five kinds of values that are held in one piece. A scalar has a text, and
every kind can be read back from a text; values move between variables by way of
it.

| kind | text |
| --- | --- |
| integer | decimal digits, a minus in front of a negative one |
| real | the fewest digits that read back, see `Ieee.singleText` |
| string | itself |
| character | itself |
| boolean | `true` or `false` |

An integer is held in 64 bits, a real in single precision; a `Scalar` may exceed
that (a literal of the program text does), and `Scalar.check` in `Shank.Type`
tells.
-/

import Shank.Ieee.Text
import Shank.Numeral

namespace Shank

/-- The kinds of scalars. -/
inductive Kind
  | integer | real | string | character | boolean
  deriving DecidableEq, Repr

/-- The kinds of values: a scalar of some kind, or an array. -/
inductive Tag
  | scalar (kind : Kind)
  | array
  deriving DecidableEq, Repr

/-- The word for a kind, the same in declarations, in signatures and in reports. -/
def Kind.name : Kind → String
  | integer => "integer"
  | real => "real"
  | string => "string"
  | character => "character"
  | boolean => "boolean"

/-- The kind of a name. -/
def Kind.ofName? (s : String) : Option Kind :=
  [integer, real, string, character, boolean].find? fun k => k.name == s

/-- The word for what a value is: the kind of a scalar, or that it is an array. -/
def Tag.name : Tag → String
  | scalar kind => kind.name
  | array => "array"

/-- A value in one piece. -/
inductive Scalar
  | integer (value : Int)
  | real (value : Ieee)
  | string (value : String)
  | character (value : Char)
  | boolean (value : Bool)
  deriving DecidableEq, Repr

namespace Scalar

/-- The kind of a scalar. -/
def kind : Scalar → Kind
  | integer _ => .integer
  | real _ => .real
  | string _ => .string
  | character _ => .character
  | boolean _ => .boolean

/-- The text of a scalar. -/
def text : Scalar → String
  | integer n => Numeral.integerText n
  | real x => x.singleText
  | string s => s
  | character c => c.toString
  | boolean b => if b then "true" else "false"

/-- What a variable of a kind holds before anything is stored in it. -/
def initial : Kind → Scalar
  | .integer => integer 0
  | .real => real (.finite 0)
  | .string => string ""
  | .character => character ' '
  | .boolean => boolean false

/-- What a variable starts with is of its kind. -/
theorem kind_initial (k : Kind) : (initial k).kind = k := by
  cases k <;> rfl

/-- Equality of values: the same kind and the same contents, reals compared as
numbers. -/
def same : Scalar → Scalar → Bool
  | real x, real y => x.eq y
  | a, b => a == b

/-- The smallest integer of 64 bits. -/
def minInteger : Int := -9223372036854775808

/-- The largest integer of 64 bits. -/
def maxInteger : Int := 9223372036854775807

/-- The integer a text stands for: an integer numeral, or a real one without its
fraction. -/
def readInteger? (s : String) : Option Int :=
  match Numeral.integer? s with
  | .ok n => some n
  | .error _ => (Numeral.real? s).bind Ieee.truncate?

/-- The boolean a text stands for; its case and the white space around it do not
count. -/
def readBoolean? (s : String) : Option Bool :=
  let word := String.ofList ((Text.stripped s).toList.map Char.toLower)
  if word = "true" then some true
  else if word = "false" then some false
  else none

end Scalar
end Shank
