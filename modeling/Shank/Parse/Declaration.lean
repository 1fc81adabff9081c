/-
# Declarations

```
declarations →  (group (; group)*)?
group        →  var? name (, name)* : type              in a list of variables
              | name (, name)* = literal                in a list of constants
type         →  array from integer to integer of kind
              | kind (from number to number)?
```

The names of a group share its type or value. A range needs a kind that can have
one; its bounds are integers except for reals, and the lower one is not above
the upper one.
-/

import Shank.Parse.Expr

namespace Shank
namespace Parse

/-- The kind that a type name stands for. -/
def kind? : Token.Kind → Option Kind
  | .integer => some .integer
  | .real => some .real
  | .string => some .string
  | .character => some .character
  | .boolean => some .boolean
  | _ => none

/-- Parses the name of a scalar kind. -/
def kind : Parse Kind := do
  match (← peek).bind fun t => kind? t.kind with
  | some k =>
    skip
    pure k
  | none => failHere .expectedType

/-- The bound that a number stands for. -/
def boundOf (negative : Bool) (v : Scalar) : Bound :=
  match if negative then negated v else v with
  | .integer n => .whole n
  | .real x => .real x
  | _ => .whole 0

/-- Parses a number with perhaps a minus in front. -/
def bound : Parse Bound := do
  let minus ← take? .minus
  let t ← expect .number .number
  pure (boundOf minus.isSome (← number t))

/-- Parses the two bounds of a range, and gives the token they start at. -/
def bounds : Parse (Option Token × Bound × Bound) := do
  let _ ← expect .from_ .from_
  let start ← peek
  let low ← bound
  let _ ← expect .to_ .to_
  let high ← bound
  pure (start, low, high)

/-- Parses a range of integers. -/
def interval : Parse Interval := do
  match ← bounds with
  | (start, .whole low, .whole high) =>
    if high < low then failAt (.emptyRange (.whole low) (.whole high)) start
    else pure ⟨low, high⟩
  | (start, _, _) => failAt .rangeNotWhole start

/-- Parses a range of reals. -/
def realInterval : Parse RealInterval := do
  let (start, low, high) ← bounds
  if high.lt low then failAt (.emptyRange low high) start
  else pure ⟨low, high⟩

/-- Parses something that `from` starts, if it comes next. -/
def ifRange {α : Type} (p : Parse α) : Parse (Option α) := do
  if ← at_ .from_ then some <$> p else pure none

/-- Refuses a range. -/
def noRange (k : Kind) : Parse Unit := do
  if ← at_ .from_ then failHere (.rangeNotAllowed k)

/-- Parses a type. -/
def type : Parse DeclaredType := do
  match ← take? .array with
  | some _ =>
    let bounds ← interval
    let _ ← expect .of_ .of_
    pure (.array bounds (← kind))
  | none =>
    match ← kind with
    | .integer => pure (.scalar (.integer (← ifRange interval)))
    | .real => pure (.scalar (.real (← ifRange realInterval)))
    | .string => pure (.scalar (.string (← ifRange interval)))
    | .character =>
      noRange .character
      pure (.scalar .character)
    | .boolean =>
      noRange .boolean
      pure (.scalar .boolean)

/-- Parses the literal of a constant, and gives the line it starts on. -/
def constantValue : Parse (Nat × Scalar) := do
  match ← peek with
  | none => failHere .expectedConstant
  | some t =>
    match t.kind with
    | .minus =>
      skip
      let n ← expect .number .numberAfterMinus
      pure (t.line, negated (← number n))
    | .number =>
      skip
      pure (t.line, ← number t)
    | .stringLiteral =>
      skip
      pure (t.line, .string t.text)
    | .characterLiteral =>
      skip
      pure (t.line, ← character t)
    | .true_ =>
      skip
      pure (t.line, .boolean true)
    | .false_ =>
      skip
      pure (t.line, .boolean false)
    | _ => failHere .expectedConstant

/-- Parses the names after the first of a group. -/
def moreNames : List Token → Parse (List Token)
  | [] => pure []
  | _ :: rounds => do
    match ← take? .comma with
    | none => pure []
    | some _ =>
      let t ← expect .identifier .variableName
      return t :: (← moreNames rounds)

/-- Parses the names of a group. -/
def names : Parse (List Token) := do
  let t ← expect .identifier .variableName
  return t :: (← moreNames (← remaining))

/-- Parses a group of variables. -/
def variableGroup : Parse (List Variable) := do
  let isVar := (← take? .var).isSome
  let names ← names
  let _ ← expect .colon .colon
  let type ← type
  pure (names.map fun t => { line := t.line, name := t.text, type, isVar })

/-- Parses a group of constants. -/
def constantGroup : Parse (List Constant) := do
  let isVar := (← take? .var).isSome
  let names ← names
  if isVar then failAt .varConstant names.head?
  else
    let _ ← expect .equals .constantEquals
    let (valueLine, value) ← constantValue
    pure (names.map fun t => { line := t.line, name := t.text, value, valueLine })

/-- Parses groups up to the token that ends the list. At the end of the tokens a
group is missing. -/
def groupsFrom {α : Type} (group : Parse (List α)) (terminator : Token.Kind) :
    List Token → Parse (List α)
  | [] => group
  | _ :: rounds => do
    if ← at_ terminator then pure []
    else
      let first ← group
      match ← take? .semicolon with
      | none => pure first
      | some _ => return first ++ (← groupsFrom group terminator rounds)

/-- Parses the groups of a list of declarations. -/
def groups {α : Type} (group : Parse (List α)) (terminator : Token.Kind) : Parse (List α) := do
  groupsFrom group terminator (← remaining)

end Parse
end Shank
