/-
# UTF-8

Decoding of bytes into characters. A text that is not well formed is refused at
its first offending place, which is told by the bytes it covers:

| fault | covers |
| --- | --- |
| a byte that starts no character | that byte |
| a character cut short by a byte that does not continue it | the bytes before that byte |
| a character cut short by the end of the data | the bytes that are left |

Overlong forms, surrogates and values above `U+10FFFF` show in the byte after
the first one.
-/

namespace Shank
namespace Text

/-- Why bytes are no text. -/
inductive Utf8Reason
  | invalidStart
  | invalidContinuation
  | unexpectedEnd
  deriving DecidableEq, Repr

/-- An offending place: `length` bytes from `start` on, the first of them
`byte`. -/
structure Utf8Fault where
  start : Nat
  length : Nat
  byte : UInt8
  reason : Utf8Reason
  deriving DecidableEq, Repr

/-- What is told of bytes that are no UTF-8. -/
def Utf8Reason.message : Utf8Reason → String
  | invalidStart => "invalid start byte"
  | invalidContinuation => "invalid continuation byte"
  | unexpectedEnd => "unexpected end of data"

/-- The sentence that tells of an offending place. -/
def Utf8Fault.message (f : Utf8Fault) : String :=
  let place :=
    if f.length = 1 then
      let ds := String.ofList (Nat.toDigits 16 f.byte.toNat)
      s!"byte 0x{ds} in position {f.start}"
    else s!"bytes in position {f.start}-{f.start + f.length - 1}"
  s!"'utf-8' codec can't decode {place}: {f.reason.message}"

/-- The bytes `10xxxxxx`, which continue a character. -/
def isContinuation (b : UInt8) : Bool :=
  0x80 ≤ b && b < 0xC0

/-- The second byte of a character of three or four bytes is limited further by
the first. -/
def isSecond (first b : UInt8) : Bool :=
  isContinuation b &&
    (if first = 0xE0 then 0xA0 ≤ b
     else if first = 0xED then b < 0xA0
     else if first = 0xF0 then 0x90 ≤ b
     else if first = 0xF4 then b < 0x90
     else true)

/-- How many bytes follow the first byte of a character. -/
def followers? (b : UInt8) : Option Nat :=
  if b < 0x80 then some 0
  else if b < 0xC2 then none
  else if b < 0xE0 then some 1
  else if b < 0xF0 then some 2
  else if b < 0xF5 then some 3
  else none

/-- The leading ones of a first byte taken away. -/
def leadBits (followers : Nat) (b : UInt8) : Nat :=
  match followers with
  | 0 => b.toNat
  | 1 => b.toNat % 0x20
  | 2 => b.toNat % 0x10
  | _ => b.toNat % 0x08

/-- Reads the bytes that must follow: the value with their bits appended, or how
many of them there were and what is wrong with the next. -/
def continueWith (ok : UInt8 → Bool) (value taken : Nat) :
    Nat → List UInt8 → Except (Nat × Utf8Reason) Nat
  | 0, _ => .ok value
  | _ + 1, [] => .error (taken, .unexpectedEnd)
  | k + 1, b :: bs =>
    if ok b then continueWith isContinuation (value * 0x40 + b.toNat % 0x40) (taken + 1) k bs
    else .error (taken, .invalidContinuation)

/-- The characters of the bytes that follow `start` earlier ones; `done` holds
the characters so far, the last one first. -/
def decodeFrom (start : Nat) (done : List Char) : List UInt8 → Except Utf8Fault (List Char)
  | [] => .ok done.reverse
  | b :: bs =>
    match followers? b with
    | none => .error ⟨start, 1, b, .invalidStart⟩
    | some k =>
      match continueWith (isSecond b) (leadBits k b) 0 k bs with
      | .ok value => decodeFrom (start + 1 + k) (Char.ofNat value :: done) (bs.drop k)
      | .error (taken, reason) => .error ⟨start, taken + 1, b, reason⟩
termination_by bs => bs.length
decreasing_by simp +arith

/-- The text that bytes stand for. -/
def decodeUtf8 (bytes : List UInt8) : Except Utf8Fault String :=
  (decodeFrom 0 [] bytes).map String.ofList

end Text
end Shank
