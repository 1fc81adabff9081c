/-
# Quoted texts

A text between quotes, with everything that would not show as itself escaped:

| character | written |
| --- | --- |
| backslash, the quote in use | a backslash in front |
| tab, line feed, carriage return | `\t`, `\n`, `\r` |
| any other unprintable one | `\xhh`, `\uhhhh` or `\Uhhhhhhhh`, the shortest that fits |

The quote is `'`, or `"` when the text holds `'` and no `"`.
-/

import Shank.Text.Printable

namespace Shank
namespace Text

/-- A number in lower-case hexadecimal, with zeros in front up to the given
width. -/
def hexadecimal (width n : Nat) : List Char :=
  let ds := Nat.toDigits 16 n
  List.replicate (width - ds.length) '0' ++ ds

/-- One character of a quoted text. -/
def escape (quote : Char) (c : Char) : List Char :=
  if c = quote ∨ c = '\\' then ['\\', c]
  else if c = '\t' then ['\\', 't']
  else if c = '\n' then ['\\', 'n']
  else if c = '\r' then ['\\', 'r']
  else if isPrintable c then [c]
  else if c.toNat ≤ 0xFF then '\\' :: 'x' :: hexadecimal 2 c.toNat
  else if c.toNat ≤ 0xFFFF then '\\' :: 'u' :: hexadecimal 4 c.toNat
  else '\\' :: 'U' :: hexadecimal 8 c.toNat

/-- The quote a text is put in. -/
def quoteFor (cs : List Char) : Char :=
  if '\'' ∈ cs ∧ '"' ∉ cs then '"' else '\''

/-- A text in quotes. -/
def quoted (s : String) : String :=
  let q := quoteFor s.toList
  String.ofList (q :: s.toList.flatMap (escape q) ++ [q])

end Text
end Shank
