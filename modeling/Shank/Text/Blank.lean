/-
# White space

Two classes of white space are in use:

| class | members | where |
| --- | --- | --- |
| `isBlank` | tab to carriage return, the four information separators, the Unicode spaces | between lexemes, around texts that are converted |
| `isPadding` | the same without the information separators | around the digits of a numeral |

Everything works on lists of characters, so that a column is a position in a
list.
-/

namespace Shank
namespace Text

/-- The information separators `U+001C` to `U+001F`. -/
def isSeparator (c : Char) : Bool :=
  0x1C ≤ c.toNat && c.toNat ≤ 0x1F

/-- The white space a numeral may stand in. -/
def isPadding (c : Char) : Bool :=
  let n := c.toNat
  (0x09 ≤ n && n ≤ 0x0D) || n == 0x20 || n == 0x85 || n == 0xA0 || n == 0x1680 ||
    (0x2000 ≤ n && n ≤ 0x200A) || n == 0x2028 || n == 0x2029 || n == 0x202F || n == 0x205F ||
    n == 0x3000

/-- White space: what may stand between two lexemes. -/
def isBlank (c : Char) : Bool :=
  isSeparator c || isPadding c

/-- Drops the characters at the end that satisfy `p`. -/
def trimEnd (p : Char → Bool) (cs : List Char) : List Char :=
  (cs.reverse.dropWhile p).reverse

/-- Drops the characters at both ends that satisfy `p`. -/
def trim (p : Char → Bool) (cs : List Char) : List Char :=
  trimEnd p (cs.dropWhile p)

/-- A text without the white space at its ends. -/
def stripped (s : String) : String :=
  String.ofList (trim isBlank s.toList)

/-- `trimEnd` drops a suffix. -/
theorem trimEnd_prefix (p : Char → Bool) (cs : List Char) : trimEnd p cs <+: cs := by
  unfold trimEnd
  simpa using List.reverse_prefix.2 (List.dropWhile_suffix (l := cs.reverse) p)

/-- What `trimEnd` drops is put back. -/
theorem trimEnd_append_takeWhile (p : Char → Bool) (cs : List Char) :
    trimEnd p cs ++ (cs.reverse.takeWhile p).reverse = cs := by
  rw [trimEnd, ← List.reverse_append, List.takeWhile_append_dropWhile, List.reverse_reverse]

end Text
end Shank
