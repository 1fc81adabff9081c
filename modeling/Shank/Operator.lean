/-
# Operators

The five arithmetic and six comparison operators, with the way they are written.
-/

namespace Shank

/-- Operators that compute a value from two. -/
inductive ArithOp
  | add | sub | mul | div | mod
  deriving DecidableEq, Repr

/-- Operators that compare two values. -/
inductive CompareOp
  | eq | ne | lt | gt | le | ge
  deriving DecidableEq, Repr

namespace ArithOp

/-- How an arithmetic operator is written in a program text and in a report. -/
def text : ArithOp → String
  | add => "+"
  | sub => "-"
  | mul => "*"
  | div => "/"
  | mod => "mod"

/-- The operator that is written so. -/
def ofText? (s : String) : Option ArithOp :=
  [add, sub, mul, div, mod].find? fun op => op.text == s

/-- **The written forms of arithmetic operators are distinct**: each is read
back as its operator. -/
theorem ofText?_text (op : ArithOp) : ofText? op.text = some op := by
  cases op <;> decide

end ArithOp

namespace CompareOp

/-- How a comparison operator is written in a program text and in a report. -/
def text : CompareOp → String
  | eq => "="
  | ne => "<>"
  | lt => "<"
  | gt => ">"
  | le => "<="
  | ge => ">="

/-- The operator that is written so. -/
def ofText? (s : String) : Option CompareOp :=
  [eq, ne, lt, gt, le, ge].find? fun op => op.text == s

/-- **The written forms of comparison operators are distinct**: each is read
back as its operator. -/
theorem ofText?_text (op : CompareOp) : ofText? op.text = some op := by
  cases op <;> decide

end CompareOp
end Shank
