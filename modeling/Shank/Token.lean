/-
# Tokens

A token has a kind, the text it was read from, and the place where it starts.
Every kind has a name; a token is written as the name of its kind, with the text
in parentheses when there is one. Two tokens are *alike* when kind and text
agree; the place does not count.

A token stream from elsewhere may hold kinds that no line of source text gives
(`other`).
-/

namespace Shank

/-- The kinds of tokens. -/
inductive Token.Kind
  -- words
  | identifier | define | variables_ | constants | if_ | elsif | else_ | while_ | for_ | from_ | to_
  | repeat_ | until_ | then_ | var | modulus | integer | real | string | character | boolean
  | array | of_ | true_ | false_
  -- literals
  | number | stringLiteral | characterLiteral
  -- symbols
  | assigner | notEqual | lessOrEqual | greaterOrEqual | plus | minus | multiply | divide
  | equals | lessThan | greaterThan | comma | semicolon | colon | openParen | closeParen
  | openBracket | closeBracket
  -- layout
  | indent | dedent | endOfLine
  -- anything else
  | other (name : String)
  deriving DecidableEq, Repr

/-- A token: what was read, and where. Lines and columns count from 1. -/
structure Token where
  kind : Token.Kind
  text : String
  line : Nat
  column : Nat
  deriving DecidableEq, Repr

namespace Token
namespace Kind

/-- The words with a meaning of their own; every other word is an identifier. -/
def words : List (String × Kind) :=
  [("define", define), ("variables", variables_), ("constants", constants), ("if", if_),
   ("elsif", elsif), ("else", else_), ("while", while_), ("for", for_), ("from", from_), ("to", to_),
   ("repeat", repeat_), ("until", until_), ("then", then_), ("var", var), ("mod", modulus),
   ("integer", integer), ("real", real), ("float", real), ("string", string),
   ("character", character), ("char", character), ("boolean", boolean), ("bool", boolean),
   ("array", array), ("of", of_), ("true", true_), ("false", false_)]

/-- The symbols, each before the shorter ones it starts with. -/
def symbols : List (List Char × Kind) :=
  [([':', '='], assigner), (['<', '>'], notEqual), (['<', '='], lessOrEqual),
   (['>', '='], greaterOrEqual), (['+'], plus), (['-'], minus), (['*'], multiply), (['/'], divide),
   (['='], equals), (['<'], lessThan), (['>'], greaterThan), ([','], comma), ([';'], semicolon),
   ([':'], colon), (['('], openParen), ([')'], closeParen), (['['], openBracket),
   ([']'], closeBracket)]

/-- The kind of a word. -/
def ofWord (word : String) : Kind :=
  (words.lookup word).getD identifier

/-- The names of the kinds that source text gives. -/
def names : List (Kind × String) :=
  [(identifier, "IDENTIFIER"), (define, "DEFINE"), (variables_, "VARIABLES"),
   (constants, "CONSTANTS"), (if_, "IF"), (elsif, "ELSIF"), (else_, "ELSE"), (while_, "WHILE"),
   (for_, "FOR"), (from_, "FROM"), (to_, "TO"), (repeat_, "REPEAT"), (until_, "UNTIL"),
   (then_, "THEN"), (var, "VAR"), (modulus, "MODULUS"), (integer, "INTEGER"), (real, "REAL"),
   (string, "STRING"), (character, "CHARACTER"), (boolean, "BOOLEAN"), (array, "ARRAY"),
   (of_, "OF"), (true_, "TRUE"), (false_, "FALSE"), (number, "NUMBER"),
   (stringLiteral, "STRINGLITERAL"), (characterLiteral, "CHARACTERLITERAL"),
   (assigner, "ASSIGNER"), (notEqual, "NOT_EQUAL"), (lessOrEqual, "LESS_OR_EQUAL"),
   (greaterOrEqual, "GREATER_OR_EQUAL"), (plus, "PLUS"), (minus, "MINUS"),
   (multiply, "MULTIPLY"), (divide, "DIVIDE"), (equals, "EQUALS"), (lessThan, "LESS_THAN"),
   (greaterThan, "GREATER_THAN"), (comma, "COMMA"), (semicolon, "SEMICOLON"), (colon, "COLON"),
   (openParen, "PARENTHESIS_L"), (closeParen, "PARENTHESIS_R"), (openBracket, "INDEX_L"),
   (closeBracket, "INDEX_R"), (indent, "INDENT"), (dedent, "DEDENT"), (endOfLine, "ENDOFLINE")]

/-- The name of a kind. -/
def name : Kind → String
  | other s => s
  | k => (names.lookup k).getD ""

/-- The kind of a name. -/
def ofName (s : String) : Kind :=
  ((names.find? fun p => p.2 == s).map Prod.fst).getD (other s)

/-- The kinds that words are read as. -/
def isWord (k : Kind) : Bool :=
  k = identifier || words.any fun p => p.2 = k

end Kind

/-- The written form of a token. -/
def describe (t : Token) : String :=
  if t.text.isEmpty then t.kind.name else s!"{t.kind.name}({t.text})"

/-- Equality of kind and text. -/
def alike (s t : Token) : Bool :=
  s.kind == t.kind && s.text == t.text

/-- Two tokens are alike if they have one kind and one text; their places may
differ. -/
theorem alike_iff (s t : Token) : s.alike t = true ↔ s.kind = t.kind ∧ s.text = t.text := by
  simp [alike]

end Token
end Shank
