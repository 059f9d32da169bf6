import HalLink.Toml.Reader

set_option autoImplicit false

namespace HalLink.Toml

def quote : Char := '\x22'

def apostrophe : Char := '\x27'

def isBasicChar (c : Char) : Bool := isLineChar c && c != quote && c != '\\'

def isLiteralChar (c : Char) : Bool := isLineChar c && c != apostrophe

def hexDigit? (c : Char) : Option Nat :=
  if c.isDigit then some (c.toNat - '0'.toNat)
  else if 'a' ≤ c ∧ c ≤ 'f' then some (c.toNat - 'a'.toNat + 10)
  else if 'A' ≤ c ∧ c ≤ 'F' then some (c.toNat - 'A'.toNat + 10)
  else none

def hexDigits : (count value : Nat) → Reader Nat
  | 0, value => pure value
  | count + 1, value => do
    match hexDigit? (← satisfy fun _ => true) with
    | some d => hexDigits count (16 * value + d)
    | none => failure

def scalar? (n : Nat) : Option Char :=
  if n.isValidChar then some (Char.ofNat n) else none

def letterEscapes : List (Char × Char) :=
  [('b', '\x08'), ('f', '\x0c'), ('n', '\n'), ('r', '\r'), ('t', '\t'), (quote, quote),
   ('\\', '\\')]

def escape : Reader Char := do
  expect '\\'
  let letter ← satisfy fun _ => true
  match letterEscapes.lookup letter with
  | some c => return c
  | none =>
    let value ←
      if letter = 'u' then hexDigits 4 0
      else if letter = 'U' then hexDigits 8 0
      else failure
    match scalar? value with
    | some c => return c
    | none => failure

def basicString : Reader String := do
  expect quote
  let content ← many (satisfy isBasicChar <|> escape)
  expect quote
  return String.ofList content

def literalString : Reader String := do
  expect apostrophe
  let content ← run isLiteralChar
  expect apostrophe
  return String.ofList content

def innerNewline : Reader (List Char) := do
  newline
  return ['\n']

/-- A backslash at the end of a line takes all blanks and new lines after it away. -/
def joinedLines : Reader (List Char) := do
  expect '\\'
  blanks
  newline
  let _ ← many ((do let _ ← satisfy isBlank) <|> newline)
  return []

/-- A delimiter that does not begin three of them is content. -/
def loneDelimiter (d : Char) : Reader (List Char)
  | [] => none
  | c :: rest => if c = d ∧ ¬ [d, d] <+: rest then some ([d], rest) else none

/-- The closing delimiters; one or two more of them before the last three are content. -/
def closing (d : Char) : Reader (List Char) :=
  (do expectAll [d, d, d, d, d]; return [d, d]) <|>
  (do expectAll [d, d, d, d]; return [d]) <|>
  (do expectAll [d, d, d]; return [])

/-- A string between tripled delimiters, read piece by piece. A new line right after the opening
delimiters is not part of it. -/
def multiline (d : Char) (piece : Reader (List Char)) : Reader String := do
  expectAll [d, d, d]
  let _ ← optional newline
  let content ← many (piece <|> innerNewline <|> loneDelimiter d)
  let last ← closing d
  return String.ofList (content.flatten ++ last)

def multilineBasicString : Reader String :=
  multiline quote
    ((do return [← satisfy isBasicChar]) <|> joinedLines <|> (do return [← escape]))

def multilineLiteralString : Reader String :=
  multiline apostrophe (do return [← satisfy isLiteralChar])

def string : Reader String :=
  multilineBasicString <|> basicString <|> multilineLiteralString <|> literalString

end HalLink.Toml
