set_option autoImplicit false

namespace HalLink.Toml

abbrev Reader := StateT (List Char) Option

def satisfy (p : Char → Bool) : Reader Char
  | [] => none
  | c :: rest => if p c then some (c, rest) else none

def expect (c : Char) : Reader Unit := do let _ ← satisfy (· == c)

def expectAll : List Char → Reader Unit
  | [] => pure ()
  | c :: cs => do
    expect c
    expectAll cs

def run (p : Char → Bool) : Reader (List Char) :=
  fun text => some (text.takeWhile p, text.dropWhile p)

/-- Reads items off `text` until one fails, at most as many as `limit` has characters. -/
def manyUpTo {α : Type} (item : Reader α) : (limit text : List Char) → List α × List Char
  | [], text => ([], text)
  | _ :: limit, text =>
    match item text with
    | none => ([], text)
    | some (a, rest) =>
      let (as, last) := manyUpTo item limit rest
      (a :: as, last)

/-- Reads as many items as there are. The text itself is limit enough for items that take characters
off it. -/
def many {α : Type} (item : Reader α) : Reader (List α) :=
  fun text => some (manyUpTo item text text)

theorem many_of_none {α : Type} {item : Reader α} {text : List Char} (h : item text = none) :
    many item text = some ([], text) := by
  cases text <;> simp [many, manyUpTo, h]

def atEnd : Reader Unit
  | [] => some ((), [])
  | _ :: _ => none

def isBlank (c : Char) : Bool := c == ' ' || c == '\t'

def isLineChar (c : Char) : Bool := c == '\t' || (0x20 ≤ c.toNat && c.toNat ≠ 0x7F)

def blanks : Reader Unit := do let _ ← run isBlank

def newline : Reader Unit := expect '\n' <|> expectAll ['\r', '\n']

def comment : Reader Unit := do
  expect '#'
  let _ ← run isLineChar

def lineEnd : Reader Unit := newline <|> atEnd

def trailing : Reader Unit := do
  blanks
  let _ ← optional comment
  lineEnd

def filler : Reader Unit := do
  let _ ← many ((do let _ ← satisfy isBlank) <|> newline <|> comment)

end HalLink.Toml
