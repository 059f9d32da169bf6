import HalLink.Toml.DateTimes
import HalLink.Toml.Numbers
import HalLink.Toml.Tables

set_option autoImplicit false

namespace HalLink.Toml

def boolean : Reader Bool :=
  (do expectAll ['t', 'r', 'u', 'e']; return true) <|>
  (do expectAll ['f', 'a', 'l', 's', 'e']; return false)

def scalar : Reader Value :=
  (do return .string (← string)) <|> (do return .dateTime (← dateTime)) <|>
  (do return .float (← number)) <|> (do return .integer (← integer)) <|>
  (do return .boolean (← boolean))

def separated {α : Type} (item : Reader α) (sep : Char) : Reader (List α) :=
  (do
    let first ← item
    let others ← many do
      expect sep
      item
    return first :: others) <|> return []

/-- The elements of an array may have new lines and comments around them and a comma after the
last. -/
def arrayOf (element : Reader Value) : Reader Value := do
  expect '['
  let elements ← separated (do filler; let v ← element; filler; return v) ','
  if !elements.isEmpty then
    let _ ← optional (expect ',')
  filler
  expect ']'
  return .array elements

def assignment (value : Reader Value) : Reader (KeyPath × Value) := do
  let path ← keyPath
  expect '='
  blanks
  return (path, ← value)

def entriesOfAssignments (assignments : List (KeyPath × Value)) : Option Entries :=
  assignments.foldlM (fun entries (path, v) => entries.insert path.key v path.parents) []

/-- An inline table stands on one line and has no comma after the last entry. -/
def inlineTableOf (element : Reader Value) : Reader Value := do
  expect '\x7b'
  let assignments ← separated (do let a ← assignment element; blanks; return a) ','
  blanks
  expect '\x7d'
  match entriesOfAssignments assignments with
  | some entries => return .table (entriesToValues entries)
  | none => failure

/-- A value inside which arrays and inline tables nest at most `depth` times. -/
def valueWithin : (depth : Nat) → Reader Value
  | 0 => scalar
  | depth + 1 =>
    scalar <|> arrayOf (valueWithin depth) <|> inlineTableOf (valueWithin depth)

def value : Reader Value := valueWithin (nestingLimit - 1)

end HalLink.Toml
