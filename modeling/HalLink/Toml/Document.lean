import HalLink.Toml.Expressions

set_option autoImplicit false

namespace HalLink.Toml

inductive Statement where
  | blank
  /-- `[path]` -/
  | header (path : KeyPath)
  /-- `[[path]]` -/
  | elementHeader (path : KeyPath)
  | assign (path : KeyPath) (v : Value)

def headerLine : Reader Statement :=
  (do
    expectAll ['[', '[']
    let path ← keyPath
    expectAll [']', ']']
    trailing
    return .elementHeader path) <|>
  (do
    expect '['
    let path ← keyPath
    expect ']'
    trailing
    return .header path)

def blankLine : Reader Statement :=
  (do newline; return .blank) <|> (do comment; lineEnd; return .blank)

def assignmentLine : Reader Statement := do
  let (path, v) ← assignment value
  trailing
  return .assign path v

def statement : Reader Statement := do
  let s ← blankLine <|> headerLine <|> assignmentLine
  blanks
  return s

def statements : Reader (List Statement) := do
  let _ ← optional (expect '\uFEFF')
  blanks
  let all ← many statement
  atEnd
  return all

/-- A document up to some line: its root table so far, and the table that assignments add to. -/
structure Document where
  root : Entries
  current : List String

def Document.empty : Document := ⟨[], []⟩

def Document.add (doc : Document) : Statement → Option Document
  | .blank => some doc
  | .header path => do
    return ⟨← doc.root.modifyAt (·.openTable path.key) path.parents, path.parts⟩
  | .elementHeader path => do
    return ⟨← doc.root.modifyAt (·.openElement path.key) path.parents, path.parts⟩
  | .assign path v => do
    return { doc with root := ← doc.root.modifyAt (·.insert path.key v path.parents) doc.current }

def Document.ofStatements? (all : List Statement) : Option Document :=
  all.foldlM Document.add .empty

def parse? (text : String) : Option (List (String × Value)) := do
  let (all, _) ← statements text.toList
  let doc ← Document.ofStatements? all
  return entriesToValues doc.root

end HalLink.Toml
