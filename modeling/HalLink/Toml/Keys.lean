import HalLink.Toml.Strings

set_option autoImplicit false

namespace HalLink.Toml

structure KeyPath where
  parents : List String
  key : String
  deriving DecidableEq, Repr

def KeyPath.ofParts (first : String) : List String → KeyPath
  | [] => ⟨[], first⟩
  | next :: others =>
    let path := ofParts next others
    ⟨first :: path.parents, path.key⟩

def KeyPath.parts (path : KeyPath) : List String := path.parents ++ [path.key]

/-- Readers refuse what nests this deep: keys of so many parts, arrays and inline tables inside one
another so many times. -/
def nestingLimit : Nat := 80

def isBareKeyChar (c : Char) : Bool := c.isAlphanum || c == '_' || c == '-'

def bareKey : Reader String := do
  let first ← satisfy isBareKeyChar
  return String.ofList (first :: (← run isBareKeyChar))

def keyPart : Reader String := do
  blanks
  let part ← basicString <|> literalString <|> bareKey
  blanks
  return part

def keyPath : Reader KeyPath := do
  let first ← keyPart
  let others ← many do
    expect '.'
    keyPart
  if others.length + 1 < nestingLimit then return .ofParts first others else failure

end HalLink.Toml
