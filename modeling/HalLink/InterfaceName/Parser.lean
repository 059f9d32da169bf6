import HalLink.InterfaceName.Basic

/-!
Reading interface names. The accepted forms are `pkg@M.m::Name`, `@M.m::Name`, `pkg@M.m`,
`pkg::Name` and `Name`; the first doubled colon and the first at-sign before it part the text, and
of several faults the one that is checked first is reported.
-/

set_option autoImplicit false

namespace HalLink.InterfaceName

def isIdentifierStart (c : Char) : Bool := c.isAlpha || c = '_'

def isIdentifierRest (c : Char) : Bool := c.isAlphanum || c = '_'

def isIdentifier : List Char → Bool
  | [] => false
  | c :: cs => isIdentifierStart c && cs.all isIdentifierRest

def checkPath (path : List Char) : Except NameFault Unit :=
  match (Text.pieces '.' path).find? (!isIdentifier ·) with
  | none => .ok ()
  | some component => .error (.component (String.ofList component))

def checkVersion (text : List Char) : Except NameFault Version :=
  match Version.parse? (String.ofList text) with
  | some v => .ok v
  | none => .error (.version (String.ofList text))

def parseQualified (text head name : List Char) : Except NameFault InterfaceName := do
  checkPath name
  match Text.splitFirst? '@' head with
  | some (package, version) =>
    let v ← checkVersion version
    if package ≠ [] then checkPath package
    return ⟨String.ofList package, some v, String.ofList name⟩
  | none =>
    if head = [] then throw (.malformed (String.ofList text))
    checkPath head
    return ⟨String.ofList head, none, String.ofList name⟩

def parseUnqualified (text : List Char) : Except NameFault InterfaceName :=
  match Text.splitFirst? '@' text with
  | some ([], _) => .error (.malformed (String.ofList text))
  | some (package, version) => do
    checkPath package
    let v ← checkVersion version
    return ⟨String.ofList package, some v, ""⟩
  | none => do
    checkPath text
    return ⟨"", none, String.ofList text⟩

def parse (s : String) : Except NameFault InterfaceName :=
  if s.isEmpty then .error .empty
  else match Text.splitFirstDouble? ':' s.toList with
    | some (head, name) => parseQualified s.toList head name
    | none => parseUnqualified s.toList

end HalLink.InterfaceName
