import HalLink.Version

set_option autoImplicit false

namespace HalLink

/-- An absent package or name is the empty text. -/
structure InterfaceName where
  package : String
  version : Option Version
  name : String
  deriving DecidableEq, Repr

/-- Why a text is no interface name; each cause but the first carries the offending text. -/
inductive NameFault where
  | empty
  | component (text : String)
  | version (text : String)
  | malformed (text : String)
  deriving DecidableEq, Repr

def NameFault.message : NameFault → String
  | empty => "empty name"
  | component text => "invalid component " ++ Text.quoted text
  | version text => Version.rejection text
  | malformed text => "malformed name " ++ Text.quoted text

namespace InterfaceName

def packageAndVersion (n : InterfaceName) : String :=
  match n.version with
  | some v => n.package ++ "@" ++ v.render
  | none => n.package

/-- The colons part a name from what stands before it, so a name that stands alone has none. -/
def render (n : InterfaceName) : String :=
  if n.name.isEmpty then n.packageAndVersion
  else if n.package.isEmpty ∧ n.version = none then n.name
  else n.packageAndVersion ++ "::" ++ n.name

/-- Whether `ancestor` is this package or one above it, component by component: `android.hidl` is
above `android.hidl.base` and not above `android.hidlx`. -/
def inPackage (n : InterfaceName) (ancestor : String) : Bool :=
  (Text.pieces '.' ancestor.toList).isPrefixOf (Text.pieces '.' n.package.toList)

end InterfaceName

end HalLink
