import HalLink.Manifest.Basic

/-!
Manifests as text: one block of four lines for each entry. Names are written as they are, so the
text says what it should only for names that a quoted text can hold without escapes.
-/

set_option autoImplicit false

namespace HalLink

def inQuotes (s : String) : String := "\"" ++ s ++ "\""

def ManifestEntry.write (e : ManifestEntry) : String :=
  "[[hal]]\nname = " ++ inQuotes e.name ++ "\ntransport = " ++ inQuotes e.transport.text ++
    "\nversions = [" ++ ", ".intercalate (e.versions.map fun v => inQuotes v.render) ++ "]\n\n"

def Manifest.write (m : Manifest) : String := String.join (m.entries.map ManifestEntry.write)

end HalLink
