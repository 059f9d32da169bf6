import HalLink.Transport
import HalLink.Version

set_option autoImplicit false

namespace HalLink

structure ManifestEntry where
  name : String
  transport : Transport
  versions : List Version
  deriving DecidableEq, Repr

def ManifestEntry.serves (e : ManifestEntry) (package : String) (v : Version) : Bool :=
  e.name == package && e.versions.contains v

structure Manifest where
  entries : List ManifestEntry
  deriving DecidableEq, Repr

namespace Manifest

def empty : Manifest := ⟨[]⟩

def size (m : Manifest) : Nat := m.entries.length

def isEmpty (m : Manifest) : Bool := m.entries.isEmpty

def add (m : Manifest) (e : ManifestEntry) : Manifest := ⟨m.entries ++ [e]⟩

/-- The transport of the first entry that serves the package at exactly this version. -/
def transportOf (m : Manifest) (package : String) (v : Version) : Transport :=
  match m.entries.find? (·.serves package v) with
  | some e => e.transport
  | none => .empty

@[simp] theorem entries_add (m : Manifest) (e : ManifestEntry) :
    (m.add e).entries = m.entries ++ [e] := rfl

@[simp] theorem transportOf_nil (package : String) (v : Version) :
    (mk []).transportOf package v = .empty := rfl

theorem transportOf_cons (e : ManifestEntry) (entries : List ManifestEntry) (package : String)
    (v : Version) :
    (mk (e :: entries)).transportOf package v =
      if e.serves package v then e.transport else (mk entries).transportOf package v := by
  simp only [transportOf, List.find?_cons]
  cases e.serves package v <;> rfl

end Manifest

end HalLink
