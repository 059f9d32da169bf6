import HalLink.Manifest.Basic
import HalLink.Toml.Value

/-!
What a manifest file has to look like. The key `hal` of the root holds a list of entries with a
name, a transport and versions; an entry is a table with these keys or a list of these values. What
the schema does not name is ignored. Texts are checked only once the whole file has this shape,
entry by entry, the transport before the versions.
-/

set_option autoImplicit false

namespace HalLink

structure RawEntry where
  name : String
  transport : String
  versions : List String
  deriving DecidableEq, Repr

inductive EntryFault where
  | transport (hal : String) (text : String)
  | version (hal : String) (text : String)
  deriving DecidableEq, Repr

def EntryFault.message : EntryFault → String
  | transport hal text => "hal " ++ hal ++ ": " ++ Transport.rejection text
  | version hal text => "hal " ++ hal ++ ": " ++ Version.rejection text

namespace RawEntry

def text? : Toml.Value → Option String
  | .string s => some s
  | _ => none

def texts? : Toml.Value → Option (List String)
  | .array elements => elements.mapM text?
  | _ => none

def ofParts? (name transport versions : Option Toml.Value) : Option RawEntry := do
  let name ← text? (← name)
  let transport ← text? (← transport)
  match versions with
  | none => return ⟨name, transport, []⟩
  | some v => return ⟨name, transport, ← texts? v⟩

def ofValue? : Toml.Value → Option RawEntry
  | .table entries =>
    ofParts? (entries.lookup "name") (entries.lookup "transport") (entries.lookup "versions")
  | .array elements => ofParts? elements[0]? elements[1]? elements[2]?
  | _ => none

def ofRoot? (root : List (String × Toml.Value)) : Option (List RawEntry) :=
  match root.lookup "hal" with
  | none => some []
  | some (.array elements) => elements.mapM ofValue?
  | some _ => none

def check (raw : RawEntry) : Except EntryFault ManifestEntry := do
  let transport ←
    match Transport.parse? raw.transport with
    | some t => .ok t
    | none => .error (.transport raw.name raw.transport)
  let versions ← raw.versions.mapM fun text =>
    match Version.parse? text with
    | some v => .ok v
    | none => .error (.version raw.name text)
  return ⟨raw.name, transport, versions⟩

end RawEntry

def Manifest.ofRaw (raw : List RawEntry) : Except EntryFault Manifest :=
  (raw.mapM RawEntry.check).map Manifest.mk

end HalLink
