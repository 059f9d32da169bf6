import HalLink.InterfaceName.Parser
import HalLink.Log
import HalLink.Manifest.Basic
import HalLink.Sides

/-!
Which transport an interface is reached through. Packages of the framework are looked up in the
framework's manifest, all others in the device's, and neither ever stands in for the other.
-/

set_option autoImplicit false

namespace HalLink

def frameworkPackage : String := "android.hidl"

def InterfaceName.side (n : InterfaceName) : Side :=
  if n.inPackage frameworkPackage then .framework else .device

/-- Why no transport is found. The first cause carries the text that was asked for, the others the
name as it is rendered. -/
inductive LookupFault where
  | invalidName (text : String)
  | missingVersion (name : String)
  | missingManifest (side : Side) (name : String)
  | missingEntry (side : Side) (name : String)
  deriving DecidableEq, Repr

namespace LookupFault

def level : LookupFault → Level
  | invalidName _ | missingVersion _ => .error
  | missingManifest _ _ | missingEntry _ _ => .warn

def message : LookupFault → String
  | invalidName text => "getTransport: " ++ text ++ " is not a valid fully-qualified name."
  | missingVersion name =>
    "getTransport: " ++ name ++ " does not specify a version. Using default transport."
  | missingManifest side name =>
    "getTransportFromManifest: No " ++ side.label ++
      " manifest defined, using default transport for " ++ name
  | missingEntry side name =>
    "getTransportFromManifest: Cannot find entry " ++ name ++ " in " ++ side.label ++
      " manifest, using default transport."

end LookupFault

structure Decision where
  name : InterfaceName
  side : Side
  transport : Transport
  deriving DecidableEq, Repr

/-- Looks a name up in the manifest of a side, which may have none. An entry that leaves the
transport open counts as no entry. -/
def lookup (n : InterfaceName) (side : Side) (manifest : Option Manifest) :
    Except LookupFault Transport :=
  match manifest, n.version with
  | none, _ => .error (.missingManifest side n.render)
  | some _, none => .error (.missingVersion n.render)
  | some m, some v =>
    match m.transportOf n.package v with
    | .empty => .error (.missingEntry side n.render)
    | t => .ok t

/-- The name that a text asks for; one without a version is refused before any manifest is
consulted. -/
def request (text : String) : Except LookupFault InterfaceName :=
  match InterfaceName.parse text with
  | .error _ => .error (.invalidName text)
  | .ok n => if n.version = none then .error (.missingVersion n.render) else .ok n

def settle (n : InterfaceName) (manifest : Option Manifest) : Except LookupFault Decision :=
  (lookup n n.side manifest).map fun t => ⟨n, n.side, t⟩

theorem settle_none (n : InterfaceName) :
    settle n none = .error (.missingManifest n.side n.render) := rfl

theorem settle_some {n : InterfaceName} {v : Version} (h : n.version = some v) (m : Manifest) :
    settle n (some m) =
      if m.transportOf n.package v = .empty then .error (.missingEntry n.side n.render)
      else .ok ⟨n, n.side, m.transportOf n.package v⟩ := by
  simp only [settle, lookup, h]
  cases m.transportOf n.package v <;> rfl

def resolve (manifests : Sides (Option Manifest)) (text : String) : Except LookupFault Decision :=
  match request text with
  | .error fault => .error fault
  | .ok n => settle n (manifests.get n.side)

theorem resolve_of_error {text : String} {fault : NameFault}
    (h : InterfaceName.parse text = .error fault) (manifests : Sides (Option Manifest)) :
    resolve manifests text = .error (.invalidName text) := by
  simp [resolve, request, h]

theorem resolve_of_unversioned {text : String} {n : InterfaceName}
    (h : InterfaceName.parse text = .ok n) (hv : n.version = none)
    (manifests : Sides (Option Manifest)) :
    resolve manifests text = .error (.missingVersion n.render) := by
  simp [resolve, request, h, hv]

theorem resolve_of_versioned {text : String} {n : InterfaceName} {v : Version}
    (h : InterfaceName.parse text = .ok n) (hv : n.version = some v)
    (manifests : Sides (Option Manifest)) :
    resolve manifests text = settle n (manifests.get n.side) := by
  simp [resolve, request, h, hv]

def resolutionRecord : Except LookupFault Decision → LogRecord
  | .ok d =>
    ⟨.debug, logTag, "getTransportFromManifest: " ++ d.name.render ++
      " declares transport method " ++ d.transport.text ++ " in " ++ d.side.label ++ " manifest"⟩
  | .error fault => ⟨fault.level, logTag, fault.message⟩

def resolvedTransport : Except LookupFault Decision → Transport
  | .ok d => d.transport
  | .error _ => .empty

structure Reported where
  transport : Transport
  records : List LogRecord
  deriving DecidableEq, Repr

def transport (manifests : Sides (Option Manifest)) (text : String) : Reported :=
  let outcome := resolve manifests text
  ⟨resolvedTransport outcome, [resolutionRecord outcome]⟩

def describeManifests (manifests : Sides (Option Manifest)) : String :=
  let shown := manifests.map fun m => toString m.isSome
  "ManifestSet \x7b framework: " ++ shown.framework ++ ", device: " ++ shown.device ++ " \x7d"

end HalLink
