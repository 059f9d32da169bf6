import HalLink.Manifest.Load
import HalLink.Routing

set_option autoImplicit false

namespace HalLink

def standardPaths : Sides String :=
  ⟨"/system/etc/vintf/manifest.toml", "/vendor/etc/vintf/manifest.toml"⟩

def pathVariables : Sides String := ⟨"HIDL_FRAMEWORK_MANIFEST", "HIDL_DEVICE_MANIFEST"⟩

abbrev Environment := Sides (Option String)

/-- Each variable overrides the standard path of its side; an empty value is a path too. -/
def Environment.paths (environment : Environment) : Sides String :=
  ⟨environment.framework.getD standardPaths.framework,
    environment.device.getD standardPaths.device⟩

def isStandard (paths : Sides String) : Bool :=
  Path.same paths.framework standardPaths.framework &&
    Path.same paths.device standardPaths.device

inductive Event where
  | loaded (side : Side) (path : String) (entries : Nat)
  | ignored (side : Side) (fault : ManifestFault)
  | resolution (outcome : Except LookupFault Decision)

def Event.record : Event → LogRecord
  | loaded side path entries =>
    ⟨.debug, logTag, "loaded " ++ side.label ++ " manifest from " ++ path ++ " (" ++
      toString entries ++ " hals)"⟩
  | ignored side fault =>
    ⟨.warn, logTag, "ignoring " ++ side.label ++ " manifest: " ++ fault.message⟩
  | resolution outcome => resolutionRecord outcome

/-- The manifest at a path, if there is one to use. Only a file that does not exist is passed over
in silence. -/
def loadSide (read : ReadBytes) (side : Side) (path : String) : Option Manifest × List Event :=
  match Manifest.load read path with
  | .ok m => (some m, [.loaded side path m.size])
  | .error (.unreadable _ .notFound) => (none, [])
  | .error fault => (none, [.ignored side fault])

inductive Cell where
  | unread
  | settled (manifest : Option Manifest)
  deriving DecidableEq, Repr

structure Catalog where
  paths : Sides String
  cells : Sides Cell
  deriving DecidableEq, Repr

structure Answered (α : Type) where
  catalog : Catalog
  events : List Event
  answer : α

namespace Catalog

def ofPaths (paths : Sides String) : Catalog := ⟨paths, ⟨.unread, .unread⟩⟩

def manifest (c : Catalog) (read : ReadBytes) (side : Side) : Answered (Option Manifest) :=
  match c.cells.get side with
  | .settled m => ⟨c, [], m⟩
  | .unread =>
    let (m, events) := loadSide read side (c.paths.get side)
    ⟨{ c with cells := c.cells.set (.settled m) side }, events, m⟩

/-- Decides on a text; only the manifest of the side that the name belongs to is consulted, and
none for a text that is no name with a version. -/
def resolve (c : Catalog) (read : ReadBytes) (text : String) :
    Answered (Except LookupFault Decision) :=
  match request text with
  | .error fault => ⟨c, [], .error fault⟩
  | .ok n =>
    let found := c.manifest read n.side
    ⟨found.catalog, found.events, settle n found.answer⟩

def transport (c : Catalog) (read : ReadBytes) (text : String) : Answered Transport :=
  let resolved := c.resolve read text
  ⟨resolved.catalog, resolved.events ++ [.resolution resolved.answer],
    resolvedTransport resolved.answer⟩

def describe (c : Catalog) : String :=
  let shown := c.paths.map Text.quoted
  "VintfObject \x7b config: VintfConfig \x7b framework_manifest: " ++ shown.framework ++
    ", device_manifest: " ++ shown.device ++ " \x7d \x7d"

end Catalog

end HalLink
