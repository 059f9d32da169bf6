import HalLink.Catalog.Basic
import HalLink.Numbering

/-!
Catalogs in use while the files and the environment around them change. One catalog is shared by the
whole process and takes its paths from the environment when it is first used; any number of others
have paths of their own.
-/

set_option autoImplicit false

namespace HalLink

inductive Query where
  | paths
  | description
  | hasManifest (side : Side)
  | declared (side : Side) (package : String) (version : Version)
  | resolve (text : String)
  | transport (text : String)
  deriving DecidableEq, Repr

inductive QueryResult where
  | paths (paths : Sides String)
  | description (text : String)
  | hasManifest (present : Bool)
  | declared (transport : Option Transport)
  | resolve (outcome : Except LookupFault Decision)
  | transport (transport : Transport)

def Catalog.ask (c : Catalog) (read : ReadBytes) : Query → Answered QueryResult
  | .paths => ⟨c, [], .paths c.paths⟩
  | .description => ⟨c, [], .description c.describe⟩
  | .hasManifest side =>
    let found := c.manifest read side
    ⟨found.catalog, found.events, .hasManifest found.answer.isSome⟩
  | .declared side package version =>
    let found := c.manifest read side
    ⟨found.catalog, found.events, .declared (found.answer.map (·.transportOf package version))⟩
  | .resolve text =>
    let resolved := c.resolve read text
    ⟨resolved.catalog, resolved.events, .resolve resolved.answer⟩
  | .transport text =>
    let found := c.transport read text
    ⟨found.catalog, found.events, .transport found.answer⟩

structure Host where
  files : FileSystem
  environment : Environment
  catalogs : List Catalog
  shared : Option Catalog
  deriving Repr

def Host.initial : Host := ⟨.initial, ⟨none, none⟩, [], none⟩

inductive Target where
  | created (index : Nat)
  | shared
  deriving DecidableEq, Repr

inductive Action where
  | write (path : String) (node : FileNode)
  | remove (path : String)
  | setEnvironment (environment : Environment)
  | create (paths : Sides String)
  | createFromEnvironment
  | ask (target : Target) (query : Query)
  deriving DecidableEq, Repr

inductive ActionResult where
  | done
  | created (index : Nat)
  | answered (result : QueryResult)
  | unknown (fault : UnknownNumber)

namespace Host

def sharedCatalog (s : Host) : Catalog :=
  s.shared.getD (.ofPaths s.environment.paths)

def create (s : Host) (paths : Sides String) : Host × List Event × ActionResult :=
  ({ s with catalogs := s.catalogs ++ [.ofPaths paths] }, [], .created s.catalogs.length)

def step (s : Host) : Action → Host × List Event × ActionResult
  | .write path node => ({ s with files := s.files.write path node }, [], .done)
  | .remove path => ({ s with files := s.files.remove path }, [], .done)
  | .setEnvironment environment => ({ s with environment }, [], .done)
  | .create paths => s.create paths
  | .createFromEnvironment => s.create s.environment.paths
  | .ask (.created index) query =>
    match s.catalogs[index]? with
    | none => (s, [], .unknown ⟨s.catalogs.length, index⟩)
    | some c =>
      let found := c.ask s.files.read query
      ({ s with catalogs := s.catalogs.set index found.catalog }, found.events,
        .answered found.answer)
  | .ask .shared query =>
    let found := s.sharedCatalog.ask s.files.read query
    ({ s with shared := some found.catalog }, found.events, .answered found.answer)

def run (s : Host) : List Action → Host × List (List Event × ActionResult)
  | [] => (s, [])
  | action :: rest =>
    let (s', events, result) := s.step action
    let (last, outcomes) := run s' rest
    (last, (events, result) :: outcomes)

end Host

end HalLink
