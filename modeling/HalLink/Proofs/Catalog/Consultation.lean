import HalLink.Catalog.Session

set_option autoImplicit false

namespace HalLink

def Sides.ofFn {α : Type} (f : Side → α) : Sides α := ⟨f .framework, f .device⟩

@[simp] theorem Sides.get_ofFn {α : Type} (f : Side → α) (side : Side) :
    (Sides.ofFn f).get side = f side := by cases side <;> rfl

namespace Query

/-- The side whose manifest a query consults. A text that is no name with a version consults
none. -/
def side? : Query → Option Side
  | .paths | .description => none
  | .hasManifest side | .declared side _ _ => some side
  | .resolve text | .transport text => (request text).toOption.map InterfaceName.side

def fixedAnswer (paths : Sides String) (manifests : Sides (Option Manifest)) : Query → QueryResult
  | .paths => .paths paths
  | .description => .description (Catalog.ofPaths paths).describe
  | .hasManifest side => .hasManifest (manifests.get side).isSome
  | .declared side package version =>
    .declared ((manifests.get side).map (·.transportOf package version))
  | .resolve text => .resolve (HalLink.resolve manifests text)
  | .transport text => .transport (resolvedTransport (HalLink.resolve manifests text))

def fixedEvents (manifests : Sides (Option Manifest)) : Query → List Event
  | .transport text => [.resolution (HalLink.resolve manifests text)]
  | _ => []

end Query

theorem resolve_congr {manifests manifests' : Sides (Option Manifest)} {text : String}
    (h : ∀ n, request text = .ok n → manifests.get n.side = manifests'.get n.side) :
    resolve manifests text = resolve manifests' text := by
  unfold resolve
  cases hr : request text with
  | error fault => rfl
  | ok n => simp only [h n hr]

namespace Query

variable {manifests manifests' : Sides (Option Manifest)}

theorem side?_of_request {text : String} {n : InterfaceName} (h : request text = .ok n) :
    (Query.resolve text).side? = some n.side ∧ (Query.transport text).side? = some n.side := by
  simp [side?, h, Except.toOption]

theorem fixedAnswer_congr (paths : Sides String) (q : Query)
    (h : ∀ side, q.side? = some side → manifests.get side = manifests'.get side) :
    q.fixedAnswer paths manifests = q.fixedAnswer paths manifests' := by
  cases q with
  | paths => rfl
  | description => rfl
  | hasManifest side => simp only [fixedAnswer, h side rfl]
  | declared side package version => simp only [fixedAnswer, h side rfl]
  | resolve text =>
    simp only [fixedAnswer]
    rw [resolve_congr fun n hn => h n.side (side?_of_request hn).1]
  | transport text =>
    simp only [fixedAnswer]
    rw [resolve_congr fun n hn => h n.side (side?_of_request hn).2]

theorem fixedEvents_congr (q : Query)
    (h : ∀ side, q.side? = some side → manifests.get side = manifests'.get side) :
    q.fixedEvents manifests = q.fixedEvents manifests' := by
  cases q with
  | transport text =>
    simp only [fixedEvents]
    rw [resolve_congr fun n hn => h n.side (side?_of_request hn).2]
  | _ => rfl

end Query

theorem loadSide_fst (read : ReadBytes) (side : Side) (path : String) :
    (loadSide read side path).1 = (Manifest.load read path).toOption := by
  unfold loadSide
  split <;> simp_all [Except.toOption]

namespace Catalog

/-- What each side has from here on: what is settled, or else what its file holds now. -/
def visible (c : Catalog) (read : ReadBytes) : Sides (Option Manifest) :=
  Sides.ofFn fun side =>
    match c.cells.get side with
    | .settled m => m
    | .unread => (Manifest.load read (c.paths.get side)).toOption

def loadEvents (c : Catalog) (read : ReadBytes) (side : Side) : List Event :=
  match c.cells.get side with
  | .settled _ => []
  | .unread => (loadSide read side (c.paths.get side)).2

def consulted (c : Catalog) (read : ReadBytes) : Option Side → Catalog
  | none => c
  | some side => { c with cells := c.cells.set (.settled ((c.visible read).get side)) side }

theorem visible_settled {c : Catalog} {side : Side} {m : Option Manifest}
    (h : c.cells.get side = .settled m) (read : ReadBytes) : (c.visible read).get side = m := by
  simp [visible, h]

theorem visible_unread {c : Catalog} {side : Side} (h : c.cells.get side = .unread)
    (read : ReadBytes) :
    (c.visible read).get side = (Manifest.load read (c.paths.get side)).toOption := by
  simp [visible, h]

theorem manifest_eq (c : Catalog) (read : ReadBytes) (side : Side) :
    c.manifest read side =
      ⟨c.consulted read (some side), c.loadEvents read side, (c.visible read).get side⟩ := by
  cases h : c.cells.get side with
  | settled m =>
    have hset : c.cells.set (.settled m) side = c.cells := h ▸ c.cells.set_get_self side
    simp [manifest, consulted, loadEvents, h, visible_settled h, hset]
  | unread => simp [manifest, consulted, loadEvents, h, visible_unread h, loadSide_fst]

theorem resolve_eq (c : Catalog) (read : ReadBytes) (text : String) :
    c.resolve read text =
      ⟨c.consulted read (Query.resolve text).side?,
        ((Query.resolve text).side?.map (c.loadEvents read)).getD [],
        HalLink.resolve (c.visible read) text⟩ := by
  cases h : request text with
  | error fault =>
    simp [Catalog.resolve, HalLink.resolve, Query.side?, consulted, h, Except.toOption]
  | ok n =>
    simp [Catalog.resolve, HalLink.resolve, (Query.side?_of_request h).1, manifest_eq, h]

/-- A query consults its side, with the record of the load in front, and is answered as from the
manifests that are visible. -/
theorem ask_eq (c : Catalog) (read : ReadBytes) (q : Query) :
    c.ask read q =
      ⟨c.consulted read q.side?,
        (q.side?.map (c.loadEvents read)).getD [] ++ q.fixedEvents (c.visible read),
        q.fixedAnswer c.paths (c.visible read)⟩ := by
  cases q with
  | paths => rfl
  | description => rfl
  | hasManifest side =>
    simp [ask, manifest_eq, Query.side?, Query.fixedAnswer, Query.fixedEvents]
  | declared side package version =>
    simp [ask, manifest_eq, Query.side?, Query.fixedAnswer, Query.fixedEvents]
  | resolve text => simp [ask, resolve_eq, Query.fixedAnswer, Query.fixedEvents]
  | transport text =>
    simp [ask, transport, resolve_eq, Query.side?, Query.fixedAnswer, Query.fixedEvents]

@[simp] theorem paths_consulted (c : Catalog) (read : ReadBytes) (side? : Option Side) :
    (c.consulted read side?).paths = c.paths := by cases side? <;> rfl

theorem cells_consulted_self (c : Catalog) (read : ReadBytes) (side : Side) :
    (c.consulted read (some side)).cells.get side = .settled ((c.visible read).get side) := by
  simp [consulted]

theorem cells_consulted_of_ne (c : Catalog) (read : ReadBytes) {side? : Option Side} {side : Side}
    (h : side? ≠ some side) : (c.consulted read side?).cells.get side = c.cells.get side := by
  cases side? with
  | none => rfl
  | some x => exact Sides.get_set_of_ne _ _ fun he => h (congrArg some he)

theorem visible_consulted (c : Catalog) (read : ReadBytes) (side? : Option Side) :
    (c.consulted read side?).visible read = c.visible read := by
  refine Sides.ext_get fun side => ?_
  by_cases h : side? = some side
  · subst h
    exact visible_settled (c.cells_consulted_self read side) read
  · simp only [visible, Sides.get_ofFn, cells_consulted_of_ne c read h, paths_consulted]

theorem loadEvents_consulted_self (c : Catalog) (read : ReadBytes) (side : Side) :
    (c.consulted read (some side)).loadEvents read side = [] := by
  simp [loadEvents, cells_consulted_self]

theorem loadEvents_consulted_of_ne (c : Catalog) (read : ReadBytes) {side? : Option Side}
    {side : Side} (h : side? ≠ some side) :
    (c.consulted read side?).loadEvents read side = c.loadEvents read side := by
  simp [loadEvents, cells_consulted_of_ne c read h]

theorem visible_ofPaths (paths : Sides String) (read : ReadBytes) (side : Side) :
    ((ofPaths paths).visible read).get side = (Manifest.load read (paths.get side)).toOption := by
  cases side <;> rfl

theorem loadEvents_ofPaths (paths : Sides String) (read : ReadBytes) (side : Side) :
    (ofPaths paths).loadEvents read side = (loadSide read side (paths.get side)).2 := by
  cases side <;> rfl

end Catalog

end HalLink
