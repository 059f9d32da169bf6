import HalLink.Proofs.Catalog.Consultation

/-!
Catalogs over whole runs. While files and environment change in any order between the queries, a
catalog answers as two manifests would that never change: each is what the file of its side held
when the side was first consulted.
-/

set_option autoImplicit false

namespace HalLink

namespace Action

def filesAfter (fs : FileSystem) : Action → FileSystem
  | .write path node => fs.write path node
  | .remove path => fs.remove path
  | _ => fs

def consults (target : Target) (side : Side) : Action → Bool
  | .ask t q => t == target && q.side? == some side
  | _ => false

end Action

def filesAt (fs : FileSystem) (actions : List Action) (index : Nat) : FileSystem :=
  (actions.take index).foldl Action.filesAfter fs

def firstConsult (target : Target) (side : Side) (actions : List Action) : Option Nat :=
  actions.findIdx? (·.consults target side)

namespace Catalog

/-- The manifests that a catalog stands for over a run: what is settled, or else what its file
holds when the side is first consulted. A side that is never consulted may count as absent. -/
def fixedManifests (c : Catalog) (target : Target) (fs : FileSystem) (actions : List Action) :
    Sides (Option Manifest) :=
  Sides.ofFn fun side =>
    match c.cells.get side with
    | .settled m => m
    | .unread => (firstConsult target side actions).bind fun index =>
      (Manifest.load (filesAt fs actions index).read (c.paths.get side)).toOption

/-- The record of the load of a side, which belongs to the first action that consults it. -/
def fixedLoadEvents (c : Catalog) (target : Target) (fs : FileSystem) (actions : List Action)
    (index : Nat) (side : Side) : List Event :=
  if firstConsult target side actions = some index then
    c.loadEvents (filesAt fs actions index).read side
  else []

def after (c : Catalog) (target : Target) (fs : FileSystem) : Action → Catalog
  | .ask t q => if t = target then c.consulted fs.read q.side? else c
  | _ => c

end Catalog

def environmentAtFirstUse (environment : Environment) : List Action → Environment
  | [] => environment
  | .setEnvironment later :: rest => environmentAtFirstUse later rest
  | .ask .shared _ :: _ => environment
  | _ :: rest => environmentAtFirstUse environment rest

namespace Host

/-- The catalog that a run asks through a target: one that was created, or the shared one, which
may be made in the course of the run. -/
def catalogOver? (s : Host) (actions : List Action) : Target → Option Catalog
  | .created index => s.catalogs[index]?
  | .shared => some (s.shared.getD (.ofPaths (environmentAtFirstUse s.environment actions).paths))

def eventsOf (target : Target) (actions : List Action)
    (outcomes : List (List Event × ActionResult)) : List Event :=
  (actions.zip outcomes).flatMap fun (action, events, _) =>
    match action with
    | .ask t _ => if t = target then events else []
    | _ => []

end Host

def Event.isLoadOf (side : Side) : Event → Bool
  | loaded x _ _ | ignored x _ => x == side
  | resolution _ => false

namespace Host

variable {s : Host} {rest : List Action} {target : Target} {c : Catalog}

theorem files_step (s : Host) (action : Action) :
    (s.step action).1.files = action.filesAfter s.files := by
  cases action with
  | ask t q =>
    cases t with
    | created index =>
      simp only [step]
      split <;> rfl
    | shared => rfl
  | _ => rfl

theorem step_ask {q : Query} (h : s.catalogOver? (.ask target q :: rest) target = some c) :
    (s.step (.ask target q)).2 = ((c.ask s.files.read q).events,
      .answered (c.ask s.files.read q).answer) := by
  cases target with
  | created index =>
    simp only [catalogOver?] at h
    simp [step, h]
  | shared =>
    have hc : s.sharedCatalog = c := by
      simpa [catalogOver?, environmentAtFirstUse, sharedCatalog] using h
    simp [step, hc]

theorem catalogOver?_create {paths : Sides String}
    (h : s.catalogOver? rest target = some c) :
    (s.create paths).1.catalogOver? rest target = some c := by
  cases target with
  | created index =>
    simp only [catalogOver?] at h
    have hlt : index < s.catalogs.length := (List.getElem?_eq_some_iff.1 h).1
    simp [create, catalogOver?, List.getElem?_append_left hlt, h]
  | shared => exact h

theorem catalogOver?_step_ask_of_ne {t : Target} {q : Query} (ht : t ≠ target)
    (h : s.catalogOver? (.ask t q :: rest) target = some c) :
    (s.step (.ask t q)).1.catalogOver? rest target = some c := by
  cases t with
  | created index =>
    simp only [step]
    split
    · cases target <;> exact h
    · cases target with
      | created index' =>
        have hne : index ≠ index' := fun he => ht (congrArg Target.created he)
        simpa [catalogOver?, List.getElem?_set_ne hne] using h
      | shared => exact h
  | shared =>
    cases target with
    | created index => exact h
    | shared => exact absurd rfl ht

theorem catalogOver?_step_ask {q : Query}
    (h : s.catalogOver? (.ask target q :: rest) target = some c) :
    (s.step (.ask target q)).1.catalogOver? rest target =
      some (c.ask s.files.read q).catalog := by
  cases target with
  | created index =>
    simp only [catalogOver?] at h
    have hlt : index < s.catalogs.length := (List.getElem?_eq_some_iff.1 h).1
    simp [step, h, catalogOver?, List.getElem?_set_self hlt]
  | shared =>
    have hc : s.sharedCatalog = c := by
      simpa [catalogOver?, environmentAtFirstUse, sharedCatalog] using h
    simp [step, hc, catalogOver?]

theorem catalogOver?_step {action : Action}
    (h : s.catalogOver? (action :: rest) target = some c) :
    (s.step action).1.catalogOver? rest target = some (c.after target s.files action) := by
  cases action with
  | write path node => cases target <;> exact h
  | remove path => cases target <;> exact h
  | setEnvironment environment => cases target <;> exact h
  | create paths =>
    have h' : s.catalogOver? rest target = some c := by cases target <;> exact h
    exact catalogOver?_create h'
  | createFromEnvironment =>
    have h' : s.catalogOver? rest target = some c := by cases target <;> exact h
    exact catalogOver?_create h'
  | ask t q =>
    by_cases ht : t = target
    · subst ht
      rw [catalogOver?_step_ask h, Catalog.ask_eq]
      simp [Catalog.after]
    · rw [catalogOver?_step_ask_of_ne ht h]
      simp [Catalog.after, ht]

theorem run_cons (s : Host) (action : Action) (rest : List Action) :
    (s.run (action :: rest)).2 = (s.step action).2 :: ((s.step action).1.run rest).2 := rfl

end Host

section

variable {target : Target} {side : Side} {action : Action}

theorem firstConsult_cons_of_consults (h : action.consults target side = true)
    (rest : List Action) : firstConsult target side (action :: rest) = some 0 := by
  simp [firstConsult, List.findIdx?_cons, h]

theorem firstConsult_cons_of_not (h : action.consults target side = false)
    (rest : List Action) :
    firstConsult target side (action :: rest) = (firstConsult target side rest).map (· + 1) := by
  simp [firstConsult, List.findIdx?_cons, h]

theorem consults_iff :
    action.consults target side = true ↔ ∃ q, action = .ask target q ∧ q.side? = some side := by
  cases action with
  | ask t q =>
    simp only [Action.consults, Bool.and_eq_true, beq_iff_eq, Action.ask.injEq]
    constructor
    · intro ⟨ht, hq⟩
      exact ⟨q, ⟨ht, rfl⟩, hq⟩
    · intro ⟨_, ⟨ht, he⟩, hq⟩
      exact ⟨ht, he ▸ hq⟩
  | _ => simp [Action.consults]

@[simp] theorem filesAt_zero (fs : FileSystem) (actions : List Action) :
    filesAt fs actions 0 = fs := rfl

@[simp] theorem filesAt_succ (fs : FileSystem) (rest : List Action) (index : Nat) :
    filesAt fs (action :: rest) (index + 1) = filesAt (action.filesAfter fs) rest index := rfl

end

namespace Catalog

variable {c : Catalog} {target : Target} {fs : FileSystem} {action : Action} {side : Side}

@[simp] theorem paths_after : (c.after target fs action).paths = c.paths := by
  cases action with
  | ask t q =>
    simp only [after]
    split <;> simp
  | _ => rfl

theorem cells_after_of_consults (h : action.consults target side = true) :
    (c.after target fs action).cells.get side = .settled ((c.visible fs.read).get side) := by
  obtain ⟨q, rfl, hq⟩ := consults_iff.1 h
  simp [after, hq, cells_consulted_self]

theorem cells_after_of_not (h : action.consults target side = false) :
    (c.after target fs action).cells.get side = c.cells.get side := by
  cases action with
  | ask t q =>
    simp only [after]
    split
    · next ht =>
      refine cells_consulted_of_ne c fs.read fun hq => ?_
      simp [Action.consults, ht, hq] at h
    · rfl
  | _ => rfl

theorem fixedManifests_cons (c : Catalog) (target : Target) (fs : FileSystem) (action : Action)
    (rest : List Action) (side : Side) :
    (c.fixedManifests target fs (action :: rest)).get side =
      ((c.after target fs action).fixedManifests target (action.filesAfter fs) rest).get side := by
  simp only [fixedManifests, Sides.get_ofFn, paths_after]
  cases h : action.consults target side with
  | true =>
    rw [cells_after_of_consults h, firstConsult_cons_of_consults h]
    cases hc : c.cells.get side with
    | settled m => simp [visible_settled hc]
    | unread => simp [visible_unread hc]
  | false =>
    rw [cells_after_of_not h, firstConsult_cons_of_not h]
    cases c.cells.get side with
    | settled m => rfl
    | unread => cases firstConsult target side rest <;> rfl

theorem fixedManifests_of_consults (h : action.consults target side = true) (rest : List Action) :
    (c.fixedManifests target fs (action :: rest)).get side = (c.visible fs.read).get side := by
  simp only [fixedManifests, Sides.get_ofFn, firstConsult_cons_of_consults h]
  cases hc : c.cells.get side with
  | settled m => simp [visible_settled hc]
  | unread => simp [visible_unread hc]

theorem loadEvents_of_settled {m : Option Manifest} (h : c.cells.get side = .settled m)
    (read : ReadBytes) : c.loadEvents read side = [] := by
  simp [loadEvents, h]

theorem fixedLoadEvents_cons_succ (c : Catalog) (target : Target) (fs : FileSystem)
    (action : Action) (rest : List Action) (index : Nat) (side : Side) :
    c.fixedLoadEvents target fs (action :: rest) (index + 1) side =
      (c.after target fs action).fixedLoadEvents target (action.filesAfter fs) rest index side := by
  simp only [fixedLoadEvents, filesAt_succ]
  cases h : action.consults target side with
  | true =>
    rw [firstConsult_cons_of_consults h, loadEvents_of_settled (cells_after_of_consults h)]
    simp
  | false =>
    rw [firstConsult_cons_of_not h]
    simp [loadEvents, cells_after_of_not h]

theorem fixedManifests_of_ask {q : Query} (hq : q.side? = some side) (rest : List Action) :
    (c.fixedManifests target fs (.ask target q :: rest)).get side = (c.visible fs.read).get side :=
  fixedManifests_of_consults (consults_iff.2 ⟨q, rfl, hq⟩) rest

theorem fixedLoadEvents_of_ask {q : Query} (hq : q.side? = some side) (rest : List Action) :
    c.fixedLoadEvents target fs (.ask target q :: rest) 0 side = c.loadEvents fs.read side := by
  have h := firstConsult_cons_of_consults (consults_iff.2 ⟨q, rfl, hq⟩ :
    (Action.ask target q).consults target side = true) rest
  simp [fixedLoadEvents, h]

end Catalog

namespace Catalog

variable {c : Catalog} {target : Target} {fs : FileSystem} {side : Side}

def loadsLeft (c : Catalog) (side : Side) : Nat :=
  if c.cells.get side = .unread then 1 else 0

theorem countP_fixedEvents (q : Query) (manifests : Sides (Option Manifest)) (side : Side) :
    (q.fixedEvents manifests).countP (·.isLoadOf side) = 0 := by
  cases q with
  | transport text => simp [Query.fixedEvents, Event.isLoadOf]
  | _ => rfl

theorem countP_loadSide (read : ReadBytes) (x side : Side) (path : String) :
    (loadSide read x path).2.countP (·.isLoadOf side) ≤ if x = side then 1 else 0 := by
  unfold loadSide
  split <;> simp [Event.isLoadOf, List.countP_cons]

theorem countP_loadEvents (c : Catalog) (read : ReadBytes) (x side : Side) :
    (c.loadEvents read x).countP (·.isLoadOf side) ≤ if x = side then c.loadsLeft side else 0 := by
  have h := countP_loadSide read x side (c.paths.get x)
  cases hc : c.cells.get x with
  | settled m => simp [loadEvents, hc]
  | unread =>
    simp only [loadEvents, hc]
    by_cases hx : x = side
    · subst hx
      simpa [loadsLeft, hc] using h
    · simpa [hx] using h

theorem countP_ask (c : Catalog) (target : Target) (fs : FileSystem) (q : Query) (side : Side) :
    (c.ask fs.read q).events.countP (·.isLoadOf side) +
      (c.after target fs (.ask target q)).loadsLeft side ≤ c.loadsLeft side := by
  rw [ask_eq, List.countP_append, countP_fixedEvents]
  cases hq : q.side? with
  | none => simp [after, hq, consulted]
  | some x =>
    have hload := countP_loadEvents c fs.read x side
    by_cases hx : x = side
    · subst hx
      have hafter : (c.after target fs (.ask target q)).loadsLeft x = 0 := by
        simp [loadsLeft, after, hq, cells_consulted_self]
      simpa [hafter] using hload
    · have hafter : (c.after target fs (.ask target q)).loadsLeft side = c.loadsLeft side := by
        have hne : q.side? ≠ some side := fun he => hx (Option.some.inj (hq ▸ he))
        simp [loadsLeft, after, cells_consulted_of_ne c fs.read hne]
      simp only [hx, if_false, Nat.le_zero] at hload
      simp [hafter, hload]

end Catalog

namespace Host

variable {s : Host} {actions : List Action} {target : Target} {c : Catalog}

theorem outcome_of_ask (h : s.catalogOver? actions target = some c) {index : Nat} {q : Query}
    (hq : actions[index]? = some (.ask target q)) :
    (s.run actions).2[index]? =
      some ((q.side?.map (c.fixedLoadEvents target s.files actions index)).getD [] ++
          q.fixedEvents (c.fixedManifests target s.files actions),
        .answered (q.fixedAnswer c.paths (c.fixedManifests target s.files actions))) := by
  induction actions generalizing s c index with
  | nil => simp at hq
  | cons action rest ih =>
    rw [run_cons]
    cases index with
    | zero =>
      obtain rfl : action = .ask target q := by simpa using hq
      have hvisible : ∀ side, q.side? = some side → (c.visible s.files.read).get side =
          (c.fixedManifests target s.files (.ask target q :: rest)).get side :=
        fun side hside => (Catalog.fixedManifests_of_ask hside rest).symm
      rw [List.getElem?_cons_zero, step_ask h, Catalog.ask_eq]
      simp only [Query.fixedAnswer_congr c.paths q hvisible, Query.fixedEvents_congr q hvisible]
      cases hside : q.side? with
      | none => rfl
      | some side => simp [Catalog.fixedLoadEvents_of_ask hside]
    | succ index =>
      have hfixed : ∀ side, q.side? = some side → _ :=
        fun side _ => (c.fixedManifests_cons target s.files action rest side).symm
      have hload : c.fixedLoadEvents target s.files (action :: rest) (index + 1) = _ :=
        funext fun side => c.fixedLoadEvents_cons_succ target s.files action rest index side
      rw [List.getElem?_cons_succ, ih (catalogOver?_step h) (by simpa using hq), files_step,
        Catalog.paths_after, Query.fixedAnswer_congr c.paths q hfixed,
        Query.fixedEvents_congr q hfixed, hload]

theorem countP_eventsOf (h : s.catalogOver? actions target = some c) (side : Side) :
    (eventsOf target actions (s.run actions).2).countP (·.isLoadOf side) ≤ c.loadsLeft side := by
  induction actions generalizing s c with
  | nil => simp [eventsOf]
  | cons action rest ih =>
    have hrest := ih (catalogOver?_step h)
    rw [run_cons]
    simp only [eventsOf, List.zip_cons_cons, List.flatMap_cons, List.countP_append] at hrest ⊢
    cases action with
    | ask t q =>
      by_cases ht : t = target
      · subst ht
        have hstep := c.countP_ask t s.files q side
        simp only [if_true, step_ask h]
        omega
      · simpa [ht, Catalog.after] using hrest
    | _ => simpa [Catalog.after] using hrest

theorem firstConsult_of_isLoadOf (h : s.catalogOver? actions target = some c) {index : Nat}
    {q : Query} (hq : actions[index]? = some (.ask target q)) {events : List Event}
    {result : ActionResult} (hout : (s.run actions).2[index]? = some (events, result))
    {event : Event} (hevent : event ∈ events) {side : Side} (hside : event.isLoadOf side = true) :
    firstConsult target side actions = some index := by
  rw [outcome_of_ask h hq, Option.some.injEq, Prod.mk.injEq] at hout
  obtain ⟨rfl, -⟩ := hout
  rcases List.mem_append.1 hevent with hload | hfixed
  · cases hx : q.side? with
    | none => simp [hx] at hload
    | some x =>
      simp only [hx, Option.map_some, Option.getD_some, Catalog.fixedLoadEvents] at hload
      split at hload
      · next hfirst =>
        have hpos := List.countP_pos_iff.2 ⟨event, hload, hside⟩
        have hcount := c.countP_loadEvents (filesAt s.files actions index).read x side
        have hxs : x = side := by
          refine Decidable.byContradiction fun hne => ?_
          rw [if_neg hne] at hcount
          exact absurd hpos (Nat.not_lt.2 hcount)
        exact hxs ▸ hfirst
      · simp at hload
  · have hzero := Catalog.countP_fixedEvents q (c.fixedManifests target s.files actions) side
    exact absurd hside (by simpa using List.countP_eq_zero.1 hzero event hfixed)

/-- Main result: over every run, a catalog answers as its fixed manifests do, and it leaves at most
one record of a load for each side, in the step that first consults that side. -/
theorem run_refines_fixedManifests (h : s.catalogOver? actions target = some c) :
    (∀ (index : Nat) (q : Query), actions[index]? = some (.ask target q) →
      (s.run actions).2[index]? =
        some ((q.side?.map (c.fixedLoadEvents target s.files actions index)).getD [] ++
            q.fixedEvents (c.fixedManifests target s.files actions),
          .answered (q.fixedAnswer c.paths (c.fixedManifests target s.files actions)))) ∧
    ∀ side : Side,
      (eventsOf target actions (s.run actions).2).countP (·.isLoadOf side) ≤ 1 ∧
      ∀ (index : Nat) (q : Query) (events : List Event) (result : ActionResult),
        actions[index]? = some (.ask target q) →
        (s.run actions).2[index]? = some (events, result) →
        (∃ event ∈ events, event.isLoadOf side = true) →
        firstConsult target side actions = some index := by
  refine ⟨fun index q hq => outcome_of_ask h hq, fun side => ⟨?_, ?_⟩⟩
  · have hleft : c.loadsLeft side ≤ 1 := by
      simp only [Catalog.loadsLeft]
      split <;> omega
    exact Nat.le_trans (countP_eventsOf h side) hleft
  · intro index q events result hq hout ⟨event, hevent, hside⟩
    exact firstConsult_of_isLoadOf h hq hout hevent hside

/-- A file that is written after the first use, at a path that the environment gave by then, is
never read. -/
theorem run_refines_fixedManifests_late_file :
    let actions : List Action :=
      [.setEnvironment ⟨some "f", none⟩, .ask .shared (.hasManifest .framework),
        .write "f" (.file []), .ask .shared (.hasManifest .framework)]
    let c := Catalog.ofPaths ⟨"f", standardPaths.device⟩
    initial.catalogOver? actions .shared = some c ∧
    (Manifest.load (filesAt initial.files actions 3).read "f").toOption = some .empty ∧
    (initial.run actions).2[3]? = some ([], .answered (.hasManifest false)) := by
  intro actions c
  have hc : initial.catalogOver? actions .shared = some c := rfl
  have habsent : (c.fixedManifests .shared initial.files actions).get .framework = none := by
    decide +kernel
  have hloads : c.fixedLoadEvents .shared initial.files actions 3 .framework = [] := rfl
  refine ⟨hc, by decide +kernel, ?_⟩
  rw [(run_refines_fixedManifests hc).1 3 _ rfl]
  simp [Query.side?, Query.fixedEvents, Query.fixedAnswer, habsent, hloads]

end Host

end HalLink
