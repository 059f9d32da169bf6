import HalLink.Proofs.Catalog.Refinement
import HalLink.Proofs.Except

/-!
The shared catalog of a process. It is made by whichever use comes first and behaves from then on as
a catalog created at that moment: the environment counts as it was then, the files as they are when
their side is first consulted.
-/

set_option autoImplicit false

namespace HalLink

inductive SharedAction where
  | write (path : String) (node : FileNode)
  | remove (path : String)
  | setEnvironment (environment : Environment)
  | use (query : Query)
  deriving DecidableEq, Repr

namespace SharedAction

def on (target : Target) : SharedAction → Action
  | write path node => .write path node
  | remove path => .remove path
  | setEnvironment environment => .setEnvironment environment
  | use query => .ask target query

def isUse : SharedAction → Bool
  | use _ => true
  | _ => false

def environment? : SharedAction → Option Environment
  | setEnvironment environment => some environment
  | _ => none

def beforeUse (actions : List SharedAction) : List SharedAction := actions.takeWhile (!·.isUse)

def fromUse (actions : List SharedAction) : List SharedAction := actions.dropWhile (!·.isUse)

def lastEnvironment (environment : Environment) (actions : List SharedAction) : Environment :=
  (actions.filterMap environment?).getLast?.getD environment

def withoutChanges (actions : List SharedAction) : List SharedAction :=
  actions.filter (·.environment?.isNone)

end SharedAction

open SharedAction

def Host.uses (s : Host) (target : Target) (actions : List SharedAction) :
    List (List Event × ActionResult) :=
  (actions.zip (s.run (actions.map (·.on target))).2).filterMap fun (action, outcome) =>
    if action.isUse then some outcome else none

/-- One catalog asked use by use while the files change around it. It has no environment to see. -/
def Catalog.answersOver (c : Catalog) (fs : FileSystem) :
    List SharedAction → List (List Event × ActionResult)
  | [] => []
  | .write path node :: rest => c.answersOver (fs.write path node) rest
  | .remove path :: rest => c.answersOver (fs.remove path) rest
  | .setEnvironment _ :: rest => c.answersOver fs rest
  | .use q :: rest =>
    let found := c.ask fs.read q
    (found.events, .answered found.answer) :: found.catalog.answersOver fs rest

namespace Host

theorem uses_cons (s : Host) (target : Target) (action : SharedAction)
    (rest : List SharedAction) :
    s.uses target (action :: rest) =
      (if action.isUse then [(s.step (action.on target)).2] else []) ++
        (s.step (action.on target)).1.uses target rest := by
  cases h : action.isUse <;> simp [uses, run_cons, h]

theorem uses_eq_answersOver {s : Host} {target : Target} {actions : List SharedAction}
    {c : Catalog} (h : s.catalogOver? (actions.map (·.on target)) target = some c) :
    s.uses target actions = c.answersOver s.files actions := by
  induction actions generalizing s c with
  | nil => rfl
  | cons action rest ih =>
    have hnext := ih (catalogOver?_step h)
    rw [uses_cons, hnext, files_step]
    cases action with
    | use q =>
      have hafter :
          c.after target s.files (on target (.use q)) = (c.ask s.files.read q).catalog := by
        simp [on, Catalog.after, Catalog.ask_eq]
      rw [hafter]
      simp [on, isUse, step_ask h, Catalog.answersOver, Action.filesAfter]
    | _ => rfl

end Host

section

variable {action : SharedAction}

theorem beforeUse_cons_of_not (h : action.isUse = false) (rest : List SharedAction) :
    beforeUse (action :: rest) = action :: beforeUse rest := by
  simp [beforeUse, h]

theorem fromUse_cons_of_not (h : action.isUse = false) (rest : List SharedAction) :
    fromUse (action :: rest) = fromUse rest := by
  simp [fromUse, h]

theorem beforeUse_cons_of_use (h : action.isUse = true) (rest : List SharedAction) :
    beforeUse (action :: rest) = [] := by
  simp [beforeUse, h]

theorem fromUse_cons_of_use (h : action.isUse = true) (rest : List SharedAction) :
    fromUse (action :: rest) = action :: rest := by
  simp [fromUse, h]

@[simp] theorem lastEnvironment_nil (environment : Environment) :
    lastEnvironment environment [] = environment := rfl

theorem lastEnvironment_cons (environment : Environment) (action : SharedAction)
    (rest : List SharedAction) :
    lastEnvironment environment (action :: rest) =
      lastEnvironment (action.environment?.getD environment) rest := by
  unfold lastEnvironment
  cases h : action.environment? with
  | none => simp [h]
  | some later => simp [h, List.getLast?_cons]

theorem beforeUse_fromUse (actions : List SharedAction) : beforeUse (fromUse actions) = [] := by
  induction actions with
  | nil => rfl
  | cons action rest ih =>
    cases h : action.isUse with
    | true => rw [fromUse_cons_of_use h, beforeUse_cons_of_use h]
    | false => rw [fromUse_cons_of_not h, ih]

theorem environmentAtFirstUse_map (environment : Environment) (actions : List SharedAction) :
    environmentAtFirstUse environment (actions.map (·.on .shared)) =
      lastEnvironment environment (beforeUse actions) := by
  induction actions generalizing environment with
  | nil => rfl
  | cons action rest ih =>
    cases action with
    | use q => rfl
    | _ =>
      rw [beforeUse_cons_of_not rfl, lastEnvironment_cons, ← ih]
      rfl

end

namespace Host

theorem step_of_not_use {action : SharedAction} (h : action.isUse = false) (s : Host)
    (target : Target) :
    (s.step (action.on target)).1 = ⟨(action.on target).filesAfter s.files,
      action.environment?.getD s.environment, s.catalogs, s.shared⟩ := by
  cases action with
  | use q => simp [isUse] at h
  | _ => rfl

theorem run_beforeUse (s : Host) (target : Target) (actions : List SharedAction) :
    let moment := (s.run ((beforeUse actions).map (·.on target))).1
    moment.environment = lastEnvironment s.environment (beforeUse actions) ∧
      moment.catalogs = s.catalogs ∧ moment.shared = s.shared := by
  induction actions generalizing s with
  | nil => exact ⟨rfl, rfl, rfl⟩
  | cons action rest ih =>
    cases h : action.isUse with
    | true =>
      rw [beforeUse_cons_of_use h]
      exact ⟨rfl, rfl, rfl⟩
    | false =>
      obtain ⟨henvironment, hcatalogs, hshared⟩ := ih (s.step (action.on target)).1
      rw [step_of_not_use h] at henvironment hcatalogs hshared
      rw [beforeUse_cons_of_not h, lastEnvironment_cons, ← henvironment]
      simp only [List.map_cons, run, step_of_not_use h]
      exact ⟨trivial, hcatalogs, hshared⟩

theorem uses_fromUse (s : Host) (target : Target) (actions : List SharedAction) :
    s.uses target actions =
      (s.run ((beforeUse actions).map (·.on target))).1.uses target (fromUse actions) := by
  induction actions generalizing s with
  | nil => rfl
  | cons action rest ih =>
    cases h : action.isUse with
    | true =>
      rw [beforeUse_cons_of_use h, fromUse_cons_of_use h]
      rfl
    | false =>
      rw [uses_cons, ih, beforeUse_cons_of_not h, fromUse_cons_of_not h]
      simp [h, run]

end Host

theorem lastEnvironment_withoutChanges (environment : Environment)
    (actions : List SharedAction) :
    lastEnvironment environment (beforeUse (withoutChanges actions)) = environment := by
  have hnone : (beforeUse (withoutChanges actions)).filterMap environment? = [] := by
    refine List.filterMap_eq_nil_iff.2 fun action hmem => ?_
    have hkept := (List.takeWhile_prefix _).subset hmem
    simpa using (List.mem_filter.1 hkept).2
  simp [lastEnvironment, hnone]

theorem Catalog.answersOver_withoutChanges (c : Catalog) (fs : FileSystem)
    (actions : List SharedAction) :
    c.answersOver fs (withoutChanges actions) = c.answersOver fs actions := by
  induction actions generalizing c fs with
  | nil => rfl
  | cons action rest ih =>
    cases action with
    | use q => exact congrArg (_ :: ·) (ih _ _)
    | setEnvironment environment => exact ih c fs
    | _ => exact ih _ _

namespace Host

variable {s : Host}

theorem catalogOver?_shared (h : s.shared = none) (actions : List SharedAction) :
    s.catalogOver? (actions.map (·.on .shared)) .shared =
      some (.ofPaths (lastEnvironment s.environment (beforeUse actions)).paths) := by
  simp only [catalogOver?, h, Option.getD_none, environmentAtFirstUse_map]

theorem uses_shared (h : s.shared = none) (actions : List SharedAction) :
    s.uses .shared actions =
      (Catalog.ofPaths (lastEnvironment s.environment (beforeUse actions)).paths).answersOver
        s.files actions :=
  uses_eq_answersOver (catalogOver?_shared h actions)

/-- A catalog created from the environment where the first use comes serves the rest of the run as
the shared one does. -/
theorem uses_created_at_first_use (h : s.shared = none) (actions : List SharedAction) :
    let moment := (s.run ((beforeUse actions).map (·.on .shared))).1
    s.uses .shared actions =
      (moment.step .createFromEnvironment).1.uses (.created s.catalogs.length)
        (fromUse actions) := by
  intro moment
  obtain ⟨-, hcatalogs, hshared⟩ := s.run_beforeUse .shared actions
  have hmade : (moment.step .createFromEnvironment).1.catalogOver?
      ((fromUse actions).map (·.on (.created s.catalogs.length))) (.created s.catalogs.length) =
        some (.ofPaths moment.environment.paths) := by
    simp [catalogOver?, step, create, moment, hcatalogs]
  have hmoment := uses_shared (hshared.trans h) (fromUse actions)
  rw [beforeUse_fromUse, lastEnvironment_nil] at hmoment
  rw [uses_fromUse, hmoment, uses_eq_answersOver hmade]
  rfl

theorem uses_withoutChanges (h : s.shared = none) (actions : List SharedAction) :
    s.uses .shared actions =
      { s with environment := lastEnvironment s.environment (beforeUse actions) }.uses .shared
        (withoutChanges actions) := by
  let fixed : Host :=
    { s with environment := lastEnvironment s.environment (beforeUse actions) }
  have hfixed := uses_shared (show fixed.shared = none from h) (withoutChanges actions)
  rw [lastEnvironment_withoutChanges, Catalog.answersOver_withoutChanges] at hfixed
  rw [uses_shared h, ← hfixed]

end Host

theorem Environment.get_paths (environment : Environment) (side : Side) :
    environment.paths.get side = (environment.get side).getD (standardPaths.get side) := by
  cases side <;> rfl

namespace Host

/-- Main result: the uses of the shared catalog have the results and the log records of a catalog
that is created from the environment where the first of them comes. The environment counts as it
was last set by then, each variable for its own side, and as if it never changed again. A file
counts as it is when its side is first consulted. -/
theorem shared_created_at_first_use {s : Host} (h : s.shared = none)
    (actions : List SharedAction) :
    let atFirstUse := lastEnvironment s.environment (beforeUse actions)
    let moment := (s.run ((beforeUse actions).map (·.on .shared))).1
    let run := actions.map (·.on .shared)
    let c := Catalog.ofPaths atFirstUse.paths
    moment.environment = atFirstUse ∧
    s.uses .shared actions =
      (moment.step .createFromEnvironment).1.uses (.created s.catalogs.length)
        (fromUse actions) ∧
    s.uses .shared actions =
      { s with environment := atFirstUse }.uses .shared (withoutChanges actions) ∧
    (∀ side, c.paths.get side = (atFirstUse.get side).getD (standardPaths.get side)) ∧
    ∀ (index : Nat) (q : Query), actions[index]? = some (.use q) →
      (s.run run).2[index]? =
        some ((q.side?.map (c.fixedLoadEvents .shared s.files run index)).getD [] ++
            q.fixedEvents (c.fixedManifests .shared s.files run),
          .answered (q.fixedAnswer c.paths (c.fixedManifests .shared s.files run))) := by
  intro atFirstUse moment run c
  refine ⟨(s.run_beforeUse .shared actions).1, uses_created_at_first_use h actions,
    uses_withoutChanges h actions, atFirstUse.get_paths, fun index q hq => ?_⟩
  have hask : run[index]? = some (.ask .shared q) := by simp [run, hq, on]
  exact outcome_of_ask (catalogOver?_shared h actions) hask

/-- The second value of a variable is the one that counts, the third comes too late; the file that
it names is still read when its side is consulted. -/
theorem shared_created_at_first_use_third_value :
    let actions : List SharedAction :=
      [.setEnvironment ⟨some "e", none⟩, .setEnvironment ⟨some "f", none⟩, .use .paths,
        .setEnvironment ⟨some "g", some "d"⟩, .write "f" (.file []),
        .use (.hasManifest .framework)]
    initial.shared = none ∧
    initial.uses .shared actions =
      { initial with environment := ⟨some "f", none⟩ }.uses .shared
        [.use .paths, .write "f" (.file []), .use (.hasManifest .framework)] ∧
    (initial.run (actions.map (·.on .shared))).2[2]? =
      some ([], .answered (.paths ⟨"f", standardPaths.device⟩)) ∧
    (initial.run (actions.map (·.on .shared))).2[5]? =
      some ([.loaded .framework "f" 0], .answered (.hasManifest true)) := by
  intro actions
  let run := actions.map (·.on .shared)
  let c := Catalog.ofPaths ⟨"f", standardPaths.device⟩
  have hunused : initial.shared = none := rfl
  obtain ⟨-, -, hfixed, -, hanswers⟩ := shared_created_at_first_use hunused actions
  have hload : Manifest.load (filesAt initial.files run 5).read "f" = .ok .empty :=
    toOption_eq_some_iff.1 (by decide +kernel)
  have hpresent : (c.fixedManifests .shared initial.files run).get .framework = some .empty :=
    congrArg Except.toOption hload
  have hevents : c.fixedLoadEvents .shared initial.files run 5 .framework =
      (loadSide (filesAt initial.files run 5).read .framework "f").2 := rfl
  have hanswer := hanswers 5 (.hasManifest .framework) rfl
  refine ⟨hunused, hfixed, hanswers 2 .paths rfl, hanswer.trans ?_⟩
  show some (c.fixedLoadEvents .shared initial.files run 5 .framework ++ [], ActionResult.answered
    (.hasManifest ((c.fixedManifests .shared initial.files run).get .framework).isSome)) = _
  rw [hpresent, hevents, loadSide, hload]
  rfl

end Host

end HalLink
