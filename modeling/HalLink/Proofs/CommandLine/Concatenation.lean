import HalLink.Proofs.Catalog.Refinement
import HalLink.Proofs.Catalog.Reports
import HalLink.Proofs.CommandLine.Report

/-!
Many names in one command. They share one catalog, but none of them can tell: each is answered as in
a command of its own, and commands with fewer names make up the one with all of them. Only the log
shows that a side which was loaded for earlier names is not loaded again.
-/

set_option autoImplicit false

namespace HalLink.CommandLine

def Reading.ofOptions (options : List (Side × String)) : Reading :=
  ⟨options.map fun (side, path) => .option side path, none⟩

def isLoadFor (names : List String) (e : Event) : Bool :=
  names.any fun name => (consultedSide? name).any fun side => e.isLoadOf side

theorem exists_reading_ofOptions (options : List (Side × String)) {names : List String}
    (plain : ∀ name ∈ names, ∀ side, name ≠ optionOf side) :
    ∃ r : Reading, r.arguments = (Reading.ofOptions options).arguments ++ names ∧
      r.dangling = none ∧ r.names = names ∧
      r.lastPath? = (Reading.ofOptions options).lastPath? := by
  induction options with
  | nil =>
    induction names with
    | nil => exact ⟨⟨[], none⟩, rfl, rfl, rfl, rfl⟩
    | cons name rest ih =>
      obtain ⟨hname, hrest⟩ := List.forall_mem_cons.1 plain
      obtain ⟨r, harguments, hdangling, hnames, hpaths⟩ := ih hrest
      refine ⟨r.cons (.name name hname), ?_, hdangling, ?_, ?_⟩
      · rw [Reading.arguments_cons, harguments]
        rfl
      · simp [Part.name?, hnames]
      · funext side
        simp [Part.pathFor?, hpaths]
  | cons option rest ih =>
    obtain ⟨r, harguments, hdangling, hnames, hpaths⟩ := ih
    have hcons : Reading.ofOptions (option :: rest) =
        (Reading.ofOptions rest).cons (.option option.1 option.2) := rfl
    refine ⟨r.cons (.option option.1 option.2), ?_, hdangling, ?_, ?_⟩
    · simp [hcons, harguments]
    · simp [Part.name?, hnames]
    · funext side
      simp [hcons, hpaths]

theorem execute_ofOptions {options : List (Side × String)} {names : List String}
    (hnames : names ≠ []) (plain : ∀ name ∈ names, ∀ side, name ≠ optionOf side)
    (hhelp : helpOption ∉ (Reading.ofOptions options).arguments ++ names) (read : ReadBytes)
    (environment : Environment) :
    execute read environment ((Reading.ofOptions options).arguments ++ names) =
      report read ((Reading.ofOptions options).paths environment) names := by
  obtain ⟨r, harguments, hdangling, rfl, hpaths⟩ := exists_reading_ofOptions options plain
  have hreport : r.paths environment = (Reading.ofOptions options).paths environment := by
    simp only [Reading.paths, hpaths]
  rw [← harguments, execute_arguments (harguments ▸ hhelp), hdangling, ← hreport]
  exact if_neg hnames

section

variable (c : Catalog) (read : ReadBytes)

/-- A side that is settled brings about no record of a load, and so leaves out its own. -/
theorem loadEvents_consulted (side x : Side) :
    (c.consulted read (some side)).loadEvents read x =
      (c.loadEvents read x).filter (!·.isLoadOf side) := by
  by_cases h : side = x
  · subst h
    rw [Catalog.loadEvents_consulted_self, eq_comm, List.filter_eq_nil_iff]
    unfold Catalog.loadEvents loadSide
    split
    · simp
    · split <;> simp [Event.isLoadOf]
  · rw [Catalog.loadEvents_consulted_of_ne c read (by simpa using h), eq_comm,
      List.filter_eq_self]
    unfold Catalog.loadEvents loadSide
    split
    · simp
    · split <;> simp [Event.isLoadOf, Ne.symm h]

theorem recordsAt_consulted (names : List String) (index : Nat) (name : String) (side : Side) :
    recordsAt (c.consulted read (some side)) read names index name =
      (recordsAt c read names index name).filter (!·.isLoadOf side) := by
  rw [recordsAt, recordsAt, Catalog.visible_consulted, List.filter_append]
  cases consultedSide? name with
  | none => rfl
  | some x =>
    simp only [Option.map_some, Option.getD_some, loadRecord, loadEvents_consulted]
    split <;> rfl

theorem recordsOf_consulted (names : List String) (side : Side) :
    recordsOf (c.consulted read (some side)) read names =
      (recordsOf c read names).filter (!·.isLoadOf side) := by
  have hmap : names.mapIdx (recordsAt (c.consulted read (some side)) read names) =
      (names.mapIdx (recordsAt c read names)).map (List.filter (!·.isLoadOf side)) := by
    refine List.mapIdx_eq_iff.2 fun index => ?_
    rw [List.getElem?_map, List.getElem?_mapIdx, Option.map_map]
    congr 1
    funext name
    exact (recordsAt_consulted c read names index name side).symm
  rw [recordsOf, recordsOf, hmap, List.filter_flatten]

/-- The records of the names behind others are those that they leave by themselves, without the
loads that have come about before. -/
theorem recordsOf_append (names names' : List String) :
    recordsOf c read (names ++ names') =
      recordsOf c read names ++ (recordsOf c read names').filter (!isLoadFor names ·) := by
  -- After the first name the others meet a catalog with one side more that is settled.
  induction names generalizing c with
  | nil => exact (List.filter_eq_self.2 fun _ _ => rfl).symm
  | cons name rest ih =>
    rw [List.cons_append, recordsOf_cons, recordsOf_cons, ih, List.append_assoc]
    cases hside : consultedSide? name with
    | none => simp only [Catalog.consulted, isLoadFor, List.any_cons, hside, Option.any_none,
        Bool.false_or]
    | some side =>
      simp only [recordsOf_consulted, List.filter_filter, isLoadFor, List.any_cons, hside,
        Option.any_some, Bool.not_or, Bool.and_comm]

end

theorem isLoadFor_iff {names : List String} {e : Event} :
    isLoadFor names e = true ↔
      ∃ name ∈ names, ∃ n v side, Asks name n v side ∧ e.isLoadOf side = true := by
  have hside : ∀ name side, consultedSide? name = some side ↔ ∃ n v, Asks name n v side := by
    intro name side
    simp only [consultedSide?, Query.side?, Option.map_eq_some_iff, toOption_eq_some_iff, asks_iff]
    constructor
    · rintro ⟨n, hn, rfl⟩
      obtain ⟨v, hv⟩ := Option.ne_none_iff_exists'.1 (request_eq_ok_iff.1 hn).2
      exact ⟨n, v, hn, hv, rfl⟩
    · rintro ⟨n, v, hn, -, rfl⟩
      exact ⟨n, hn, rfl⟩
  simp only [isLoadFor, List.any_eq_true, Option.any_eq_true, hside]
  grind

theorem line_eq_default_iff (name : String) (t : Transport) :
    line name t = name ++ ": default" ↔ t = .empty := by
  have hinj : ∀ s s' : String, name ++ s = name ++ s' ↔ s = s' := by simp
  cases t <;> simp [line, Transport.text, String.append_assoc, hinj]

theorem resolvedTransport_resolve_eq_empty_iff (manifests : Sides (Option Manifest))
    (name : String) :
    resolvedTransport (resolve manifests name) = .empty ↔
      ∃ fault, resolve manifests name = .error fault := by
  cases h : resolve manifests name with
  | error fault => simp [resolvedTransport]
  | ok d =>
    have hd := (announced_resolve manifests name).ne_empty_of_ok h
    simpa [resolvedTransport] using hd

/-- Main result: after the same options, a command with more names prints what commands with fewer
names print, line under line, down to commands with a single name; and it leaves their records
behind one another, but for loads of a side that a name before consults. A single name gets the
default exactly where it does not resolve. -/
theorem execute_concatenated (read : ReadBytes) (environment : Environment)
    (options : List (Side × String)) (names names' : List String) (hnames : names ≠ [])
    (hnames' : names' ≠ [])
    (plain : ∀ name ∈ names ++ names', ∀ side, name ≠ optionOf side)
    (hhelp : helpOption ∉ (Reading.ofOptions options).arguments ++ (names ++ names')) :
    let given := Reading.ofOptions options
    let run := fun names => execute read environment (given.arguments ++ names)
    (run (names ++ names')).1 = (run names).1 ++ "\n" ++ (run names').1 ∧
    (run (names ++ names')).2 = (run names).2 ++ (run names').2.filter (!isLoadFor names ·) ∧
    (∀ e, isLoadFor names e = true ↔
      ∃ name ∈ names, ∃ n v side, Asks name n v side ∧ e.isLoadOf side = true) ∧
    (run names).1 = "\n".intercalate (names.map fun name => (run [name]).1) ∧
    ∀ name ∈ names, ((run [name]).1 = name ++ ": default" ↔ ∃ fault,
      ((Catalog.ofPaths (given.paths environment)).resolve read name).answer = .error fault) := by
  intro given run
  have hrun : ∀ part, part ≠ [] → part ⊆ names ++ names' →
      run part = report read (given.paths environment) part := by
    intro part hpart hsub
    refine execute_ofOptions hpart (fun name hname => plain name (hsub hname)) (fun hmem => ?_) read
      environment
    exact hhelp (List.mem_append.2 ((List.mem_append.1 hmem).imp_right fun h => hsub h))
  have hleft : names ⊆ names ++ names' := List.subset_append_left names names'
  have hright : names' ⊆ names ++ names' := List.subset_append_right names names'
  have hall : names ++ names' ≠ [] := List.append_ne_nil_of_left_ne_nil hnames names'
  have hone : ∀ name ∈ names, (run [name]).1 = line name (resolvedTransport
      (resolve ((Catalog.ofPaths (given.paths environment)).visible read) name)) := by
    intro name hname
    rw [hrun [name] (by simp) (by simpa using List.mem_append_left names' hname)]
    simp only [report, linesOf, List.map_singleton, String.intercalate_singleton]
  refine ⟨?_, ?_, fun e => isLoadFor_iff, ?_, fun name hname => ?_⟩
  · rw [hrun _ hall (List.Subset.refl _), hrun _ hnames hleft, hrun _ hnames' hright]
    simp only [report, linesOf, List.map_append]
    exact String.intercalate_append_of_ne_nil (by simpa using hnames) (by simpa using hnames')
  · rw [hrun _ hall (List.Subset.refl _), hrun _ hnames hleft, hrun _ hnames' hright]
    exact recordsOf_append _ read names names'
  · rw [hrun _ hnames hleft, List.map_congr_left hone]
    rfl
  · rw [hone name hname, line_eq_default_iff, resolvedTransport_resolve_eq_empty_iff,
      Catalog.resolve_eq]

/-- The framework is loaded for a name of the first half and asked once more in the second, where a
name of the device comes first. -/
theorem execute_concatenated_shared_side :
    let file := "hal = [[\"android.hidl.manager\", \"hwbinder\", [\"1.0\"]]]"
    let read : ReadBytes := fun path =>
      if path = "f" then .ok (Utf8.encode file) else .error .notFound
    let options := [(Side.framework, "--device"), (.device, "d"), (.framework, "f")]
    let names := ["android.hidl.manager@1.0::IServiceManager", "a b"]
    let names' := ["a.b@1.0::I", "android.hidl.manager@1.0::IServiceManager"]
    let run := fun names =>
      execute read ⟨none, none⟩ ((Reading.ofOptions options).arguments ++ names)
    names ≠ [] ∧ names' ≠ [] ∧ (∀ name ∈ names ++ names', ∀ side, name ≠ optionOf side) ∧
    helpOption ∉ (Reading.ofOptions options).arguments ++ (names ++ names') ∧
    (run (names ++ names')).1 = "android.hidl.manager@1.0::IServiceManager: hwbinder\n" ++
      "a b: default\na.b@1.0::I: default\nandroid.hidl.manager@1.0::IServiceManager: hwbinder" ∧
    (run (names ++ names')).2 = (run names).2 ++ (run names').2.filter (!isLoadFor names ·) ∧
    (run names').2.length = 3 ∧ ((run names').2.filter (!isLoadFor names ·)).length = 2 := by
  intro file read options names names' run
  have hnames : names ≠ [] := by simp [names]
  have hnames' : names' ≠ [] := by simp [names']
  have plain : ∀ name ∈ names ++ names', ∀ side, name ≠ optionOf side := by
    intro name hname side
    cases side <;> revert name <;> decide
  have hhelp : helpOption ∉ (Reading.ofOptions options).arguments ++ (names ++ names') := by decide
  obtain ⟨hlines, hrecords, -⟩ :=
    execute_concatenated read ⟨none, none⟩ options names names' hnames hnames' plain hhelp
  refine ⟨hnames, hnames', plain, hhelp, ?_, hrecords, by decide +kernel, by decide +kernel⟩
  exact hlines.trans (by decide +kernel)

end HalLink.CommandLine
