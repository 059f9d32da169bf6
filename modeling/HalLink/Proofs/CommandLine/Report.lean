import HalLink.Proofs.CommandLine.Reading
import HalLink.Proofs.Except
import HalLink.Proofs.Manifest.Loading

set_option autoImplicit false

namespace HalLink.CommandLine

def consultedSide? (name : String) : Option Side := (Query.transport name).side?

def linesOf (manifests : Sides (Option Manifest)) (names : List String) : List String :=
  names.map fun name => line name (resolvedTransport (resolve manifests name))

def loadRecord (c : Catalog) (read : ReadBytes) (names : List String) (index : Nat)
    (side : Side) : List Event :=
  if names.findIdx? (consultedSide? · == some side) = some index then c.loadEvents read side else []

def recordsAt (c : Catalog) (read : ReadBytes) (names : List String) (index : Nat)
    (name : String) : List Event :=
  ((consultedSide? name).map (loadRecord c read names index)).getD [] ++
    [.resolution (resolve (c.visible read) name)]

def recordsOf (c : Catalog) (read : ReadBytes) (names : List String) : List Event :=
  (names.mapIdx (recordsAt c read names)).flatten

def report (read : ReadBytes) (paths : Sides String) (names : List String) : String × List Event :=
  let c := Catalog.ofPaths paths
  ("\n".intercalate (linesOf (c.visible read) names), recordsOf c read names)

def missingPath (side : Side) : String := "missing path after " ++ optionOf side ++ "\n" ++ usage

section

variable {c : Catalog} {read : ReadBytes}

theorem transport_consulted (c : Catalog) (read : ReadBytes) (name : String) :
    c.transport read name =
      ⟨c.consulted read (consultedSide? name),
        ((consultedSide? name).map (c.loadEvents read)).getD [] ++
          [.resolution (resolve (c.visible read) name)],
        resolvedTransport (resolve (c.visible read) name)⟩ := by
  rw [Catalog.transport, Catalog.resolve_eq]
  rfl

theorem loadRecord_cons_zero {name : String} {side : Side} (h : consultedSide? name = some side)
    (rest : List String) : loadRecord c read (name :: rest) 0 side = c.loadEvents read side := by
  simp [loadRecord, List.findIdx?_cons, h]

theorem loadRecord_cons_succ (c : Catalog) (read : ReadBytes) (name : String) (rest : List String)
    (index : Nat) (side : Side) :
    loadRecord c read (name :: rest) (index + 1) side =
      loadRecord (c.consulted read (consultedSide? name)) read rest index side := by
  by_cases h : consultedSide? name = some side
  · simp [loadRecord, List.findIdx?_cons, h, Catalog.loadEvents_consulted_self]
  · simp [loadRecord, List.findIdx?_cons, h, Catalog.loadEvents_consulted_of_ne c read h]

theorem recordsOf_cons (c : Catalog) (read : ReadBytes) (name : String) (rest : List String) :
    recordsOf c read (name :: rest) =
      (c.transport read name).events ++
        recordsOf (c.consulted read (consultedSide? name)) read rest := by
  have hfirst : recordsAt c read (name :: rest) 0 name = (c.transport read name).events := by
    rw [transport_consulted, recordsAt]
    cases h : consultedSide? name with
    | none => rfl
    | some side => simp [loadRecord_cons_zero h]
  have hrest : (fun index => recordsAt c read (name :: rest) (index + 1)) =
      recordsAt (c.consulted read (consultedSide? name)) read rest := by
    funext index other
    simp only [recordsAt, Catalog.visible_consulted]
    congr 3
    funext side
    exact loadRecord_cons_succ c read name rest index side
  simp only [recordsOf, List.mapIdx_cons, List.flatten_cons, hfirst, hrest]

theorem answers_eq (c : Catalog) (read : ReadBytes) (names : List String) :
    answers read c names = (linesOf (c.visible read) names, recordsOf c read names) := by
  induction names generalizing c with
  | nil => rfl
  | cons name rest ih =>
    have hcatalog : (c.transport read name).catalog = c.consulted read (consultedSide? name) :=
      congrArg Answered.catalog (transport_consulted c read name)
    have hanswer : (c.transport read name).answer =
        resolvedTransport (resolve (c.visible read) name) :=
      congrArg Answered.answer (transport_consulted c read name)
    rw [answers, hcatalog, hanswer, ih, Catalog.visible_consulted, recordsOf_cons]
    rfl

end

section

variable {read read' : ReadBytes} {paths : Sides String} {names : List String}

theorem loadSide_congr {side : Side} {path : String}
    (h : Manifest.load read path = Manifest.load read' path) :
    loadSide read side path = loadSide read' side path := by
  simp only [loadSide, h]

theorem report_congr
    (h : ∀ name ∈ names, ∀ side, consultedSide? name = some side →
      read (paths.get side) = read' (paths.get side)) :
    report read paths names = report read' paths names := by
  let c := Catalog.ofPaths paths
  have hload : ∀ name ∈ names, ∀ side, consultedSide? name = some side →
      Manifest.load read (paths.get side) = Manifest.load read' (paths.get side) :=
    fun name hname side hside => Manifest.load_congr (h name hname side hside)
  have hresolve : ∀ name ∈ names,
      resolve (c.visible read) name = resolve (c.visible read') name := by
    intro name hname
    refine resolve_congr fun n hn => ?_
    have hside : consultedSide? name = some n.side := (Query.side?_of_request hn).2
    rw [Catalog.visible_ofPaths, Catalog.visible_ofPaths, hload name hname n.side hside]
  have hlines : linesOf (c.visible read) names = linesOf (c.visible read') names :=
    List.map_congr_left fun name hname => by rw [hresolve name hname]
  have hrecords : recordsOf c read names = recordsOf c read' names := by
    refine congrArg List.flatten (List.mapIdx_eq_mapIdx_iff.2 fun index hindex => ?_)
    have hname := List.getElem_mem hindex
    rw [recordsAt, recordsAt, hresolve _ hname]
    cases hside : consultedSide? names[index] with
    | none => rfl
    | some side =>
      simp only [Option.map_some, Option.getD_some, loadRecord, c, Catalog.loadEvents_ofPaths,
        loadSide_congr (hload _ hname side hside)]
  simp only [report, c, hlines, hrecords]

end

section

variable {r : Reading} {read : ReadBytes} {environment : Environment}

theorem manifestPaths_reading (r : Reading) (environment : Environment) :
    (⟨Sides.ofFn r.lastPath?, r.names⟩ : Request).manifestPaths environment =
      r.paths environment := rfl

theorem execute_arguments (h : helpOption ∉ r.arguments) (read : ReadBytes)
    (environment : Environment) :
    execute read environment r.arguments =
      match r.dangling with
      | some side => (missingPath side, [])
      | none => if r.names = [] then (usage, []) else
        report read (r.paths environment) r.names := by
  rw [execute, if_neg (by simpa using h), r.readArguments_arguments]
  cases r.dangling with
  | some side => rfl
  | none => simp only [List.isEmpty_iff, manifestPaths_reading, answers_eq, report]

theorem mem_pathsToRead_iff (h : helpOption ∉ r.arguments) {path : String} :
    path ∈ pathsToRead environment r.arguments ↔ r.dangling = none ∧
      ∃ name ∈ r.names, ∃ side, consultedSide? name = some side ∧
        (r.paths environment).get side = path := by
  rw [pathsToRead, if_neg (by simpa using h), r.readArguments_arguments]
  cases r.dangling with
  | some side => simp
  | none =>
    have hside : ∀ name, consultedSide? name = (request name).toOption.map InterfaceName.side :=
      fun _ => rfl
    simp [List.mem_eraseDups, List.mem_filterMap, manifestPaths_reading, hside]

theorem pathsToRead_eq_nil (h : helpOption ∉ r.arguments)
    (hnames : r.dangling = none → r.names = []) : pathsToRead environment r.arguments = [] := by
  refine List.eq_nil_iff_forall_not_mem.2 fun path hpath => ?_
  obtain ⟨hd, name, hname, -⟩ := (mem_pathsToRead_iff h).1 hpath
  simp [hnames hd] at hname

theorem pathsToRead_of_help {arguments : List String} (h : helpOption ∈ arguments)
    (environment : Environment) : pathsToRead environment arguments = [] := by
  simp [pathsToRead, h]

theorem execute_of_help {arguments : List String} (h : helpOption ∈ arguments)
    (read : ReadBytes) (environment : Environment) :
    execute read environment arguments = (usage, []) := by
  simp [execute, h]

theorem execute_reads {read' : ReadBytes} {arguments : List String}
    (h : ∀ path ∈ pathsToRead environment arguments, read path = read' path) :
    execute read environment arguments = execute read' environment arguments := by
  by_cases hhelp : helpOption ∈ arguments
  · rw [execute_of_help hhelp, execute_of_help hhelp]
  · obtain ⟨r, rfl⟩ := Reading.exists_arguments_eq arguments
    rw [execute_arguments hhelp, execute_arguments hhelp]
    cases hd : r.dangling with
    | some side => rfl
    | none =>
      have hreport : report read (r.paths environment) r.names =
          report read' (r.paths environment) r.names :=
        report_congr fun name hname side hside =>
          h _ ((mem_pathsToRead_iff hhelp).2 ⟨hd, name, hname, side, hside, rfl⟩)
      simp only [hreport]

/-- Main result: a command answers its arguments as they are read from left to right, in the one way
in which they can be. A request for help anywhere comes first, then an option without a path, then
the lack of names; none of these reads a file. Otherwise the names and the last path for each side
make the report, wherever the options stand. No other file counts than those that are read. -/
theorem execute_as_read (read : ReadBytes) (environment : Environment)
    (arguments : List String) :
    (∀ read' : ReadBytes,
      (∀ path ∈ pathsToRead environment arguments, read path = read' path) →
      execute read environment arguments = execute read' environment arguments) ∧
    (helpOption ∈ arguments →
      execute read environment arguments = (usage, []) ∧
        pathsToRead environment arguments = []) ∧
    ∃ r : Reading, r.arguments = arguments ∧
      (∀ r' : Reading, r'.arguments = arguments → r' = r) ∧
      (helpOption ∉ arguments →
        (∀ side, r.dangling = some side →
          execute read environment arguments = (missingPath side, []) ∧
            pathsToRead environment arguments = []) ∧
        (r.dangling = none → r.names = [] →
          execute read environment arguments = (usage, []) ∧
            pathsToRead environment arguments = []) ∧
        (r.dangling = none → r.names ≠ [] →
          execute read environment arguments =
            report read (r.paths environment) r.names) ∧
        ∀ (r' : Reading) (environment' : Environment), helpOption ∉ r'.arguments →
          r.dangling = none → r'.dangling = none → r'.names = r.names →
          r'.paths environment' = r.paths environment →
          execute read environment' r'.arguments = execute read environment arguments) := by
  obtain ⟨r, rfl⟩ := Reading.exists_arguments_eq arguments
  refine ⟨fun read' h => execute_reads h,
    fun h => ⟨execute_of_help h read environment, pathsToRead_of_help h environment⟩, r, rfl,
    fun r' h => Reading.arguments_injective h, fun h => ⟨?_, ?_, ?_, ?_⟩⟩
  · intro side hside
    exact ⟨by simp [execute_arguments h, hside], pathsToRead_eq_nil h (by simp [hside])⟩
  · intro hside hnames
    exact ⟨by simp [execute_arguments h, hside, hnames], pathsToRead_eq_nil h fun _ => hnames⟩
  · intro hside hnames
    simp [execute_arguments h, hside, hnames]
  · intro r' environment' h' hside hside' hnames hpaths
    rw [execute_arguments h, execute_arguments h', hside, hside', hnames, hpaths]

/-- An option word as a path, and options between the names: only the last paths count, and the
environment may give them as well. -/
theorem execute_as_read_interleaved :
    let read : ReadBytes := fun _ => .error .notFound
    let arguments :=
      ["a.b@1.0::I", "--device", "--framework", "--framework", "f", "--device", "d", "c"]
    helpOption ∉ arguments ∧
    execute read ⟨none, none⟩ arguments = report read ⟨"f", "d"⟩ ["a.b@1.0::I", "c"] ∧
    execute read ⟨some "f", none⟩ ["--device", "d", "a.b@1.0::I", "c"] =
      execute read ⟨none, none⟩ arguments := by
  intro read arguments
  have hhelp : helpOption ∉ arguments := by decide
  let a : Part := .name "a.b@1.0::I" (optionSide?_eq_none_iff.1 rfl)
  let c : Part := .name "c" (optionSide?_eq_none_iff.1 rfl)
  let r : Reading := ⟨[a, .option .device "--framework", .option .framework "f",
    .option .device "d", c], none⟩
  obtain ⟨-, -, r', -, hunique, hread⟩ := execute_as_read read ⟨none, none⟩ arguments
  obtain rfl : r = r' := hunique r rfl
  obtain ⟨-, -, hreport, hsame⟩ := hread hhelp
  have hnames : r.names = ["a.b@1.0::I", "c"] := rfl
  refine ⟨hhelp, hreport rfl (by simp [hnames]), ?_⟩
  exact hsame ⟨[.option .device "d", a, c], none⟩ ⟨some "f", none⟩ (by decide) rfl rfl rfl rfl

end

end HalLink.CommandLine
