import HalLink.Proofs.Catalog.Requests
import HalLink.Proofs.Manifest.Validation
import HalLink.Proofs.Text.Utf8

set_option autoImplicit false

namespace HalLink

def ReadBytes.Holds (read : ReadBytes) (path text : String) : Prop :=
  read path = .ok (Utf8.encode text)

def ManifestFault.inFile (path : String) : ManifestFault → ManifestFault
  | .malformedText => .malformedFile path
  | fault => fault

/-- Why a path leads to no manifest, stage by stage: there are no bytes, they are no text, it is no
document, that does not look like a manifest, or an entry of it is not valid. -/
inductive Unusable (read : ReadBytes) (path : String) : ManifestFault → Prop
  | unreadable {cause : ReadFault} :
      read path = .error cause → Unusable read path (.unreadable path cause)
  | noText {bytes : List UInt8} :
      read path = .ok bytes → (∀ text, bytes ≠ Utf8.encode text) →
      Unusable read path (.unreadable path .invalidText)
  | noDocument {text : String} :
      read.Holds path text → Toml.parse? text = none → Unusable read path (.malformedFile path)
  | misfit {text : String} {root : List (String × Toml.Value)} :
      read.Holds path text → Toml.parse? text = some root → RawEntry.RootMisfit root →
      Unusable read path (.malformedFile path)
  | entry {text : String} {raw : List RawEntry} {fault : EntryFault} :
      read.Holds path text → Manifest.Lists text raw → Manifest.FirstFault raw fault →
      Unusable read path (.entry fault)

variable {read : ReadBytes} {path text : String}

theorem text_eq_ok_iff : read.text path = .ok text ↔ read.Holds path text := by
  unfold ReadBytes.text ReadBytes.Holds
  cases read path with
  | error cause => simp [bind, Except.bind]
  | ok bytes =>
    rw [Except.ok.injEq, ← Utf8.decode_eq_ok_iff]
    simp only [bind, Except.bind]
    cases Utf8.decode bytes <;> simp

theorem text_eq_error_iff {cause : ReadFault} :
    read.text path = .error cause ↔ read path = .error cause ∨
      cause = .invalidText ∧ ∃ bytes, read path = .ok bytes ∧ ∀ text, bytes ≠ Utf8.encode text := by
  unfold ReadBytes.text
  cases read path with
  | error cause' => simp [bind, Except.bind]
  | ok bytes =>
    have hdecode : (∀ text, bytes ≠ Utf8.encode text) ↔ ∀ text, Utf8.decode bytes ≠ .ok text :=
      forall_congr' fun text => not_congr Utf8.decode_eq_ok_iff.symm
    simp only [bind, Except.bind, reduceCtorEq, Except.ok.injEq, exists_eq_left', false_or, hdecode]
    cases Utf8.decode bytes <;> simp [eq_comm]

namespace Manifest

theorem load_eq_ofText (h : read.Holds path text) :
    load read path = (ofText text).mapError (.inFile path) := by
  rw [load_eq_parse (text_eq_ok_iff.2 h), ofText]
  unfold parse
  cases (Toml.parse? text).bind RawEntry.ofRoot? with
  | none => rfl
  | some raw =>
    dsimp only
    cases ofRaw raw <;> rfl

theorem load_eq_ok_iff {m : Manifest} : load read path = .ok m ↔
    ∃ text raw, read.Holds path text ∧ Lists text raw ∧
      List.Forall₂ RawEntry.StandsFor raw m.entries := by
  constructor
  · intro h
    unfold load at h
    split at h
    · cases h
    · next text htext =>
      obtain ⟨raw, hraw, hm⟩ := parse_eq_ok_iff.1 h
      exact ⟨text, raw, text_eq_ok_iff.1 htext, lists_iff.2 hraw, ofRaw_eq_ok_iff_standsFor.1 hm⟩
  · rintro ⟨text, raw, hread, hraw, hm⟩
    rw [load_eq_parse (text_eq_ok_iff.2 hread), parse_eq_ok_iff]
    exact ⟨raw, lists_iff.1 hraw, ofRaw_eq_ok_iff_standsFor.2 hm⟩

theorem parse_eq_error_iff {malformed fault : ManifestFault} :
    parse malformed text = .error fault ↔
      (¬ ∃ raw, Lists text raw) ∧ fault = malformed ∨ ∃ raw entryFault,
        Lists text raw ∧ FirstFault raw entryFault ∧ fault = .entry entryFault := by
  -- A text lists one thing at most, so what is said of some list is said of this one.
  by_cases h : ∃ raw, Lists text raw
  · obtain ⟨raw, hraw⟩ := h
    have hunique : ∀ raw', Lists text raw' ↔ raw = raw' := fun raw' => by
      rw [lists_iff, lists_iff.1 hraw, Option.some.injEq]
    simp only [parse_of_lists hraw, hunique, exists_eq', not_true, false_and, false_or,
      ← ofRaw_eq_error_iff, exists_and_left, exists_eq_left']
    cases ofRaw raw <;> simp [Except.mapError, eq_comm]
  · have hnone : ∀ raw, ¬ Lists text raw := not_exists.1 h
    simp [parse_of_not_lists h, hnone, eq_comm]

theorem load_eq_error_iff {fault : ManifestFault} :
    load read path = .error fault ↔ Unusable read path fault := by
  unfold load
  constructor
  · intro h
    split at h
    · next cause hcause =>
      obtain rfl := Except.error.inj h
      rcases text_eq_error_iff.1 hcause with hread | ⟨rfl, bytes, hread, hbytes⟩
      · exact .unreadable hread
      · exact .noText hread hbytes
    · next text htext =>
      have hread := text_eq_ok_iff.1 htext
      rcases parse_eq_error_iff.1 h with ⟨hnot, rfl⟩ | ⟨raw, entryFault, hraw, hfault, rfl⟩
      · cases hparse : Toml.parse? text with
        | none => exact .noDocument hread hparse
        | some root => exact .misfit hread hparse (not_lists_iff.1 hnot root hparse)
      · exact .entry hread hraw hfault
  · intro h
    cases h with
    | unreadable hread => rw [text_eq_error_iff.2 (.inl hread)]
    | noText hread hbytes => rw [text_eq_error_iff.2 (.inr ⟨rfl, _, hread, hbytes⟩)]
    | @noDocument text hread hparse =>
      rw [text_eq_ok_iff.2 hread]
      refine parse_of_not_lists (not_lists_iff.2 fun root hroot => ?_)
      rw [hparse] at hroot
      cases hroot
    | @misfit text root hread hparse hmisfit =>
      rw [text_eq_ok_iff.2 hread]
      refine parse_of_not_lists (not_lists_iff.2 fun root' hroot' => ?_)
      obtain rfl := Option.some.inj (hparse.symm.trans hroot')
      exact hmisfit
    | entry hread hraw hfault =>
      rw [text_eq_ok_iff.2 hread]
      exact parse_eq_error_iff.2 (.inr ⟨_, _, hraw, hfault, rfl⟩)

end Manifest

section

variable {side : Side} {m : Manifest} {fault : ManifestFault}

theorem loadSide_of_ok (h : Manifest.load read path = .ok m) :
    loadSide read side path = (some m, [.loaded side path m.size]) := by
  simp only [loadSide, h]

theorem loadSide_of_error (h : Manifest.load read path = .error fault)
    (hread : read path ≠ .error .notFound) :
    loadSide read side path = (none, [.ignored side fault]) := by
  unfold loadSide
  split
  · next hm => cases h.symm.trans hm
  · next p hp => exact absurd (Manifest.load_eq_notFound_iff.1 ⟨p, hp⟩) hread
  · next fault' _ hfault =>
    obtain rfl := Except.error.inj (h.symm.trans hfault)
    rfl

theorem loadSide_eq_silent_iff :
    loadSide read side path = (none, []) ↔ read path = .error .notFound := by
  constructor
  · intro h
    refine Decidable.byContradiction fun hread => ?_
    cases hload : Manifest.load read path with
    | ok m => cases (loadSide_of_ok hload).symm.trans h
    | error fault => cases (loadSide_of_error hload hread).symm.trans h
  · intro h
    simp only [loadSide, Manifest.load_eq_error_iff.2 (.unreadable h)]

end

namespace Catalog

variable {c : Catalog} {side : Side}

theorem manifest_of_unread (h : c.cells.get side = .unread) (read : ReadBytes) :
    (c.manifest read side).answer = (loadSide read side (c.paths.get side)).1 ∧
      (c.manifest read side).events = (loadSide read side (c.paths.get side)).2 := by
  simp [manifest, h]

theorem cells_ask_of_settled {m : Option Manifest} (h : c.cells.get side = .settled m)
    (read : ReadBytes) (q : Query) : (c.ask read q).catalog.cells.get side = .settled m := by
  rw [ask_eq]
  by_cases hq : q.side? = some side
  · rw [hq, cells_consulted_self, visible_settled h]
  · rw [cells_consulted_of_ne c read hq, h]

theorem cells_afterQueries_of_settled {m : Option Manifest} (h : c.cells.get side = .settled m)
    (history : List (ReadBytes × Query)) :
    (c.afterQueries history).cells.get side = .settled m := by
  induction history generalizing c with
  | nil => exact h
  | cons earlier rest ih => exact ih (cells_ask_of_settled h earlier.1 earlier.2)

theorem answer_of_absent (h : (c.visible read).get side = none) (q : Query) :
    (c.ask read q).answer = q.fixedAnswer c.paths ((c.visible read).set none side) := by
  have hset : (c.visible read).set none side = c.visible read :=
    h ▸ (c.visible read).set_get_self side
  rw [ask_eq, hset]

theorem answer_after_absent (h : (c.visible read).get side = none) {first : Query}
    (hfirst : first.side? = some side) (later : List (ReadBytes × Query)) (read' : ReadBytes)
    (q : Query) :
    let c' := (c.ask read first).catalog.afterQueries later
    (c'.ask read' q).answer = q.fixedAnswer c.paths ((c'.visible read').set none side) := by
  intro c'
  have hsettled : (c.ask read first).catalog.cells.get side = .settled none := by
    rw [ask_eq, hfirst, cells_consulted_self, h]
  have hpaths : c'.paths = c.paths := by
    rw [paths_afterQueries, ask_eq, paths_consulted]
  rw [← hpaths]
  exact answer_of_absent (visible_settled (cells_afterQueries_of_settled hsettled later) read') q

end Catalog

/-- Main result: a file is read as its text is. The side has the manifest if there is one, with a
record of how many entries it has; without a file it has none, and no record says so; and for any
other fault, which may lie at each stage and in a single entry, it has none, with a warning. Then
no query is ever answered from that file, nor from what takes its place later. -/
theorem side_whole_or_absent (c : Catalog) (read : ReadBytes) (side : Side)
    (hunread : c.cells.get side = .unread) :
    let path := c.paths.get side
    let found := c.manifest read side
    (∀ text, read.Holds path text →
      Manifest.load read path = (Manifest.ofText text).mapError (.inFile path)) ∧
    (∀ m, Manifest.load read path = .ok m ↔ ∃ text raw, read.Holds path text ∧
      Manifest.Lists text raw ∧ List.Forall₂ RawEntry.StandsFor raw m.entries) ∧
    (∀ fault, Manifest.load read path = .error fault ↔ Unusable read path fault) ∧
    (∀ m, found.answer = some m ↔ Manifest.load read path = .ok m) ∧
    (∀ m, found.answer = some m → found.events.map Event.record =
      [⟨.debug, "HidlSupport", "loaded " ++ side.label ++ " manifest from " ++ path ++ " (" ++
        toString m.entries.length ++ " hals)"⟩]) ∧
    (found.answer = none ∧ found.events = [] ↔ read path = .error .notFound) ∧
    (∀ fault, Unusable read path fault → read path ≠ .error .notFound →
      found.answer = none ∧ found.events.map Event.record =
        [⟨.warn, "HidlSupport", "ignoring " ++ side.label ++ " manifest: " ++ fault.message⟩]) ∧
    ∀ fault first, Unusable read path fault → first.side? = some side →
      (c.ask read first).answer = first.fixedAnswer c.paths ((c.visible read).set none side) ∧
      ∀ later read' q,
        let c' := (c.ask read first).catalog.afterQueries later
        (c'.ask read' q).answer = q.fixedAnswer c.paths ((c'.visible read').set none side) := by
  intro path found
  obtain ⟨hanswer, hevents⟩ : found.answer = (loadSide read side path).1 ∧
      found.events = (loadSide read side path).2 := Catalog.manifest_of_unread hunread read
  have hloaded : ∀ m, found.answer = some m ↔ Manifest.load read path = .ok m := fun m => by
    rw [hanswer, loadSide_fst, toOption_eq_some_iff]
  refine ⟨fun text => Manifest.load_eq_ofText, fun m => Manifest.load_eq_ok_iff,
    fun fault => Manifest.load_eq_error_iff, hloaded, fun m hm => ?_, ?_,
    fun fault hfault hread => ?_, fun fault first hfault hfirst => ?_⟩
  · rw [hevents, loadSide_of_ok ((hloaded m).1 hm)]
    rfl
  · rw [hanswer, hevents, ← loadSide_eq_silent_iff, Prod.ext_iff]
  · rw [hanswer, hevents, loadSide_of_error (Manifest.load_eq_error_iff.2 hfault) hread]
    exact ⟨rfl, rfl⟩
  · have hnone : (c.visible read).get side = none := by
      rw [Catalog.visible_unread hunread, Manifest.load_eq_error_iff.2 hfault]
      rfl
    exact ⟨Catalog.answer_of_absent hnone first, Catalog.answer_after_absent hnone hfirst⟩

/-- One bad version in the second of two entries: the first entry is not seen either, also once the
file is mended, though whoever reads the mended file first sees it. -/
theorem side_whole_or_absent_one_bad_version :
    let good := "[[hal]]\nname = \"a.b\"\ntransport = \"hwbinder\"\nversions = [\"1.0\"]\n"
    let faulty := good ++ "[[hal]]\nname = \"c.d\"\ntransport = \"hwbinder\"\nversions = [\"1\"]\n"
    let c := Catalog.ofPaths ⟨"f", "d"⟩
    let read : ReadBytes := fun _ => .ok (Utf8.encode faulty)
    let mended : ReadBytes := fun _ => .ok (Utf8.encode good)
    let first := Query.declared .device "a.b" ⟨1, 0⟩
    Unusable read "d" (.entry (.version "c.d" "1")) ∧
    (c.manifest read .device).events.map Event.record =
      [⟨.warn, "HidlSupport", "ignoring device manifest: hal c.d: invalid version \"1\""⟩] ∧
    (c.ask read first).answer = .declared none ∧
    (((c.ask read first).catalog.afterQueries [(mended, .hasManifest .device)]).ask mended
      (.transport "a.b@1.0::I")).answer = .transport .empty ∧
    Manifest.load mended "d" = .ok ⟨[⟨"a.b", .hwbinder, [⟨1, 0⟩]⟩]⟩ ∧
    (c.manifest mended .device).events.map Event.record =
      [⟨.debug, "HidlSupport", "loaded device manifest from d (1 hals)"⟩] := by
  intro good faulty c read mended first
  obtain ⟨-, -, hfault, -, -, -, hwarn, hanswers⟩ := side_whole_or_absent c read .device rfl
  obtain ⟨htext, -, -, hloaded, hdebug, -, -, -⟩ := side_whole_or_absent c mended .device rfl
  have hunusable : Unusable read "d" (.entry (.version "c.d" "1")) :=
    (hfault _).1 (by decide +kernel)
  have hmended : Manifest.load mended "d" = .ok ⟨[⟨"a.b", .hwbinder, [⟨1, 0⟩]⟩]⟩ :=
    (htext good rfl).trans (by decide +kernel)
  obtain ⟨hfirst, hlater⟩ := hanswers _ first hunusable rfl
  refine ⟨hunusable, ?_, hfirst, ?_, hmended, ?_⟩
  · rw [(hwarn _ hunusable (by simp [read])).2]
    decide +kernel
  · rw [hlater [(mended, .hasManifest .device)] mended (.transport "a.b@1.0::I")]
    exact congrArg QueryResult.transport (by decide +kernel)
  · rw [hdebug _ ((hloaded _).2 hmended)]
    decide +kernel

end HalLink
