import HalLink.Proofs.Catalog.Degradation

set_option autoImplicit false

namespace HalLink

inductive Announced (manifests : Sides (Option Manifest)) (text : String) :
    Except LookupFault Decision → String → Prop
  | invalidName :
      (∀ n, ¬ InterfaceName.Spells text.toList n) →
      Announced manifests text (.error (.invalidName text))
        ("getTransport: " ++ text ++ " is not a valid fully-qualified name.")
  | missingVersion {n : InterfaceName} :
      InterfaceName.Spells text.toList n → n.version = none →
      Announced manifests text (.error (.missingVersion n.render))
        ("getTransport: " ++ n.render ++ " does not specify a version. Using default transport.")
  | missingManifest {n : InterfaceName} {v : Version} {side : Side} :
      Asks text n v side → manifests.get side = none →
      Announced manifests text (.error (.missingManifest side n.render))
        ("getTransportFromManifest: No " ++ side.label ++
          " manifest defined, using default transport for " ++ n.render)
  | missingEntry {n : InterfaceName} {v : Version} {side : Side} {m : Manifest} :
      Asks text n v side → manifests.get side = some m → m.transportOf n.package v = .empty →
      Announced manifests text (.error (.missingEntry side n.render))
        ("getTransportFromManifest: Cannot find entry " ++ n.render ++ " in " ++ side.label ++
          " manifest, using default transport.")
  | declared {n : InterfaceName} {v : Version} {side : Side} {m : Manifest} {t : Transport} :
      Asks text n v side → manifests.get side = some m → m.transportOf n.package v = t →
      t ≠ .empty → Announced manifests text (.ok ⟨n, side, t⟩)
        ("getTransportFromManifest: " ++ n.render ++ " declares transport method " ++ t.text ++
          " in " ++ side.label ++ " manifest")

/-- How the transport that is returned and the record beside it go with an outcome. -/
structure Reports (manifests : Sides (Option Manifest)) (text : String)
    (outcome : Except LookupFault Decision) (transport : Transport) (record : LogRecord) :
    Prop where
  of_ok : ∀ d, outcome = .ok d → transport = d.transport ∧ d.transport ≠ .empty
  of_error : ∀ fault, outcome = .error fault → transport = .empty
  target : record.target = "HidlSupport"
  debug_iff : record.level = .debug ↔ transport ≠ .empty
  error_iff : record.level = .error ↔ Unversioned text
  warn_iff : record.level = .warn ↔ ∃ n v side, Asks text n v side ∧
    (manifests.get side = none ∨
      ∃ m, manifests.get side = some m ∧ m.transportOf n.package v = .empty)
  message : Announced manifests text outcome record.message

/-- The record of reading a side, by what lies at its path: nothing, a manifest from end to end, or
something else. -/
inductive LoadRecords (read : ReadBytes) (side : Side) (path : String) : List LogRecord → Prop
  | absent : read path = .error .notFound → LoadRecords read side path []
  | loaded {text : String} {raw : List RawEntry} :
      read.Holds path text → Manifest.Lists text raw → (∀ entry ∈ raw, entry.Valid) →
      LoadRecords read side path [⟨.debug, "HidlSupport", "loaded " ++ side.label ++
        " manifest from " ++ path ++ " (" ++ toString raw.length ++ " hals)"⟩]
  | ignored {fault : ManifestFault} :
      Unusable read path fault → read path ≠ .error .notFound →
      LoadRecords read side path [⟨.warn, "HidlSupport", "ignoring " ++ side.label ++
        " manifest: " ++ fault.message⟩]

/-- The records that come before that of a resolution, after these earlier queries. -/
inductive Preceding (paths : Sides String) (history : List (ReadBytes × Query)) (read : ReadBytes)
    (text : String) : List LogRecord → Prop
  | unversioned : Unversioned text → Preceding paths history read text []
  | consulted {n : InterfaceName} {v : Version} {side : Side} :
      Asks text n v side → (∃ earlier ∈ history, earlier.2.side? = some side) →
      Preceding paths history read text []
  | first {n : InterfaceName} {v : Version} {side : Side} {records : List LogRecord} :
      Asks text n v side → (∀ earlier ∈ history, earlier.2.side? ≠ some side) →
      LoadRecords read side (paths.get side) records →
      Preceding paths history read text records

section

variable {manifests : Sides (Option Manifest)} {text message : String}
  {outcome : Except LookupFault Decision}

theorem announced_settle {n : InterfaceName} {v : Version} {side : Side}
    (h : Asks text n v side) :
    Announced manifests text (settle n (manifests.get side))
      (resolutionRecord (settle n (manifests.get side))).message := by
  obtain ⟨-, hv, rfl⟩ := asks_iff.1 h
  cases hm : manifests.get n.side with
  | none =>
    rw [settle_none]
    exact .missingManifest h hm
  | some m =>
    rw [settle_some hv]
    split
    · next ht => exact .missingEntry h hm ht
    · next ht => exact .declared h hm rfl ht

theorem announced_resolve (manifests : Sides (Option Manifest)) (text : String) :
    Announced manifests text (resolve manifests text)
      (resolutionRecord (resolve manifests text)).message := by
  rcases asks_or_unversioned text with ⟨n, v, side, ha⟩ | hu
  · rw [ha.resolve_eq]
    exact announced_settle ha
  · cases hp : InterfaceName.parse text with
    | error fault =>
      rw [resolve_of_error hp]
      refine .invalidName fun n hn => ?_
      rw [InterfaceName.parse_complete hn] at hp
      cases hp
    | ok n =>
      have hn := InterfaceName.parse_sound hp
      rw [resolve_of_unversioned hp (hu n hn)]
      exact .missingVersion hn (hu n hn)

theorem Announced.ne_empty_of_ok (h : Announced manifests text outcome message) {d : Decision}
    (hd : outcome = .ok d) : d.transport ≠ .empty := by
  cases h with
  | declared _ _ _ ht =>
    obtain rfl := Except.ok.inj hd
    exact ht
  | _ => cases hd

theorem Announced.debug_iff (h : Announced manifests text outcome message) :
    (resolutionRecord outcome).level = .debug ↔ resolvedTransport outcome ≠ .empty := by
  cases h with
  | declared _ _ _ ht => exact iff_of_true rfl ht
  | _ => simp [resolutionRecord, resolvedTransport, LookupFault.level]

theorem Announced.error_iff (h : Announced manifests text outcome message) :
    (resolutionRecord outcome).level = .error ↔ Unversioned text := by
  cases h with
  | invalidName hn => exact iff_of_true rfl fun n hs => absurd hs (hn n)
  | missingVersion hn hv =>
    refine iff_of_true rfl fun n' hn' => ?_
    have hparse := InterfaceName.parse_complete hn
    rw [InterfaceName.parse_complete hn'] at hparse
    exact Except.ok.inj hparse ▸ hv
  | missingManifest ha _ | missingEntry ha _ _ | declared ha _ _ _ =>
    exact iff_of_false (by simp [resolutionRecord, LookupFault.level]) ha.not_unversioned

theorem Announced.warn_iff (h : Announced manifests text outcome message) :
    (resolutionRecord outcome).level = .warn ↔ ∃ n v side, Asks text n v side ∧
      (manifests.get side = none ∨
        ∃ m, manifests.get side = some m ∧ m.transportOf n.package v = .empty) := by
  have hrecord := h.error_iff
  cases h with
  | missingManifest ha hm => exact iff_of_true rfl ⟨_, _, _, ha, .inl hm⟩
  | missingEntry ha hm ht => exact iff_of_true rfl ⟨_, _, _, ha, .inr ⟨_, hm, ht⟩⟩
  | declared ha hm hd ht =>
    refine iff_of_false (by simp [resolutionRecord]) ?_
    rintro ⟨n, v, side, ha', hwarn⟩
    obtain ⟨rfl, rfl, rfl⟩ := ha.unique ha'
    rw [hm] at hwarn
    rcases hwarn with hnone | ⟨m, hm', hempty⟩
    · cases hnone
    · obtain rfl := Option.some.inj hm'
      exact ht (hd ▸ hempty)
  | _ =>
    have hu := hrecord.1 rfl
    exact iff_of_false (by simp [resolutionRecord, LookupFault.level])
      fun ⟨_, _, _, ha, _⟩ => ha.not_unversioned hu

theorem target_resolutionRecord (outcome : Except LookupFault Decision) :
    (resolutionRecord outcome).target = "HidlSupport" := by cases outcome <;> rfl

theorem reports_resolve (manifests : Sides (Option Manifest)) (text : String) :
    Reports manifests text (resolve manifests text) (resolvedTransport (resolve manifests text))
      (resolutionRecord (resolve manifests text)) := by
  have h := announced_resolve manifests text
  exact {
    of_ok := fun d hd => ⟨by rw [hd]; rfl, h.ne_empty_of_ok hd⟩
    of_error := fun fault hf => by rw [hf]; rfl
    target := target_resolutionRecord _
    debug_iff := h.debug_iff
    error_iff := h.error_iff
    warn_iff := h.warn_iff
    message := h }

end

theorem loadRecords_iff {read : ReadBytes} {side : Side} {path : String}
    {records : List LogRecord} : LoadRecords read side path records ↔
      records = (loadSide read side path).2.map Event.record := by
  constructor
  · intro h
    cases h with
    | absent hread => rw [loadSide_eq_silent_iff.2 hread, List.map_nil]
    | @loaded text raw hread hraw hvalid =>
      obtain ⟨m, hm⟩ := Manifest.exists_ofRaw_eq_ok_iff.2 hvalid
      have hstands := Manifest.ofRaw_eq_ok_iff_standsFor.1 hm
      rw [loadSide_of_ok (Manifest.load_eq_ok_iff.2 ⟨text, raw, hread, hraw, hstands⟩),
        hstands.length_eq]
      rfl
    | ignored hfault hread =>
      rw [loadSide_of_error (Manifest.load_eq_error_iff.2 hfault) hread]
      rfl
  · rintro rfl
    cases hload : Manifest.load read path with
    | ok m =>
      obtain ⟨text, raw, hread, hraw, hstands⟩ := Manifest.load_eq_ok_iff.1 hload
      have hvalid := Manifest.exists_ofRaw_eq_ok_iff.1
        ⟨m, Manifest.ofRaw_eq_ok_iff_standsFor.2 hstands⟩
      have hloaded : LoadRecords read side path _ := .loaded hread hraw hvalid
      rw [hstands.length_eq] at hloaded
      rwa [loadSide_of_ok hload]
    | error fault =>
      have hfault := Manifest.load_eq_error_iff.1 hload
      by_cases hread : read path = .error .notFound
      · rw [loadSide_eq_silent_iff.2 hread]
        exact .absent hread
      · rw [loadSide_of_error hload hread]
        exact .ignored hfault hread

theorem cells_afterQueries_ofPaths (paths : Sides String) (history : List (ReadBytes × Query))
    (side : Side) : ((Catalog.ofPaths paths).afterQueries history).cells.get side = .unread ↔
      ∀ earlier ∈ history, earlier.2.side? ≠ some side := by
  rw [Catalog.cells_afterQueries_eq_unread_iff]
  cases side <;> simp [Catalog.ofPaths, Sides.get]

theorem preceding_iff {paths : Sides String} {history : List (ReadBytes × Query)}
    {read : ReadBytes} {text : String} {records : List LogRecord} :
    Preceding paths history read text records ↔
      records = (((Catalog.ofPaths paths).afterQueries history).resolve read text).events.map
        Event.record := by
  have hunread := cells_afterQueries_ofPaths paths history
  have hpaths : ((Catalog.ofPaths paths).afterQueries history).paths = paths := by
    rw [Catalog.paths_afterQueries]
    rfl
  generalize (Catalog.ofPaths paths).afterQueries history = c at hunread hpaths
  rcases asks_or_unversioned text with ⟨n, v, side, ha⟩ | hu
  · rw [c.resolve_of_asks read ha]
    simp only [Catalog.loadEvents]
    cases hcell : c.cells.get side with
    | unread =>
      have hfirst := (hunread side).1 hcell
      rw [hpaths, ← loadRecords_iff]
      constructor
      · intro h
        cases h with
        | unversioned hu => exact absurd hu ha.not_unversioned
        | consulted ha' hearlier =>
          obtain ⟨-, -, rfl⟩ := ha.unique ha'
          obtain ⟨earlier, hmem, hside⟩ := hearlier
          exact absurd hside (hfirst earlier hmem)
        | first ha' _ hrecords =>
          obtain ⟨-, -, rfl⟩ := ha.unique ha'
          exact hrecords
      · exact .first ha hfirst
    | settled m =>
      have hearlier : ¬ ∀ earlier ∈ history, earlier.2.side? ≠ some side := by
        rw [← hunread, hcell]
        simp
      constructor
      · intro h
        cases h with
        | unversioned _ => rfl
        | consulted _ _ => rfl
        | first ha' hfirst _ =>
          obtain ⟨-, -, rfl⟩ := ha.unique ha'
          exact absurd hfirst hearlier
      · rintro rfl
        exact .consulted ha (by simpa using hearlier)
  · obtain ⟨fault, -, hr⟩ := c.resolve_of_unversioned read hu
    rw [hr]
    constructor
    · intro h
      cases h with
      | unversioned _ => rfl
      | consulted ha _ | first ha _ _ => exact absurd hu ha.not_unversioned
    · rintro rfl
      exact .unversioned hu

theorem Preceding.eq_nil_iff {paths : Sides String} {history : List (ReadBytes × Query)}
    {read : ReadBytes} {text : String} {records : List LogRecord}
    (h : Preceding paths history read text records) :
    records = [] ↔ ∀ n v side, Asks text n v side →
      (∀ earlier ∈ history, earlier.2.side? ≠ some side) →
      read (paths.get side) = .error .notFound := by
  cases h with
  | unversioned hu =>
    exact iff_of_true rfl fun n v side ha => absurd hu ha.not_unversioned
  | consulted ha hearlier =>
    refine iff_of_true rfl fun n v side ha' hfirst => ?_
    obtain ⟨-, -, rfl⟩ := ha.unique ha'
    obtain ⟨earlier, hmem, hside⟩ := hearlier
    exact absurd hside (hfirst earlier hmem)
  | @first n v side _ ha hfirst hrecords =>
    have hiff : (∀ n v side, Asks text n v side →
        (∀ earlier ∈ history, earlier.2.side? ≠ some side) →
        read (paths.get side) = .error .notFound) ↔ read (paths.get side) = .error .notFound := by
      refine ⟨fun hall => hall n v side ha hfirst, fun hread n' v' side' ha' _ => ?_⟩
      obtain ⟨-, -, rfl⟩ := ha.unique ha'
      exact hread
    rw [hiff]
    cases hrecords with
    | absent hread => exact iff_of_true rfl hread
    | loaded hread _ _ =>
      refine iff_of_false (by simp) fun hnone => ?_
      cases hread.symm.trans hnone
    | ignored _ hread => exact iff_of_false (by simp) hread

/-- Main result: with two manifests that are given, and with a catalog after any queries, asking for
a transport returns what the resolution decides, or the caller's default, and ends the log with one
record that says so. With given manifests that is all. A catalog that reads a side for this puts the
record of the load before it, for which there is one possibility; there is none just where the file
does not exist. -/
theorem transport_reports :
    (∀ (manifests : Sides (Option Manifest)) (text : String), ∃ record : LogRecord,
      (transport manifests text).records = [record] ∧
      Reports manifests text (resolve manifests text) (transport manifests text).transport
        record) ∧
    ∀ (paths : Sides String) (history : List (ReadBytes × Query)) (read : ReadBytes)
      (text : String),
      let c := (Catalog.ofPaths paths).afterQueries history
      ∃ (before : List LogRecord) (record : LogRecord),
        (c.transport read text).events.map Event.record = before ++ [record] ∧
        (∀ records, Preceding paths history read text records ↔ records = before) ∧
        (before = [] ↔ ∀ n v side, Asks text n v side →
          (∀ earlier ∈ history, earlier.2.side? ≠ some side) →
          read (paths.get side) = .error .notFound) ∧
        Reports (c.visible read) text (c.resolve read text).answer (c.transport read text).answer
          record := by
  refine ⟨fun manifests text => ⟨_, rfl, reports_resolve manifests text⟩,
    fun paths history read text => ?_⟩
  intro c
  refine ⟨_, resolutionRecord (c.resolve read text).answer, ?_, fun records => preceding_iff,
    (preceding_iff.2 rfl).eq_nil_iff, ?_⟩
  · rw [c.transport_eq, List.map_append]
    rfl
  · have h := reports_resolve (c.visible read) text
    rw [c.transport_eq, c.resolve_eq]
    exact h

end HalLink
