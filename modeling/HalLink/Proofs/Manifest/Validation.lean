import HalLink.Proofs.Manifest.Declarations
import HalLink.Proofs.Manifest.Loading
import HalLink.Proofs.Manifest.Shape

set_option autoImplicit false

namespace HalLink

def Version.Denoted (text : String) : Prop := ∃ v : Version, v.Denotes text.toList

namespace RawEntry

def Routable (r : RawEntry) : Prop := r.transport = "hwbinder" ∨ r.transport = "passthrough"

structure Valid (r : RawEntry) : Prop where
  transport : r.Routable
  versions : ∀ text ∈ r.versions, Version.Denoted text

structure StandsFor (r : RawEntry) (e : ManifestEntry) : Prop where
  name_eq : e.name = r.name
  transport : r.transport = "hwbinder" ∧ e.transport = .hwbinder ∨
    r.transport = "passthrough" ∧ e.transport = .passthrough
  versions : List.Forall₂ (fun text v => Version.Denotes text.toList v) r.versions e.versions

/-- The fault of an entry: its transport, or else the first of its versions that is none. -/
inductive Faulty (r : RawEntry) : EntryFault → Prop where
  | transport : ¬ r.Routable → Faulty r (.transport r.name r.transport)
  | version {before : List String} {text : String} {after : List String} :
      r.Routable → r.versions = before ++ text :: after →
      (∀ text' ∈ before, Version.Denoted text') → ¬ Version.Denoted text →
      Faulty r (.version r.name text)

variable {r : RawEntry} {e : ManifestEntry} {fault : EntryFault}

theorem parse?_transport_eq_some_iff {s : String} {t : Transport} :
    Transport.parse? s = some t ↔
      s = "hwbinder" ∧ t = .hwbinder ∨ s = "passthrough" ∧ t = .passthrough := by
  rw [Transport.parse?_eq_some_iff]
  cases t <;> simp [Transport.text]

theorem routable_iff : r.Routable ↔ ∃ t, Transport.parse? r.transport = some t := by
  simp only [parse?_transport_eq_some_iff, Routable, exists_or, exists_and_left, exists_eq,
    and_true]

theorem denoted_iff {text : String} :
    Version.Denoted text ↔ ∃ v, Version.parse? text = some v := by
  simp only [Version.parse?_eq_some_iff, Version.Denoted]

theorem check_eq_ok_iff_standsFor : r.check = .ok e ↔ r.StandsFor e := by
  rw [check_eq_ok_iff, parse?_transport_eq_some_iff]
  simp only [Version.parse?_eq_some_iff]
  exact ⟨fun ⟨hn, ht, hv⟩ => ⟨hn.symm, ht, hv⟩, fun h => ⟨h.name_eq.symm, h.transport, h.versions⟩⟩

theorem exists_check_eq_ok_iff : (∃ e, r.check = .ok e) ↔ r.Valid := by
  simp only [check_eq_ok_iff_standsFor]
  constructor
  · rintro ⟨e, he⟩
    refine ⟨he.transport.imp And.left And.left, ?_⟩
    exact exists_forall₂_iff.1 ⟨e.versions, he.versions⟩
  · rintro ⟨htransport, hversions⟩
    obtain ⟨vs, hvs⟩ := exists_forall₂_iff.2 hversions
    rcases htransport with ht | ht
    · exact ⟨⟨r.name, .hwbinder, vs⟩, rfl, .inl ⟨ht, rfl⟩, hvs⟩
    · exact ⟨⟨r.name, .passthrough, vs⟩, rfl, .inr ⟨ht, rfl⟩, hvs⟩

theorem check_eq_error_iff : r.check = .error fault ↔ r.Faulty fault := by
  unfold check
  cases ht : Transport.parse? r.transport with
  | none =>
    have hnot : ¬ r.Routable := by simp [routable_iff, ht]
    constructor
    · intro h
      obtain rfl := Except.error.inj h
      exact .transport hnot
    · intro h
      cases h with
      | transport _ => rfl
      | version hrouted _ _ _ => exact absurd hrouted hnot
  | some t =>
    have hrouted : r.Routable := routable_iff.2 ⟨t, ht⟩
    simp only [bind_eq_error_iff, mapM_eq_error_iff, pure, Except.pure, reduceCtorEq, false_or,
      Except.ok.injEq, exists_eq_left', and_false, exists_false, or_false]
    constructor
    · rintro ⟨before, text, after, hversions, hbefore, htext⟩
      have hdenoted : ∀ text' ∈ before, Version.Denoted text' := by
        intro text' hmem
        obtain ⟨v, hv⟩ := hbefore text' hmem
        split at hv
        · next w hw => exact denoted_iff.2 ⟨w, hw⟩
        · cases hv
      split at htext
      · cases htext
      · next hnone =>
        obtain rfl := Except.error.inj htext
        exact .version hrouted hversions hdenoted (by simp [denoted_iff, hnone])
    · intro h
      cases h with
      | transport hnot => exact absurd hrouted hnot
      | @version before text after _ hversions hbefore hnot =>
        have hnone : Version.parse? text = none := by
          simpa [denoted_iff, Option.eq_none_iff_forall_ne_some] using hnot
        refine ⟨before, text, after, hversions, fun text' hmem => ?_, by rw [hnone]⟩
        obtain ⟨v, hv⟩ := denoted_iff.1 (hbefore text' hmem)
        exact ⟨v, by rw [hv]⟩

end RawEntry

namespace Manifest

def FirstFault (raw : List RawEntry) (fault : EntryFault) : Prop :=
  ∃ before r after, raw = before ++ r :: after ∧ (∀ r' ∈ before, r'.Valid) ∧ r.Faulty fault

variable {raw : List RawEntry} {fault : EntryFault} {malformed : ManifestFault} {text : String}

theorem ofRaw_eq_ok_iff_standsFor {m : Manifest} :
    ofRaw raw = .ok m ↔ List.Forall₂ RawEntry.StandsFor raw m.entries := by
  simp only [ofRaw_eq_ok_iff, RawEntry.check_eq_ok_iff_standsFor]

theorem exists_ofRaw_eq_ok_iff : (∃ m, ofRaw raw = .ok m) ↔ ∀ r ∈ raw, r.Valid := by
  simp only [← RawEntry.exists_check_eq_ok_iff, ← exists_forall₂_iff, ofRaw_eq_ok_iff]
  exact ⟨fun ⟨m, h⟩ => ⟨m.entries, h⟩, fun ⟨entries, h⟩ => ⟨⟨entries⟩, h⟩⟩

theorem ofRaw_eq_error_iff : ofRaw raw = .error fault ↔ FirstFault raw fault := by
  have hmap : ofRaw raw = .error fault ↔ raw.mapM RawEntry.check = .error fault := by
    unfold ofRaw
    cases raw.mapM RawEntry.check <;> simp [Except.map]
  simp only [hmap, mapM_eq_error_iff, RawEntry.check_eq_error_iff, RawEntry.exists_check_eq_ok_iff,
    FirstFault]

theorem parse_eq_malformed_iff (hm : ∀ fault, malformed ≠ .entry fault) :
    parse malformed text = .error malformed ↔ ¬ ∃ raw, Lists text raw := by
  constructor
  · rintro h ⟨raw, hraw⟩
    rw [parse_of_lists hraw] at h
    obtain ⟨fault, hfault⟩ := mapError_eq_error h
    exact hm fault hfault
  · exact parse_of_not_lists

theorem load_eq_parse {read : ReadBytes} {path : String} (h : read.text path = .ok text) :
    load read path = parse (.malformedFile path) text := by simp only [load, h]

/-- Main result: raw entries are valid one and all, and then each stands for one entry of the
manifest; or the fault is that of the first entry that is not, and no entry after it matters. Texts
are checked only in a document that looks like a manifest from end to end; any other is
malformed. -/
theorem validated_whole :
    (∀ raw m, ofRaw raw = .ok m ↔ List.Forall₂ RawEntry.StandsFor raw m.entries) ∧
    (∀ raw, (∃ m, ofRaw raw = .ok m) ↔ ∀ r ∈ raw, r.Valid) ∧
    (∀ raw fault, ofRaw raw = .error fault ↔ FirstFault raw fault) ∧
    (∀ before r after fault, (∀ r' ∈ before, r'.Valid) → r.Faulty fault →
      ofRaw (before ++ r :: after) = .error fault) ∧
    (∀ text, (ofText text = .error .malformedText ↔ ¬ ∃ raw, Lists text raw) ∧
      ∀ raw, Lists text raw → ofText text = (ofRaw raw).mapError .entry) ∧
    (∀ read path text, ReadBytes.text read path = .ok text →
      (load read path = .error (.malformedFile path) ↔ ¬ ∃ raw, Lists text raw) ∧
      ∀ raw, Lists text raw → load read path = (ofRaw raw).mapError .entry) ∧
    ∀ text, (¬ ∃ raw, Lists text raw) ↔
      ∀ root, Toml.parse? text = some root → RawEntry.RootMisfit root := by
  refine ⟨fun raw m => ofRaw_eq_ok_iff_standsFor, fun raw => exists_ofRaw_eq_ok_iff,
    fun raw fault => ofRaw_eq_error_iff, fun before r after fault hbefore hr => ?_, fun text => ?_,
    fun read path text hread => ?_, fun text => not_lists_iff⟩
  · exact ofRaw_eq_error_iff.2 ⟨before, r, after, rfl, hbefore, hr⟩
  · exact ⟨parse_eq_malformed_iff (by simp), fun raw hraw => parse_of_lists hraw⟩
  · rw [load_eq_parse hread]
    exact ⟨parse_eq_malformed_iff (by simp), fun raw hraw => parse_of_lists hraw⟩

/-- Three faults in two entries, of which the first one counts. The fault of a transport counts only
as long as no other entry of the document has a number for a name. -/
theorem validated_whole_many_faults :
    let valid : RawEntry := ⟨"a.b", "hwbinder", ["1.0"]⟩
    let faulty : RawEntry := ⟨"c.d", "passthrough", ["01.2", "1.x", "2"]⟩
    let text := "[[hal]]\nname = \"e.f\"\ntransport = \"pigeon\"\n"
    let misfit := text ++ "[[hal]]\nname = 3\ntransport = \"hwbinder\"\n"
    let read : ReadBytes := fun _ => .ok misfit.toUTF8.toList
    ofRaw [valid, faulty, ⟨"e.f", "pigeon", []⟩] = .error (.version "c.d" "1.x") ∧
    ofText text = .error (.entry (.transport "e.f" "pigeon")) ∧
    load read "vintf.toml" = .error (.malformedFile "vintf.toml") := by
  intro valid faulty text misfit read
  obtain ⟨-, -, -, hfirst, htext, hfile, -⟩ := validated_whole
  have hvalid : ∀ r' ∈ [valid], r'.Valid := by
    rintro r' hr'
    obtain rfl := List.mem_singleton.1 hr'
    exact ⟨.inl rfl, List.forall_mem_singleton.2 (RawEntry.denoted_iff.2 ⟨⟨1, 0⟩, by decide⟩)⟩
  have hfaulty : faulty.Faulty (.version "c.d" "1.x") := by
    have hnot : ¬ Version.Denoted "1.x" := by
      have hnone : Version.parse? "1.x" = none := by decide
      simp [RawEntry.denoted_iff, hnone]
    exact @RawEntry.Faulty.version faulty ["01.2"] "1.x" ["2"] (.inr rfl) rfl
      (List.forall_mem_singleton.2 (RawEntry.denoted_iff.2 ⟨⟨1, 2⟩, by decide⟩)) hnot
  have hlists : Lists text [⟨"e.f", "pigeon", []⟩] := lists_iff.2 (by decide +kernel)
  have hread : ReadBytes.text read "vintf.toml" = .ok misfit := by decide +kernel
  refine ⟨hfirst [valid] faulty _ _ hvalid hfaulty, ?_, (hfile _ _ _ hread).1.2 ?_⟩
  · rw [(htext text).2 _ hlists]
    decide
  · exact (htext misfit).1.1 (by decide +kernel)

end Manifest

end HalLink
