import HalLink.Proofs.Manifest.Declarations
import HalLink.Proofs.Manifest.Loading
import HalLink.Routing

/-!
Manifests as they can be built: read from text or a file, and extended entry by entry. What is read
never leaves a transport open, but an entry that is added may, and then it hides every later entry
that serves the same package and version.
-/

set_option autoImplicit false

namespace HalLink

def ManifestEntry.Declares (e : ManifestEntry) : Prop := e.transport ≠ .empty

namespace Manifest

/-- Manifests that are built in any number of steps, if each entry that is added is `admitted`. -/
inductive Built (admitted : ManifestEntry → Prop) : Manifest → Prop
  | empty : Built admitted .empty
  | add {m : Manifest} {e : ManifestEntry} :
      Built admitted m → admitted e → Built admitted (m.add e)
  | ofText {text : String} {m : Manifest} : ofText text = .ok m → Built admitted m
  | load {read : ReadBytes} {path : String} {m : Manifest} :
      load read path = .ok m → Built admitted m

variable {m : Manifest}

theorem declares_of_ofRaw {raw : List RawEntry} (h : ofRaw raw = .ok m) :
    ∀ e ∈ m.entries, e.Declares := by
  rw [ofRaw_eq_ok_iff] at h
  generalize m.entries = entries at h
  induction h with
  | nil => simp
  | cons hcheck _ ih =>
    have ht := Transport.parse?_eq_some_iff.1 (RawEntry.check_eq_ok_iff.1 hcheck).2.1
    exact List.forall_mem_cons.2 ⟨ht.1, ih⟩

theorem declares_of_parse {malformed : ManifestFault} {text : String}
    (h : parse malformed text = .ok m) : ∀ e ∈ m.entries, e.Declares := by
  obtain ⟨raw, -, hraw⟩ := parse_eq_ok_iff.1 h
  exact declares_of_ofRaw hraw

theorem Built.declares (h : Built ManifestEntry.Declares m) : ∀ e ∈ m.entries, e.Declares := by
  induction h with
  | empty => simp [Manifest.empty]
  | add _ he ih =>
    rw [entries_add, List.forall_mem_append]
    exact ⟨ih, List.forall_mem_singleton.2 he⟩
  | ofText h => exact declares_of_parse h
  | load h =>
    obtain ⟨text, htext⟩ := parse_of_load h
    exact declares_of_parse htext

theorem transportOf_eq_empty_iff (h : ∀ e ∈ m.entries, e.Declares) (package : String)
    (v : Version) :
    m.transportOf package v = .empty ↔ ¬ ∃ e ∈ m.entries, e.name = package ∧ v ∈ e.versions := by
  have hnone : m.entries.find? (·.serves package v) = none ↔
      ¬ ∃ e ∈ m.entries, e.name = package ∧ v ∈ e.versions := by
    simp [List.find?_eq_none, ManifestEntry.serves]
  rw [← hnone]
  unfold transportOf
  cases hfind : m.entries.find? (·.serves package v) with
  | none => simp
  | some e =>
    have he : e.transport ≠ .empty := h e (List.mem_of_find?_eq_some hfind)
    simpa using he

theorem lookup_eq_missingEntry_iff {n : InterfaceName} {side side' : Side} {name : String} :
    lookup n side (some m) = .error (.missingEntry side' name) ↔
      (∃ v, n.version = some v ∧ m.transportOf n.package v = .empty) ∧ side = side' ∧
        n.render = name := by
  unfold lookup
  cases n.version with
  | none => simp
  | some v =>
    cases ht : m.transportOf n.package v <;> simp [ht]

/-- Main result: where only entries with a transport are added, none is without one; then nothing is
returned, and no entry is reported missing, but for what no entry lists. -/
theorem built_lists_iff (h : Built ManifestEntry.Declares m) :
    (∀ e ∈ m.entries, e.transport ≠ .empty) ∧
    (∀ (package : String) (v : Version), m.transportOf package v = .empty ↔
      ¬ ∃ e ∈ m.entries, e.name = package ∧ v ∈ e.versions) ∧
    ∀ (n : InterfaceName) (side : Side), lookup n side (some m) =
        .error (.missingEntry side n.render) ↔
      ∃ v, n.version = some v ∧ ¬ ∃ e ∈ m.entries, e.name = n.package ∧ v ∈ e.versions := by
  refine ⟨h.declares, transportOf_eq_empty_iff h.declares, fun n side => ?_⟩
  simp only [lookup_eq_missingEntry_iff, transportOf_eq_empty_iff h.declares, and_self, and_true]

/-- An entry that is added to what was read. -/
theorem built_lists_iff_added :
    let text := "[[hal]]\nname = \"a.b\"\ntransport = \"hwbinder\"\nversions = [\"1.0\"]\n"
    let m : Manifest :=
      ⟨[⟨"a.b", .hwbinder, [⟨1, 0⟩]⟩, ⟨"a.b", .passthrough, [⟨1, 0⟩, ⟨1, 1⟩]⟩]⟩
    ofText text = .ok ⟨[⟨"a.b", .hwbinder, [⟨1, 0⟩]⟩]⟩ ∧ Built ManifestEntry.Declares m ∧
    m.transportOf "a.b" ⟨1, 1⟩ ≠ .empty ∧ m.transportOf "a.b" ⟨2, 0⟩ = .empty := by
  intro text m
  have htext : ofText text = .ok ⟨[⟨"a.b", .hwbinder, [⟨1, 0⟩]⟩]⟩ := by decide +kernel
  have hdeclares : ManifestEntry.Declares ⟨"a.b", .passthrough, [⟨1, 0⟩, ⟨1, 1⟩]⟩ :=
    Transport.noConfusion
  have hm : Built ManifestEntry.Declares m := .add (.ofText htext) hdeclares
  have h := (built_lists_iff hm).2.1
  refine ⟨htext, hm, ?_, ?_⟩
  · rw [Ne, h]
    decide
  · rw [h]
    decide

/-- An entry without a transport can be added like any other, and the entry after it, which declares
one for the same version, is reported missing. -/
theorem exists_built_hiding_entry :
    let m := (Manifest.empty.add ⟨"a.b", .empty, [⟨1, 0⟩]⟩).add ⟨"a.b", .hwbinder, [⟨1, 0⟩]⟩
    Built (fun _ => True) m ∧ ¬ (∀ e ∈ m.entries, e.transport ≠ .empty) ∧
    ¬ (m.transportOf "a.b" ⟨1, 0⟩ = .empty ↔
      ¬ ∃ e ∈ m.entries, e.name = "a.b" ∧ ⟨1, 0⟩ ∈ e.versions) ∧
    lookup ⟨"a.b", some ⟨1, 0⟩, "I"⟩ .device (some m) =
      .error (.missingEntry .device "a.b@1.0::I") := by
  intro m
  exact ⟨.add (.add .empty trivial) trivial, by decide, by decide, by decide +kernel⟩

end Manifest

end HalLink
