import HalLink.Manifest.Load
import HalLink.Proofs.Except

set_option autoImplicit false

namespace HalLink

namespace RawEntry

def Parts (name transport versions : Option Toml.Value) (r : RawEntry) : Prop :=
  name = some (.string r.name) ∧ transport = some (.string r.transport) ∧
    (versions = none ∧ r.versions = [] ∨ versions = some (.array (r.versions.map .string)))

inductive Shape : Toml.Value → RawEntry → Prop where
  | table {entries : List (String × Toml.Value)} {r : RawEntry} :
      Parts (entries.lookup "name") (entries.lookup "transport") (entries.lookup "versions") r →
      Shape (.table entries) r
  | array {elements : List Toml.Value} {r : RawEntry} :
      Parts elements[0]? elements[1]? elements[2]? r → Shape (.array elements) r

def RootShape (root : List (String × Toml.Value)) (raw : List RawEntry) : Prop :=
  root.lookup "hal" = none ∧ raw = [] ∨
    ∃ elements, root.lookup "hal" = some (.array elements) ∧ List.Forall₂ Shape elements raw

/-- Root tables that have something else for the list, or in it. -/
def RootMisfit (root : List (String × Toml.Value)) : Prop :=
  ∃ v, root.lookup "hal" = some v ∧
    ∀ elements, v = .array elements → ∃ e ∈ elements, ∀ r, ¬ Shape e r

variable {v : Toml.Value} {r : RawEntry}

theorem text?_eq_some_iff {s : String} : text? v = some s ↔ v = .string s := by
  cases v <;> simp [text?]

theorem texts?_eq_some_iff {texts : List String} :
    texts? v = some texts ↔ v = .array (texts.map .string) := by
  cases v with
  | array elements =>
    have hvalues : List.Forall₂ (fun v s => text? v = some s) elements texts ↔
        elements = texts.map .string := by
      simp only [text?_eq_some_iff]
      rw [← List.forall₂_eq_eq_eq, List.forall₂_map_right_iff]
    simp only [texts?, mapM_eq_some_iff, hvalues, Toml.Value.array.injEq]
  | _ => simp [texts?]

theorem ofParts?_eq_some_iff {name transport versions : Option Toml.Value} :
    ofParts? name transport versions = some r ↔ Parts name transport versions r := by
  obtain ⟨n, t, texts⟩ := r
  cases name with
  | none => simp [ofParts?, Parts]
  | some name =>
    cases transport with
    | none => simp [ofParts?, Parts]
    | some transport =>
      cases versions with
      | none =>
        simp [ofParts?, Parts, Option.bind_eq_some_iff, text?_eq_some_iff]
      | some versions =>
        simp [ofParts?, Parts, Option.bind_eq_some_iff, text?_eq_some_iff, texts?_eq_some_iff]

theorem ofValue?_eq_some_iff : ofValue? v = some r ↔ Shape v r := by
  constructor
  · intro h
    cases v with
    | table entries => exact .table (ofParts?_eq_some_iff.1 h)
    | array elements => exact .array (ofParts?_eq_some_iff.1 h)
    | _ => simp [ofValue?] at h
  · intro h
    cases h with
    | table hparts => exact ofParts?_eq_some_iff.2 hparts
    | array hparts => exact ofParts?_eq_some_iff.2 hparts

theorem ofRoot?_eq_some_iff {root : List (String × Toml.Value)} {raw : List RawEntry} :
    ofRoot? root = some raw ↔ RootShape root raw := by
  unfold ofRoot? RootShape
  cases root.lookup "hal" with
  | none => simp [eq_comm]
  | some v =>
    cases v with
    | array elements => simp [mapM_eq_some_iff, ofValue?_eq_some_iff]
    | _ => simp

theorem rootMisfit_iff {root : List (String × Toml.Value)} :
    RootMisfit root ↔ ¬ ∃ raw, RootShape root raw := by
  unfold RootMisfit RootShape
  cases root.lookup "hal" with
  | none => simp
  | some v =>
    cases v with
    | array elements => simp [exists_forall₂_iff]
    | _ => simp

end RawEntry

namespace Manifest

/-- Documents that list these entries, the texts of which may be anything. -/
def Lists (text : String) (raw : List RawEntry) : Prop :=
  ∃ root, Toml.parse? text = some root ∧ RawEntry.RootShape root raw

variable {malformed : ManifestFault} {text : String} {raw : List RawEntry}

theorem lists_iff : Lists text raw ↔ (Toml.parse? text).bind RawEntry.ofRoot? = some raw := by
  simp only [Lists, Option.bind_eq_some_iff, RawEntry.ofRoot?_eq_some_iff]

theorem not_lists_iff : (¬ ∃ raw, Lists text raw) ↔
    ∀ root, Toml.parse? text = some root → RawEntry.RootMisfit root := by
  simp only [RawEntry.rootMisfit_iff, Lists, not_exists, not_and]
  exact ⟨fun h root hroot raw => h raw root hroot, fun h raw root hroot => h root hroot raw⟩

theorem parse_of_lists (h : Lists text raw) :
    parse malformed text = (ofRaw raw).mapError .entry := by
  simp only [parse, lists_iff.1 h]

theorem parse_of_not_lists (h : ¬ ∃ raw, Lists text raw) :
    parse malformed text = .error malformed := by
  have hnone : (Toml.parse? text).bind RawEntry.ofRoot? = none := by
    simpa [lists_iff, Option.eq_none_iff_forall_ne_some] using h
  simp only [parse, hnone]

end Manifest

end HalLink
