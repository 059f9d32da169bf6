import HalLink.Manifest.Basic
import Mathlib.Data.List.Forall2

set_option autoImplicit false

namespace HalLink

namespace ManifestEntry

def Serves (e : ManifestEntry) (package : String) (v : Version) : Prop :=
  e.name = package ∧ v ∈ e.versions

instance (e : ManifestEntry) (package : String) (v : Version) : Decidable (e.Serves package v) :=
  inferInstanceAs (Decidable (_ ∧ _))

/-- The same entry, with its versions in another order or listed more than once. -/
structure Restates (e e' : ManifestEntry) : Prop where
  name_eq : e.name = e'.name
  transport_eq : e.transport = e'.transport
  mem_iff : ∀ v, v ∈ e.versions ↔ v ∈ e'.versions

@[simp] theorem serves_eq_true_iff {e : ManifestEntry} {package : String} {v : Version} :
    e.serves package v = true ↔ e.Serves package v := by
  simp [serves, Serves]

theorem Restates.serves_iff {e e' : ManifestEntry} (h : e.Restates e') (package : String)
    (v : Version) : e.Serves package v ↔ e'.Serves package v := by
  rw [Serves, Serves, h.name_eq, h.mem_iff]

end ManifestEntry

namespace Manifest

def Serves (m : Manifest) (package : String) (v : Version) : Prop :=
  ∃ e ∈ m.entries, e.Serves package v

instance (m : Manifest) (package : String) (v : Version) : Decidable (m.Serves package v) :=
  inferInstanceAs (Decidable (∃ e ∈ m.entries, _))

structure FirstServing (m : Manifest) (package : String) (v : Version) (index : Nat)
    (e : ManifestEntry) : Prop where
  at_index : m.entries[index]? = some e
  serves : e.Serves package v
  earlier : ∀ i < index, ∀ e', m.entries[i]? = some e' → ¬ e'.Serves package v

def append (m m' : Manifest) : Manifest := ⟨m.entries ++ m'.entries⟩

def addAll (m : Manifest) (added : List ManifestEntry) : Manifest := added.foldl add m

variable {m m' : Manifest} {package : String} {v : Version} {e : ManifestEntry}
  {entries : List ManifestEntry}

@[simp] theorem not_serves_nil : ¬ (mk []).Serves package v := by simp [Serves]

@[simp] theorem serves_cons :
    (mk (e :: entries)).Serves package v ↔ e.Serves package v ∨ (mk entries).Serves package v := by
  simp [Serves]

theorem firstServing_cons_zero (h : e.Serves package v) :
    FirstServing ⟨e :: entries⟩ package v 0 e :=
  ⟨rfl, h, fun _ hi => absurd hi (Nat.not_lt_zero _)⟩

theorem FirstServing.cons {index : Nat} {first : ManifestEntry} (hfirst : ¬ first.Serves package v)
    (h : FirstServing ⟨entries⟩ package v index e) :
    FirstServing ⟨first :: entries⟩ package v (index + 1) e := by
  refine ⟨h.at_index, h.serves, fun i hi e' he' => ?_⟩
  cases i with
  | zero =>
    obtain rfl := Option.some.inj he'
    exact hfirst
  | succ i => exact h.earlier i (Nat.lt_of_succ_lt_succ hi) e' he'

theorem exists_firstServing (h : m.Serves package v) :
    ∃ index e, m.FirstServing package v index e := by
  obtain ⟨entries⟩ := m
  induction entries with
  | nil => exact absurd h not_serves_nil
  | cons first rest ih =>
    by_cases hfirst : first.Serves package v
    · exact ⟨0, first, firstServing_cons_zero hfirst⟩
    · obtain ⟨index, e, he⟩ := ih ((serves_cons.1 h).resolve_left hfirst)
      exact ⟨index + 1, e, .cons hfirst he⟩

theorem FirstServing.transportOf_eq {index : Nat} (h : m.FirstServing package v index e) :
    m.transportOf package v = e.transport := by
  obtain ⟨entries⟩ := m
  induction entries generalizing index with
  | nil => simpa using h.at_index
  | cons first rest ih =>
    rw [transportOf_cons]
    cases index with
    | zero =>
      obtain rfl := Option.some.inj h.at_index
      rw [if_pos (ManifestEntry.serves_eq_true_iff.2 h.serves)]
    | succ index =>
      have hfirst : ¬ first.Serves package v := h.earlier 0 (Nat.succ_pos _) first rfl
      rw [if_neg (by simpa using hfirst)]
      exact ih ⟨h.at_index, h.serves, fun i hi => h.earlier (i + 1) (Nat.succ_lt_succ hi)⟩

theorem transportOf_of_not_serves (h : ¬ m.Serves package v) :
    m.transportOf package v = .empty := by
  have hnone : m.entries.find? (·.serves package v) = none := by
    simpa [Serves, List.find?_eq_none] using h
  rw [transportOf, hnone]

theorem transportOf_append (m m' : Manifest) (package : String) (v : Version) :
    (m.append m').transportOf package v =
      if m.Serves package v then m.transportOf package v else m'.transportOf package v := by
  obtain ⟨entries⟩ := m
  induction entries with
  | nil => simp [append]
  | cons first rest ih =>
    have hrest : (append ⟨first :: rest⟩ m') = ⟨first :: (append ⟨rest⟩ m').entries⟩ := rfl
    rw [hrest, transportOf_cons, transportOf_cons]
    by_cases hfirst : first.Serves package v
    · simp [hfirst]
    · simpa [hfirst] using ih

theorem addAll_eq_append (m : Manifest) (added : List ManifestEntry) :
    m.addAll added = m.append ⟨added⟩ := by
  unfold addAll
  induction added generalizing m with
  | nil => simp [append]
  | cons e rest ih => simp [ih, append, add]

theorem transportOf_of_restates
    (h : List.Forall₂ ManifestEntry.Restates m.entries m'.entries) (package : String)
    (v : Version) : m.transportOf package v = m'.transportOf package v := by
  obtain ⟨entries⟩ := m
  obtain ⟨entries'⟩ := m'
  simp only at h
  induction h with
  | nil => rfl
  | @cons e e' _ _ he _ ih =>
    have hserves : e.serves package v = true ↔ e'.serves package v = true := by
      simpa using he.serves_iff package v
    rw [transportOf_cons, transportOf_cons, ih, he.transport_eq]
    simp only [hserves]

/-- Main result: the entry at the smallest index that serves the package at the version decides,
also one that leaves the transport open. What is put behind the entries, at once or one by one, is
asked only for what they do not serve, and it makes no difference how an entry lists its
versions. -/
theorem first_serving_decides (m : Manifest) (package : String) (v : Version) :
    (∀ t, m.transportOf package v = t ↔
      (∃ index e, m.FirstServing package v index e ∧ e.transport = t) ∨
        ¬ m.Serves package v ∧ t = .empty) ∧
    (∀ m' : Manifest, (m.append m').transportOf package v =
      if m.Serves package v then m.transportOf package v else m'.transportOf package v) ∧
    (∀ added, (m.addAll added).transportOf package v =
      if m.Serves package v then m.transportOf package v else (mk added).transportOf package v) ∧
    ∀ m' : Manifest, List.Forall₂ ManifestEntry.Restates m.entries m'.entries →
      m.transportOf package v = m'.transportOf package v := by
  refine ⟨fun t => ?_, fun m' => transportOf_append m m' package v, fun added => ?_,
    fun m' h => transportOf_of_restates h package v⟩
  · constructor
    · rintro rfl
      by_cases h : m.Serves package v
      · obtain ⟨index, e, he⟩ := exists_firstServing h
        exact .inl ⟨index, e, he, he.transportOf_eq.symm⟩
      · exact .inr ⟨h, transportOf_of_not_serves h⟩
    · rintro (⟨index, e, he, rfl⟩ | ⟨h, rfl⟩)
      · exact he.transportOf_eq
      · exact transportOf_of_not_serves h
  · rw [addAll_eq_append, transportOf_append]

/-- An entry that serves other versions of the package is passed over; the one after it hides the
entries behind it, though it leaves the transport open. -/
theorem first_serving_decides_open :
    let other : ManifestEntry := ⟨"a.b", .passthrough, [⟨2, 0⟩, ⟨1, 1⟩]⟩
    let restated : ManifestEntry := ⟨"a.b", .passthrough, [⟨1, 1⟩, ⟨2, 0⟩, ⟨1, 1⟩]⟩
    let opened : ManifestEntry := ⟨"a.b", .empty, [⟨1, 0⟩]⟩
    let hidden : ManifestEntry := ⟨"a.b", .hwbinder, [⟨1, 0⟩, ⟨3, 0⟩]⟩
    let m : Manifest := ⟨[other, opened, hidden]⟩
    m.FirstServing "a.b" ⟨1, 0⟩ 1 opened ∧ m.transportOf "a.b" ⟨1, 0⟩ = .empty ∧
    (m.addAll [hidden]).transportOf "a.b" ⟨1, 0⟩ = .empty ∧
    List.Forall₂ ManifestEntry.Restates m.entries [restated, opened, hidden] ∧
    m.transportOf "a.b" ⟨1, 1⟩ = (mk [restated, opened, hidden]).transportOf "a.b" ⟨1, 1⟩ := by
  intro other restated opened hidden m
  have hfirst : m.FirstServing "a.b" ⟨1, 0⟩ 1 opened :=
    .cons (by decide) (firstServing_cons_zero (by decide))
  have hrestated : ManifestEntry.Restates other restated :=
    ⟨rfl, rfl, fun v => by simp only [other, restated, List.mem_cons, List.not_mem_nil]; tauto⟩
  have hsame : List.Forall₂ ManifestEntry.Restates m.entries [restated, opened, hidden] :=
    .cons hrestated (.cons ⟨rfl, rfl, fun _ => .rfl⟩ (.cons ⟨rfl, rfl, fun _ => .rfl⟩ .nil))
  obtain ⟨hfind, -, hadd, -⟩ := first_serving_decides m "a.b" ⟨1, 0⟩
  obtain ⟨-, -, -, hrestate⟩ := first_serving_decides m "a.b" ⟨1, 1⟩
  have hopen : m.transportOf "a.b" ⟨1, 0⟩ = .empty := (hfind _).2 (.inl ⟨1, opened, hfirst, rfl⟩)
  refine ⟨hfirst, hopen, ?_, hsame, hrestate _ hsame⟩
  rw [hadd, if_pos (by decide), hopen]

end Manifest

end HalLink
