import HalLink.Proofs.Catalog.Consultation
import HalLink.Proofs.Routing

set_option autoImplicit false

namespace HalLink

/-- The text asks for the name, at the version, in a package that the side covers. -/
structure Asks (text : String) (n : InterfaceName) (v : Version) (side : Side) : Prop where
  spelled : InterfaceName.Spells text.toList n
  versioned : n.version = some v
  covered : side.Covers n.package

/-- The text is no name, or it is one without a version. -/
def Unversioned (text : String) : Prop :=
  ∀ n, InterfaceName.Spells text.toList n → n.version = none

namespace Catalog

def afterQueries (c : Catalog) (history : List (ReadBytes × Query)) : Catalog :=
  history.foldl (fun c (read, q) => (c.ask read q).catalog) c

end Catalog

variable {text : String} {n : InterfaceName} {v : Version} {side : Side}

theorem request_eq_ok_iff :
    request text = .ok n ↔ InterfaceName.Spells text.toList n ∧ n.version ≠ none := by
  rw [← InterfaceName.parse_eq_ok_iff]
  unfold request
  cases InterfaceName.parse text with
  | error fault => simp
  | ok n' =>
    by_cases hv : n'.version = none
    · simp only [hv, if_true, reduceCtorEq, Except.ok.injEq, false_iff, not_and]
      rintro rfl
      exact absurd hv
    · simp only [hv, if_false, Except.ok.injEq]
      exact ⟨fun h => ⟨h, h ▸ hv⟩, And.left⟩

theorem asks_iff : Asks text n v side ↔
    request text = .ok n ∧ n.version = some v ∧ side = n.side := by
  rw [request_eq_ok_iff, ← Side.covers_iff]
  constructor
  · intro h
    exact ⟨⟨h.spelled, by simp [h.versioned]⟩, h.versioned, h.covered⟩
  · rintro ⟨⟨hn, -⟩, hv, hs⟩
    exact ⟨hn, hv, hs⟩

theorem unversioned_iff : Unversioned text ↔ ∃ fault, request text = .error fault := by
  cases h : request text with
  | error fault =>
    refine iff_of_true (fun n hn => Decidable.byContradiction fun hv => ?_) ⟨fault, rfl⟩
    rw [request_eq_ok_iff.2 ⟨hn, hv⟩] at h
    cases h
  | ok n =>
    obtain ⟨hn, hv⟩ := request_eq_ok_iff.1 h
    exact iff_of_false (fun hu => hv (hu n hn)) (by simp)

theorem asks_or_unversioned (text : String) :
    (∃ n v side, Asks text n v side) ∨ Unversioned text := by
  cases h : request text with
  | error fault => exact .inr (unversioned_iff.2 ⟨fault, h⟩)
  | ok n =>
    obtain ⟨v, hv⟩ := Option.ne_none_iff_exists'.1 (request_eq_ok_iff.1 h).2
    exact .inl ⟨n, v, n.side, asks_iff.2 ⟨h, hv, rfl⟩⟩

theorem Asks.not_unversioned (h : Asks text n v side) : ¬ Unversioned text := by
  intro hu
  have hv := h.versioned
  rw [hu n h.spelled] at hv
  cases hv

theorem Asks.unique (h : Asks text n v side) {n' : InterfaceName} {v' : Version} {side' : Side}
    (h' : Asks text n' v' side') : n' = n ∧ v' = v ∧ side' = side := by
  obtain ⟨hn, hv, rfl⟩ := asks_iff.1 h
  obtain ⟨hn', hv', rfl⟩ := asks_iff.1 h'
  obtain rfl := Except.ok.inj (hn'.symm.trans hn)
  exact ⟨rfl, Option.some.inj (hv'.symm.trans hv), rfl⟩

theorem Asks.resolve_eq (h : Asks text n v side) (manifests : Sides (Option Manifest)) :
    resolve manifests text = settle n (manifests.get side) := by
  obtain ⟨hn, -, rfl⟩ := asks_iff.1 h
  simp [resolve, hn]

namespace Catalog

variable (c : Catalog) (read : ReadBytes)

theorem resolve_of_asks (h : Asks text n v side) :
    c.resolve read text =
      ⟨c.consulted read (some side), c.loadEvents read side,
        settle n ((c.visible read).get side)⟩ := by
  obtain ⟨hn, -, rfl⟩ := asks_iff.1 h
  rw [resolve_eq, (Query.side?_of_request hn).1, h.resolve_eq]
  rfl

theorem resolve_of_unversioned (h : Unversioned text) :
    ∃ fault, request text = .error fault ∧ c.resolve read text = ⟨c, [], .error fault⟩ := by
  obtain ⟨fault, hf⟩ := unversioned_iff.1 h
  exact ⟨fault, hf, by simp [Catalog.resolve, hf]⟩

theorem transport_eq (text : String) :
    c.transport read text =
      ⟨(c.resolve read text).catalog,
        (c.resolve read text).events ++ [.resolution (c.resolve read text).answer],
        resolvedTransport (c.resolve read text).answer⟩ := rfl

variable {c} {read}

theorem cells_ask_eq_unread_iff {q : Query} :
    (c.ask read q).catalog.cells.get side = .unread ↔
      c.cells.get side = .unread ∧ q.side? ≠ some side := by
  rw [ask_eq]
  by_cases hq : q.side? = some side
  · simp [hq, cells_consulted_self]
  · simp [hq, cells_consulted_of_ne c read hq]

theorem cells_afterQueries_eq_unread_iff {history : List (ReadBytes × Query)} :
    (c.afterQueries history).cells.get side = .unread ↔
      c.cells.get side = .unread ∧ ∀ earlier ∈ history, earlier.2.side? ≠ some side := by
  induction history generalizing c with
  | nil => simp [afterQueries]
  | cons earlier rest ih =>
    have hrest := ih (c := (c.ask earlier.1 earlier.2).catalog)
    simp only [afterQueries, List.foldl_cons] at hrest ⊢
    rw [hrest, cells_ask_eq_unread_iff, and_assoc, List.forall_mem_cons]

theorem paths_afterQueries {history : List (ReadBytes × Query)} :
    (c.afterQueries history).paths = c.paths := by
  induction history generalizing c with
  | nil => rfl
  | cons earlier rest ih =>
    have hrest := ih (c := (c.ask earlier.1 earlier.2).catalog)
    simp only [afterQueries, List.foldl_cons] at hrest ⊢
    rw [hrest, ask_eq, paths_consulted]

end Catalog

end HalLink
