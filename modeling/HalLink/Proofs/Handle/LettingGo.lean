import HalLink.Proofs.Handle.Ownership

set_option autoImplicit false

namespace HalLink

namespace RecordStore

def deletable? (s : RecordStore) (record : Option Nat) : Option Nat :=
  record.filter fun i => (s.record? i).any fun r => r.version == HandleRecord.stamp

structure LetGo (s s' : RecordStore) (record : Option Nat) : Prop where
  records : Arena.Change s.records s'.records (s.deletable? record)
  isOpen_iff : ∀ fd, s'.table.isOpen fd = true ↔
    s.table.isOpen fd = true ∧ ∀ i ∈ record, ∀ r ∈ s.record? i, fd ∉ r.fds

variable {s : RecordStore} {i : Nat} {r : HandleRecord} {record : Option Nat}

theorem deletable?_eq_some_iff {j : Nat} :
    s.deletable? record = some j ↔
      record = some j ∧ ∃ r, s.record? j = some r ∧ r.version = HandleRecord.stamp := by
  simp [deletable?, Option.filter_eq_some_iff, Option.any_eq_true]

theorem giveUp_of_other_version (h : s.record? i = some r)
    (hversion : r.version ≠ HandleRecord.stamp) :
    s.giveUp (some i) = { s with table := s.table.closeAll r.fds } := by
  have hclosed : record? { s with table := s.table.closeAll r.fds } i = some r := h
  rw [giveUp, close_some h]
  simp [delete, hclosed, hversion]

theorem letGo_giveUp (hlive : ∀ i ∈ record, (s.record? i).isSome) :
    LetGo s (s.giveUp record) record := by
  cases record with
  | none => exact ⟨.refl s.records, fun fd => by simp⟩
  | some i =>
    obtain ⟨r, hr⟩ := Option.isSome_iff_exists.1 (hlive i rfl)
    have hgiven : (s.giveUp (some i)).table = s.table.closeAll r.fds ∧
        Arena.Change s.records (s.giveUp (some i)).records (s.deletable? (some i)) := by
      by_cases hversion : r.version = HandleRecord.stamp
      · have hdeletable : s.deletable? (some i) = some i :=
          deletable?_eq_some_iff.2 ⟨rfl, r, hr, hversion⟩
        rw [giveUp_some hr hversion, hdeletable]
        exact ⟨rfl, .release hr⟩
      · have hkept : s.deletable? (some i) = none := by
          simp [deletable?, hr, hversion]
        rw [giveUp_of_other_version hr hversion, hkept]
        exact ⟨rfl, .refl s.records⟩
    refine ⟨hgiven.2, fun fd => ?_⟩
    rw [hgiven.1, DescriptorTable.isOpen_closeAll]
    simp [hr]

end RecordStore

namespace HandleSession

variable {s : HandleSession} {target : Handle}

theorem isPointer_of {record : Option Nat}
    (hlive : ∀ i ∈ record, (s.store.record? i).isSome) : s.isPointer record = true := by
  cases record with
  | none => rfl
  | some i => exact hlive i rfl

theorem withReleasable_of (hlive : ∀ o ∈ target.owns, (s.store.record? o).isSome)
    (operation : HandleSession × HandleResult) :
    s.withReleasable target operation = operation := by
  unfold withReleasable
  split
  · next howned =>
    have howns : target.owns = target.record := by simp [Handle.owns, howned]
    exact withPointer_of (isPointer_of (howns ▸ hlive)) operation
  · rfl

end HandleSession

end HalLink
