import HalLink.Proofs.Handle.Store

/-!
Copies of records, made slot by slot in the copy itself: a descriptor that cannot be duplicated cuts
the copy down to the slots before it, and what remains is closed and deleted like any record. That
leaves no trace, and neither does a copy that is closed and deleted later.
-/

set_option autoImplicit false

namespace HalLink

namespace HandleRecord

/-- A record as it is made: both counts within their limits, and a word for every slot. -/
structure LaidOut (r : HandleRecord) : Prop where
  fdCount_le : (r.fdCount : Int) ≤ maxFds
  intCount_le : (r.intCount : Int) ≤ maxInts
  length_words : r.words.length = r.fdCount + r.intCount

def filling (r : HandleRecord) (made : List Int) : HandleRecord :=
  ⟨stamp, r.fdCount, r.intCount,
    made ++ List.replicate (r.fdCount - made.length + r.intCount) 0⟩

def cut (r : HandleRecord) (made : List Int) : HandleRecord :=
  { r.filling made with fdCount := made.length }

variable {r : HandleRecord} {made : List Int}

theorem LaidOut.length_fds (h : r.LaidOut) : r.fds.length = r.fdCount := by
  simp [HandleRecord.fds, h.length_words]

theorem LaidOut.length_ints (h : r.LaidOut) : r.ints.length = r.intCount := by
  simp [HandleRecord.ints, h.length_words]

theorem LaidOut.zeroed?_eq (h : r.LaidOut) :
    zeroed? r.fdCount r.intCount = some (r.filling []) := by
  simp [zeroed?, filling, h.fdCount_le, h.intCount_le]

theorem setWord_filling (h : made.length < r.fdCount) (new : Int) :
    (r.filling made).setWord made.length new = r.filling (made ++ [new]) := by
  obtain ⟨free, hfree⟩ : ∃ free, r.fdCount - made.length + r.intCount = free + 1 :=
    ⟨r.fdCount - made.length + r.intCount - 1, by omega⟩
  have hrest : r.fdCount - (made.length + 1) + r.intCount = free := by omega
  simp [filling, setWord, hfree, hrest, List.replicate_succ]

theorem fds_cut (r : HandleRecord) (made : List Int) : (r.cut made).fds = made := by
  simp [HandleRecord.fds, cut, filling]

theorem setWords_filling (h : r.LaidOut) (hmade : made.length = r.fdCount) :
    (r.filling made).setWords r.fdCount r.ints = r.copyWith made := by
  have hwords := words_setWords (r.filling made) r.fdCount r.ints
    (by simp [filling, hmade, h.length_ints])
  rw [setWords_eq, hwords, ← hmade]
  simp [filling, copyWith, hmade, h.length_ints]

end HandleRecord

namespace RecordStore

/-- The same descriptors are open and the same records are live, with the same words in them. Stores
that are alike may differ in what is gone. -/
def Alike (s s' : RecordStore) : Prop := s.table = s'.table ∧ ∀ i, s.record? i = s'.record? i

/-- A record that is new in `s'` and leaves nothing behind once it is closed and deleted. -/
structure Undoable (s s' : RecordStore) (c : Nat) : Prop where
  record?_before : s.record? c = none
  isSome_after : (s'.record? c).isSome
  others : ∀ j, j ≠ c → s'.record? j = s.record? j
  close_eq : (s'.close (some c)).2 = 0
  delete_eq : ((s'.close (some c)).1.delete (some c)).2 = 0
  giveUp : (s'.giveUp (some c)).Alike s

/-- Duplicates descriptors in turn into the slots of a copy, from slot `k` on, and tells whether all
of them could be duplicated. -/
def fillSlots (s : RecordStore) (copy k : Nat) : List Int → RecordStore × Bool
  | [] => (s, true)
  | fd :: rest =>
    match s.table.dup fd with
    | none =>
      (giveUp { s with records := s.records.update copy ({ · with fdCount := k }) } (some copy),
        false)
    | some (table, new) =>
      fillSlots ⟨table, s.records.update copy (·.setWord k new)⟩ copy (k + 1) rest

def duplicateInPlace (s : RecordStore) (record : Option Nat) : RecordStore × Option Nat :=
  match record.bind s.record? with
  | none => (s, none)
  | some r =>
    match s.create r.fdCount r.intCount with
    | (s, none) => (s, none)
    | (s, some copy) =>
      match s.fillSlots copy 0 r.fds with
      | (s, false) => (s, none)
      | (s, true) =>
        ({ s with records := s.records.update copy (·.setWords r.fdCount r.ints) }, some copy)

variable {s : RecordStore} {i : Nat} {r : HandleRecord} {made : List Int}

theorem update_add (s : RecordStore) (r : HandleRecord) (f : HandleRecord → HandleRecord) :
    { (s.add r).1 with records := (s.add r).1.records.update s.records.size f } =
      (s.add (f r)).1 :=
  congrArg (RecordStore.mk s.table) (s.records.update_alloc r f)

theorem undoable_add {table : DescriptorTable} (hversion : r.version = HandleRecord.stamp)
    (hclose : table.closeAll r.fds = s.table) :
    s.Undoable (add { s with table } r).1 s.records.size := by
  have hadd := record?_add { s with table } r
  have hnew := (hadd s.records.size).trans (if_pos rfl)
  have hclosed : ((add { s with table } r).1.close (some s.records.size)).1.record?
      s.records.size = some r := by rwa [close_some hnew]
  refine ⟨s.record?_size, Option.isSome_of_eq_some hnew, fun j hj => (hadd j).trans (if_neg hj),
    ?_, ?_, ?_, fun j => ?_⟩
  · rw [close_some hnew]
  · rw [delete_some hclosed hversion]
  · rw [giveUp_some hnew hversion]
    exact hclose
  · rw [giveUp_some hnew hversion, record?, Arena.live?_release]
    split
    · next he => exact he ▸ s.record?_size.symm
    · next hne => exact (hadd j).trans (if_neg hne)

theorem fillSlots_cons_none {fd : Int} (hd : s.table.dup fd = none) (rest : List Int) :
    fillSlots (s.add (r.filling made)).1 s.records.size made.length (fd :: rest) =
      ((s.add (r.cut made)).1.giveUp (some s.records.size), false) := by
  have htable : (s.add (r.filling made)).1.table.dup fd = none := hd
  have hcut := update_add s (r.filling made) ({ · with fdCount := made.length })
  simp only [fillSlots, htable]
  exact congrArg (fun s' => (s'.giveUp (some s.records.size), false)) hcut

theorem fillSlots_cons_some {fd new : Int} {table : DescriptorTable}
    (hd : s.table.dup fd = some (table, new)) (h : made.length < r.fdCount) (rest : List Int) :
    fillSlots (s.add (r.filling made)).1 s.records.size made.length (fd :: rest) =
      fillSlots (add { s with table } (r.filling (made ++ [new]))).1 s.records.size
        (made ++ [new]).length rest := by
  have htable : (s.add (r.filling made)).1.table.dup fd = some (table, new) := hd
  have hset := update_add { s with table } (r.filling made) (·.setWord made.length new)
  rw [HandleRecord.setWord_filling h] at hset
  simp only [fillSlots, htable, List.length_append, List.length_singleton]
  exact congrArg (fillSlots · s.records.size (made.length + 1) rest) hset

theorem fillSlots_filling (s : RecordStore) (made slots : List Int)
    (h : made.length + slots.length ≤ r.fdCount) :
    fillSlots (s.add (r.filling made)).1 s.records.size made.length slots =
      let after : RecordStore := { s with table := (s.table.dupWhile slots).1 }
      let filled := made ++ (s.table.dupWhile slots).2
      if filled.length = made.length + slots.length then ((after.add (r.filling filled)).1, true)
      else ((after.add (r.cut filled)).1.giveUp (some s.records.size), false) := by
  -- A slot may name what was opened for an earlier one, so this goes by all tables at once.
  induction slots generalizing s made with
  | nil => simp [fillSlots, DescriptorTable.dupWhile]
  | cons fd rest ih =>
    rw [List.length_cons] at h
    cases hd : s.table.dup fd with
    | none =>
      rw [fillSlots_cons_none hd, DescriptorTable.dupWhile_cons_none hd]
      simp
    | some opened =>
      obtain ⟨table, new⟩ := opened
      have hrest := ih { s with table } (made ++ [new]) (by simp; omega)
      have hlength : (made ++ [new]).length + rest.length = made.length + (fd :: rest).length := by
        simp
        omega
      rw [fillSlots_cons_some hd (by omega), DescriptorTable.dupWhile_cons_some hd]
      rw [hlength, List.append_assoc, List.singleton_append] at hrest
      exact hrest

theorem duplicateInPlace_eq {table : DescriptorTable} (h : s.record? i = some r)
    (hd : s.table.dupWhile r.fds = (table, made)) (hr : r.LaidOut) :
    s.duplicateInPlace (some i) =
      if made.length = r.fds.length then
        ((add { s with table } (r.copyWith made)).1, some s.records.size)
      else ((add { s with table } (r.cut made)).1.giveUp (some s.records.size), none) := by
  have hcreate : s.create r.fdCount r.intCount =
      ((s.add (r.filling [])).1, some s.records.size) := by
    simp [create, hr.zeroed?_eq, add]
  have hfill := s.fillSlots_filling (r := r) [] r.fds (by simp [hr.length_fds])
  simp only [hd, List.nil_append, List.length_nil, Nat.zero_add] at hfill
  simp only [duplicateInPlace, Option.bind_some, h, hcreate, hfill]
  by_cases hlength : made.length = r.fds.length
  · have hset := update_add { s with table } (r.filling made) (·.setWords r.fdCount r.ints)
    rw [HandleRecord.setWords_filling hr (hlength.trans hr.length_fds)] at hset
    rw [if_pos hlength, if_pos hlength]
    exact congrArg (·, some s.records.size) hset
  · rw [if_neg hlength, if_neg hlength]

/-- A failed duplication changes nothing, and one that succeeds is undone by closing and deleting
the copy. Filling the copy in place comes to the same. -/
theorem duplicate_undone (s : RecordStore) {i : Nat} {r : HandleRecord}
    (hr : s.record? i = some r) :
    (∀ s', s.duplicate (some i) = (s', none) → s' = s) ∧
    (∀ s' c, s.duplicate (some i) = (s', some c) → s.Undoable s' c) ∧
    (r.LaidOut →
      (∀ s', s.duplicateInPlace (some i) = (s', none) →
        s'.Alike s ∧ s.duplicate (some i) = (s, none)) ∧
      ∀ s' c, s.duplicateInPlace (some i) = (s', some c) →
        s.duplicate (some i) = (s', some c)) := by
  cases hd : s.table.dupWhile r.fds with
  | mk table made =>
    have hclose := s.table.closeAll_dupWhile r.fds
    rw [hd] at hclose
    rw [duplicate_eq hr hd]
    refine ⟨fun s' hs => ?_, fun s' c hs => ?_, fun hlaid => ?_⟩
    · split at hs
      · simp at hs
      · exact (congrArg Prod.fst hs).symm
    · split at hs
      · next hlength =>
        obtain ⟨rfl, hc⟩ := Prod.mk.inj hs
        obtain rfl := Option.some.inj hc
        exact undoable_add rfl (by rw [HandleRecord.fds_copyWith hlength, hclose])
      · simp at hs
    · rw [duplicateInPlace_eq hr hd hlaid]
      split
      · exact ⟨fun s' hs => by simp at hs, fun s' c hs => hs⟩
      · refine ⟨fun s' hs => ⟨?_, rfl⟩, fun s' c hs => by simp at hs⟩
        obtain ⟨rfl, -⟩ := Prod.mk.inj hs
        exact (undoable_add rfl (by rw [HandleRecord.fds_cut, hclose])).giveUp

/-- Both records name descriptor 3, which is closed at first and is opened for the slot before it.
The second one goes on to a descriptor that is closed to the end. -/
theorem duplicate_undone_opened_meanwhile :
    let s : RecordStore := ⟨.withFirst 3 8,
      ⟨[⟨⟨12, 3, 1, [0, 3, 0, 9]⟩, 0⟩, ⟨⟨12, 3, 0, [0, 3, 7]⟩, 0⟩]⟩⟩
    (∃ s', s.duplicate (some 0) = (s', some 2) ∧
      s'.record? 2 = some ⟨12, 3, 1, [3, 4, 5, 9]⟩ ∧ s.Undoable s' 2) ∧
    ∃ s', s.duplicateInPlace (some 1) = (s', none) ∧ s'.Alike s := by
  intro s
  obtain ⟨-, hmade, -⟩ := duplicate_undone s (i := 0) (r := ⟨12, 3, 1, [0, 3, 0, 9]⟩) rfl
  obtain ⟨-, -, hinPlace⟩ := duplicate_undone s (i := 1) (r := ⟨12, 3, 0, [0, 3, 7]⟩) rfl
  have hlaid : HandleRecord.LaidOut ⟨12, 3, 0, [0, 3, 7]⟩ := ⟨by decide, by decide, rfl⟩
  exact ⟨⟨_, rfl, rfl, hmade _ _ rfl⟩, _, rfl, ((hinPlace hlaid).1 _ rfl).1⟩

end RecordStore

end HalLink
