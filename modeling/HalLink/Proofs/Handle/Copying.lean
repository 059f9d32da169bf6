import Mathlib.Data.List.Sort
import HalLink.Proofs.Handle.Store

set_option autoImplicit false

namespace HalLink

namespace DescriptorTable

def freeNumbers (t : DescriptorTable) : List Nat :=
  (List.range t.files.length).filter fun n => t.files[n]? == some none

variable {t t' : DescriptorTable} {file : Nat} {fd new : Int} {fds : List Int}

theorem mem_freeNumbers_iff {n : Nat} : n ∈ t.freeNumbers ↔ t.files[n]? = some none := by
  simp only [freeNumbers, List.mem_filter, List.mem_range, beq_iff_eq, and_iff_right_iff_imp]
  intro h
  exact (List.getElem?_eq_some_iff.1 h).1

theorem pairwise_freeNumbers (t : DescriptorTable) : t.freeNumbers.Pairwise (· < ·) :=
  List.pairwise_lt_range.filter _

theorem freeNumbers_of_giveLowest_none (h : t.giveLowest file = none) : t.freeNumbers = [] := by
  simp only [giveLowest, Option.map_eq_none_iff, List.findIdx?_eq_none_iff] at h
  refine List.eq_nil_iff_forall_not_mem.2 fun n hn => ?_
  have hmem := List.mem_of_getElem? (mem_freeNumbers_iff.1 hn)
  simpa using h none hmem

theorem freeNumbers_of_giveLowest (h : t.giveLowest file = some (t', fd)) :
    ∃ n : Nat, fd = n ∧ t.freeNumbers = n :: t'.freeNumbers := by
  simp only [giveLowest, Option.map_eq_some_iff, Prod.mk.injEq] at h
  obtain ⟨n, hn, rfl, rfl⟩ := h
  obtain ⟨hlt, hfree, hbelow⟩ := List.findIdx?_eq_some_iff_getElem.1 hn
  have hrest : ∀ m, m ∈ freeNumbers { t with files := t.files.set n (some file) } ↔
      m ≠ n ∧ m ∈ t.freeNumbers := by
    intro m
    rw [mem_freeNumbers_iff, mem_freeNumbers_iff]
    by_cases hm : m = n
    · simp [hm, hlt]
    · simp [List.getElem?_set_ne (Ne.symm hm), hm]
  have habove : ∀ m ∈ t.freeNumbers, n ≤ m := by
    intro m hm
    refine Nat.not_lt.1 fun hmn => ?_
    obtain ⟨hm', he⟩ := List.getElem?_eq_some_iff.1 (mem_freeNumbers_iff.1 hm)
    exact hbelow m hmn (by simp [he])
  refine ⟨n, rfl, (pairwise_freeNumbers t).eq_of_mem_iff ?_ fun m => ?_⟩
  · refine List.pairwise_cons.2 ⟨fun m hm => ?_, pairwise_freeNumbers _⟩
    obtain ⟨hne, hm⟩ := (hrest m).1 hm
    exact Nat.lt_of_le_of_ne (habove m hm) (Ne.symm hne)
  · rw [List.mem_cons, hrest]
    by_cases hm : m = n
    · subst hm
      simpa [mem_freeNumbers_iff, List.getElem?_eq_getElem hlt] using hfree
    · simp [hm]

theorem dupWhile_eq_take (h : ∀ fd ∈ fds, t.isOpen fd = true) :
    (t.dupWhile fds).2 = (t.freeNumbers.take fds.length).map Int.ofNat := by
  induction fds generalizing t with
  | nil => simp [dupWhile]
  | cons fd rest ih =>
    obtain ⟨hfd, hrest⟩ := List.forall_mem_cons.1 h
    obtain ⟨file, hfile⟩ := isOpen_eq_true_iff.1 hfd
    have hdup : t.dup fd = t.giveLowest file := by rw [dup, hfile, Option.bind_some]
    cases hgive : t.giveLowest file with
    | none =>
      rw [dupWhile_cons_none (hdup.trans hgive), freeNumbers_of_giveLowest_none hgive]
      rfl
    | some given =>
      obtain ⟨t', new⟩ := given
      obtain ⟨n, rfl, hfree⟩ := freeNumbers_of_giveLowest hgive
      have hopen : ∀ other ∈ rest, t'.isOpen other = true := by
        intro other hother
        simp [isOpen_giveLowest hgive, hrest other hother]
      rw [dupWhile_cons_some (hdup.trans hgive), ih hopen, hfree]
      rfl

theorem file?_dupWhile (fds : List Int) (h : t.isOpen fd = true) :
    (t.dupWhile fds).1.file? fd = t.file? fd := by
  refine file?_dupWhile_of_notMem fun hmem => ?_
  simp [isOpen_of_mem_dupWhile hmem] at h

theorem file?_dup (h : t.dup fd = some (t', new)) :
    t'.file? new = t.file? fd ∧ t'.file? fd = t.file? fd := by
  obtain ⟨file, hfile, hgive⟩ := dup_eq_some h
  have hne : fd ≠ new := by
    rintro rfl
    simp [file?_of_giveLowest hgive] at hfile
  simp [file?_giveLowest hgive, hfile, hne]

theorem isOpen_of_dup (h : t.dup fd = some (t', new)) : t.isOpen fd = true := by
  obtain ⟨file, hfile, -⟩ := dup_eq_some h
  exact isOpen_eq_true_iff.2 ⟨file, hfile⟩

/-- Slot by slot, the old descriptors and the new ones refer to the same in the end. -/
theorem map_file?_dupWhile (hlength : (t.dupWhile fds).2.length = fds.length) :
    (t.dupWhile fds).2.map (t.dupWhile fds).1.file? = fds.map (t.dupWhile fds).1.file? := by
  induction fds generalizing t with
  | nil => rfl
  | cons fd rest ih =>
    cases hd : t.dup fd with
    | none => simp [dupWhile_cons_none hd] at hlength
    | some given =>
      obtain ⟨t', new⟩ := given
      obtain ⟨hnew, hfd⟩ := file?_dup hd
      have hopen := isOpen_of_dup hd
      rw [dupWhile_cons_some hd] at hlength ⊢
      rw [List.map_cons, List.map_cons, ih (Nat.succ.inj hlength),
        file?_dupWhile rest (by rwa [isOpen, hnew]), file?_dupWhile rest (by rwa [isOpen, hfd]),
        hnew, hfd]

end DescriptorTable

namespace HandleRecord

variable {r : HandleRecord} {made : List Int}

theorem ints_copyWith (h : made.length = r.fds.length) : (r.copyWith made).ints = r.ints := by
  have htake : r.ints.take r.intCount = r.ints :=
    List.take_of_length_le (List.length_take_le _ _)
  change ((made ++ r.ints).drop r.fdCount).take r.intCount = r.ints
  simp only [HandleRecord.fds, List.length_take] at h
  by_cases hle : r.fdCount ≤ r.words.length
  · rw [Nat.min_eq_left hle] at h
    rw [← h, List.drop_left, htake]
  · have hints : r.ints = [] := by
      simp [HandleRecord.ints, List.drop_of_length_le (Nat.le_of_not_le hle)]
    rw [hints, List.append_nil, List.drop_of_length_le (h ▸ Nat.min_le_left _ _), List.take_nil]

end HandleRecord

namespace RecordStore

/-- A copy with the counts and integers of a record and with descriptors of its own: the lowest
numbers that were free before, as many as the record has, each of them a duplicate of the descriptor
in the same slot of the record. -/
structure FaithfulCopy (s s' : RecordStore) (r copy : HandleRecord) : Prop where
  version_eq : copy.version = HandleRecord.stamp
  fdCount_eq : copy.fdCount = r.fdCount
  intCount_eq : copy.intCount = r.intCount
  ints_eq : copy.ints = r.ints
  length_fds : copy.fds.length = r.fds.length
  lowest : copy.fds = (s.table.freeNumbers.take r.fds.length).map Int.ofNat
  increasing : copy.fds.Pairwise (· < ·)
  were_closed : ∀ fd ∈ copy.fds, s.table.isOpen fd = false
  disjoint : ∀ fd ∈ copy.fds, fd ∉ r.fds
  isOpen_eq : ∀ fd, s'.table.isOpen fd = (s.table.isOpen fd || decide (fd ∈ copy.fds))
  duplicates : copy.fds.map s'.table.file? = r.fds.map s.table.file?
  file?_eq : ∀ fd, s.table.isOpen fd = true → s'.table.file? fd = s.table.file? fd

variable {s : RecordStore} {i : Nat} {r : HandleRecord}

theorem faithfulCopy_dupWhile {table : DescriptorTable} {made : List Int} {s' : RecordStore}
    (hopen : ∀ fd ∈ r.fds, s.table.isOpen fd = true)
    (hd : s.table.dupWhile r.fds = (table, made)) (hlength : made.length = r.fds.length)
    (htable : s'.table = table) : FaithfulCopy s s' r (r.copyWith made) := by
  have hfds := HandleRecord.fds_copyWith hlength
  have hlowest := DescriptorTable.dupWhile_eq_take hopen
  have hisOpen := s.table.isOpen_dupWhile r.fds
  have hclosed : ∀ fd ∈ (s.table.dupWhile r.fds).2, s.table.isOpen fd = false :=
    fun fd => DescriptorTable.isOpen_of_mem_dupWhile
  have hfiles := @DescriptorTable.map_file?_dupWhile s.table r.fds (by rw [hd, hlength])
  have hkept : ∀ fd, s.table.isOpen fd = true →
      (s.table.dupWhile r.fds).1.file? fd = s.table.file? fd :=
    fun fd => DescriptorTable.file?_dupWhile r.fds
  simp only [hd] at hlowest hisOpen hclosed hfiles hkept
  exact {
    version_eq := rfl
    fdCount_eq := rfl
    intCount_eq := rfl
    ints_eq := HandleRecord.ints_copyWith hlength
    length_fds := by rw [hfds, hlength]
    lowest := by rw [hfds, hlowest]
    increasing := by
      rw [hfds, hlowest, List.pairwise_map]
      exact s.table.pairwise_freeNumbers.take.imp Int.ofNat_lt.2
    were_closed := by rwa [hfds]
    disjoint := fun fd hfd hmem => by
      have hold := hclosed fd (hfds ▸ hfd)
      simp [hopen fd hmem] at hold
    isOpen_eq := by rwa [hfds, htable]
    duplicates := by
      rw [hfds, htable, hfiles, List.map_congr_left fun fd hfd => hkept fd (hopen fd hfd)]
    file?_eq := by rwa [htable] }

/-- Main result: a record whose descriptors are open is copied if and only if the table has a free
number for each of them, and the copy is faithful; no record that was there changes. -/
theorem duplicate_faithful (hr : s.record? i = some r)
    (hopen : ∀ fd ∈ r.fds, s.table.isOpen fd = true) :
    ((s.duplicate (some i)).2.isSome ↔ r.fds.length ≤ s.table.freeNumbers.length) ∧
    ∀ s' c, s.duplicate (some i) = (s', some c) →
      (∃ copy, s'.record? c = some copy ∧ FaithfulCopy s s' r copy) ∧
      s.record? c = none ∧ ∀ j, j ≠ c → s'.record? j = s.record? j := by
  have hlowest := DescriptorTable.dupWhile_eq_take hopen
  cases hd : s.table.dupWhile r.fds with
  | mk table made =>
    have hmade : made.length = r.fds.length ↔ r.fds.length ≤ s.table.freeNumbers.length := by
      simp only [hd] at hlowest
      simp [hlowest]
    rw [duplicate_eq hr hd]
    refine ⟨?_, fun s' c hs => ?_⟩
    · rw [← hmade]
      split
      · next hlength => simp [hlength]
      · next hlength => simp [hlength]
    split at hs
    · next hlength =>
      obtain ⟨rfl, hc⟩ := Prod.mk.inj hs
      obtain rfl := Option.some.inj hc
      have hadd := record?_add { s with table } (r.copyWith made)
      exact ⟨⟨_, (hadd _).trans (if_pos rfl), faithfulCopy_dupWhile hopen hd hlength rfl⟩,
        s.record?_size, fun j hj => (hadd j).trans (if_neg hj)⟩
    · simp at hs

/-- Gaps in the table are filled from below, also for a descriptor that a record holds twice. With
one number less to spare there is no copy. -/
theorem duplicate_faithful_gaps :
    let r : HandleRecord := ⟨12, 3, 2, [2, 0, 2, 7, 8]⟩
    let files := [some 0, none, some 1, some 2, none, some 3, none]
    let s : RecordStore := ⟨⟨files, 5⟩, ⟨[⟨r, 0⟩]⟩⟩
    let crowded : RecordStore := { s with table := ⟨files.set 6 (some 4), 5⟩ }
    (∃ s' copy, s.duplicate (some 0) = (s', some 1) ∧ FaithfulCopy s s' r copy ∧
      copy.fds = [1, 4, 6] ∧ copy.fds.map s'.table.file? = [some 1, some 0, some 1]) ∧
    ¬ (crowded.duplicate (some 0)).2.isSome := by
  intro r files s crowded
  obtain ⟨-, hmade⟩ := duplicate_faithful (s := s) (i := 0) (r := r) rfl (by decide)
  obtain ⟨⟨copy, -, hcopy⟩, -⟩ := hmade _ 1 rfl
  refine ⟨⟨_, copy, rfl, hcopy, hcopy.lowest, hcopy.duplicates⟩, ?_⟩
  rw [(duplicate_faithful (s := crowded) (i := 0) (r := r) rfl (by decide)).1]
  decide

end RecordStore

end HalLink
