import HalLink.Handle.Store
import HalLink.Proofs.Arena
import HalLink.Proofs.Handle.Descriptors

set_option autoImplicit false

namespace HalLink

namespace HandleRecord

structure WellFormed (r : HandleRecord) : Prop where
  version_eq : r.version = stamp
  fdCount_le : r.fdCount ≤ r.words.length

variable {r : HandleRecord} {fds ints : Int} {values : List Int}

theorem setWords_eq (r : HandleRecord) (i : Nat) (values : List Int) :
    r.setWords i values = { r with words := (r.setWords i values).words } := by
  induction values generalizing r i with
  | nil => rfl
  | cons value rest ih => exact ih (r.setWord i value) (i + 1)

@[simp] theorem fdCount_setWords (r : HandleRecord) (i : Nat) (values : List Int) :
    (r.setWords i values).fdCount = r.fdCount := by rw [setWords_eq]

@[simp] theorem intCount_setWords (r : HandleRecord) (i : Nat) (values : List Int) :
    (r.setWords i values).intCount = r.intCount := by rw [setWords_eq]

@[simp] theorem version_setWords (r : HandleRecord) (i : Nat) (values : List Int) :
    (r.setWords i values).version = r.version := by rw [setWords_eq]

theorem words_setWords (r : HandleRecord) (i : Nat) (values : List Int)
    (h : i + values.length ≤ r.words.length) :
    (r.setWords i values).words =
      r.words.take i ++ values ++ r.words.drop (i + values.length) := by
  induction values generalizing r i with
  | nil => simp [setWords]
  | cons value rest ih =>
    have hi : i < r.words.length := by simp at h; omega
    have hrest : i + 1 + rest.length ≤ (r.setWord i value).words.length := by
      simp [setWord] at h ⊢
      omega
    have htake : (r.words.set i value).take (i + 1) = r.words.take i ++ [value] := by
      rw [List.take_succ_eq_append_getElem (by simpa using hi)]
      simp [List.take_set_of_le]
    have hdrop : (r.words.set i value).drop (i + 1 + rest.length) =
        r.words.drop (i + 1 + rest.length) := List.drop_set_of_lt (by omega)
    rw [setWords, ih _ _ hrest]
    simp only [setWord, htake, hdrop]
    simp [Nat.add_comm, Nat.add_left_comm]

theorem zeroed?_eq_some (h : zeroed? fds ints = some r) :
    r = ⟨stamp, fds.toNat, ints.toNat, List.replicate (fds.toNat + ints.toNat) 0⟩ := by
  simp only [zeroed?] at h
  split at h
  · exact (Option.some.inj h).symm
  · simp at h

theorem setFds?_zeroed (h : zeroed? fds ints = some r) (hlength : values.length = fds.toNat) :
    r.setFds? 0 values = some (r.setWords 0 values) ∧ (r.setWords 0 values).fds = values ∧
      (r.setWords 0 values).WellFormed := by
  obtain rfl := zeroed?_eq_some h
  have hwords := words_setWords
    ⟨stamp, fds.toNat, ints.toNat, List.replicate (fds.toNat + ints.toNat) 0⟩ 0 values
    (by simp [hlength])
  refine ⟨by simp [setFds?, hlength], ?_, by simp, ?_⟩
  · rw [HandleRecord.fds, fdCount_setWords, hwords]
    simp [← hlength]
  · simp [hwords, hlength]

def copyWith (r : HandleRecord) (made : List Int) : HandleRecord :=
  ⟨stamp, r.fdCount, r.intCount, made ++ r.ints⟩

theorem length_fds (hr : r.WellFormed) : r.fds.length = r.fdCount := by
  simp [HandleRecord.fds, hr.fdCount_le]

theorem fds_copyWith {made : List Int} (h : made.length = r.fds.length) :
    (r.copyWith made).fds = made := by
  simp only [HandleRecord.fds, List.length_take] at h
  by_cases hle : r.fdCount ≤ r.words.length
  · rw [Nat.min_eq_left hle] at h
    simp [HandleRecord.fds, copyWith, ← h]
  · have hle' : r.words.length ≤ r.fdCount := Nat.le_of_not_le hle
    have hints : r.ints = [] := by simp [HandleRecord.ints, List.drop_of_length_le hle']
    rw [Nat.min_eq_right hle'] at h
    simp [HandleRecord.fds, copyWith, hints, List.take_of_length_le, h, hle']

theorem wellFormed_copyWith {made : List Int} (hr : r.WellFormed)
    (h : made.length = r.fds.length) : (r.copyWith made).WellFormed where
  version_eq := rfl
  fdCount_le := by simp [copyWith, h, length_fds hr]

end HandleRecord

namespace RecordStore

def giveUp (s : RecordStore) (record : Option Nat) : RecordStore :=
  ((s.close record).1.delete record).1

def Free (s : RecordStore) (fd : Int) : Prop :=
  ∀ i < s.records.size, ∀ r ∈ s.record? i, fd ∉ r.fds

/-- How the descriptors are shared out between the live records and the caller. -/
structure Sound (s : RecordStore) (hand : List Int) : Prop where
  wellFormed : ∀ {i r}, s.record? i = some r → r.WellFormed
  nodup : ∀ {i r}, s.record? i = some r → r.fds.Nodup
  disjoint : ∀ {i j r r' fd}, s.record? i = some r → s.record? j = some r' → fd ∈ r.fds →
    fd ∈ r'.fds → i = j
  open_iff : ∀ fd, s.table.isOpen fd = true ↔
    fd ∈ hand ∨ ∃ i r, s.record? i = some r ∧ fd ∈ r.fds
  hand_free : ∀ fd ∈ hand, s.Free fd
  releases_le : ∀ i, s.records.releases i ≤ 1

/-- What may happen to the records and descriptors that are there: a record is given up, its
descriptors are closed with it, and no others. -/
structure Change (s s' : RecordStore) (given : Option Nat) : Prop where
  records : Arena.Change s.records s'.records given
  closed : ∀ {fd}, s.table.isOpen fd = true → (s'.table.isOpen fd = false ↔
    ∃ i r, given = some i ∧ s.record? i = some r ∧ fd ∈ r.fds)

variable {s s' s'' : RecordStore} {hand : List Int} {i j : Nat} {r : HandleRecord}
  {given : Option Nat}

theorem free_iff {fd : Int} :
    s.Free fd ↔ ∀ i r, s.record? i = some r → fd ∉ r.fds := by
  constructor
  · intro h i r hr
    exact h i (Arena.lt_size_of_live? hr) r hr
  · intro h i _ r hr
    exact h i r hr

theorem record?_add (s : RecordStore) (r : HandleRecord) (j : Nat) :
    (s.add r).1.record? j = if j = s.records.size then some r else s.record? j :=
  Arena.live?_alloc s.records r j

theorem record?_size (s : RecordStore) : s.record? s.records.size = none := by simp [record?]

@[simp] theorem giveUp_none (s : RecordStore) : s.giveUp none = s := rfl

theorem close_some (h : s.record? i = some r) :
    s.close (some i) = ({ s with table := s.table.closeAll r.fds }, 0) := by simp [close, h]

theorem delete_some (h : s.record? i = some r) (hversion : r.version = HandleRecord.stamp) :
    s.delete (some i) = ({ s with records := s.records.release i }, 0) := by
  simp [delete, h, hversion]

theorem giveUp_some (h : s.record? i = some r) (hversion : r.version = HandleRecord.stamp) :
    s.giveUp (some i) = ⟨s.table.closeAll r.fds, s.records.release i⟩ := by
  have hrecord : record? { s with table := s.table.closeAll r.fds } i = some r := h
  rw [giveUp, close_some h, delete_some hrecord hversion]

theorem duplicate_eq {table : DescriptorTable} {made : List Int} (h : s.record? i = some r)
    (hd : s.table.dupWhile r.fds = (table, made)) :
    s.duplicate (some i) =
      if made.length = r.fds.length then
        ((add { s with table } (r.copyWith made)).1, some s.records.size)
      else (s, none) := by
  have hundo := s.table.closeAll_dupWhile r.fds
  rw [hd] at hundo
  simp only [duplicate, Option.bind_some, h, hd, hundo]
  rfl

theorem duplicate_cases (h : s.record? i = some r) :
    (∃ table made, s.table.dupWhile r.fds = (table, made) ∧ made.length = r.fds.length ∧
      s.duplicate (some i) =
        (({ s with table }.add (r.copyWith made)).1, some s.records.size)) ∨
    s.duplicate (some i) = (s, none) := by
  cases hd : s.table.dupWhile r.fds with
  | mk table made =>
    rw [duplicate_eq h hd]
    by_cases hlength : made.length = r.fds.length
    · exact .inl ⟨table, made, rfl, hlength, if_pos hlength⟩
    · exact .inr (if_neg hlength)

namespace Change

theorem refl (s : RecordStore) : Change s s none where
  records := .refl s.records
  closed h := by simp [h]

theorem isSome_of_ne (h : Change s s' given) (hne : given ≠ some i)
    (hi : (s.record? i).isSome) : (s'.record? i).isSome :=
  h.records.isSome_of_ne hne hi

theorem trans (h : Change s s' none) (h' : Change s' s'' given)
    (hgiven : ∀ i ∈ given, (s.record? i).isSome) : Change s s'' given where
  records := h.records.trans_left h'.records
  closed {fd} ho := by
    have hopen : s'.table.isOpen fd = true := by
      have hc := h.closed ho
      simpa using hc
    rw [h'.closed hopen]
    constructor
    · intro ⟨i, r, hi, hr, hfd⟩
      obtain ⟨r', hr'⟩ := Option.isSome_iff_exists.1 (hgiven i hi)
      have hsame := (h.records.live_of_none hr').symm.trans hr
      exact ⟨i, r', hi, hr', Option.some.inj hsame ▸ hfd⟩
    · intro ⟨i, r, hi, hr, hfd⟩
      exact ⟨i, r, hi, h.records.live_of_none hr, hfd⟩

theorem add (s : RecordStore) (r : HandleRecord) : Change s (s.add r).1 none where
  records := .alloc s.records r
  closed {fd} ho := by
    have hopen : (s.add r).1.table.isOpen fd = true := ho
    simp [hopen]

theorem setTable {table : DescriptorTable}
    (h : ∀ fd, s.table.isOpen fd = true → table.isOpen fd = true) :
    Change s { s with table } none where
  records := .refl s.records
  closed ho := by simp [h _ ho]

theorem duplicate (h : s.record? i = some r) : Change s (s.duplicate (some i)).1 none := by
  rcases duplicate_cases h with ⟨table, made, hd, -, he⟩ | he
  · have hopen : ∀ fd, s.table.isOpen fd = true → table.isOpen fd = true := by
      intro fd hfd
      have ho := s.table.isOpen_dupWhile r.fds fd
      simpa [hd, hfd] using ho
    rw [he]
    exact (setTable hopen).trans (add _ _) (by simp)
  · rw [he]
    exact refl s

theorem giveUp (h : s.record? i = some r) (hr : r.WellFormed) :
    Change s (s.giveUp (some i)) (some i) := by
  rw [giveUp_some h hr.version_eq]
  refine ⟨.release h, fun {fd} ho => ?_⟩
  · rw [DescriptorTable.isOpen_closeAll, ho]
    constructor
    · intro hfd
      exact ⟨i, r, rfl, h, by simpa using hfd⟩
    · intro ⟨j, r', hj, hr', hfd⟩
      obtain rfl := Option.some.inj hj
      rw [h] at hr'
      simpa [Option.some.inj hr'] using hfd

theorem giveUp? (hlive : ∀ i ∈ given, ∃ r, s.record? i = some r ∧ r.WellFormed) :
    Change s (s.giveUp given) given := by
  cases given with
  | none => exact refl s
  | some i =>
    obtain ⟨r, hi, hr⟩ := hlive i rfl
    exact giveUp hi hr

end Change

namespace Sound

theorem congr {hand' : List Int} (h : s.Sound hand) (hsame : ∀ fd, fd ∈ hand ↔ fd ∈ hand') :
    s.Sound hand' where
  wellFormed := h.wellFormed
  nodup := h.nodup
  disjoint := h.disjoint
  open_iff fd := by rw [h.open_iff, hsame]
  hand_free fd hfd := h.hand_free fd ((hsame fd).2 hfd)
  releases_le := h.releases_le

theorem setTable (h : s.Sound hand) {table : DescriptorTable} {made : List Int}
    (hopen : ∀ fd, table.isOpen fd = (s.table.isOpen fd || decide (fd ∈ made)))
    (hnew : ∀ fd ∈ made, s.table.isOpen fd = false) :
    Sound { s with table } (made ++ hand) where
  wellFormed hr := h.wellFormed hr
  nodup hr := h.nodup hr
  disjoint hr hr' := h.disjoint hr hr'
  open_iff fd := by
    rw [hopen, Bool.or_eq_true, h.open_iff, decide_eq_true_iff, List.mem_append, or_comm, or_assoc]
    rfl
  hand_free fd hfd := by
    rcases List.mem_append.1 hfd with hmade | hhand
    · refine free_iff.2 fun i r hr hmem => ?_
      have ho := (h.open_iff fd).2 (.inr ⟨i, r, hr, hmem⟩)
      simp [hnew fd hmade] at ho
    · exact h.hand_free fd hhand
  releases_le := h.releases_le

theorem add (h : s.Sound hand) (hr : r.WellFormed) (hnodup : r.fds.Nodup)
    (hfds : ∀ fd ∈ r.fds, fd ∈ hand) : (s.add r).1.Sound (hand.filter (· ∉ r.fds)) := by
  have hcases : ∀ {i r'}, (s.add r).1.record? i = some r' →
      (i = s.records.size ∧ r' = r) ∨ s.record? i = some r' := by
    intro i r' hi
    rw [record?_add] at hi
    split at hi
    · next he => exact .inl ⟨he, (Option.some.inj hi).symm⟩
    · exact .inr hi
  have hfree : ∀ {i r' fd}, s.record? i = some r' → fd ∈ r'.fds → fd ∉ r.fds :=
    fun hi hfd hmem => free_iff.1 (h.hand_free _ (hfds _ hmem)) _ _ hi hfd
  refine ⟨fun hi => ?_, fun hi => ?_, fun hi hj hfd hfd' => ?_, fun fd => ?_, fun fd hfd => ?_,
    fun i => ?_⟩
  · rcases hcases hi with ⟨-, rfl⟩ | hi
    · exact hr
    · exact h.wellFormed hi
  · rcases hcases hi with ⟨-, rfl⟩ | hi
    · exact hnodup
    · exact h.nodup hi
  · rcases hcases hi with ⟨rfl, rfl⟩ | hi' <;> rcases hcases hj with ⟨rfl, rfl⟩ | hj'
    · rfl
    · exact absurd hfd (hfree hj' hfd')
    · exact absurd hfd' (hfree hi' hfd)
    · exact h.disjoint hi' hj' hfd hfd'
  · have hopen := h.open_iff fd
    simp only [List.mem_filter, decide_eq_true_eq]
    constructor
    · intro ho
      by_cases hmem : fd ∈ r.fds
      · exact .inr ⟨s.records.size, r, by simp [record?_add], hmem⟩
      · rcases hopen.1 ho with hhand | ⟨i, r', hi, hfd⟩
        · exact .inl ⟨hhand, hmem⟩
        · exact .inr ⟨i, r', (Change.add s r).records.live_of_none hi, hfd⟩
    · intro hor
      refine hopen.2 ?_
      rcases hor with ⟨hhand, -⟩ | ⟨i, r', hi, hfd⟩
      · exact .inl hhand
      · rcases hcases hi with ⟨-, rfl⟩ | hi
        · exact .inl (hfds fd hfd)
        · exact .inr ⟨i, r', hi, hfd⟩
  · simp only [List.mem_filter, decide_eq_true_eq] at hfd
    refine free_iff.2 fun i r' hi => ?_
    rcases hcases hi with ⟨-, rfl⟩ | hi
    · exact hfd.2
    · exact free_iff.1 (h.hand_free fd hfd.1) i r' hi
  · exact (Change.add s r).records.releases_le (by simp) h.releases_le i

theorem duplicate (h : s.Sound hand) (hi : s.record? i = some r) :
    (s.duplicate (some i)).1.Sound hand := by
  rcases duplicate_cases hi with ⟨table, made, hd, hlength, he⟩ | he
  · have hopen := s.table.isOpen_dupWhile r.fds
    have hnodup := s.table.nodup_dupWhile r.fds
    have hnew : ∀ fd ∈ made, s.table.isOpen fd = false := by
      intro fd hfd
      have hmem : fd ∈ (s.table.dupWhile r.fds).2 := by rwa [hd]
      exact DescriptorTable.isOpen_of_mem_dupWhile hmem
    simp only [hd] at hopen hnodup
    have hfds := HandleRecord.fds_copyWith hlength
    have hwf := HandleRecord.wellFormed_copyWith (h.wellFormed hi) hlength
    have hadd := (h.setTable hopen hnew).add hwf (by rwa [hfds])
      (fun fd hfd => List.mem_append_left hand (hfds ▸ hfd))
    rw [he]
    refine hadd.congr fun fd => ?_
    rw [hfds]
    have hclosed : fd ∈ hand → fd ∉ made := by
      intro hhand hmade
      have ho := (h.open_iff fd).2 (.inl hhand)
      simp [hnew fd hmade] at ho
    simp only [List.mem_filter, List.mem_append, decide_eq_true_eq]
    constructor
    · intro ⟨hor, hmade⟩
      exact hor.resolve_left hmade
    · intro hhand
      exact ⟨.inr hhand, hclosed hhand⟩
  · rw [he]
    exact h

theorem giveUp (h : s.Sound hand) (hi : s.record? i = some r) :
    (s.giveUp (some i)).Sound hand := by
  have hgiven := giveUp_some hi (h.wellFormed hi).version_eq
  have hcases : ∀ {j r'}, (s.giveUp (some i)).record? j = some r' →
      j ≠ i ∧ s.record? j = some r' := by
    intro j r' hj
    rw [hgiven, record?, Arena.live?_release] at hj
    split at hj
    · simp at hj
    · next hne => exact ⟨hne, hj⟩
  refine ⟨fun hj => h.wellFormed (hcases hj).2, fun hj => h.nodup (hcases hj).2,
    fun hj hk => h.disjoint (hcases hj).2 (hcases hk).2, fun fd => ?_, fun fd hfd => ?_,
    fun j => ?_⟩
  · have htable : (s.giveUp (some i)).table = s.table.closeAll r.fds := by rw [hgiven]
    rw [htable, DescriptorTable.isOpen_closeAll, Bool.and_eq_true, h.open_iff, decide_eq_true_iff]
    constructor
    · intro ⟨hor, hmem⟩
      refine hor.imp_right fun ⟨j, r', hj, hfd⟩ => ⟨j, r', ?_, hfd⟩
      refine (Change.giveUp hi (h.wellFormed hi)).records.live_of_ne (fun he => ?_) hj
      obtain rfl := Option.some.inj he
      rw [hi] at hj
      exact hmem (Option.some.inj hj ▸ hfd)
    · intro hor
      rcases hor with hhand | ⟨j, r', hj, hfd⟩
      · exact ⟨.inl hhand, free_iff.1 (h.hand_free fd hhand) i r hi⟩
      · obtain ⟨hne, hj⟩ := hcases hj
        exact ⟨.inr ⟨j, r', hj, hfd⟩, fun hmem => hne (h.disjoint hj hi hfd hmem)⟩
  · exact free_iff.2 fun j r' hj => free_iff.1 (h.hand_free fd hfd) j r' (hcases hj).2
  · refine (Change.giveUp hi (h.wellFormed hi)).records.releases_le (fun k hk => ?_) h.releases_le j
    obtain rfl := Option.mem_some.1 hk
    exact Option.isSome_of_eq_some hi

theorem giveUp? (h : s.Sound hand) (hlive : ∀ i ∈ given, (s.record? i).isSome) :
    (s.giveUp given).Sound hand ∧ Change s (s.giveUp given) given := by
  have hwf : ∀ i ∈ given, ∃ r, s.record? i = some r ∧ r.WellFormed := by
    intro i hi
    obtain ⟨r, hr⟩ := Option.isSome_iff_exists.1 (hlive i hi)
    exact ⟨r, hr, h.wellFormed hr⟩
  refine ⟨?_, Change.giveUp? hwf⟩
  cases given with
  | none => exact h
  | some i =>
    obtain ⟨r, hr, -⟩ := hwf i rfl
    exact h.giveUp hr

end Sound

end RecordStore

end HalLink
