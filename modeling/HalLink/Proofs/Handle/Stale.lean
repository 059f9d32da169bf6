import HalLink.Handle.Session
import HalLink.Proofs.Handle.Copying

/-!
Copies of records that hold stale descriptors. A duplication looks at a descriptor only in its turn,
and by then the number may have been opened for a slot before it. So a record is copied if and only
if every slot names an open descriptor in its turn, and what a stale slot is given in the copy
duplicates the descriptor of another slot.
-/

set_option autoImplicit false

namespace HalLink

namespace DescriptorTable

/-- The descriptor of slot `k` is open when its turn comes: from the start, or because its number is
one of those that are given to the slots before it. -/
def OpenInTurn (t : DescriptorTable) (k : Nat) (fd : Int) : Prop :=
  t.isOpen fd = true ∨ fd ∈ (t.freeNumbers.take k).map Int.ofNat

instance (t : DescriptorTable) (k : Nat) (fd : Int) : Decidable (t.OpenInTurn k fd) :=
  inferInstanceAs (Decidable (t.isOpen fd = true ∨ fd ∈ (t.freeNumbers.take k).map Int.ofNat))

variable {t t' : DescriptorTable} {k file : Nat} {fd new : Int} {fds made : List Int}

theorem openInTurn_zero_iff : t.OpenInTurn 0 fd ↔ t.isOpen fd = true := by simp [OpenInTurn]

theorem openInTurn_succ_iff (h : t.giveLowest file = some (t', new)) :
    t.OpenInTurn (k + 1) fd ↔ t'.OpenInTurn k fd := by
  obtain ⟨n, rfl, hfree⟩ := freeNumbers_of_giveLowest h
  simp only [OpenInTurn, isOpen_giveLowest h, hfree, List.take_succ_cons, List.map_cons,
    List.mem_cons, Bool.or_eq_true, beq_iff_eq, or_assoc]
  rfl

theorem dupWhile_eq_take_length (t : DescriptorTable) (fds : List Int) :
    (t.dupWhile fds).2 = (t.freeNumbers.take (t.dupWhile fds).2.length).map Int.ofNat := by
  induction fds generalizing t with
  | nil => simp [dupWhile]
  | cons fd rest ih =>
    cases hd : t.dup fd with
    | none => simp [dupWhile_cons_none hd]
    | some given =>
      obtain ⟨t', new⟩ := given
      obtain ⟨file, -, hgive⟩ := dup_eq_some hd
      obtain ⟨n, rfl, hfree⟩ := freeNumbers_of_giveLowest hgive
      rw [dupWhile_cons_some hd, hfree, List.length_cons, List.take_succ_cons, List.map_cons, ← ih]
      rfl

/-- A duplication reaches its end if there are numbers enough and every descriptor is open in its
turn. -/
theorem length_dupWhile_eq_iff (t : DescriptorTable) (fds : List Int) :
    (t.dupWhile fds).2.length = fds.length ↔
      fds.length ≤ t.freeNumbers.length ∧ ∀ k fd, fds[k]? = some fd → t.OpenInTurn k fd := by
  -- The first slot changes the table for the others, so this goes by all tables at once.
  induction fds generalizing t with
  | nil => simp [dupWhile]
  | cons fd rest ih =>
    have hslots : (∀ k fd', (fd :: rest)[k]? = some fd' → t.OpenInTurn k fd') ↔
        t.isOpen fd = true ∧ ∀ k fd', rest[k]? = some fd' → t.OpenInTurn (k + 1) fd' := by
      rw [← Nat.and_forall_add_one]
      simp [openInTurn_zero_iff]
    rw [hslots]
    cases hfd : t.file? fd with
    | none =>
      have hd : t.dup fd = none := by rw [dup, hfd, Option.bind_none]
      simp [dupWhile_cons_none hd, isOpen, hfd]
    | some file =>
      have hdup : t.dup fd = t.giveLowest file := by rw [dup, hfd, Option.bind_some]
      cases hgive : t.giveLowest file with
      | none =>
        simp [dupWhile_cons_none (hdup.trans hgive), freeNumbers_of_giveLowest_none hgive]
      | some given =>
        obtain ⟨t', new⟩ := given
        obtain ⟨n, -, hfree⟩ := freeNumbers_of_giveLowest hgive
        simp [dupWhile_cons_some (hdup.trans hgive), ih, hfree, isOpen, hfd,
          openInTurn_succ_iff hgive]

theorem mem_of_openInTurn_of_stale (h : t.OpenInTurn k fd) (hstale : t.isOpen fd = false) :
    fd ∈ (t.freeNumbers.take k).map Int.ofNat := by
  rcases h with hopen | hmem
  · simp [hstale] at hopen
  · exact hmem

/-- A stale slot names what was made for a slot before it. -/
theorem exists_made_of_stale (hlength : (t.dupWhile fds).2.length = fds.length)
    (hfd : fds[k]? = some fd) (hstale : t.isOpen fd = false) :
    ∃ j < k, (t.dupWhile fds).2[j]? = some fd := by
  have hturn := ((length_dupWhile_eq_iff t fds).1 hlength).2 k fd hfd
  obtain ⟨j, hj⟩ := List.mem_iff_getElem?.1 (mem_of_openInTurn_of_stale hturn hstale)
  have hjk : j < k := by
    have hlt := (List.getElem?_eq_some_iff.1 hj).1
    simp only [List.length_map, List.length_take] at hlt
    omega
  have hk : k < fds.length := (List.getElem?_eq_some_iff.1 hfd).1
  refine ⟨j, hjk, ?_⟩
  rw [dupWhile_eq_take_length, hlength]
  rw [List.getElem?_map, List.getElem?_take_of_lt hjk] at hj
  rw [List.getElem?_map, List.getElem?_take_of_lt (Nat.lt_trans hjk hk), hj]

/-- Slot by slot, a new descriptor refers to what one of the old descriptors referred to before. It
is the one in the same slot if that was open, and otherwise one in a slot before. -/
def Sourced (t t' : DescriptorTable) (fds made : List Int) : Prop :=
  ∀ (k : Nat) (fd new : Int), fds[k]? = some fd → made[k]? = some new →
    ∃ j ≤ k, ∃ source, fds[j]? = some source ∧ t.isOpen source = true ∧
      t'.file? new = t.file? source ∧ (j = k ↔ t.isOpen fd = true)

theorem sourced_dupWhile (hlength : (t.dupWhile fds).2.length = fds.length) :
    Sourced t (t.dupWhile fds).1 fds (t.dupWhile fds).2 := by
  have hsame := map_file?_dupWhile hlength
  intro k
  -- What a stale slot names was made for a slot before it, which may have been stale itself.
  induction k using Nat.strongRecOn with
  | ind k ih =>
    intro fd new hfd hnew
    have hafter : (t.dupWhile fds).1.file? new = (t.dupWhile fds).1.file? fd := by
      have hk := congrArg (·[k]?) hsame
      simpa [hfd, hnew] using hk
    cases hopen : t.isOpen fd with
    | true =>
      exact ⟨k, Nat.le_refl k, fd, hfd, hopen, hafter.trans (file?_dupWhile fds hopen), by simp⟩
    | false =>
      obtain ⟨m, hmk, hm⟩ := exists_made_of_stale hlength hfd hopen
      have hlt : m < fds.length := by
        rw [← hlength]
        exact (List.getElem?_eq_some_iff.1 hm).1
      obtain ⟨j, hjm, source, hj, hsource, hfile, -⟩ :=
        ih m hmk fds[m] fd (List.getElem?_eq_getElem hlt) hm
      have hjk : j < k := Nat.lt_of_le_of_lt hjm hmk
      exact ⟨j, Nat.le_of_lt hjk, source, hj, hsource, hafter.trans hfile,
        by simp [Nat.ne_of_lt hjk]⟩

end DescriptorTable

namespace RecordStore

variable {s : RecordStore} {i : Nat} {r : HandleRecord}

/-- Main result: a record is copied if and only if there are free numbers enough and each of its
descriptors is open in its turn; so a stale one is refused unless a slot before it is given its
number. The slot is then a duplicate of another one, as all that a copy holds duplicates what was
open before. -/
theorem duplicate_iff_openInTurn (hr : s.record? i = some r) :
    ((s.duplicate (some i)).2.isSome ↔ r.fds.length ≤ s.table.freeNumbers.length ∧
      ∀ k fd, r.fds[k]? = some fd → s.table.OpenInTurn k fd) ∧
    (∀ k fd, r.fds[k]? = some fd → s.table.isOpen fd = false →
      fd ∉ (s.table.freeNumbers.take k).map Int.ofNat → s.duplicate (some i) = (s, none)) ∧
    ∀ s' c, s.duplicate (some i) = (s', some c) → ∃ copy, s'.record? c = some copy ∧
      copy.fds.length = r.fds.length ∧ DescriptorTable.Sourced s.table s'.table r.fds copy.fds := by
  cases hd : s.table.dupWhile r.fds with
  | mk table made =>
    have hiff := s.table.length_dupWhile_eq_iff r.fds
    rw [hd] at hiff
    rw [duplicate_eq hr hd]
    refine ⟨?_, fun k fd hfd hstale hnot => ?_, fun s' c hs => ?_⟩
    · rw [← hiff]
      split
      · next hlength => simp [hlength]
      · next hlength => simp [hlength]
    · refine if_neg fun hlength => hnot ?_
      exact DescriptorTable.mem_of_openInTurn_of_stale ((hiff.1 hlength).2 k fd hfd) hstale
    · split at hs
      · next hlength =>
        obtain ⟨rfl, hc⟩ := Prod.mk.inj hs
        obtain rfl := Option.some.inj hc
        have hfds := HandleRecord.fds_copyWith hlength
        have hsourced := @DescriptorTable.sourced_dupWhile s.table r.fds (by rw [hd, hlength])
        rw [hd] at hsourced
        exact ⟨r.copyWith made, (record?_add _ _ _).trans (if_pos rfl), by rw [hfds, hlength],
          by rwa [hfds]⟩
      · simp at hs

/-- Two records with the same descriptors, of which 3 and 4 are stale. In the order in which numbers
are given out they are duplicated, and all duplicates refer to what 0 refers to; with 3 in front
there is no copy. -/
theorem duplicate_iff_openInTurn_reordered :
    let s : RecordStore := ⟨.withFirst 3 8,
      ⟨[⟨⟨12, 3, 0, [0, 3, 4]⟩, 0⟩, ⟨⟨12, 3, 0, [3, 0, 4]⟩, 0⟩]⟩⟩
    (s.duplicate (some 0)).2.isSome ∧
    (∃ s' copy, s.duplicate (some 0) = (s', some 2) ∧ s'.record? 2 = some copy ∧
      DescriptorTable.Sourced s.table s'.table [0, 3, 4] copy.fds ∧ copy.fds = [3, 4, 5] ∧
      copy.fds.map s'.table.file? = [some 0, some 0, some 0]) ∧
    s.duplicate (some 1) = (s, none) := by
  intro s
  obtain ⟨hiff, -, hcopies⟩ :=
    duplicate_iff_openInTurn (s := s) (i := 0) (r := ⟨12, 3, 0, [0, 3, 4]⟩) rfl
  obtain ⟨-, hrefused, -⟩ :=
    duplicate_iff_openInTurn (s := s) (i := 1) (r := ⟨12, 3, 0, [3, 0, 4]⟩) rfl
  obtain ⟨copy, hcopy, -, hsourced⟩ := hcopies _ 2 rfl
  refine ⟨hiff.2 ⟨by decide, fun k fd hfd => ?_⟩, ⟨_, copy, rfl, hcopy, hsourced, ?_⟩,
    hrefused 0 3 rfl (by decide) (by decide)⟩
  · match k with
    | 0 | 1 | 2 =>
      obtain rfl := Option.some.inj hfd
      decide
    | k + 3 => simp [HandleRecord.fds] at hfd
  · obtain rfl : ⟨12, 3, 0, [3, 4, 5]⟩ = copy := Option.some.inj hcopy
    decide

/-- A stale descriptor that is duplicated all the same: number 3 is closed until it is given to the
duplicate of 0, and then the slot after it names that. -/
theorem exists_duplicate_of_stale :
    let s := ([.create 2 0, .setFds 0 0 [0, 3]].foldl (fun s step => (s.step step).1)
      HandleSession.initial).store
    s.record? 0 = some ⟨12, 2, 0, [0, 3]⟩ ∧ s.table.isOpen 3 = false ∧
    (s.duplicate (some 0)).2 = some 1 ∧
    (s.duplicate (some 0)).1.record? 1 = some ⟨12, 2, 0, [3, 4]⟩ := by
  decide +kernel

end RecordStore

end HalLink
