import HalLink.Handle.Descriptors
import HalLink.Proofs.Numbering

set_option autoImplicit false

namespace HalLink

namespace DescriptorTable

variable {t t' : DescriptorTable} {file : Nat} {fd other : Int} {fds : List Int}

theorem isOpen_eq_true_iff : t.isOpen fd = true ↔ ∃ file, t.file? fd = some file :=
  Option.isSome_iff_exists

theorem isOpen_eq_false_iff : t.isOpen fd = false ↔ t.file? fd = none := by
  simp [isOpen]

theorem file?_natCast (t : DescriptorTable) (n : Nat) : t.file? n = t.files[n]?.join := rfl

theorem mem_openNumbers_iff : fd ∈ t.openNumbers.map Int.ofNat ↔ t.isOpen fd = true := by
  simp only [openNumbers, List.mem_map, List.mem_filter, List.mem_range]
  constructor
  · rintro ⟨n, ⟨-, ho⟩, rfl⟩
    exact ho
  · intro ho
    have h0 : 0 ≤ fd := Int.not_lt.1 fun hneg => by
      simp [t.isOpen_of_neg (Int.not_le.2 hneg)] at ho
    obtain ⟨n, rfl⟩ := Int.eq_ofNat_of_zero_le h0
    obtain ⟨file, hfile⟩ := isOpen_eq_true_iff.1 ho
    exact ⟨n, ⟨lt_of_slot hfile, ho⟩, rfl⟩

theorem ext_file? (hlength : t.files.length = t'.files.length) (hopened : t.opened = t'.opened)
    (hfile : ∀ fd, t.file? fd = t'.file? fd) : t = t' := by
  obtain ⟨files, opened⟩ := t
  obtain ⟨files', opened'⟩ := t'
  obtain rfl : opened = opened' := hopened
  refine congrArg (DescriptorTable.mk · opened) (List.ext_getElem hlength fun n hn hn' => ?_)
  have h := hfile n
  rwa [file?_natCast, file?_natCast, List.getElem?_eq_getElem hn, List.getElem?_eq_getElem hn']
    at h

theorem giveLowest_eq_some (h : t.giveLowest file = some (t', fd)) :
    ∃ n : Nat, fd = n ∧ t.files[n]? = some none ∧
      t' = { t with files := t.files.set n (some file) } := by
  simp only [giveLowest, Option.map_eq_some_iff, Prod.mk.injEq] at h
  obtain ⟨n, hn, rfl, rfl⟩ := h
  obtain ⟨hlt, hfree, -⟩ := List.findIdx?_eq_some_iff_getElem.1 hn
  refine ⟨n, rfl, ?_, rfl⟩
  rw [List.getElem?_eq_getElem hlt]
  simpa using hfree

theorem file?_of_giveLowest (h : t.giveLowest file = some (t', fd)) : t.file? fd = none := by
  obtain ⟨n, rfl, hfree, -⟩ := giveLowest_eq_some h
  rw [file?_natCast, hfree]
  rfl

theorem isOpen_of_giveLowest (h : t.giveLowest file = some (t', fd)) : t.isOpen fd = false :=
  isOpen_eq_false_iff.2 (file?_of_giveLowest h)

theorem length_giveLowest (h : t.giveLowest file = some (t', fd)) :
    t'.files.length = t.files.length := by
  obtain ⟨n, -, -, rfl⟩ := giveLowest_eq_some h
  simp

theorem opened_giveLowest (h : t.giveLowest file = some (t', fd)) : t'.opened = t.opened := by
  obtain ⟨n, -, -, rfl⟩ := giveLowest_eq_some h
  rfl

theorem file?_giveLowest (h : t.giveLowest file = some (t', fd)) (other : Int) :
    t'.file? other = if other = fd then some file else t.file? other := by
  obtain ⟨n, rfl, hfree, rfl⟩ := giveLowest_eq_some h
  have hlt : n < t.files.length := (List.getElem?_eq_some_iff.1 hfree).1
  by_cases h0 : 0 ≤ other
  · obtain ⟨m, rfl⟩ := Int.eq_ofNat_of_zero_le h0
    simp only [file?_natCast, slot_set hlt, Int.natCast_inj]
  · have hne : other ≠ n := by omega
    simp [file?, h0, hne]

theorem isOpen_giveLowest (h : t.giveLowest file = some (t', fd)) (other : Int) :
    t'.isOpen other = (t.isOpen other || other == fd) := by
  by_cases he : other = fd <;> simp [isOpen, file?_giveLowest h, he]

theorem isOpen_of_openLowest (h : t.openLowest = some (t', fd)) : t.isOpen fd = false :=
  isOpen_of_giveLowest (t := { t with opened := t.opened + 1 }) h

theorem isOpen_openLowest (h : t.openLowest = some (t', fd)) (other : Int) :
    t'.isOpen other = (t.isOpen other || other == fd) :=
  isOpen_giveLowest (t := { t with opened := t.opened + 1 }) h other

theorem dup_eq_some (h : t.dup fd = some (t', other)) :
    ∃ file, t.file? fd = some file ∧ t.giveLowest file = some (t', other) :=
  Option.bind_eq_some_iff.1 h

theorem length_closeAll (t : DescriptorTable) (fds : List Int) :
    (t.closeAll fds).files.length = t.files.length := by
  induction fds generalizing t with
  | nil => rfl
  | cons fd rest ih =>
    have h := ih (t.close fd)
    rwa [length_close] at h

theorem opened_closeAll (t : DescriptorTable) (fds : List Int) :
    (t.closeAll fds).opened = t.opened := by
  induction fds generalizing t with
  | nil => rfl
  | cons fd rest ih =>
    have h := ih (t.close fd)
    rwa [opened_close] at h

theorem file?_closeAll (t : DescriptorTable) (fds : List Int) (other : Int) :
    (t.closeAll fds).file? other = if other ∈ fds then none else t.file? other := by
  induction fds generalizing t with
  | nil => simp [closeAll]
  | cons fd rest ih =>
    have h := ih (t.close fd)
    rw [file?_close] at h
    by_cases he : other = fd
    · subst he
      simpa [closeAll] using h
    · simpa [closeAll, he] using h

theorem isOpen_closeAll (t : DescriptorTable) (fds : List Int) (other : Int) :
    (t.closeAll fds).isOpen other = (t.isOpen other && decide (other ∉ fds)) := by
  by_cases h : other ∈ fds <;> simp [isOpen, file?_closeAll, h]

theorem closeAll_eq_self_iff : t.closeAll fds = t ↔ ∀ fd ∈ fds, t.isOpen fd = false := by
  constructor
  · intro h fd hfd
    have hself := t.isOpen_closeAll fds fd
    rw [h] at hself
    simpa [hfd] using hself
  · intro h
    refine ext_file? (length_closeAll t fds) (opened_closeAll t fds) fun fd => ?_
    rw [file?_closeAll]
    split
    · next hfd => exact (isOpen_eq_false_iff.1 (h fd hfd)).symm
    · rfl

theorem dupWhile_cons_none (h : t.dup fd = none) (rest : List Int) :
    t.dupWhile (fd :: rest) = (t, []) := by simp [dupWhile, h]

theorem dupWhile_cons_some (h : t.dup fd = some (t', other)) (rest : List Int) :
    t.dupWhile (fd :: rest) = ((t'.dupWhile rest).1, other :: (t'.dupWhile rest).2) := by
  simp [dupWhile, h]

theorem length_dupWhile (t : DescriptorTable) (fds : List Int) :
    (t.dupWhile fds).1.files.length = t.files.length := by
  induction fds generalizing t with
  | nil => rfl
  | cons fd rest ih =>
    cases hd : t.dup fd with
    | none => rw [dupWhile_cons_none hd]
    | some given =>
      obtain ⟨t', new⟩ := given
      obtain ⟨file, -, hgive⟩ := dup_eq_some hd
      rw [dupWhile_cons_some hd, ih, length_giveLowest hgive]

theorem opened_dupWhile (t : DescriptorTable) (fds : List Int) :
    (t.dupWhile fds).1.opened = t.opened := by
  induction fds generalizing t with
  | nil => rfl
  | cons fd rest ih =>
    cases hd : t.dup fd with
    | none => rw [dupWhile_cons_none hd]
    | some given =>
      obtain ⟨t', new⟩ := given
      obtain ⟨file, -, hgive⟩ := dup_eq_some hd
      rw [dupWhile_cons_some hd, ih, opened_giveLowest hgive]

theorem isOpen_dupWhile (t : DescriptorTable) (fds : List Int) (other : Int) :
    (t.dupWhile fds).1.isOpen other =
      (t.isOpen other || decide (other ∈ (t.dupWhile fds).2)) := by
  induction fds generalizing t with
  | nil => simp [dupWhile]
  | cons fd rest ih =>
    cases hd : t.dup fd with
    | none => simp [dupWhile_cons_none hd]
    | some given =>
      obtain ⟨t', new⟩ := given
      obtain ⟨file, -, hgive⟩ := dup_eq_some hd
      rw [dupWhile_cons_some hd, ih, isOpen_giveLowest hgive]
      by_cases he : other = new
      · simp [he]
      · have hb : (other == new) = false := by simpa using he
        simp [he, hb]

theorem isOpen_of_mem_dupWhile (h : other ∈ (t.dupWhile fds).2) :
    t.isOpen other = false := by
  induction fds generalizing t with
  | nil => simp [dupWhile] at h
  | cons fd rest ih =>
    cases hd : t.dup fd with
    | none => simp [dupWhile_cons_none hd] at h
    | some given =>
      obtain ⟨t', new⟩ := given
      obtain ⟨file, -, hgive⟩ := dup_eq_some hd
      rw [dupWhile_cons_some hd] at h
      rcases List.mem_cons.1 h with rfl | hrest
      · exact isOpen_of_giveLowest hgive
      · have hclosed := ih hrest
        rw [isOpen_giveLowest hgive] at hclosed
        exact (Bool.or_eq_false_iff.1 hclosed).1

theorem file?_dupWhile_of_notMem (h : other ∉ (t.dupWhile fds).2) :
    (t.dupWhile fds).1.file? other = t.file? other := by
  induction fds generalizing t with
  | nil => rfl
  | cons fd rest ih =>
    cases hd : t.dup fd with
    | none => rw [dupWhile_cons_none hd]
    | some given =>
      obtain ⟨t', new⟩ := given
      obtain ⟨file, -, hgive⟩ := dup_eq_some hd
      rw [dupWhile_cons_some hd, List.mem_cons, not_or] at h
      rw [dupWhile_cons_some hd, ih h.2, file?_giveLowest hgive, if_neg h.1]

theorem nodup_dupWhile (t : DescriptorTable) (fds : List Int) : (t.dupWhile fds).2.Nodup := by
  induction fds generalizing t with
  | nil => simp [dupWhile]
  | cons fd rest ih =>
    cases hd : t.dup fd with
    | none => simp [dupWhile_cons_none hd]
    | some given =>
      obtain ⟨t', new⟩ := given
      obtain ⟨file, -, hgive⟩ := dup_eq_some hd
      rw [dupWhile_cons_some hd]
      refine List.nodup_cons.2 ⟨fun hmem => ?_, ih t'⟩
      have hclosed := isOpen_of_mem_dupWhile hmem
      rw [isOpen_giveLowest hgive] at hclosed
      simp at hclosed

theorem closeAll_dupWhile (t : DescriptorTable) (fds : List Int) :
    (t.dupWhile fds).1.closeAll (t.dupWhile fds).2 = t := by
  refine ext_file? (by rw [length_closeAll, length_dupWhile])
    (by rw [opened_closeAll, opened_dupWhile]) fun other => ?_
  rw [file?_closeAll]
  split
  · next hmem => exact (isOpen_eq_false_iff.1 (isOpen_of_mem_dupWhile hmem)).symm
  · next hmem => exact file?_dupWhile_of_notMem hmem

end DescriptorTable

end HalLink
