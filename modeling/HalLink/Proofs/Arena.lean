import HalLink.Arena

set_option autoImplicit false

namespace HalLink

namespace Arena

variable {α : Type} {a a' a'' : Arena α} {given : Option Nat} {i : Nat} {content : α}

def releases (a : Arena α) (i : Nat) : Nat := (a.blocks[i]?.map (·.releases)).getD 0

theorem live?_release (a : Arena α) (i j : Nat) :
    (a.release i).live? j = if j = i then none else a.live? j := by
  split
  · next h => exact h ▸ live?_release_self a j
  · next h => exact live?_release_of_ne a (Ne.symm h)

theorem live?_update (a : Arena α) (i : Nat) (f : α → α) (j : Nat) :
    (a.update i f).live? j = if j = i then (a.live? j).map f else a.live? j := by
  simp only [update, live?, List.getElem?_modify]
  by_cases h : i = j
  · subst h
    cases a.blocks[i]? with
    | none => simp
    | some b =>
      obtain ⟨content, releases⟩ := b
      cases releases <;> simp
  · simp [h, Ne.symm h]

@[simp] theorem alloc_snd (a : Arena α) (content : α) : (a.alloc content).2 = a.size := rfl

theorem lt_size_of_live? (h : a.live? i = some content) :
    i < a.size := by
  refine Decidable.byContradiction fun hlt => ?_
  simp [live?, List.getElem?_eq_none (Nat.not_lt.1 hlt)] at h

@[simp] theorem live?_size (a : Arena α) : a.live? a.size = none := by
  simp [live?, size]

theorem live?_isSome_iff (a : Arena α) (i : Nat) :
    (a.live? i).isSome ↔ i < a.size ∧ a.releases i = 0 := by
  simp only [live?, releases, size]
  by_cases h : i < a.blocks.length
  · rw [List.getElem?_eq_getElem h]
    obtain ⟨content, releases⟩ := a.blocks[i]
    cases releases <;> simp [h]
  · simp [h]

theorem update_alloc (a : Arena α) (content : α) (f : α → α) :
    (a.alloc content).1.update a.size f = (a.alloc (f content)).1 := by
  refine congrArg Arena.mk (List.ext_getElem? fun i => ?_)
  simp only [alloc, size, List.getElem?_modify]
  rcases Nat.lt_trichotomy i a.blocks.length with h | rfl | h
  · simp [List.getElem?_append_left h, Nat.ne_of_gt h]
  · simp
  · rw [List.getElem?_eq_none (by simp; omega), List.getElem?_eq_none (by simp; omega)]
    simp [Nat.ne_of_lt h]

theorem releases_alloc (a : Arena α) (content : α) (i : Nat) :
    (a.alloc content).1.releases i = a.releases i := by
  simp only [releases, alloc]
  rcases Nat.lt_trichotomy i a.blocks.length with h | rfl | h
  · simp [List.getElem?_append_left h]
  · simp
  · rw [List.getElem?_eq_none (by simp; omega), List.getElem?_eq_none (Nat.le_of_lt h)]

theorem releases_update (a : Arena α) (j : Nat) (f : α → α) (i : Nat) :
    (a.update j f).releases i = a.releases i := by
  simp only [releases, update, List.getElem?_modify]
  cases a.blocks[i]? with
  | none => simp
  | some b => by_cases h : j = i <;> simp [h]

theorem releases_release (hi : i < a.size) (j : Nat) :
    (a.release i).releases j = a.releases j + if j = i then 1 else 0 := by
  simp only [releases, release, List.getElem?_modify]
  by_cases h : i = j
  · subst h
    rw [List.getElem?_eq_getElem hi]
    simp
  · simp [h, Ne.symm h]

/-- All live blocks are kept but the one that is given up, if there is one; it is released once and
nothing else is. -/
structure Change (a a' : Arena α) (given : Option Nat) : Prop where
  live : ∀ {i content}, a.live? i = some content →
    a'.live? i = if given = some i then none else some content
  releases : ∀ i, a'.releases i = a.releases i + if given = some i then 1 else 0

namespace Change

theorem refl (a : Arena α) : Change a a none where
  live h := by simpa using h
  releases i := by simp

theorem alloc (a : Arena α) (content : α) : Change a (a.alloc content).1 none where
  live {i _} h := by
    have hne : i ≠ a.size := Nat.ne_of_lt (lt_size_of_live? h)
    simp [live?_alloc, hne, h]
  releases i := releases_alloc a content i

theorem release (h : a.live? i = some content) : Change a (a.release i) (some i) where
  live {j _} hj := by
    rw [live?_release]
    by_cases he : j = i
    · simp [he]
    · simpa [he, Ne.symm he] using hj
  releases j := by
    rw [releases_release (lt_size_of_live? h)]
    by_cases he : j = i
    · simp [he]
    · simp [he, Ne.symm he]

theorem live_of_none (h : Change a a' none) (hi : a.live? i = some content) :
    a'.live? i = some content := by simpa using h.live hi

theorem live_of_ne (h : Change a a' given) (hne : given ≠ some i)
    (hi : a.live? i = some content) : a'.live? i = some content := by simpa [hne] using h.live hi

theorem isSome_of_ne (h : Change a a' given) (hne : given ≠ some i) (hi : (a.live? i).isSome) :
    (a'.live? i).isSome := by
  obtain ⟨content, hi⟩ := Option.isSome_iff_exists.1 hi
  simp [h.live_of_ne hne hi]

theorem le_releases (h : Change a a' given) (i : Nat) : a.releases i ≤ a'.releases i := by
  rw [h.releases i]
  exact Nat.le_add_right _ _

theorem kept_or_released (h : Change a a' given) (hi : a.live? i = some content) :
    a'.live? i = some content ∨ 1 ≤ a'.releases i := by
  by_cases hgiven : given = some i
  · right
    rw [h.releases i, if_pos hgiven]
    exact Nat.le_add_left 1 _
  · exact .inl (h.live_of_ne hgiven hi)

theorem trans_left (h : Change a a' none) (h' : Change a' a'' given) : Change a a'' given where
  live hi := h'.live (h.live_of_none hi)
  releases i := by
    have hr := h.releases i
    have hr' := h'.releases i
    simp at hr
    omega

theorem trans_right (h : Change a a' given) (h' : Change a' a'' none) : Change a a'' given where
  live {i content} hi := by
    by_cases hg : given = some i
    · have hr := h.releases i
      have hr' := h'.releases i
      have hlive := a''.live?_isSome_iff i
      simp [hg] at hr hr'
      rw [if_pos hg, ← Option.not_isSome_iff_eq_none, hlive]
      omega
    · rw [if_neg hg]
      exact h'.live_of_none (h.live_of_ne hg hi)
  releases i := by
    have hr := h.releases i
    have hr' := h'.releases i
    simp at hr'
    omega

theorem releases_le (h : Change a a' given) (hgiven : ∀ i ∈ given, (a.live? i).isSome)
    (hle : ∀ i, a.releases i ≤ 1) (i : Nat) : a'.releases i ≤ 1 := by
  rw [h.releases i]
  split
  · next hi =>
    have hzero := ((a.live?_isSome_iff i).1 (hgiven i hi)).2
    omega
  · exact hle i

end Change

end Arena

end HalLink
