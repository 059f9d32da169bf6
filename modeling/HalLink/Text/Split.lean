set_option autoImplicit false

namespace HalLink.Text

def splitFirst? (sep : Char) : List Char → Option (List Char × List Char)
  | [] => none
  | c :: cs =>
    if c = sep then some ([], cs)
    else (splitFirst? sep cs).map fun (before, after) => (c :: before, after)

def splitFirstDouble? (sep : Char) : List Char → Option (List Char × List Char)
  | [] => none
  | [_] => none
  | c :: d :: cs =>
    if c = sep ∧ d = sep then some ([], cs)
    else (splitFirstDouble? sep (d :: cs)).map fun (before, after) => (c :: before, after)

/-- The pieces between separators, one more than there are separators; the empty text is one empty
piece. -/
def pieces (sep : Char) : List Char → List (List Char)
  | [] => [[]]
  | c :: cs =>
    if c = sep then [] :: pieces sep cs
    else match pieces sep cs with
      | [] => [[c]]
      | p :: ps => (c :: p) :: ps

theorem splitFirst?_eq_some {sep : Char} {s a b : List Char}
    (h : splitFirst? sep s = some (a, b)) : s = a ++ sep :: b ∧ sep ∉ a := by
  induction s generalizing a with
  | nil => simp [splitFirst?] at h
  | cons c cs ih =>
    by_cases hc : c = sep
    · simp only [splitFirst?, hc, if_true, Option.some.injEq, Prod.mk.injEq] at h
      obtain ⟨rfl, rfl⟩ := h
      simp [hc]
    · simp only [splitFirst?, hc, if_false, Option.map_eq_some_iff] at h
      obtain ⟨⟨a', b'⟩, h', he⟩ := h
      obtain ⟨rfl, rfl⟩ := Prod.mk.inj he
      obtain ⟨hs, hn⟩ := ih h'
      exact ⟨by simp [hs], by simp [hn, Ne.symm hc]⟩

theorem splitFirst?_append {sep : Char} {a : List Char} (b : List Char) (h : sep ∉ a) :
    splitFirst? sep (a ++ sep :: b) = some (a, b) := by
  induction a with
  | nil => simp [splitFirst?]
  | cons c cs ih =>
    simp only [List.mem_cons, not_or] at h
    obtain ⟨hc, hcs⟩ := h
    simp [splitFirst?, Ne.symm hc, ih hcs]

theorem splitFirst?_eq_none_iff {sep : Char} {s : List Char} :
    splitFirst? sep s = none ↔ sep ∉ s := by
  induction s with
  | nil => simp [splitFirst?]
  | cons c cs ih =>
    by_cases hc : c = sep
    · simp [splitFirst?, hc]
    · simp [splitFirst?, hc, ih, Ne.symm hc]

theorem splitFirstDouble?_eq_some {sep : Char} {s a b : List Char}
    (h : splitFirstDouble? sep s = some (a, b)) : s = a ++ sep :: sep :: b := by
  induction s generalizing a with
  | nil => simp [splitFirstDouble?] at h
  | cons c cs ih =>
    cases cs with
    | nil => simp [splitFirstDouble?] at h
    | cons d ds =>
      by_cases hc : c = sep ∧ d = sep
      · simp only [splitFirstDouble?, hc, and_self, if_true, Option.some.injEq, Prod.mk.injEq] at h
        obtain ⟨rfl, rfl⟩ := h
        simp [hc]
      · simp only [splitFirstDouble?, hc, if_false, Option.map_eq_some_iff] at h
        obtain ⟨⟨a', b'⟩, h', he⟩ := h
        obtain ⟨rfl, rfl⟩ := Prod.mk.inj he
        rw [ih h']
        rfl

theorem splitFirstDouble?_append {sep : Char} {a : List Char} (b : List Char) (h : sep ∉ a) :
    splitFirstDouble? sep (a ++ sep :: sep :: b) = some (a, b) := by
  induction a with
  | nil => simp [splitFirstDouble?]
  | cons c cs ih =>
    simp only [List.mem_cons, not_or] at h
    obtain ⟨hc, hcs⟩ := h
    cases cs with
    | nil => simp_all [splitFirstDouble?, Ne.symm hc]
    | cons d ds =>
      have hd := ih hcs
      simp only [List.cons_append] at hd ⊢
      simp [splitFirstDouble?, Ne.symm hc, hd]

theorem splitFirstDouble?_of_not_mem {sep : Char} {s : List Char} (h : sep ∉ s) :
    splitFirstDouble? sep s = none := by
  cases hs : splitFirstDouble? sep s with
  | none => rfl
  | some p => rw [splitFirstDouble?_eq_some hs] at h; simp at h

@[simp] theorem pieces_ne_nil (sep : Char) (s : List Char) : pieces sep s ≠ [] := by
  cases s with
  | nil => simp [pieces]
  | cons c cs =>
    simp only [pieces]
    split
    · simp
    · split <;> simp

theorem not_mem_of_mem_pieces {sep : Char} {s p : List Char} (h : p ∈ pieces sep s) : sep ∉ p := by
  induction s generalizing p with
  | nil => simp_all [pieces]
  | cons c cs ih =>
    simp only [pieces] at h
    split at h
    · rcases List.mem_cons.1 h with rfl | h
      · simp
      · exact ih h
    · next hc =>
      split at h
      · next he => exact absurd he (pieces_ne_nil sep cs)
      · next q qs he =>
        rcases List.mem_cons.1 h with rfl | h
        · have hq : sep ∉ q := ih (by simp [he])
          simp [hq, Ne.symm hc]
        · exact ih (by simp [he, h])

theorem intercalate_pieces (sep : Char) (s : List Char) : [sep].intercalate (pieces sep s) = s := by
  induction s with
  | nil => rfl
  | cons c cs ih =>
    obtain ⟨p, ps, hp⟩ := List.exists_cons_of_ne_nil (pieces_ne_nil sep cs)
    rw [hp] at ih
    by_cases hc : c = sep
    · simp [pieces, hc, hp, ih]
    · simp only [pieces, hc, if_false, hp]
      cases ps with
      | nil => simpa using ih
      | cons q qs => simpa using ih

theorem pieces_of_not_mem {sep : Char} {s : List Char} (h : sep ∉ s) : pieces sep s = [s] := by
  induction s with
  | nil => rfl
  | cons c cs ih =>
    simp only [List.mem_cons, not_or] at h
    obtain ⟨hc, hcs⟩ := h
    simp [pieces, Ne.symm hc, ih hcs]

theorem pieces_append {sep : Char} {a : List Char} (b : List Char) (h : sep ∉ a) :
    pieces sep (a ++ sep :: b) = a :: pieces sep b := by
  induction a with
  | nil => simp [pieces]
  | cons c cs ih =>
    simp only [List.mem_cons, not_or] at h
    obtain ⟨hc, hcs⟩ := h
    simp [pieces, Ne.symm hc, ih hcs]

theorem pieces_intercalate {sep : Char} {ps : List (List Char)} (hne : ps ≠ [])
    (h : ∀ p ∈ ps, sep ∉ p) : pieces sep ([sep].intercalate ps) = ps := by
  induction ps with
  | nil => exact absurd rfl hne
  | cons p ps ih =>
    have hp : sep ∉ p := h p (by simp)
    cases ps with
    | nil => simpa using pieces_of_not_mem hp
    | cons q qs =>
      have hrest := ih (by simp) fun p' hp' => h p' (by simp [hp'])
      simp only [List.intercalate_cons_cons, List.append_assoc, List.singleton_append]
      rw [pieces_append _ hp, hrest]

theorem pieces_prefix_iff (sep : Char) (q p : List Char) :
    pieces sep q <+: pieces sep p ↔ p = q ∨ q ++ [sep] <+: p := by
  induction q generalizing p with
  | nil =>
    cases p with
    | nil => simp [pieces]
    | cons c cs =>
      obtain ⟨r, rs, hr⟩ := List.exists_cons_of_ne_nil (pieces_ne_nil sep cs)
      by_cases hc : c = sep
      · simp [pieces, hc]
      · simp [pieces, hc, hr, Ne.symm hc]
  | cons d ds ih =>
    obtain ⟨q, qs, hq⟩ := List.exists_cons_of_ne_nil (pieces_ne_nil sep ds)
    cases p with
    | nil =>
      by_cases hd : d = sep
      · simp [pieces, hd]
      · simp [pieces, hd, hq]
    | cons c cs =>
      obtain ⟨r, rs, hr⟩ := List.exists_cons_of_ne_nil (pieces_ne_nil sep cs)
      have hrest := ih cs
      by_cases hd : d = sep <;> by_cases hc : c = sep
      · simp [pieces, hd, hc, hrest]
      · simp [pieces, hd, hc, hr, Ne.symm hc]
      · simp [pieces, hd, hc, hq, Ne.symm hd]
      · simp only [hq, hr, List.cons_prefix_cons] at hrest
        simp only [pieces, hd, hc, hq, hr, if_false, List.cons_prefix_cons, List.cons.injEq,
          List.cons_append]
        constructor
        · rintro ⟨⟨rfl, he⟩, hs⟩
          simpa using hrest.1 ⟨he, hs⟩
        · rintro (⟨rfl, rfl⟩ | ⟨rfl, hp⟩)
          · simpa using hrest.2 (.inl rfl)
          · simpa using hrest.2 (.inr hp)

end HalLink.Text
