import HalLink.Toml.Reader

/-!
What readers do on text whose start is known: readers in a row, alternatives, and repetition over
text that was written piece by piece. A reader that takes as much as it can needs to know that the
text does not go on with more.
-/

set_option autoImplicit false

namespace HalLink.Toml

def StopsAt (p : Char → Bool) (text : List Char) : Prop := ∀ c ∈ text.head?, p c = false

theorem stopsAt_nil (p : Char → Bool) : StopsAt p [] := by simp [StopsAt]

theorem stopsAt_cons {p : Char → Bool} {c : Char} (h : p c = false) (text : List Char) :
    StopsAt p (c :: text) := by simpa [StopsAt] using h

theorem stopsAt_append {p : Char → Bool} {front : List Char} (hne : front ≠ [])
    (h : ∀ c ∈ front, p c = false) (text : List Char) : StopsAt p (front ++ text) := by
  cases front with
  | nil => exact absurd rfl hne
  | cons c front => exact stopsAt_cons (h c (by simp)) _

section

variable {p q : Char → Bool} {text : List Char}

theorem StopsAt.left (h : StopsAt (fun c => p c || q c) text) : StopsAt p text :=
  fun c hc => (Bool.or_eq_false_iff.1 (h c hc)).1

theorem StopsAt.right (h : StopsAt (fun c => p c || q c) text) : StopsAt q text :=
  fun c hc => (Bool.or_eq_false_iff.1 (h c hc)).2

end

namespace Reader

variable {α β : Type} {r : Reader α} {text rest : List Char} {a : α}

theorem bind_of_some (h : r text = some (a, rest)) (f : α → Reader β) :
    (r >>= f) text = f a rest := by
  change (r text).bind (fun (a, rest) => f a rest) = f a rest
  rw [h]
  rfl

theorem bind_of_none (h : r text = none) (f : α → Reader β) : (r >>= f) text = none := by
  change (r text).bind (fun (a, rest) => f a rest) = none
  rw [h]
  rfl

theorem orElse_of_some (h : r text = some (a, rest)) (r' : Reader α) :
    (r <|> r') text = some (a, rest) := by
  change (r text <|> r' text) = some (a, rest)
  rw [h]
  rfl

theorem orElse_of_none (h : r text = none) (r' : Reader α) : (r <|> r') text = r' text := by
  change (r text <|> r' text) = r' text
  rw [h]
  rfl

theorem optional_of_none (h : r text = none) : optional r text = some (none, text) := by
  have hsome : (some <$> r) text = none := by
    change (r text).bind (fun (a, rest) => some (some a, rest)) = none
    rw [h]
    rfl
  exact orElse_of_none hsome _

end Reader

section

variable {p : Char → Bool} {c d : Char} {text rest front : List Char}

theorem satisfy_cons (h : p c = true) (rest : List Char) :
    satisfy p (c :: rest) = some (c, rest) := by simp [satisfy, h]

theorem satisfy_of_stopsAt (h : StopsAt p text) : satisfy p text = none := by
  cases text with
  | nil => rfl
  | cons c rest =>
    have hc : p c = false := h c rfl
    simp [satisfy, hc]

theorem expect_cons (c : Char) (rest : List Char) : expect c (c :: rest) = some ((), rest) :=
  Reader.bind_of_some (satisfy_cons (by simp) rest) _

theorem expect_of_stopsAt (h : StopsAt (· == c) text) : expect c text = none :=
  Reader.bind_of_none (satisfy_of_stopsAt h) _

theorem expectAll_append (front rest : List Char) :
    expectAll front (front ++ rest) = some ((), rest) := by
  induction front with
  | nil => rfl
  | cons c front ih =>
    rw [List.cons_append, expectAll, Reader.bind_of_some (expect_cons c _), ih]

theorem expectAll_cons (c : Char) (front rest : List Char) :
    expectAll (c :: front) (c :: rest) = expectAll front rest :=
  Reader.bind_of_some (expect_cons c rest) _

theorem expectAll_of_stopsAt (h : StopsAt (· == c) text) (front : List Char) :
    expectAll (c :: front) text = none :=
  Reader.bind_of_none (expect_of_stopsAt h) _

theorem run_append (hfront : ∀ c ∈ front, p c = true) (h : StopsAt p rest) :
    run p (front ++ rest) = some (front, rest) := by
  have hstop : rest.takeWhile p = [] ∧ rest.dropWhile p = rest := by
    cases rest with
    | nil => simp
    | cons c rest =>
      have hc : p c = false := h c rfl
      simp [hc]
  simp [run, List.takeWhile_append_of_pos hfront, List.dropWhile_append_of_pos hfront, hstop]

theorem blanks_append (hfront : ∀ c ∈ front, isBlank c = true) (h : StopsAt isBlank rest) :
    blanks (front ++ rest) = some ((), rest) :=
  Reader.bind_of_some (run_append hfront h) _

theorem blanks_of_stopsAt (h : StopsAt isBlank rest) : blanks rest = some ((), rest) :=
  Reader.bind_of_some (run_append (fun _ hc => absurd hc List.not_mem_nil) h) _

end

section

variable {α β : Type} {item : Reader α} {last : List Char} {bs : List β}
  (write : β → List Char) (result : β → α) (Follows : List Char → Prop)

theorem manyUpTo_written
    (hread : ∀ b ∈ bs, ∀ rest, Follows rest → item (write b ++ rest) = some (result b, rest))
    (hwrite : ∀ b ∈ bs, write b ≠ [] ∧ ∀ rest, Follows (write b ++ rest))
    (hlast : Follows last) (hstop : item last = none) {limit : List Char}
    (hlimit : (bs.flatMap write ++ last).length ≤ limit.length) :
    manyUpTo item limit (bs.flatMap write ++ last) = (bs.map result, last) := by
  induction bs generalizing limit with
  | nil => cases limit <;> simp [manyUpTo, hstop]
  | cons b bs ih =>
    simp only [List.forall_mem_cons] at hread hwrite
    obtain ⟨hne, hfollows⟩ := hwrite.1
    have hpos := List.length_pos_iff.2 hne
    simp only [List.flatMap_cons, List.append_assoc, List.length_append] at hlimit ⊢
    cases limit with
    | nil =>
      simp only [List.length_nil] at hlimit
      omega
    | cons c limit =>
      have hrest : Follows (bs.flatMap write ++ last) := by
        cases bs with
        | nil => exact hlast
        | cons b' bs =>
          rw [List.flatMap_cons, List.append_assoc]
          exact (hwrite.2 b' (by simp)).2 _
      have hlimit' : (bs.flatMap write ++ last).length ≤ limit.length := by
        simp only [List.length_cons, List.length_append] at hlimit ⊢
        omega
      simp only [manyUpTo, hread.1 _ hrest, ih hread.2 hwrite.2 hlimit', List.map_cons]

/-- Items are read back one by one from what was written for each, if each is read wherever
the text goes on as it does after it. -/
theorem many_written
    (hread : ∀ b ∈ bs, ∀ rest, Follows rest → item (write b ++ rest) = some (result b, rest))
    (hwrite : ∀ b ∈ bs, write b ≠ [] ∧ ∀ rest, Follows (write b ++ rest))
    (hlast : Follows last) (hstop : item last = none) :
    many item (bs.flatMap write ++ last) = some (bs.map result, last) := by
  rw [many, manyUpTo_written write result Follows hread hwrite hlast hstop (Nat.le_refl _)]

theorem many_chars {item : Reader Char} {cs : List Char}
    (hread : ∀ c ∈ cs, ∀ rest, item (c :: rest) = some (c, rest)) (hstop : item last = none) :
    many item (cs ++ last) = some (cs, last) := by
  have h := many_written (fun c => [c]) id (fun _ => True) (fun c hc rest _ => hread c hc rest)
    (fun c _ => ⟨by simp, fun _ => trivial⟩) trivial hstop
  simpa using h

end

end HalLink.Toml
