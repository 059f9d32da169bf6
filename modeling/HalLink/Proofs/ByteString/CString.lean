import HalLink.Proofs.ByteString.Contents

set_option autoImplicit false

namespace HalLink

/-- The first bytes are those of the second before their first NUL, all of them if there is none. -/
structure UpToNul (part bytes : List UInt8) : Prop where
  no_nul : 0 ∉ part
  ends : part = bytes ∨ part ++ [0] <+: bytes

theorem untilNul_append_nul (front rest : List UInt8) :
    untilNul (front ++ 0 :: rest) = untilNul front := by
  induction front with
  | nil => rfl
  | cons b front ih =>
    simp only [untilNul, List.cons_append, List.takeWhile_cons] at ih ⊢
    rw [ih]

theorem untilNul_take {bytes : List UInt8} {n : Nat} (h : bytes[n]? = some 0) :
    untilNul bytes = untilNul (bytes.take n) := by
  obtain ⟨hn, h0⟩ := List.getElem?_eq_some_iff.1 h
  have hsplit : bytes = bytes.take n ++ 0 :: bytes.drop (n + 1) := by
    rw [← h0, ← List.drop_eq_getElem_cons hn, List.take_append_drop]
  rw [hsplit, untilNul_append_nul, ← hsplit]

theorem upToNul_untilNul (bytes : List UInt8) : UpToNul (untilNul bytes) bytes := by
  induction bytes with
  | nil => exact ⟨List.not_mem_nil, .inl rfl⟩
  | cons b bytes ih =>
    by_cases hb : b = 0
    · subst hb
      exact ⟨List.not_mem_nil, .inr (List.prefix_append [0] bytes)⟩
    · have he : untilNul (b :: bytes) = b :: untilNul bytes :=
        List.takeWhile_cons_of_pos (bne_iff_ne.2 hb)
      rw [he]
      refine ⟨List.not_mem_cons_of_ne_of_not_mem (Ne.symm hb) ih.no_nul, ?_⟩
      rcases ih.ends with hall | hnul
      · exact .inl (congrArg _ hall)
      · exact .inr (List.prefix_cons_inj b |>.2 hnul)

theorem untilNul_eq_self_iff {bytes : List UInt8} : untilNul bytes = bytes ↔ 0 ∉ bytes := by
  have h := upToNul_untilNul bytes
  refine ⟨fun he => he ▸ h.no_nul, fun hnot => h.ends.resolve_right fun hnul => ?_⟩
  exact hnot (hnul.subset (List.mem_append_right _ List.mem_cons_self))

namespace Memory

/-- The string counts these bytes and gives them back, and where it points there are these bytes and
a NUL; without any it points at the shared NUL. -/
structure Stores (m : Memory) (x : ByteString) (bytes : List UInt8) : Prop where
  size : x.size.toNat = bytes.length
  reads : m.bytes x = bytes
  memory : m.content x.place = bytes ++ [0]
  sentinel : bytes = [] → x.place = .sentinel

variable {m m' : Memory} {x : ByteString} {bytes : List UInt8} {lent : Option (Pointer × Nat)}

theorem CopyOf.stores (h : m.CopyOf bytes m' x) : m'.Stores x bytes where
  size := h.size
  reads := h.bytes
  memory := h.content
  sentinel hnil := by rw [h.empty hnil]; rfl

theorem Holds.terminated (h : m.Holds lent x) (ho : x.owned = true ∨ x.size = 0) :
    (m.content x.place)[x.size.toNat]? = some 0 := by
  rcases ho with ho | hsize
  · obtain ⟨-, block, content, hplace, hlive, -, hnul⟩ := h.owned ho
    simp only [Memory.content, hplace, hlive, Option.getD_some, hnul]
  · rw [(h.empty hsize).1, hsize]
    rfl

theorem bytes_of_size_eq_zero (h : x.size = 0) : m.bytes x = [] := by
  rw [Memory.bytes, h]
  rfl

theorem cString?_eq_some_iff {view : List UInt8} :
    m.cString? x = some view ↔ view = m.bytes x ∧
      (x.size = 0 ∨ 0 ∉ m.bytes x ∧ (m.content x.place)[x.size.toNat]? = some 0) := by
  rw [cString?]
  by_cases hsize : x.size = 0
  · rw [if_pos (show x.isEmpty = true from beq_iff_eq.2 hsize), bytes_of_size_eq_zero hsize]
    simp [hsize, eq_comm]
  · rw [if_neg (show ¬ x.isEmpty = true from fun h => hsize (beq_iff_eq.1 h))]
    by_cases hnul : 0 ∈ m.bytes x
    · rw [if_pos (List.contains_iff_mem.2 hnul)]
      simp [hsize, hnul]
    · rw [if_neg fun h => hnul (List.contains_iff_mem.1 h)]
      by_cases hnext : (m.content x.place)[x.size.toNat]? = some 0
      · simp [hnul, hnext, eq_comm]
      · simp [hsize, hnext]

theorem isSome_cString?_iff (hnext : (m.content x.place)[x.size.toNat]? = some 0) :
    (m.cString? x).isSome = true ↔ 0 ∉ m.bytes x := by
  rw [Option.isSome_iff_exists]
  constructor
  · rintro ⟨view, h⟩
    rcases (cString?_eq_some_iff.1 h).2 with hsize | ⟨hnot, -⟩
    · rw [bytes_of_size_eq_zero hsize]
      exact List.not_mem_nil
    · exact hnot
  · intro hnot
    exact ⟨_, cString?_eq_some_iff.2 ⟨rfl, .inr ⟨hnot, hnext⟩⟩⟩

theorem exists_copy_stores (m : Memory) (hlt : bytes.length < UInt32.size) :
    ∃ m' x, m.copy bytes = .ok (m', x) ∧ m'.Stores x bytes := by
  obtain ⟨m', x, hcopy, hx⟩ := m.exists_copy hlt
  exact ⟨m', x, hcopy, hx.stores⟩

theorem exists_assign_stores (m : Memory) (old : ByteString) (hlt : bytes.length < UInt32.size) :
    ∃ m' x, m.assign old bytes = ⟨m', x, none⟩ ∧ m'.Stores x bytes := by
  obtain ⟨m', x, hcopy, hx⟩ := (m.release old).exists_copy_stores hlt
  exact ⟨m', x, by rw [assign, hcopy, refilled], hx⟩

end Memory

namespace StringSession

variable {s : StringSession} {lent : Lending} {i : Nat} {x : ByteString}

theorem InBounds.exists_copyCString (hb : s.InBounds) (hs : s.Sound lent)
    (hx : s.string? i = some x) (hnul : (s.memory.content x.place)[x.size.toNat]? = some 0) :
    ∃ m y, s.memory.copyCString (some x.place) = .ok (m, y) ∧
      m.bytes y = untilNul (s.memory.bytes x) ∧ m.bytes x = s.memory.bytes x := by
  have huntil : untilNul (s.memory.content x.place) = untilNul (s.memory.bytes x) :=
    untilNul_take hnul
  have hlt : (untilNul (s.memory.bytes x)).length < UInt32.size :=
    Nat.lt_of_le_of_lt (List.takeWhile_sublist _).length_le (s.memory.length_bytes_lt x)
  obtain ⟨m, y, hcopy, hy⟩ := s.memory.exists_copy hlt
  exact ⟨m, y, by rw [Memory.copyCString, huntil, hcopy], hy.bytes, hb.bytes_of_copyOf hs hx hy⟩

/-- Main result: a string made or refilled of bytes holds them and a NUL after them, whatever it
held before. Any string has a C string exactly if no NUL is among its bytes and one comes next, as
one does where they are its own. Its pointer, read as a C string, gives its bytes up to the first
NUL, so the same string exactly if it has a C string, and the C string is one that it can be made
of again. -/
theorem c_string_views_agree :
    (∀ (m : Memory) (bytes : List UInt8), bytes.length < UInt32.size →
      (∃ m' x, m.copy bytes = .ok (m', x) ∧ m'.Stores x bytes) ∧
      (∀ old, ∃ m' x, m.assign old bytes = ⟨m', x, none⟩ ∧ m'.Stores x bytes) ∧
      ∀ p, bytes <+: m.bytesFrom p →
        ∃ m' x, m.copyParts (some p) bytes.length = .ok (m', x) ∧ m'.Stores x bytes) ∧
    ∀ steps i x, (initial.stepAll steps).string? i = some x →
      let m := (initial.stepAll steps).memory
      (∀ next, (m.content x.place)[x.size.toNat]? = some next → ∀ view,
        m.cString? x = some view ↔ view = m.bytes x ∧ 0 ∉ m.bytes x ∧ next = 0) ∧
      (x.owned = true ∨ x.size = 0 → ((m.cString? x).isSome = true ↔ 0 ∉ m.bytes x)) ∧
      ((m.content x.place)[x.size.toNat]? = some 0 →
        ∃ m' y, m.copyCString (some x.place) = .ok (m', y) ∧ UpToNul (m'.bytes y) (m.bytes x) ∧
          (m'.equalStrings y x = true ↔ (m.cString? x).isSome = true)) ∧
      ∀ view, m.cString? x = some view →
        ∃ m' y, m.copy view = .ok (m', y) ∧ m'.equalStrings y x = true := by
  refine ⟨fun m bytes hlt => ⟨m.exists_copy_stores hlt, fun old => m.exists_assign_stores old hlt,
    fun p hp => ?_⟩, fun steps i x hx => ?_⟩
  · rw [m.copyParts_of_lt _ hlt, Option.elim_some, ← List.prefix_iff_eq_take.1 hp]
    exact m.exists_copy_stores hlt
  · intro m
    obtain ⟨lent, hs, hb⟩ := exists_sound_inBounds steps
    refine ⟨fun next hnext view => ?_, fun hown => ?_, fun hnul => ?_, fun view hview => ?_⟩
    · have hempty : x.size = 0 → next = 0 := fun hsize =>
        Option.some.inj (hnext.symm.trans ((hs.holds hx).terminated (.inr hsize)))
      rw [Memory.cString?_eq_some_iff, hnext, Option.some.injEq]
      refine and_congr_right fun _ => ⟨fun h => ?_, .inr⟩
      rcases h with hsize | h
      · exact ⟨by rw [Memory.bytes_of_size_eq_zero hsize]; exact List.not_mem_nil, hempty hsize⟩
      · exact h
    · exact Memory.isSome_cString?_iff ((hs.holds hx).terminated hown)
    · obtain ⟨m', y, hcopy, hy, hsame⟩ := hb.exists_copyCString hs hx hnul
      refine ⟨m', y, hcopy, hy ▸ upToNul_untilNul _, ?_⟩
      rw [Memory.isSome_cString?_iff hnul, Memory.equalStrings, beq_iff_eq, hy, hsame,
        untilNul_eq_self_iff]
    · obtain rfl := (Memory.cString?_eq_some_iff.1 hview).1
      obtain ⟨m', y, hcopy, hy⟩ := m.exists_copy (m.length_bytes_lt x)
      refine ⟨m', y, hcopy, beq_iff_eq.2 ?_⟩
      rw [hy.bytes, hb.bytes_of_copyOf hs hx hy]

/-- Three strings that borrow from one buffer: all of it, with a NUL inside; a byte that another one
follows; and the bytes at the end. The fourth has a copy of its own. -/
theorem c_string_views_agree_borrowed :
    let steps : List StringStep := [.makeBuffer [1, 0, 2, 3], .create, .borrow 0 (some ⟨0, 0⟩) 4,
      .create, .borrow 1 (some ⟨0, 2⟩) 1, .create, .borrow 2 (some ⟨0, 2⟩) 2, .copy [9]]
    let m := (initial.stepAll steps).memory
    let x : ByteString := ⟨.external ⟨0, 0⟩, 4, false⟩
    let y : ByteString := ⟨.external ⟨0, 2⟩, 1, false⟩
    let z : ByteString := ⟨.external ⟨0, 2⟩, 2, false⟩
    let own : ByteString := ⟨.heap 0, 1, true⟩
    (∃ m' x', m.assign x [0, 2] = ⟨m', x', none⟩ ∧ m'.Stores x' [0, 2]) ∧
    (∃ m' x', m.copyParts (some ⟨0, 1⟩) 2 = .ok (m', x') ∧ m'.Stores x' [0, 2]) ∧
    (∃ m' x', m.copyCString (some x.place) = .ok (m', x') ∧ ¬ m'.equalStrings x' x = true) ∧
    (∀ view, m.cString? y ≠ some view) ∧
    (m.cString? z = some [2, 3] ∧ ∃ m' z', m.copy [2, 3] = .ok (m', z') ∧
      m'.equalStrings z' z = true) ∧
    (m.cString? own).isSome = true := by
  intro steps m x y z own
  obtain ⟨hcopies, hviews⟩ := c_string_views_agree
  obtain ⟨-, hassigned, hparts⟩ := hcopies m [0, 2] (by decide)
  obtain ⟨-, -, hread, -⟩ := hviews steps 0 x rfl
  obtain ⟨hfollowed, -⟩ := hviews steps 1 y rfl
  obtain ⟨hended, -, -, hback⟩ := hviews steps 2 z rfl
  obtain ⟨-, howned, -⟩ := hviews steps 3 own rfl
  have hz : m.cString? z = some [2, 3] := (hended 0 rfl _).2 ⟨rfl, by decide, rfl⟩
  refine ⟨hassigned x, hparts ⟨0, 1⟩ ⟨[3, 0], rfl⟩, ?_, fun view h => ?_, ⟨hz, hback _ hz⟩, ?_⟩
  · obtain ⟨m', x', hcopy, -, hequal⟩ := hread rfl
    exact ⟨m', x', hcopy, fun h => absurd (hequal.1 h) (by decide)⟩
  · exact absurd ((hfollowed 3 rfl view).1 h).2.2 (by decide)
  · exact (howned (.inl rfl)).2 (by decide)

end StringSession

end HalLink
