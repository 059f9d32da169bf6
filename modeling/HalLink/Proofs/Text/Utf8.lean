import HalLink.Text.Utf8

set_option autoImplicit false

namespace HalLink.Utf8

/-- A character beside its bytes. The digits of its code, to the base 64, are what the bytes hold;
those after the first are below the base. -/
inductive Spelled : Char → List UInt8 → Prop where
  | one {a : Nat} : a < 0x80 → Spelled (.ofNat a) [.ofNat a]
  | two {a p : Nat} : 2 ≤ a → a < 0x20 → p < 0x40 →
      Spelled (.ofNat (a * 64 + p)) [.ofNat (0xC0 + a), .ofNat (0x80 + p)]
  | three {a p q : Nat} : a < 0x10 → p < 0x40 → q < 0x40 → (a = 0 → 0x20 ≤ p) →
      (a = 0xD → p < 0x20) →
      Spelled (.ofNat ((a * 64 + p) * 64 + q))
        [.ofNat (0xE0 + a), .ofNat (0x80 + p), .ofNat (0x80 + q)]
  | four {a p q r : Nat} : a < 5 → p < 0x40 → q < 0x40 → r < 0x40 → (a = 0 → 0x10 ≤ p) →
      (a = 4 → p < 0x10) →
      Spelled (.ofNat (((a * 64 + p) * 64 + q) * 64 + r))
        [.ofNat (0xF0 + a), .ofNat (0x80 + p), .ofNat (0x80 + q), .ofNat (0x80 + r)]

theorem utf8EncodeChar_ofNat {n : Nat} (h : n.isValidChar) :
    String.utf8EncodeChar (Char.ofNat n) =
      if n ≤ 0x7F then [UInt8.ofNat n]
      else if n ≤ 0x7FF then [UInt8.ofNat (n / 64 % 32 + 0xC0), UInt8.ofNat (n % 64 + 0x80)]
      else if n ≤ 0xFFFF then
        [UInt8.ofNat (n / 4096 % 16 + 0xE0), UInt8.ofNat (n / 64 % 64 + 0x80),
          UInt8.ofNat (n % 64 + 0x80)]
      else
        [UInt8.ofNat (n / 262144 % 8 + 0xF0), UInt8.ofNat (n / 4096 % 64 + 0x80),
          UInt8.ofNat (n / 64 % 64 + 0x80), UInt8.ofNat (n % 64 + 0x80)] := by
  have hn : (Char.ofNat n).val.toNat = n := by
    rw [Char.ofNat, dif_pos h]
    rfl
  rw [String.utf8EncodeChar, hn]

theorem Spelled.eq_encode {c : Char} {bytes : List UInt8} (h : Spelled c bytes) :
    bytes = String.utf8EncodeChar c := by
  cases h with
  | one ha => rw [utf8EncodeChar_ofNat (.inl (by omega)), if_pos (by omega)]
  | @two a p hlow ha hp =>
    have h0 : (a * 64 + p) / 64 % 32 + 0xC0 = 0xC0 + a := by omega
    have h1 : (a * 64 + p) % 64 + 0x80 = 0x80 + p := by omega
    rw [utf8EncodeChar_ofNat (.inl (by omega)), if_neg (by omega), if_pos (by omega), h0, h1]
  | @three a p q ha hp hq hlow hhigh =>
    have hvalid : Nat.isValidChar ((a * 64 + p) * 64 + q) := by unfold Nat.isValidChar; omega
    have h0 : ((a * 64 + p) * 64 + q) / 4096 % 16 + 0xE0 = 0xE0 + a := by omega
    have h1 : ((a * 64 + p) * 64 + q) / 64 % 64 + 0x80 = 0x80 + p := by omega
    have h2 : ((a * 64 + p) * 64 + q) % 64 + 0x80 = 0x80 + q := by omega
    rw [utf8EncodeChar_ofNat hvalid, if_neg (by omega), if_neg (by omega), if_pos (by omega), h0,
      h1, h2]
  | @four a p q r ha hp hq hr hlow hhigh =>
    have hvalid : Nat.isValidChar (((a * 64 + p) * 64 + q) * 64 + r) := .inr (by omega)
    have h0 : (((a * 64 + p) * 64 + q) * 64 + r) / 262144 % 8 + 0xF0 = 0xF0 + a := by omega
    have h1 : (((a * 64 + p) * 64 + q) * 64 + r) / 4096 % 64 + 0x80 = 0x80 + p := by omega
    have h2 : (((a * 64 + p) * 64 + q) * 64 + r) / 64 % 64 + 0x80 = 0x80 + q := by omega
    have h3 : (((a * 64 + p) * 64 + q) * 64 + r) % 64 + 0x80 = 0x80 + r := by omega
    rw [utf8EncodeChar_ofNat hvalid, if_neg (by omega), if_neg (by omega), if_neg (by omega), h0,
      h1, h2, h3]

theorem exists_spelled (c : Char) : ∃ bytes, Spelled c bytes := by
  have hvalid : c.toNat.isValidChar := c.valid
  unfold Nat.isValidChar at hvalid
  generalize hn : c.toNat = n at hvalid
  obtain rfl : c = .ofNat n := by rw [← hn, Char.ofNat_toNat]
  rcases Nat.lt_or_ge n 0x80 with h1 | h1
  · exact ⟨_, .one h1⟩
  rcases Nat.lt_or_ge n 0x800 with h2 | h2
  · have h : n = n / 64 * 64 + n % 64 := by omega
    rw [h]
    exact ⟨_, .two (by omega) (by omega) (by omega)⟩
  rcases Nat.lt_or_ge n 0x10000 with h3 | h3
  · have h : n = (n / 4096 * 64 + n / 64 % 64) * 64 + n % 64 := by omega
    rw [h]
    exact ⟨_, .three (by omega) (by omega) (by omega) (by omega) (by omega)⟩
  · have h : n = ((n / 262144 * 64 + n / 4096 % 64) * 64 + n / 64 % 64) * 64 + n % 64 := by omega
    rw [h]
    exact ⟨_, .four (by omega) (by omega) (by omega) (by omega) (by omega) (by omega)⟩

theorem spelled_iff {c : Char} {bytes : List UInt8} :
    Spelled c bytes ↔ bytes = String.utf8EncodeChar c := by
  refine ⟨Spelled.eq_encode, ?_⟩
  rintro rfl
  obtain ⟨bytes, h⟩ := exists_spelled c
  exact h.eq_encode ▸ h

theorem lead?_one {b : Nat} (h : b < 0x80) : lead? b = some ⟨0, 0x80, 0xBF, b⟩ := by
  rw [lead?, if_pos h]

theorem lead?_two {a : Nat} (hlow : 2 ≤ a) (h : a < 0x20) :
    lead? (0xC0 + a) = some ⟨1, 0x80, 0xBF, a⟩ := by
  unfold lead?
  grind

/-- Zeros in front, and the codes that stand for no character, are kept out by the byte after the
first. -/
theorem lead?_three {a : Nat} (h : a < 0x10) :
    lead? (0xE0 + a) =
      some ⟨2, if a = 0 then 0xA0 else 0x80, if a = 0xD then 0x9F else 0xBF, a⟩ := by
  unfold lead?
  grind

theorem lead?_four {a : Nat} (h : a < 5) :
    lead? (0xF0 + a) = some ⟨3, if a = 0 then 0x90 else 0x80, if a = 4 then 0x8F else 0xBF, a⟩ := by
  unfold lead?
  grind

theorem lead?_eq_none {b : Nat} (h : 0x80 ≤ b ∧ b < 0xC2 ∨ 0xF5 ≤ b) : lead? b = none := by
  unfold lead?
  grind

theorem readTails_zero (low high code used : Nat) (bytes : List UInt8) :
    readTails low high 0 code used bytes = .char (.ofNat code) bytes := rfl

theorem toNat_tail {p : Nat} (h : p < 0x40) : (UInt8.ofNat (0x80 + p)).toNat = 0x80 + p := by
  rw [UInt8.toNat_ofNat']
  omega

theorem readTails_tail {low high n code used p : Nat} (h : p < 0x40) (hlow : low ≤ 0x80 + p)
    (hhigh : 0x80 + p ≤ high) (rest : List UInt8) :
    readTails low high (n + 1) code used (.ofNat (0x80 + p) :: rest) =
      readTails 0x80 0xBF n (code * 64 + p) (used + 1) rest := by
  have hp : (0x80 + p) % 64 = p := by omega
  rw [readTails, toNat_tail h, if_pos ⟨hlow, hhigh⟩, hp]

theorem exists_tail {low high n code used : Nat} {bytes rest : List UInt8} {c : Char}
    (hlow : 0x80 ≤ low) (hhigh : high ≤ 0xBF)
    (h : readTails low high (n + 1) code used bytes = .char c rest) :
    ∃ p tail, bytes = .ofNat (0x80 + p) :: tail ∧ p < 0x40 ∧ low ≤ 0x80 + p ∧ 0x80 + p ≤ high ∧
      readTails 0x80 0xBF n (code * 64 + p) (used + 1) tail = .char c rest := by
  cases bytes with
  | nil => cases h
  | cons b tail =>
    rw [readTails] at h
    split at h
    · next hb =>
      obtain ⟨p, hp⟩ : ∃ p, b.toNat = 0x80 + p := ⟨b.toNat - 0x80, by omega⟩
      have hmod : b.toNat % 64 = p := by omega
      obtain rfl : b = .ofNat (0x80 + p) := by rw [← hp, UInt8.ofNat_toNat]
      rw [hmod] at h
      exact ⟨p, tail, rfl, by omega, by omega, by omega, h⟩
    · cases h

theorem Spelled.piece_eq {c : Char} {b : UInt8} {bytes : List UInt8} (h : Spelled c (b :: bytes))
    (rest : List UInt8) : piece b (bytes ++ rest) = .char c rest := by
  cases h with
  | @one a ha =>
    have hb : (UInt8.ofNat a).toNat = a := by rw [UInt8.toNat_ofNat']; omega
    simp only [piece, hb, lead?_one ha, readTails_zero, List.nil_append]
  | @two a p hlow ha hp =>
    have hb : (UInt8.ofNat (0xC0 + a)).toNat = 0xC0 + a := by rw [UInt8.toNat_ofNat']; omega
    simp only [piece, hb, lead?_two hlow ha, List.singleton_append]
    rw [readTails_tail hp (by omega) (by omega), readTails_zero]
  | @three a p q ha hp hq hlow hhigh =>
    have hb : (UInt8.ofNat (0xE0 + a)).toNat = 0xE0 + a := by rw [UInt8.toNat_ofNat']; omega
    simp only [piece, hb, lead?_three ha, List.cons_append, List.nil_append]
    rw [readTails_tail hp (by split <;> omega) (by split <;> omega),
      readTails_tail hq (by omega) (by omega), readTails_zero]
  | @four a p q r ha hp hq hr hlow hhigh =>
    have hb : (UInt8.ofNat (0xF0 + a)).toNat = 0xF0 + a := by rw [UInt8.toNat_ofNat']; omega
    simp only [piece, hb, lead?_four ha, List.cons_append, List.nil_append]
    rw [readTails_tail hp (by split <;> omega) (by split <;> omega),
      readTails_tail hq (by omega) (by omega), readTails_tail hr (by omega) (by omega),
      readTails_zero]

theorem exists_spelled_of_piece {b : UInt8} {bytes rest : List UInt8} {c : Char}
    (h : piece b bytes = .char c rest) :
    ∃ bytes', bytes = bytes' ++ rest ∧ Spelled c (b :: bytes') := by
  have hsize := b.toNat_lt
  obtain ⟨n, hn⟩ : ∃ n, b.toNat = n := ⟨_, rfl⟩
  obtain rfl : b = .ofNat n := by rw [← hn, UInt8.ofNat_toNat]
  rw [piece, hn] at h
  rw [hn] at hsize
  rcases Nat.lt_or_ge n 0x80 with h1 | h1
  · rw [lead?_one h1] at h
    obtain ⟨rfl, rfl⟩ := Piece.char.inj h
    exact ⟨[], rfl, .one h1⟩
  rcases Nat.lt_or_ge n 0xC2 with h2 | h2
  · rw [lead?_eq_none (.inl ⟨h1, h2⟩)] at h
    cases h
  rcases Nat.lt_or_ge n 0xE0 with h3 | h3
  · obtain ⟨a, rfl⟩ : ∃ a, n = 0xC0 + a := ⟨n - 0xC0, by omega⟩
    simp only [lead?_two (a := a) (by omega) (by omega)] at h
    obtain ⟨p, _, rfl, hp, -, -, h⟩ := exists_tail (by omega) (by omega) h
    obtain ⟨rfl, rfl⟩ := Piece.char.inj h
    exact ⟨[_], rfl, .two (by omega) (by omega) hp⟩
  rcases Nat.lt_or_ge n 0xF0 with h4 | h4
  · obtain ⟨a, rfl⟩ : ∃ a, n = 0xE0 + a := ⟨n - 0xE0, by omega⟩
    simp only [lead?_three (a := a) (by omega)] at h
    obtain ⟨p, _, rfl, hp, hlow, hhigh, h⟩ :=
      exists_tail (by split <;> omega) (by split <;> omega) h
    obtain ⟨q, _, rfl, hq, -, -, h⟩ := exists_tail (by omega) (by omega) h
    obtain ⟨rfl, rfl⟩ := Piece.char.inj h
    exact ⟨[_, _], rfl, .three (by omega) hp hq (fun ha => by rw [if_pos ha] at hlow; omega)
      (fun ha => by rw [if_pos ha] at hhigh; omega)⟩
  rcases Nat.lt_or_ge n 0xF5 with h5 | h5
  · obtain ⟨a, rfl⟩ : ∃ a, n = 0xF0 + a := ⟨n - 0xF0, by omega⟩
    simp only [lead?_four (a := a) (by omega)] at h
    obtain ⟨p, _, rfl, hp, hlow, hhigh, h⟩ :=
      exists_tail (by split <;> omega) (by split <;> omega) h
    obtain ⟨q, _, rfl, hq, -, -, h⟩ := exists_tail (by omega) (by omega) h
    obtain ⟨r, _, rfl, hr, -, -, h⟩ := exists_tail (by omega) (by omega) h
    obtain ⟨rfl, rfl⟩ := Piece.char.inj h
    exact ⟨[_, _, _], rfl, .four (by omega) hp hq hr (fun ha => by rw [if_pos ha] at hlow; omega)
      (fun ha => by rw [if_pos ha] at hhigh; omega)⟩
  · rw [lead?_eq_none (.inr h5)] at h
    cases h

theorem exists_encode_eq_cons (c : Char) : ∃ b bytes, String.utf8EncodeChar c = b :: bytes := by
  cases hc : String.utf8EncodeChar c with
  | nil =>
    have hlength := String.length_utf8EncodeChar c
    rw [hc] at hlength
    exact absurd hlength (Nat.ne_of_lt c.utf8Size_pos)
  | cons b bytes => exact ⟨b, bytes, rfl⟩

theorem piece_eq_char_iff {b : UInt8} {bytes rest : List UInt8} {c : Char} :
    piece b bytes = .char c rest ↔ b :: bytes = String.utf8EncodeChar c ++ rest := by
  constructor
  · intro h
    obtain ⟨bytes', rfl, hc⟩ := exists_spelled_of_piece h
    rw [← spelled_iff.1 hc, List.cons_append]
  · intro h
    obtain ⟨first, bytes', hc⟩ := exists_encode_eq_cons c
    rw [hc, List.cons_append, List.cons.injEq] at h
    obtain ⟨rfl, rfl⟩ := h
    exact (spelled_iff.2 hc.symm).piece_eq rest

theorem decodeFrom_of_char {b : UInt8} {bytes rest : List UInt8} {c : Char}
    (h : piece b bytes = .char c rest) (offset : Nat) :
    decodeFrom offset (b :: bytes) =
      (decodeFrom (offset + c.utf8Size) rest).map (c :: ·) := by
  rw [decodeFrom]
  split
  · next c' rest' h' =>
    obtain ⟨rfl, rfl⟩ := Piece.char.inj (h'.symm.trans h)
    rfl
  · next h' => cases h'.symm.trans h
  · next h' => cases h'.symm.trans h

theorem decodeFrom_encode (offset : Nat) (chars : List Char) :
    decodeFrom offset (chars.flatMap String.utf8EncodeChar) = .ok chars := by
  induction chars generalizing offset with
  | nil => rw [List.flatMap_nil, decodeFrom]
  | cons c rest ih =>
    obtain ⟨b, bytes, hc⟩ := exists_encode_eq_cons c
    have hpiece : piece b (bytes ++ rest.flatMap String.utf8EncodeChar) =
        .char c (rest.flatMap String.utf8EncodeChar) :=
      piece_eq_char_iff.2 (by rw [hc, List.cons_append])
    rw [List.flatMap_cons, hc, List.cons_append, decodeFrom_of_char hpiece, ih]
    rfl

theorem eq_encode_of_decodeFrom {offset : Nat} {bytes : List UInt8} {chars : List Char}
    (h : decodeFrom offset bytes = .ok chars) : bytes = chars.flatMap String.utf8EncodeChar := by
  induction offset, bytes using decodeFrom.induct generalizing chars with
  | case1 offset =>
    rw [decodeFrom] at h
    obtain rfl := Except.ok.inj h
    rfl
  | case2 offset b bytes c rest hpiece _ ih =>
    rw [decodeFrom_of_char hpiece] at h
    cases hrest : decodeFrom (offset + c.utf8Size) rest with
    | error fault =>
      rw [hrest] at h
      cases h
    | ok chars' =>
      rw [hrest] at h
      obtain rfl := Except.ok.inj h
      rw [piece_eq_char_iff.1 hpiece, ih hrest, List.flatMap_cons]
  | case3 offset b bytes n rest hpiece =>
    rw [decodeFrom] at h
    split at h
    · next h' => cases h'.symm.trans hpiece
    · cases h
    · cases h
  | case4 offset b bytes hpiece =>
    rw [decodeFrom] at h
    split at h
    · next h' => cases h'.symm.trans hpiece
    · cases h
    · cases h

theorem decode_eq_ok_iff {bytes : List UInt8} {s : String} :
    decode bytes = .ok s ↔ bytes = encode s := by
  unfold decode encode
  constructor
  · intro h
    cases hchars : decodeFrom 0 bytes with
    | error fault =>
      rw [hchars] at h
      cases h
    | ok chars =>
      rw [hchars] at h
      obtain rfl := Except.ok.inj h
      rw [String.toList_ofList, eq_encode_of_decodeFrom hchars]
  · rintro rfl
    rw [decodeFrom_encode]
    exact congrArg _ s.ofList_toList

theorem encode_inj {s t : String} : encode s = encode t ↔ s = t := by
  refine ⟨fun h => ?_, congrArg encode⟩
  have hs := decode_eq_ok_iff.2 h
  rw [decode_eq_ok_iff.2 rfl] at hs
  exact Except.ok.inj hs

end HalLink.Utf8
