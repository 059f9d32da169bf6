import HalLink.Proofs.Text.Utf8

/-!
Where strict reading of UTF-8 stops, and how lossy reading goes on from there. The bytes at a fault
are cut short if some character begins with all of them; else they are broken, and the fault covers
those that a character could still begin with, or the first byte if there is none.
-/

set_option autoImplicit false

namespace HalLink.Utf8

/-- Some character begins with these bytes, at least one, and has more. -/
def Begins (bytes : List UInt8) : Prop :=
  bytes ≠ [] ∧ ∃ c more, more ≠ [] ∧ String.utf8EncodeChar c = bytes ++ more

variable {low high n m code used offset : Nat} {b : UInt8} {bytes rest : List UInt8} {c : Char}

theorem exists_readTails_eq_char (n code used : Nat) :
    ∃ c, readTails 0x80 0xBF n code used (List.replicate n 0x80) = .char c [] := by
  induction n generalizing code used with
  | zero => exact ⟨_, rfl⟩
  | succ n ih => exact ih (code * 64) (used + 1)

theorem exists_of_readTails_cut (hlow : 0x80 ≤ low) (hle : low ≤ high) (hhigh : high ≤ 0xBF)
    (h : readTails low high n code used bytes = .cut) :
    ∃ c more, more ≠ [] ∧ readTails low high n code used (bytes ++ more) = .char c [] := by
  induction n generalizing low high code used bytes with
  | zero => cases h
  | succ n ih =>
    cases bytes with
    | nil =>
      have hsize : (UInt8.ofNat low).toNat = low := by rw [UInt8.toNat_ofNat']; omega
      obtain ⟨c, hc⟩ := exists_readTails_eq_char n (code * 64 + low % 64) (used + 1)
      refine ⟨c, .ofNat low :: .replicate n 0x80, List.cons_ne_nil _ _, ?_⟩
      rw [List.nil_append, readTails, hsize, if_pos ⟨Nat.le_refl low, hle⟩, hc]
    | cons b rest =>
      rw [readTails] at h
      split at h
      · next hb =>
        obtain ⟨c, more, hne, hc⟩ := ih (by omega) (by omega) (by omega) h
        exact ⟨c, more, hne, by rw [List.cons_append, readTails, if_pos hb, hc]⟩
      · cases h

theorem readTails_cut_of_append {more : List UInt8} (hne : more ≠ [])
    (h : readTails low high n code used (bytes ++ more) = .char c []) :
    readTails low high n code used bytes = .cut := by
  induction n generalizing low high code used bytes with
  | zero =>
    obtain ⟨-, hnil⟩ := Piece.char.inj h
    exact absurd (List.append_eq_nil_iff.1 hnil).2 hne
  | succ n ih =>
    cases bytes with
    | nil => rfl
    | cons b rest =>
      rw [List.cons_append, readTails] at h
      split at h
      · next hb => rw [readTails, if_pos hb, ih h]
      · cases h

theorem exists_of_readTails_broken (h : readTails low high n code used bytes = .broken m rest) :
    ∃ front b tail, bytes = front ++ rest ∧ rest = b :: tail ∧ m = used + front.length ∧
      readTails low high n code used front = .cut ∧
      ∀ tail', readTails low high n code used (front ++ b :: tail') = .broken m (b :: tail') := by
  induction n generalizing low high code used bytes with
  | zero => cases h
  | succ n ih =>
    cases bytes with
    | nil => cases h
    | cons b tail =>
      rw [readTails] at h
      split at h
      · next hb =>
        obtain ⟨front, b', tail', rfl, hrest, hm, hcut, hbroken⟩ := ih h
        refine ⟨b :: front, b', tail', rfl, hrest, by rw [List.length_cons]; omega, ?_, ?_⟩
        · rw [readTails, if_pos hb, hcut]
        · intro tail''
          rw [List.cons_append, readTails, if_pos hb, hbroken]
      · next hb =>
        obtain ⟨rfl, rfl⟩ := Piece.broken.inj h
        refine ⟨[], b, tail, rfl, rfl, rfl, rfl, fun tail' => ?_⟩
        rw [List.nil_append, readTails, if_neg hb]

theorem range_of_lead? {lead : Lead} {n : Nat} (h : lead? n = some lead) :
    0x80 ≤ lead.low ∧ lead.low ≤ lead.high ∧ lead.high ≤ 0xBF := by
  unfold lead? at h
  repeat' split at h
  all_goals cases h
  all_goals dsimp only
  all_goals omega

theorem piece_eq_cut_iff : piece b bytes = .cut ↔ Begins (b :: bytes) := by
  constructor
  · intro h
    rw [piece] at h
    split at h
    · cases h
    · next lead hlead =>
      obtain ⟨hlow, hle, hhigh⟩ := range_of_lead? hlead
      obtain ⟨c, more, hne, hmore⟩ := exists_of_readTails_cut hlow hle hhigh h
      have hpiece : piece b (bytes ++ more) = .char c [] := by simp only [piece, hlead, hmore]
      have hc := piece_eq_char_iff.1 hpiece
      rw [List.append_nil] at hc
      exact ⟨List.cons_ne_nil _ _, c, more, hne, hc.symm⟩
  · rintro ⟨-, c, more, hne, hc⟩
    have hpiece : piece b (bytes ++ more) = .char c [] := by
      rw [piece_eq_char_iff, List.append_nil, hc, List.cons_append]
    rw [piece] at hpiece
    split at hpiece
    · cases hpiece
    · next lead hlead => simp only [piece, hlead, readTails_cut_of_append hne hpiece]

theorem exists_of_piece_broken (h : piece b bytes = .broken n rest) :
    ∃ front, b :: bytes = front ++ rest ∧ front.length = n ∧ (front = [b] ∨ Begins front) ∧
      ∀ j, n < j → ∀ c, ¬ (b :: bytes).take j <+: String.utf8EncodeChar c := by
  -- Whatever comes after them, the bytes are broken there, so they spell nothing.
  suffices hfront : ∃ front, b :: bytes = front ++ rest ∧ front.length = n ∧
      (front = [b] ∨ Begins front) ∧
      ∀ j more, n < j → ∃ rest', piece b (bytes.take (j - 1) ++ more) = .broken n rest' by
    obtain ⟨front, hbytes, hlength, hbegins, hbroken⟩ := hfront
    refine ⟨front, hbytes, hlength, hbegins, fun j hj c hc => ?_⟩
    obtain ⟨more, hmore⟩ := hc
    obtain ⟨rest', hrest⟩ := hbroken j more hj
    have htake : (b :: bytes).take j = b :: bytes.take (j - 1) :=
      List.take_cons (by omega)
    rw [htake, List.cons_append, ← List.append_nil (String.utf8EncodeChar c)] at hmore
    rw [piece_eq_char_iff.2 hmore] at hrest
    cases hrest
  rw [piece] at h
  split at h
  · next hlead =>
    obtain ⟨rfl, rfl⟩ := Piece.broken.inj h
    refine ⟨[b], rfl, rfl, .inl rfl, fun j more _ => ⟨bytes.take (j - 1) ++ more, ?_⟩⟩
    simp only [piece, hlead]
  · next lead hlead =>
    obtain ⟨front, b', tail, hbytes, hrest, hn, hcut, hbroken⟩ := exists_of_readTails_broken h
    refine ⟨b :: front, by rw [hbytes, List.cons_append], by rw [List.length_cons]; omega, ?_, ?_⟩
    · exact .inr (piece_eq_cut_iff.1 (by simp only [piece, hlead, hcut]))
    · intro j more hj
      have htake : bytes.take (j - 1) ++ more =
          front ++ b' :: (tail.take (j - 1 - front.length - 1) ++ more) := by
        rw [hbytes, hrest, List.take_append, List.take_of_length_le (by omega),
          List.take_cons (by omega), List.append_assoc, List.cons_append]
      refine ⟨b' :: (tail.take (j - 1 - front.length - 1) ++ more), ?_⟩
      simp only [piece, hlead, htake, hbroken]

theorem decodeFrom_of_broken (h : piece b bytes = .broken n rest) (offset : Nat) :
    decodeFrom offset (b :: bytes) = .error ⟨offset, some n⟩ := by
  rw [decodeFrom]
  split
  · next h' => cases h'.symm.trans h
  · next h' =>
    obtain ⟨rfl, rfl⟩ := Piece.broken.inj (h'.symm.trans h)
    rfl
  · next h' => cases h'.symm.trans h

theorem decodeFrom_of_cut (h : piece b bytes = .cut) (offset : Nat) :
    decodeFrom offset (b :: bytes) = .error ⟨offset, none⟩ := by
  rw [decodeFrom]
  split
  · next h' => cases h'.symm.trans h
  · next h' => cases h'.symm.trans h
  · rfl

theorem decodeFrom_append (offset : Nat) (chars : List Char) (rest : List UInt8) :
    decodeFrom offset (chars.flatMap String.utf8EncodeChar ++ rest) =
      (decodeFrom (offset + (chars.flatMap String.utf8EncodeChar).length) rest).map
        (chars ++ ·) := by
  induction chars generalizing offset with
  | nil =>
    rw [List.flatMap_nil, List.nil_append, List.length_nil, Nat.add_zero]
    cases decodeFrom offset rest <;> rfl
  | cons c chars ih =>
    obtain ⟨b, bytes, hc⟩ := exists_encode_eq_cons c
    have hpiece : piece b (bytes ++ (chars.flatMap String.utf8EncodeChar ++ rest)) =
        .char c (chars.flatMap String.utf8EncodeChar ++ rest) :=
      piece_eq_char_iff.2 (by rw [hc, List.cons_append])
    have hsize := String.length_utf8EncodeChar c
    rw [List.flatMap_cons, hc, List.append_assoc, List.cons_append, decodeFrom_of_char hpiece, ih,
      ← hsize, hc, List.length_append, Nat.add_assoc]
    cases decodeFrom _ rest <;> rfl

theorem exists_of_decodeFrom_error {fault : Fault} (h : decodeFrom offset bytes = .error fault) :
    ∃ (chars : List Char) (b : UInt8) (rest : List UInt8),
      bytes = chars.flatMap String.utf8EncodeChar ++ b :: rest ∧
      fault.validUpTo = offset + (chars.flatMap String.utf8EncodeChar).length ∧
      (piece b rest = .cut ∧ fault.length = none ∨
        ∃ n tail, piece b rest = .broken n tail ∧ fault.length = some n) := by
  induction offset, bytes using decodeFrom.induct with
  | case1 offset =>
    rw [decodeFrom] at h
    cases h
  | case2 offset b bytes c rest hpiece _ ih =>
    rw [decodeFrom_of_char hpiece] at h
    cases hrest : decodeFrom (offset + c.utf8Size) rest with
    | ok chars =>
      rw [hrest] at h
      cases h
    | error fault' =>
      rw [hrest] at h
      obtain rfl : fault' = fault := Except.error.inj h
      obtain ⟨chars, b', rest', hbytes, hupTo, hstop⟩ := ih hrest
      refine ⟨c :: chars, b', rest', ?_, ?_, hstop⟩
      · rw [piece_eq_char_iff.1 hpiece, hbytes, List.flatMap_cons, List.append_assoc]
      · rw [hupTo, List.flatMap_cons, List.length_append, String.length_utf8EncodeChar,
          Nat.add_assoc]
  | case3 offset b bytes n rest hpiece =>
    rw [decodeFrom_of_broken hpiece] at h
    obtain rfl := Except.error.inj h
    exact ⟨[], b, bytes, rfl, rfl, .inr ⟨n, rest, hpiece, rfl⟩⟩
  | case4 offset b bytes hpiece =>
    rw [decodeFrom_of_cut hpiece] at h
    obtain rfl := Except.error.inj h
    exact ⟨[], b, bytes, rfl, rfl, .inl ⟨hpiece, rfl⟩⟩

theorem le_validUpTo {fault : Fault} {j : Nat} {chars : List Char}
    (h : decodeFrom 0 bytes = .error fault)
    (hj : bytes.take j = chars.flatMap String.utf8EncodeChar) : j ≤ fault.validUpTo := by
  have hsplit := decodeFrom_append 0 chars (bytes.drop j)
  rw [← hj, List.take_append_drop, h] at hsplit
  cases hrest : decodeFrom (0 + (bytes.take j).length) (bytes.drop j) with
  | ok chars' =>
    rw [hrest] at hsplit
    cases hsplit
  | error fault' =>
    rw [hrest] at hsplit
    obtain rfl : fault = fault' := Except.error.inj hsplit
    obtain ⟨chars', b, rest, hdrop, hupTo, -⟩ := exists_of_decodeFrom_error hrest
    have hlength := congrArg List.length hdrop
    rw [List.length_drop, List.length_append, List.length_cons] at hlength
    rw [List.length_take] at hupTo
    omega

theorem decodeLossyChars_of_char (h : piece b bytes = .char c rest) :
    decodeLossyChars (b :: bytes) = c :: decodeLossyChars rest := by
  rw [decodeLossyChars]
  split
  · next h' =>
    obtain ⟨rfl, rfl⟩ := Piece.char.inj (h'.symm.trans h)
    rfl
  · next h' => cases h'.symm.trans h
  · next h' => cases h'.symm.trans h

theorem decodeLossyChars_of_broken (h : piece b bytes = .broken n rest) :
    decodeLossyChars (b :: bytes) = '\uFFFD' :: decodeLossyChars rest := by
  rw [decodeLossyChars]
  split
  · next h' => cases h'.symm.trans h
  · next h' =>
    obtain ⟨rfl, rfl⟩ := Piece.broken.inj (h'.symm.trans h)
    rfl
  · next h' => cases h'.symm.trans h

theorem decodeLossyChars_of_cut (h : piece b bytes = .cut) :
    decodeLossyChars (b :: bytes) = ['\uFFFD'] := by
  rw [decodeLossyChars]
  split
  · next h' => cases h'.symm.trans h
  · next h' => cases h'.symm.trans h
  · rfl

theorem decodeLossyChars_append (chars : List Char) (rest : List UInt8) :
    decodeLossyChars (chars.flatMap String.utf8EncodeChar ++ rest) =
      chars ++ decodeLossyChars rest := by
  induction chars with
  | nil => rfl
  | cons c chars ih =>
    obtain ⟨b, bytes, hc⟩ := exists_encode_eq_cons c
    have hpiece : piece b (bytes ++ (chars.flatMap String.utf8EncodeChar ++ rest)) =
        .char c (chars.flatMap String.utf8EncodeChar ++ rest) :=
      piece_eq_char_iff.2 (by rw [hc, List.cons_append])
    rw [List.flatMap_cons, hc, List.append_assoc, List.cons_append,
      decodeLossyChars_of_char hpiece, ih, List.cons_append]

/-- What a fault tells of the bytes: a text reaches up to it and none reaches further. It has no
length if the bytes after that text are the start of a character, and otherwise it has the length of
the longest start of a character there, or one. -/
structure Fault.Marks (fault : Fault) (bytes : List UInt8) (front : String) : Prop where
  front : bytes.take fault.validUpTo = encode front
  longest : ∀ j text, bytes.take j = encode text → j ≤ fault.validUpTo
  cut : fault.length = none ↔ Begins (bytes.drop fault.validUpTo)
  inside : ∀ n ∈ fault.length, 0 < n ∧ fault.validUpTo + n ≤ bytes.length
  broken : ∀ n ∈ fault.length, (n = 1 ∨ Begins ((bytes.drop fault.validUpTo).take n)) ∧
    ∀ j, n < j → ∀ c, ¬ (bytes.drop fault.validUpTo).take j <+: String.utf8EncodeChar c

def Fault.lossyRest (fault : Fault) (bytes : List UInt8) : String :=
  match fault.length with
  | some n => decodeLossy (bytes.drop (fault.validUpTo + n))
  | none => ""

theorem exists_of_decode_error {fault : Fault} (h : decode bytes = .error fault) :
    ∃ (front : String) (b : UInt8) (rest : List UInt8), bytes = encode front ++ b :: rest ∧
      (piece b rest = .cut ∧ fault = ⟨(encode front).length, none⟩ ∨
        ∃ n tail, piece b rest = .broken n tail ∧ fault = ⟨(encode front).length, some n⟩) := by
  cases hchars : decodeFrom 0 bytes with
  | ok chars =>
    rw [decode, hchars] at h
    cases h
  | error fault' =>
    rw [decode, hchars] at h
    obtain rfl : fault' = fault := Except.error.inj h
    obtain ⟨chars, b, rest, hbytes, hupTo, hstop⟩ := exists_of_decodeFrom_error hchars
    have hfront : encode (.ofList chars) = chars.flatMap String.utf8EncodeChar := by
      rw [encode, String.toList_ofList]
    rw [Nat.zero_add, ← hfront] at hupTo
    refine ⟨.ofList chars, b, rest, hfront ▸ hbytes, ?_⟩
    obtain ⟨validUpTo, length⟩ := fault'
    obtain rfl : validUpTo = _ := hupTo
    rcases hstop with ⟨hcut, hlength⟩ | ⟨n, tail, hbroken, hlength⟩
    · exact .inl ⟨hcut, congrArg _ hlength⟩
    · exact .inr ⟨n, tail, hbroken, congrArg _ hlength⟩

variable {tail : List UInt8}

theorem decodeFrom_encode_cut (front : String) (h : piece b rest = .cut) :
    decodeFrom 0 (encode front ++ b :: rest) = .error ⟨(encode front).length, none⟩ := by
  rw [encode, decodeFrom_append, decodeFrom_of_cut h, Nat.zero_add]
  rfl

theorem decodeFrom_encode_broken (front : String) (h : piece b rest = .broken n tail) :
    decodeFrom 0 (encode front ++ b :: rest) = .error ⟨(encode front).length, some n⟩ := by
  rw [encode, decodeFrom_append, decodeFrom_of_broken h, Nat.zero_add]
  rfl

theorem marks_of_cut (front : String) (h : piece b rest = .cut) :
    Fault.Marks ⟨(encode front).length, none⟩ (encode front ++ b :: rest) front where
  front := List.take_left
  longest j text hj := le_validUpTo (decodeFrom_encode_cut front h) hj
  cut := by
    rw [List.drop_left]
    exact iff_of_true rfl (piece_eq_cut_iff.1 h)
  inside n hn := by cases hn
  broken n hn := by cases hn

theorem marks_of_broken (front : String) (h : piece b rest = .broken n tail) :
    Fault.Marks ⟨(encode front).length, some n⟩ (encode front ++ b :: rest) front := by
  obtain ⟨start, hstart, hn, hbegins, hnone⟩ := exists_of_piece_broken h
  refine ⟨List.take_left, fun j text hj => le_validUpTo (decodeFrom_encode_broken front h) hj, ?_,
    fun n' hn' => ?_, fun n' hn' => ?_⟩
  · rw [List.drop_left, ← piece_eq_cut_iff, h]
    exact iff_of_false (Option.some_ne_none n) Piece.noConfusion
  · obtain rfl := Option.some.inj hn'
    have hpos : 0 < start.length := by
      rcases hbegins with rfl | ⟨hne, -⟩
      · exact Nat.one_pos
      · exact List.length_pos_iff.2 hne
    have hrest := congrArg List.length hstart
    rw [List.length_append] at hrest
    dsimp only
    rw [List.length_append]
    exact ⟨hn ▸ hpos, by omega⟩
  · obtain rfl := Option.some.inj hn'
    rw [List.drop_left]
    refine ⟨?_, hnone⟩
    rw [hstart, ← hn, List.take_left]
    rcases hbegins with rfl | hbegins
    · exact .inl rfl
    · exact .inr hbegins

theorem decodeLossy_encode_append (front : String) (bytes : List UInt8) :
    decodeLossy (encode front ++ bytes) = front ++ decodeLossy bytes := by
  rw [decodeLossy, encode, decodeLossyChars_append, String.ofList_append, String.ofList_toList,
    decodeLossy]

theorem decodeLossy_encode (text : String) : decodeLossy (encode text) = text := by
  have hnil : decodeLossy [] = "" := by rw [decodeLossy, decodeLossyChars, String.ofList_nil]
  have h := decodeLossy_encode_append text []
  rwa [List.append_nil, hnil, String.append_empty] at h

/-- Strict reading stops after the longest text that the bytes begin with, and lossy reading puts
U+FFFD for the bytes that the fault covers and goes on after them. -/
theorem marks_of_decode_error {fault : Fault} (h : decode bytes = .error fault) :
    ∃ front, fault.Marks bytes front ∧
      decodeLossy bytes = front ++ "\uFFFD" ++ fault.lossyRest bytes := by
  obtain ⟨front, b, rest, rfl, ⟨hcut, rfl⟩ | ⟨n, tail, hbroken, rfl⟩⟩ := exists_of_decode_error h
  · refine ⟨front, marks_of_cut front hcut, ?_⟩
    rw [decodeLossy_encode_append, decodeLossy, decodeLossyChars_of_cut hcut, Fault.lossyRest,
      String.append_empty]
  · obtain ⟨start, hstart, hn, -⟩ := exists_of_piece_broken hbroken
    have htail : (encode front ++ b :: rest).drop ((encode front).length + n) = tail := by
      rw [← List.drop_drop, List.drop_left, hstart, ← hn, List.drop_left]
    have hmark : String.ofList ('\uFFFD' :: decodeLossyChars tail) = "\uFFFD" ++ decodeLossy tail :=
      @String.ofList_append ['\uFFFD'] _
    refine ⟨front, marks_of_broken front hbroken, ?_⟩
    rw [decodeLossy_encode_append, decodeLossy, decodeLossyChars_of_broken hbroken, hmark]
    simp only [Fault.lossyRest, htail, String.append_assoc]

end HalLink.Utf8
