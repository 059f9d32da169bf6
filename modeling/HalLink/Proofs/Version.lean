import HalLink.Version
import Mathlib.Data.List.Basic
import Mathlib.Data.List.Induction

set_option autoImplicit false

namespace HalLink.Version

/-- One or more decimal digits, leading zeros among them, and the number that they write. -/
structure Numeral (digits : List Char) (n : Nat) : Prop where
  nonempty : digits ≠ []
  decimal : ∀ c ∈ digits, '0' ≤ c ∧ c ≤ '9'
  value : digitsValue digits = n

def Denotes (text : List Char) (v : Version) : Prop :=
  ∃ major minor, text = major ++ '.' :: minor ∧
    Numeral major v.major.toNat ∧ Numeral minor v.minor.toNat

theorem isDigit_iff (c : Char) : c.isDigit = true ↔ '0' ≤ c ∧ c ≤ '9' := by
  simp [Char.isDigit, Char.le_def]

theorem all_isDigit_iff (digits : List Char) :
    digits.all Char.isDigit = true ↔ ∀ c ∈ digits, '0' ≤ c ∧ c ≤ '9' := by
  simp only [List.all_eq_true, isDigit_iff]

theorem part?_eq_some_iff {digits : List Char} {n : UInt32} :
    part? digits = some n ↔ Numeral digits n.toNat := by
  constructor
  · intro h
    have hv := toNat_of_part? h
    simp only [part?] at h
    split at h
    · next hd => exact ⟨hd.1, (all_isDigit_iff digits).1 hd.2.1, hv.symm⟩
    · cases h
  · intro h
    obtain ⟨hne, hd, hv⟩ := h
    have hall := (all_isDigit_iff digits).2 hd
    simp [part?, hne, hall, hv, n.toNat_lt_size]

theorem Numeral.not_mem {digits : List Char} {n : Nat} (h : Numeral digits n) {c : Char}
    (hc : c.isDigit = false) : c ∉ digits := by
  intro hm
  have := (isDigit_iff c).2 (h.decimal c hm)
  simp [hc] at this

theorem Denotes.not_mem {text : List Char} {v : Version} (h : Denotes text v) {c : Char}
    (hc : c.isDigit = false) (hdot : c ≠ '.') : c ∉ text := by
  obtain ⟨major, minor, rfl, hM, hm⟩ := h
  simp [hM.not_mem hc, hm.not_mem hc, hdot]

theorem parse?_eq_some_iff {s : String} {v : Version} :
    parse? s = some v ↔ Denotes s.toList v := by
  constructor
  · intro h
    cases hs : Text.splitFirst? '.' s.toList with
    | none => simp [parse?, hs] at h
    | some p =>
      obtain ⟨major, minor⟩ := p
      simp only [parse?, hs, Option.bind_eq_bind, Option.bind_some, Option.bind_eq_some_iff] at h
      obtain ⟨M, hM, m, hm, he⟩ := h
      obtain rfl := Option.some.inj he
      exact ⟨major, minor, (Text.splitFirst?_eq_some hs).1, part?_eq_some_iff.1 hM,
        part?_eq_some_iff.1 hm⟩
  · rintro ⟨major, minor, hs, hM, hm⟩
    have hsplit : Text.splitFirst? '.' s.toList = some (major, minor) :=
      hs ▸ Text.splitFirst?_append minor (hM.not_mem (by decide))
    simp [parse?, hsplit, part?_eq_some_iff.2 hM, part?_eq_some_iff.2 hm]

theorem denotes_congr (text text' : String) (h : parse? text = parse? text') (v : Version) :
    v.Denotes text.toList ↔ v.Denotes text'.toList := by
  rw [← parse?_eq_some_iff, ← parse?_eq_some_iff, h]

/-- A zero that the number could do without, since further digits follow it. -/
def LeadingZero (digits : List Char) : Prop := ∃ rest, rest ≠ [] ∧ digits = '0' :: rest

variable {digits major minor : List Char} {n : Nat} {v : Version}

theorem digitsValue_eq_ofDigitChars (digits : List Char) :
    digitsValue digits = Nat.ofDigitChars 10 digits 0 := Nat.ofDigitChars_eq_foldl.symm

theorem digitsValue_concat (digits : List Char) (c : Char) :
    digitsValue (digits ++ [c]) = 10 * digitsValue digits + (c.toNat - '0'.toNat) := by
  simp [digitsValue]

theorem numeral_toDigits (n : Nat) : Numeral (Nat.toDigits 10 n) n where
  nonempty := Nat.toDigits_ne_nil
  decimal c hc := (isDigit_iff c).1 (Nat.isDigit_of_mem_toDigits (by decide) (by decide) hc)
  value := by rw [digitsValue_eq_ofDigitChars, Nat.ofDigitChars_ten_toDigits]

theorem toDigits_inj {m : Nat} (h : Nat.toDigits 10 m = Nat.toDigits 10 n) : m = n := by
  rw [← (numeral_toDigits m).value, h, (numeral_toDigits n).value]

theorem toDigits_of_digit {c : Char} (hc : '0' ≤ c ∧ c ≤ '9') :
    c.toNat - '0'.toNat < 10 ∧ Nat.toDigits 10 (c.toNat - '0'.toNat) = [c] := by
  have hlower : '0'.toNat ≤ c.toNat := hc.1
  have hupper : c.toNat ≤ '9'.toNat := hc.2
  have hten : c.toNat - '0'.toNat < 10 := by
    simp only [Char.reduceToNat] at *
    omega
  refine ⟨hten, ?_⟩
  rw [Nat.toDigits_of_lt_base hten, List.cons.injEq]
  refine ⟨Char.toNat_inj.1 ?_, rfl⟩
  rw [Nat.toNat_digitChar_of_lt_ten hten]
  simp only [Char.reduceToNat] at *
  omega

theorem not_leadingZero_toDigits (n : Nat) : ¬ LeadingZero (Nat.toDigits 10 n) := by
  induction n using Nat.strongRecOn with
  | ind n ih =>
    rintro ⟨rest, hrest, h⟩
    by_cases hn : n < 10
    · rw [Nat.toDigits_of_lt_base hn] at h
      exact hrest (List.cons.inj h).2.symm
    · rw [Nat.toDigits_of_base_le (by decide) (Nat.not_lt.1 hn)] at h
      obtain ⟨d, ds, hds⟩ := List.exists_cons_of_ne_nil
        (Nat.toDigits_ne_nil (n := n / 10) (b := 10))
      obtain rfl : d = '0' := by
        rw [hds] at h
        exact (List.cons.inj h).1
      by_cases hone : ds = []
      · have hzero : n / 10 = 0 := toDigits_inj (by rw [hds, hone, Nat.toDigits_zero])
        omega
      · exact ih (n / 10) (by omega) ⟨ds, hone, hds⟩

/-- Digits are found again in the number that they write, unless they begin with a zero too many. -/
theorem toDigits_digitsValue (hne : digits ≠ []) (hdecimal : ∀ c ∈ digits, '0' ≤ c ∧ c ≤ '9')
    (hzero : ¬ LeadingZero digits) : Nat.toDigits 10 (digitsValue digits) = digits := by
  induction digits using List.reverseRecOn with
  | nil => exact absurd rfl hne
  | append_singleton ds c ih =>
    obtain ⟨hlt, hdigit⟩ := toDigits_of_digit (hdecimal c (by simp))
    rw [digitsValue_concat]
    by_cases hds : ds = []
    · subst hds
      simpa [digitsValue] using hdigit
    · have hfront : Nat.toDigits 10 (digitsValue ds) = ds := by
        refine ih hds (fun d hd => hdecimal d (by simp [hd])) ?_
        rintro ⟨rest, -, rfl⟩
        exact hzero ⟨rest ++ [c], by simp, rfl⟩
      have hpos : 0 < digitsValue ds := by
        refine Nat.pos_of_ne_zero fun h0 => hzero ⟨[c], by simp, ?_⟩
        rw [← hfront, h0, Nat.toDigits_zero]
        rfl
      rw [← Nat.toDigits_append_toDigits (by decide) hpos hlt, hfront, hdigit]

theorem Numeral.toDigits_eq_iff (h : Numeral digits n) :
    Nat.toDigits 10 n = digits ↔ ¬ LeadingZero digits := by
  constructor
  · rintro rfl
    exact not_leadingZero_toDigits n
  · intro hzero
    rw [← h.value]
    exact toDigits_digitsValue h.nonempty h.decimal hzero

theorem toList_render (v : Version) :
    v.render.toList = Nat.toDigits 10 v.major.toNat ++ '.' :: Nat.toDigits 10 v.minor.toNat := by
  simp [render]

theorem denotes_render (v : Version) : Denotes v.render.toList v :=
  ⟨_, _, v.toList_render, numeral_toDigits _, numeral_toDigits _⟩

theorem toList_render_eq_iff (hmajor : Numeral major v.major.toNat)
    (hminor : Numeral minor v.minor.toNat) :
    v.render.toList = major ++ '.' :: minor ↔ ¬ LeadingZero major ∧ ¬ LeadingZero minor := by
  have hdot (n : Nat) : '.' ∉ Nat.toDigits 10 n := (numeral_toDigits n).not_mem (by decide)
  rw [toList_render, List.append_cons_inj_of_notMem (hdot _) (hdot _), hmajor.toDigits_eq_iff,
    hminor.toDigits_eq_iff]
  simp

end HalLink.Version
