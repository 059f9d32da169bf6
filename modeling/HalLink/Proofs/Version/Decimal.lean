import HalLink.Proofs.Version
import Mathlib.Tactic.Ring

set_option autoImplicit false

namespace HalLink.Version

/-- The number that digits write: each counts by the power of ten of its place. -/
def placeValue : List Char → Nat
  | [] => 0
  | c :: cs => (c.toNat - '0'.toNat) * 10 ^ cs.length + placeValue cs

/-- One or more decimal digits, of any length, whose number fits 32 bits. -/
structure Decimal (digits : List Char) : Prop where
  nonempty : digits ≠ []
  ascii : ∀ c ∈ digits, '0' ≤ c ∧ c ≤ '9'
  fits : placeValue digits ≤ 4294967295

structure Written (text major minor : List Char) : Prop where
  text_eq : text = major ++ '.' :: minor
  decimal_major : Decimal major
  decimal_minor : Decimal minor

/-- What can be wrong with the text of a version. -/
inductive Misspelt (text : List Char) : Prop
  | character {c : Char} : c ∈ text → c ≠ '.' → ¬ ('0' ≤ c ∧ c ≤ '9') → Misspelt text
  | dots : text.count '.' ≠ 1 → Misspelt text
  | noMajor {minor : List Char} : text = '.' :: minor → Misspelt text
  | noMinor {major : List Char} : text = major ++ ['.'] → Misspelt text
  | tooLarge {major minor : List Char} :
      text = major ++ '.' :: minor →
      4294967295 < placeValue major ∨ 4294967295 < placeValue minor → Misspelt text

def trimZeros : List Char → List Char
  | '0' :: c :: cs => trimZeros (c :: cs)
  | digits => digits

variable {s t : String} {v : Version} {text digits digits' major minor major' minor' : List Char}

theorem foldl_digits (n : Nat) (digits : List Char) :
    digits.foldl (fun n c => 10 * n + (c.toNat - '0'.toNat)) n =
      n * 10 ^ digits.length + placeValue digits := by
  induction digits generalizing n with
  | nil => simp [placeValue]
  | cons c cs ih =>
    rw [List.foldl_cons, ih, placeValue, List.length_cons]
    ring

theorem digitsValue_eq_placeValue (digits : List Char) :
    digitsValue digits = placeValue digits := by
  rw [digitsValue, foldl_digits]
  simp

theorem Decimal.numeral (h : Decimal digits) : Numeral digits (placeValue digits) :=
  ⟨h.nonempty, h.ascii, digitsValue_eq_placeValue digits⟩

theorem Numeral.placeValue_eq {n : Nat} (h : Numeral digits n) : placeValue digits = n := by
  rw [← digitsValue_eq_placeValue, h.value]

theorem Numeral.to_decimal {n : UInt32} (h : Numeral digits n.toNat) : Decimal digits := by
  have hlt := n.toNat_lt_size
  refine ⟨h.nonempty, h.decimal, ?_⟩
  rw [h.placeValue_eq]
  simp only [UInt32.size] at hlt
  omega

theorem Decimal.toNat_ofNat (h : Decimal digits) :
    (UInt32.ofNat (placeValue digits)).toNat = placeValue digits := by
  have hfits := h.fits
  exact UInt32.toNat_ofNat_of_lt' (by simp only [UInt32.size]; omega)

theorem Decimal.dot_notMem (h : Decimal digits) : '.' ∉ digits := h.numeral.not_mem (by decide)

theorem trimZeros_eq_toDigits {n : Nat} (h : Numeral digits n) :
    trimZeros digits = Nat.toDigits 10 n := by
  induction digits using trimZeros.induct with
  | case1 c cs ih =>
    have hvalue : digitsValue (c :: cs) = n := by
      rw [← h.value]
      simp [digitsValue]
    exact ih ⟨by simp, fun d hd => h.decimal d (List.mem_cons_of_mem _ hd), hvalue⟩
  | case2 digits hzero =>
    have hlead : ¬ LeadingZero digits := by
      rintro ⟨rest, hrest, rfl⟩
      obtain ⟨c, cs, rfl⟩ := List.exists_cons_of_ne_nil hrest
      exact hzero c cs rfl
    rw [trimZeros.eq_2 digits hzero, h.toDigits_eq_iff.2 hlead]

theorem trimZeros_eq_iff (h : Decimal digits) (h' : Decimal digits') :
    trimZeros digits = trimZeros digits' ↔ placeValue digits = placeValue digits' := by
  rw [trimZeros_eq_toDigits h.numeral, trimZeros_eq_toDigits h'.numeral]
  exact ⟨toDigits_inj, congrArg _⟩

theorem Written.parse?_eq (h : Written s.toList major minor) :
    parse? s = some ⟨.ofNat (placeValue major), .ofNat (placeValue minor)⟩ := by
  refine parse?_eq_some_iff.2 ⟨major, minor, h.text_eq, ?_, ?_⟩
  · rw [h.decimal_major.toNat_ofNat]
    exact h.decimal_major.numeral
  · rw [h.decimal_minor.toNat_ofNat]
    exact h.decimal_minor.numeral

theorem exists_written (h : parse? s = some v) : ∃ major minor, Written s.toList major minor := by
  obtain ⟨major, minor, htext, hmajor, hminor⟩ := parse?_eq_some_iff.1 h
  exact ⟨major, minor, htext, hmajor.to_decimal, hminor.to_decimal⟩

theorem exists_parse?_iff :
    (∃ v, parse? s = some v) ↔ ∃ major minor, Written s.toList major minor :=
  ⟨fun ⟨_, h⟩ => exists_written h, fun ⟨_, _, h⟩ => ⟨_, h.parse?_eq⟩⟩

theorem Written.parse?_eq_some_iff (h : Written s.toList major minor) :
    parse? s = some v ↔
      v.major.toNat = placeValue major ∧ v.minor.toNat = placeValue minor := by
  rw [h.parse?_eq, Option.some.injEq, Version.mk.injEq, ← UInt32.toNat_inj, ← UInt32.toNat_inj,
    h.decimal_major.toNat_ofNat, h.decimal_minor.toNat_ofNat]
  exact and_congr eq_comm eq_comm

theorem parse?_render (v : Version) : parse? v.render = some v :=
  parse?_eq_some_iff.2 v.denotes_render

theorem Written.render_eq_iff (h : Written s.toList major minor) (hv : parse? s = some v) :
    v.render = s ↔ ¬ LeadingZero major ∧ ¬ LeadingZero minor := by
  obtain ⟨hmajor, hminor⟩ := h.parse?_eq_some_iff.1 hv
  rw [← String.toList_inj, h.text_eq]
  exact toList_render_eq_iff (hmajor ▸ h.decimal_major.numeral) (hminor ▸ h.decimal_minor.numeral)

theorem Written.parse?_eq_parse?_iff (h : Written s.toList major minor)
    (h' : Written t.toList major' minor') :
    parse? s = parse? t ↔
      trimZeros major = trimZeros major' ∧ trimZeros minor = trimZeros minor' := by
  rw [trimZeros_eq_iff h.decimal_major h'.decimal_major,
    trimZeros_eq_iff h.decimal_minor h'.decimal_minor, h'.parse?_eq, h.parse?_eq_some_iff,
    h'.decimal_major.toNat_ofNat, h'.decimal_minor.toNat_ofNat]
  exact and_congr eq_comm eq_comm

theorem Written.count_dot (h : Written text major minor) : text.count '.' = 1 := by
  rw [h.text_eq, List.count_append, List.count_cons_self,
    List.count_eq_zero.2 h.decimal_major.dot_notMem,
    List.count_eq_zero.2 h.decimal_minor.dot_notMem]

theorem Written.parts_eq (h : Written text major minor) (ht : text = major' ++ '.' :: minor') :
    major = major' ∧ minor = minor' := by
  have hparts := h.text_eq.symm.trans ht
  rw [List.append_cons_inj_of_notMem h.decimal_major.dot_notMem
    h.decimal_minor.dot_notMem] at hparts
  exact ⟨hparts.1, hparts.2.2⟩

theorem Written.not_misspelt (h : Written text major minor) : ¬ Misspelt text := by
  intro hbad
  cases hbad with
  | @character c hmem hne hdigit =>
    rw [h.text_eq, List.mem_append, List.mem_cons] at hmem
    rcases hmem with hmem | hdot | hmem
    · exact hdigit (h.decimal_major.ascii c hmem)
    · exact hne hdot
    · exact hdigit (h.decimal_minor.ascii c hmem)
  | dots hcount => exact hcount h.count_dot
  | @noMajor minor' ht =>
    have hparts : text = [] ++ '.' :: minor' := ht
    exact h.decimal_major.nonempty (h.parts_eq hparts).1
  | noMinor ht => exact h.decimal_minor.nonempty (h.parts_eq ht).2
  | tooLarge ht hlarge =>
    obtain ⟨rfl, rfl⟩ := h.parts_eq ht
    have hmajor := h.decimal_major.fits
    have hminor := h.decimal_minor.fits
    omega

theorem exists_written_of_not_misspelt (h : ¬ Misspelt text) :
    ∃ major minor, Written text major minor := by
  have hcount : text.count '.' = 1 := Decidable.byContradiction fun hne => h (.dots hne)
  obtain ⟨major, minor, rfl⟩ := List.append_of_mem (List.count_pos_iff.1 (hcount ▸ Nat.one_pos))
  have hdots : major.count '.' + minor.count '.' = 0 := by
    rw [List.count_append, List.count_cons_self] at hcount
    omega
  have hdigit : ∀ c ∈ major ++ minor, '0' ≤ c ∧ c ≤ '9' := by
    intro c hc
    have hmem : c ∈ major ++ '.' :: minor := by
      rcases List.mem_append.1 hc with hc | hc <;> simp [hc]
    refine Decidable.byContradiction fun hne => h (.character hmem ?_ hne)
    rintro rfl
    rw [← List.count_append] at hdots
    exact List.count_eq_zero.1 hdots hc
  have hsmall : placeValue major ≤ 4294967295 ∧ placeValue minor ≤ 4294967295 :=
    Decidable.byContradiction fun hne => h (.tooLarge rfl (by omega))
  refine ⟨major, minor, rfl, ⟨?_, fun c hc => hdigit c (by simp [hc]), hsmall.1⟩,
    ⟨?_, fun c hc => hdigit c (by simp [hc]), hsmall.2⟩⟩
  · rintro rfl
    exact h (.noMajor rfl)
  · rintro rfl
    exact h (.noMinor rfl)

theorem parse?_eq_none_iff : parse? s = none ↔ Misspelt s.toList := by
  rw [Option.eq_none_iff_forall_ne_some]
  constructor
  · intro h
    refine Classical.byContradiction fun hbad => ?_
    obtain ⟨major, minor, hw⟩ := exists_written_of_not_misspelt hbad
    exact h _ hw.parse?_eq
  · intro hbad v hv
    obtain ⟨major, minor, hw⟩ := exists_written hv
    exact hw.not_misspelt hbad

/-- Main result: the texts of versions are those that are written out as two decimal numbers of 32
bits, every other text has a fault, and the numbers are what is read. Printing gives the text back
unless there was a zero too many, and texts are of one version where nothing but such zeros tells
them apart. -/
theorem parse?_reads_decimal (s : String) :
    ((∃ v, parse? s = some v) ↔ ∃ major minor, Written s.toList major minor) ∧
    (parse? s = none ↔ Misspelt s.toList) ∧
    (∀ v, parse? v.render = some v) ∧
    ∀ major minor, Written s.toList major minor →
      (∀ v, parse? s = some v ↔
        v.major.toNat = placeValue major ∧ v.minor.toNat = placeValue minor) ∧
      (∀ v, parse? s = some v → (v.render = s ↔ ¬ LeadingZero major ∧ ¬ LeadingZero minor)) ∧
      ∀ t major' minor', Written t.toList major' minor' →
        (parse? s = parse? t ↔
          trimZeros major = trimZeros major' ∧ trimZeros minor = trimZeros minor') := by
  refine ⟨exists_parse?_iff, parse?_eq_none_iff, parse?_render, fun major minor h => ?_⟩
  exact ⟨fun _ => h.parse?_eq_some_iff, fun _ hv => h.render_eq_iff hv,
    fun _ _ _ h' => h.parse?_eq_parse?_iff h'⟩

/-- The largest number is read, zeros before it or not, and the next one is refused. -/
theorem parse?_reads_decimal_largest :
    Written "007.4294967295".toList "007".toList "4294967295".toList ∧
    Written "7.04294967295".toList "7".toList "04294967295".toList ∧
    parse? "007.4294967295" = some ⟨7, 4294967295⟩ ∧
    parse? "007.4294967295" = parse? "7.04294967295" ∧
    (mk 7 4294967295).render ≠ "007.4294967295" ∧ parse? "7.4294967296" = none := by
  have h : Written "007.4294967295".toList "007".toList "4294967295".toList :=
    ⟨by decide, ⟨by decide, (all_isDigit_iff _).1 (by decide), by decide⟩,
      ⟨by decide, (all_isDigit_iff _).1 (by decide), by decide⟩⟩
  have h' : Written "7.04294967295".toList "7".toList "04294967295".toList :=
    ⟨by decide, ⟨by decide, (all_isDigit_iff _).1 (by decide), by decide⟩,
      ⟨by decide, (all_isDigit_iff _).1 (by decide), by decide⟩⟩
  obtain ⟨hvalue, hrender, hequal⟩ := (parse?_reads_decimal "007.4294967295").2.2.2 _ _ h
  have hread : parse? "007.4294967295" = some ⟨7, 4294967295⟩ :=
    (hvalue ⟨7, 4294967295⟩).2 ⟨by decide, by decide⟩
  refine ⟨h, h', hread, (hequal _ _ _ h').2 ⟨by decide, by decide⟩, fun hprint => ?_, ?_⟩
  · exact ((hrender _ hread).1 hprint).1 ⟨['0', '7'], by decide, by decide⟩
  · have hparts : "7.4294967296".toList = ['7'] ++ '.' :: "4294967296".toList := by decide
    exact (parse?_reads_decimal "7.4294967296").2.1.2 (.tooLarge hparts (by decide))

end HalLink.Version
