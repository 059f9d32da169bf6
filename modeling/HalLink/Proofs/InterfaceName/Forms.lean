import HalLink.Proofs.InterfaceName.Grammar

set_option autoImplicit false

namespace HalLink.InterfaceName

inductive Form where
  | full (package major minor name : List Char)
  | versionAndName (major minor name : List Char)
  | packageAndVersion (package major minor : List Char)
  | packageAndName (package name : List Char)
  | nameOnly (name : List Char)
  deriving DecidableEq, Repr

namespace Form

def text : Form → List Char
  | full package major minor name =>
    package ++ '@' :: (major ++ '.' :: minor) ++ ':' :: ':' :: name
  | versionAndName major minor name => '@' :: (major ++ '.' :: minor) ++ ':' :: ':' :: name
  | packageAndVersion package major minor => package ++ '@' :: (major ++ '.' :: minor)
  | packageAndName package name => package ++ ':' :: ':' :: name
  | nameOnly name => name

def paths : Form → List (List Char)
  | full package _ _ name | packageAndName package name => [package, name]
  | packageAndVersion package _ _ => [package]
  | versionAndName _ _ name | nameOnly name => [name]

def numerals : Form → List (List Char)
  | full _ major minor _ | versionAndName major minor _ | packageAndVersion _ major minor =>
    [major, minor]
  | packageAndName _ _ | nameOnly _ => []

def version (major minor : List Char) : Version :=
  ⟨.ofNat (Version.digitsValue major), .ofNat (Version.digitsValue minor)⟩

def value : Form → InterfaceName
  | full package major minor name =>
    ⟨String.ofList package, some (version major minor), String.ofList name⟩
  | versionAndName major minor name => ⟨"", some (version major minor), String.ofList name⟩
  | packageAndVersion package major minor =>
    ⟨String.ofList package, some (version major minor), ""⟩
  | packageAndName package name => ⟨String.ofList package, none, String.ofList name⟩
  | nameOnly name => ⟨"", none, String.ofList name⟩

def Fits (digits : List Char) : Prop := ∃ n < UInt32.size, Version.Numeral digits n

/-- The text is of this form, with parts that are paths of identifiers and numbers that fit. -/
structure Writes (f : Form) (s : String) : Prop where
  text_eq : f.text = s.toList
  path : ∀ p ∈ f.paths, DottedPath p
  fits : ∀ digits ∈ f.numerals, Fits digits

variable {f g : Form} {s : String} {n : InterfaceName} {digits major minor : List Char}

theorem Fits.toNat_eq (h : Fits digits) :
    (UInt32.ofNat (Version.digitsValue digits)).toNat = Version.digitsValue digits := by
  obtain ⟨n, hlt, hn⟩ := h
  rw [UInt32.toNat_ofNat', hn.value]
  exact Nat.mod_eq_of_lt hlt

theorem Fits.numeral (h : Fits digits) : Version.Numeral digits (Version.digitsValue digits) := by
  obtain ⟨n, -, hn⟩ := h
  rwa [hn.value]

theorem denotes_version (hmajor : Fits major) (hminor : Fits minor) :
    (version major minor).Denotes (major ++ '.' :: minor) := by
  refine ⟨major, minor, rfl, ?_, ?_⟩
  · rw [version, hmajor.toNat_eq]
    exact hmajor.numeral
  · rw [version, hminor.toNat_eq]
    exact hminor.numeral

theorem exists_numerals {text : List Char} {v : Version} (h : v.Denotes text) :
    ∃ major minor, text = major ++ '.' :: minor ∧ version major minor = v ∧
      Fits major ∧ Fits minor := by
  obtain ⟨major, minor, rfl, hmajor, hminor⟩ := h
  exact ⟨major, minor, rfl, by simp [version, hmajor.value, hminor.value],
    ⟨_, v.major.toNat_lt_size, hmajor⟩, ⟨_, v.minor.toNat_lt_size, hminor⟩⟩

theorem Writes.spells (h : f.Writes s) : Spells s.toList f.value := by
  obtain ⟨htext, hpath, hfits⟩ := h
  rw [← htext]
  cases f with
  | full package major minor name =>
    simp only [paths, numerals, List.forall_mem_cons] at hpath hfits
    exact .full hpath.1 (denotes_version hfits.1 hfits.2.1) hpath.2.1
  | versionAndName major minor name =>
    simp only [paths, numerals, List.forall_mem_cons] at hpath hfits
    exact .versionAndName (denotes_version hfits.1 hfits.2.1) hpath.1
  | packageAndVersion package major minor =>
    simp only [paths, numerals, List.forall_mem_cons] at hpath hfits
    exact .packageAndVersion hpath.1 (denotes_version hfits.1 hfits.2.1)
  | packageAndName package name =>
    simp only [paths, List.forall_mem_cons] at hpath
    exact .packageAndName hpath.1 hpath.2.1
  | nameOnly name =>
    simp only [paths, List.forall_mem_cons] at hpath
    exact .name hpath.1

theorem exists_of_spells (h : Spells s.toList n) : ∃ f : Form, f.Writes s ∧ f.value = n := by
  generalize ht : s.toList = text at h
  cases h with
  | @full package version name v hpackage hversion hname =>
    obtain ⟨major, minor, rfl, rfl, hmajor, hminor⟩ := exists_numerals hversion
    exact ⟨.full package major minor name,
      ⟨ht.symm, by simp [paths, hpackage, hname], by simp [numerals, hmajor, hminor]⟩, rfl⟩
  | @versionAndName version name v hversion hname =>
    obtain ⟨major, minor, rfl, rfl, hmajor, hminor⟩ := exists_numerals hversion
    exact ⟨.versionAndName major minor name,
      ⟨ht.symm, by simp [paths, hname], by simp [numerals, hmajor, hminor]⟩, rfl⟩
  | @packageAndVersion package version v hpackage hversion =>
    obtain ⟨major, minor, rfl, rfl, hmajor, hminor⟩ := exists_numerals hversion
    exact ⟨.packageAndVersion package major minor,
      ⟨ht.symm, by simp [paths, hpackage], by simp [numerals, hmajor, hminor]⟩, rfl⟩
  | @packageAndName package name hpackage hname =>
    exact ⟨.packageAndName package name,
      ⟨ht.symm, by simp [paths, hpackage, hname], by simp [numerals]⟩, rfl⟩
  | name hname =>
    exact ⟨.nameOnly text, ⟨ht.symm, by simp [paths, hname], by simp [numerals]⟩, rfl⟩

def parts : Form → Bool × Bool × Bool
  | full .. => (true, true, true)
  | versionAndName .. => (false, true, true)
  | packageAndVersion .. => (true, true, false)
  | packageAndName .. => (true, false, true)
  | nameOnly .. => (false, false, true)

theorem Writes.parts_eq (h : f.Writes s) :
    f.parts = (f.value.package != "", f.value.version.isSome, f.value.name != "") := by
  have hne : ∀ p ∈ f.paths, String.ofList p ≠ "" := by
    intro p hp hempty
    exact (h.path p hp).ne_nil (String.ofList_eq_empty_iff.1 hempty)
  cases f <;> simp_all [parts, value, paths]

theorem append_dot_inj {major' minor' : List Char} (hmajor : Fits major) (hmajor' : Fits major')
    (h : major ++ '.' :: minor = major' ++ '.' :: minor') : major = major' ∧ minor = minor' := by
  have hsplit := Text.splitFirst?_append minor (hmajor.numeral.not_mem (c := '.') (by decide))
  rw [h, Text.splitFirst?_append minor' (hmajor'.numeral.not_mem (by decide))] at hsplit
  simpa [eq_comm] using hsplit

/-- The parts of a form are those of the name that it writes, so they tell the form. The numbers of
a version are told by their text alone, since they may be spelled in many ways. -/
theorem Writes.eq_of_value (hf : f.Writes s) (hg : g.Writes s) (h : f.value = g.value) :
    f = g := by
  have htext := hf.text_eq.trans hg.text_eq.symm
  have hparts : f.parts = g.parts := by rw [hf.parts_eq, hg.parts_eq, h]
  match f, g, hparts with
  | .full package major minor name, .full package' major' minor' name', _ =>
    simp only [value, InterfaceName.mk.injEq, String.ofList_inj] at h
    obtain ⟨rfl, -, rfl⟩ := h
    simp only [text, List.append_cancel_right_eq, List.append_cancel_left_eq,
      List.cons.injEq, true_and] at htext
    obtain ⟨rfl, rfl⟩ := append_dot_inj (hf.fits _ (by simp [numerals]))
      (hg.fits _ (by simp [numerals])) htext
    rfl
  | .versionAndName major minor name, .versionAndName major' minor' name', _ =>
    simp only [value, InterfaceName.mk.injEq, String.ofList_inj] at h
    obtain ⟨-, -, rfl⟩ := h
    simp only [text, List.append_cancel_right_eq, List.cons.injEq, true_and] at htext
    obtain ⟨rfl, rfl⟩ := append_dot_inj (hf.fits _ (by simp [numerals]))
      (hg.fits _ (by simp [numerals])) htext
    rfl
  | .packageAndVersion package major minor, .packageAndVersion package' major' minor', _ =>
    simp only [value, InterfaceName.mk.injEq, String.ofList_inj] at h
    obtain ⟨rfl, -, -⟩ := h
    simp only [text, List.append_cancel_left_eq, List.cons.injEq, true_and] at htext
    obtain ⟨rfl, rfl⟩ := append_dot_inj (hf.fits _ (by simp [numerals]))
      (hg.fits _ (by simp [numerals])) htext
    rfl
  | .packageAndName package name, .packageAndName package' name', _ =>
    simp only [value, InterfaceName.mk.injEq, String.ofList_inj] at h
    obtain ⟨rfl, -, rfl⟩ := h
    rfl
  | .nameOnly name, .nameOnly name', _ => exact congrArg nameOnly htext

theorem Writes.unique (hf : f.Writes s) (hg : g.Writes s) : f = g := by
  have hread := parse_complete hf.spells
  rw [parse_complete hg.spells] at hread
  exact hf.eq_of_value hg (Except.ok.inj hread).symm

end Form

/-- Main result: exactly the texts of the five forms are read, each of them has one form and one way
to part it, and what is read are these parts. -/
theorem parse_ok_iff_writes (s : String) :
    ((∃ n, parse s = .ok n) ↔ ∃ f : Form, f.Writes s) ∧
    (∀ f g : Form, f.Writes s → g.Writes s → f = g) ∧
    ∀ f : Form, f.Writes s → parse s = .ok f.value := by
  refine ⟨⟨?_, ?_⟩, fun f g hf hg => hf.unique hg, fun f hf => parse_complete hf.spells⟩
  · rintro ⟨n, hn⟩
    obtain ⟨f, hf, -⟩ := Form.exists_of_spells (parse_sound hn)
    exact ⟨f, hf⟩
  · rintro ⟨f, hf⟩
    exact ⟨f.value, parse_complete hf.spells⟩

theorem parse_ok_iff_writes_leading_zero :
    let f : Form := .full ['a', '.', 'b'] ['0', '1'] ['2'] ['C']
    f.Writes "a.b@01.2::C" ∧ parse "a.b@01.2::C" = .ok ⟨"a.b", some ⟨1, 2⟩, "C"⟩ := by
  intro f
  have hpath : ∀ p ∈ f.paths, DottedPath p := by
    simp only [f, Form.paths, List.forall_mem_cons, ← checkPath_eq_ok_iff]
    decide
  have hfits : ∀ digits ∈ f.numerals, Form.Fits digits := by
    simp only [f, Form.numerals, List.forall_mem_cons, List.not_mem_nil, false_implies,
      implies_true, and_true]
    exact ⟨⟨1, by decide, Version.part?_eq_some_iff (n := 1).1 rfl⟩,
      ⟨2, by decide, Version.part?_eq_some_iff (n := 2).1 rfl⟩⟩
  have hf : f.Writes "a.b@01.2::C" := ⟨rfl, hpath, hfits⟩
  exact ⟨hf, (parse_ok_iff_writes _).2.2 f hf⟩

end HalLink.InterfaceName
