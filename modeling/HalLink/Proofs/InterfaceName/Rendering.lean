import HalLink.Proofs.InterfaceName.Forms

set_option autoImplicit false

namespace HalLink.InterfaceName

namespace Form

def printed : Form → Form
  | full package major minor name => full package (renumber major) (renumber minor) name
  | versionAndName major minor name => versionAndName (renumber major) (renumber minor) name
  | packageAndVersion package major minor =>
    packageAndVersion package (renumber major) (renumber minor)
  | packageAndName package name => packageAndName package name
  | nameOnly name => nameOnly name
where
  renumber (digits : List Char) : List Char := Nat.toDigits 10 (Version.digitsValue digits)

variable {f : Form} {s : String} {digits major minor package name : List Char}

@[simp] theorem paths_printed (f : Form) : f.printed.paths = f.paths := by cases f <;> rfl

@[simp] theorem numerals_printed (f : Form) :
    f.printed.numerals = f.numerals.map printed.renumber := by cases f <;> rfl

theorem digitsValue_renumber (digits : List Char) :
    Version.digitsValue (printed.renumber digits) = Version.digitsValue digits :=
  (Version.numeral_toDigits _).value

@[simp] theorem value_printed (f : Form) : f.printed.value = f.value := by
  cases f <;> simp [printed, value, version, digitsValue_renumber]

theorem Fits.renumber (h : Fits digits) : Fits (printed.renumber digits) := by
  obtain ⟨n, hlt, hn⟩ := h
  refine ⟨n, hlt, ?_⟩
  rw [printed.renumber, hn.value]
  exact Version.numeral_toDigits n

theorem printed_eq_iff (hfits : ∀ digits ∈ f.numerals, Fits digits) :
    f.printed = f ↔ ∀ digits ∈ f.numerals, ¬ Version.LeadingZero digits := by
  have hiff : ∀ digits ∈ f.numerals,
      printed.renumber digits = digits ↔ ¬ Version.LeadingZero digits :=
    fun digits hd => (hfits digits hd).numeral.toDigits_eq_iff
  cases f <;> simp_all [printed, numerals]

theorem toList_render_version (hmajor : Fits major) (hminor : Fits minor) :
    (version major minor).render.toList =
      printed.renumber major ++ '.' :: printed.renumber minor := by
  rw [Version.toList_render, version, hmajor.toNat_eq, hminor.toNat_eq]
  rfl

theorem Writes.printed (h : f.Writes s) : f.printed.Writes f.value.render where
  text_eq := by
    have hfits := h.fits
    have hne : ∀ p ∈ f.paths, p ≠ [] := fun p hp => (h.path p hp).ne_nil
    clear h
    cases f <;> simp_all [Form.printed, text, value, render, InterfaceName.packageAndVersion, paths,
      numerals, toList_render_version]
  path := by simpa using h.path
  fits := by
    intro digits hd
    rw [numerals_printed] at hd
    obtain ⟨old, hold, rfl⟩ := List.mem_map.1 hd
    exact (h.fits old hold).renumber

theorem Writes.render_eq_iff (h : f.Writes s) :
    f.value.render = s ↔ ∀ digits ∈ f.numerals, ¬ Version.LeadingZero digits := by
  rw [← printed_eq_iff h.fits]
  constructor
  · intro hs
    exact (hs ▸ h.printed).unique h
  · intro hp
    rw [← String.toList_inj, ← h.printed.text_eq, hp, h.text_eq]

end Form

variable {s : String} {n : InterfaceName} {v : Version}

theorem packageAndVersion_eq_empty_iff (n : InterfaceName) :
    n.packageAndVersion = "" ↔ n.package = "" ∧ n.version = none := by
  obtain ⟨package, _ | v, name⟩ := n <;> simp [packageAndVersion]

theorem render_eq (n : InterfaceName) :
    n.render = if n.packageAndVersion ≠ "" ∧ n.name ≠ "" then
      n.packageAndVersion ++ "::" ++ n.name else n.packageAndVersion ++ n.name := by
  have hempty := n.packageAndVersion_eq_empty_iff
  by_cases hname : n.name = ""
  · simp [render, hname]
  · by_cases hp : n.package = "" ∧ n.version = none
    · simp [render, hname, hp, hempty.2 hp]
    · simp [render, hname, hp, hempty]

theorem parse_render (h : parse s = .ok n) : parse n.render = .ok n := by
  obtain ⟨f, hf, rfl⟩ := Form.exists_of_spells (parse_sound h)
  rw [parse_complete hf.printed.spells, Form.value_printed]

theorem Spells.dottedPath_package {text : List Char} (h : Spells text n) (hp : n.package ≠ "") :
    DottedPath n.package.toList := by
  cases h with
  | full hpackage _ _ => simpa using hpackage
  | versionAndName _ _ => exact absurd rfl hp
  | packageAndVersion hpackage _ => simpa using hpackage
  | packageAndName hpackage _ => simpa using hpackage
  | name _ => exact absurd rfl hp

theorem parse_packageAndVersion (h : parse s = .ok n) (hp : n.package ≠ "")
    (hv : n.version = some v) : parse n.packageAndVersion = .ok ⟨n.package, some v, ""⟩ := by
  have hspells := Spells.packageAndVersion ((parse_sound h).dottedPath_package hp) v.denotes_render
  rw [String.ofList_toList] at hspells
  refine parse_complete ?_
  simpa [packageAndVersion, hv] using hspells

/-- Main result: printing and reading are inverse. A name that was read is read again from what is
printed, which tells it from all others and is the text that was read unless a number in it has a
leading zero. The package and the version of a name can be printed and read without the rest. -/
theorem render_inverse_of_parse (h : parse s = .ok n) :
    parse n.render = .ok n ∧
    (∀ t m, parse t = .ok m → (m = n ↔ m.render = n.render)) ∧
    (∃ f : Form, f.Writes s ∧
      (n.render = s ↔ ∀ digits ∈ f.numerals, ¬ Version.LeadingZero digits)) ∧
    n.render = (if n.packageAndVersion ≠ "" ∧ n.name ≠ "" then
      n.packageAndVersion ++ "::" ++ n.name else n.packageAndVersion ++ n.name) ∧
    (n.package ≠ "" → ∀ v, n.version = some v →
      parse n.packageAndVersion = .ok ⟨n.package, some v, ""⟩) := by
  refine ⟨parse_render h, fun t m hm => ⟨fun he => he ▸ rfl, fun he => ?_⟩, ?_, n.render_eq,
    fun hp v hv => parse_packageAndVersion h hp hv⟩
  · have hread := parse_render hm
    rw [he, parse_render h] at hread
    exact (Except.ok.inj hread).symm
  · obtain ⟨f, hf, rfl⟩ := Form.exists_of_spells (parse_sound h)
    exact ⟨f, hf, hf.render_eq_iff⟩

/-- The name is read back from its own print and, without its last part, from its package's. -/
theorem render_inverse_of_parse_leading_zero :
    parse "a.b@01.2::C" = .ok ⟨"a.b", some ⟨1, 2⟩, "C"⟩ ∧
    parse "a.b@1.2::C" = .ok ⟨"a.b", some ⟨1, 2⟩, "C"⟩ ∧
    parse "a.b@1.2" = .ok ⟨"a.b", some ⟨1, 2⟩, ""⟩ := by
  have h : parse "a.b@01.2::C" = .ok ⟨"a.b", some ⟨1, 2⟩, "C"⟩ := by decide
  obtain ⟨hread, -, -, -, hpackage⟩ := render_inverse_of_parse h
  exact ⟨h, hread, hpackage (by decide) _ rfl⟩

end HalLink.InterfaceName
