import HalLink.InterfaceName.Parser
import HalLink.Proofs.Except
import HalLink.Proofs.Version

set_option autoImplicit false

namespace HalLink.InterfaceName

def Letter (c : Char) : Prop := ('A' ≤ c ∧ c ≤ 'Z') ∨ ('a' ≤ c ∧ c ≤ 'z') ∨ c = '_'

def Identifier : List Char → Prop
  | [] => False
  | c :: cs => Letter c ∧ ∀ d ∈ cs, Letter d ∨ ('0' ≤ d ∧ d ≤ '9')

def DottedPath (text : List Char) : Prop :=
  ∃ parts, parts ≠ [] ∧ (∀ p ∈ parts, Identifier p) ∧ text = ['.'].intercalate parts

/-- The five forms of a name. Nothing is said of how a version spells its numbers. -/
inductive Spells : List Char → InterfaceName → Prop
  | full {package version name : List Char} {v : Version} :
      DottedPath package → v.Denotes version → DottedPath name →
      Spells (package ++ '@' :: version ++ ':' :: ':' :: name)
        ⟨String.ofList package, some v, String.ofList name⟩
  | versionAndName {version name : List Char} {v : Version} :
      v.Denotes version → DottedPath name →
      Spells ('@' :: version ++ ':' :: ':' :: name) ⟨"", some v, String.ofList name⟩
  | packageAndVersion {package version : List Char} {v : Version} :
      DottedPath package → v.Denotes version →
      Spells (package ++ '@' :: version) ⟨String.ofList package, some v, ""⟩
  | packageAndName {package name : List Char} :
      DottedPath package → DottedPath name →
      Spells (package ++ ':' :: ':' :: name)
        ⟨String.ofList package, none, String.ofList name⟩
  | name {name : List Char} :
      DottedPath name → Spells name ⟨"", none, String.ofList name⟩

theorem isIdentifierStart_iff (c : Char) : isIdentifierStart c = true ↔ Letter c := by
  have halpha : c.isAlpha = (decide ('A'.val ≤ c.val ∧ c.val ≤ 'Z'.val) ||
      (decide ('a'.val ≤ c.val) && decide (c.val ≤ 'z'.val))) := rfl
  simp [isIdentifierStart, halpha, Letter, Char.le_def, or_assoc]

theorem isIdentifierRest_iff (c : Char) :
    isIdentifierRest c = true ↔ Letter c ∨ ('0' ≤ c ∧ c ≤ '9') := by
  rw [← isIdentifierStart_iff, ← Version.isDigit_iff]
  simp [isIdentifierRest, isIdentifierStart, Char.isAlphanum, or_right_comm]

theorem isIdentifier_iff (text : List Char) : isIdentifier text = true ↔ Identifier text := by
  cases text with
  | nil => simp [isIdentifier, Identifier]
  | cons c cs =>
    simp [isIdentifier, Identifier, isIdentifierStart_iff, isIdentifierRest_iff]

theorem Identifier.not_mem {text : List Char} (h : Identifier text) {c : Char}
    (hc : isIdentifierRest c = false) : c ∉ text := by
  have hc' : ¬ (Letter c ∨ ('0' ≤ c ∧ c ≤ '9')) := by
    rw [← isIdentifierRest_iff]
    simp [hc]
  cases text with
  | nil => simp
  | cons d ds =>
    intro hm
    rcases List.mem_cons.1 hm with rfl | hm
    · exact hc' (.inl h.1)
    · exact hc' (h.2 c hm)

theorem mem_intercalate_dot {c : Char} {parts : List (List Char)}
    (h : c ∈ ['.'].intercalate parts) : c = '.' ∨ ∃ p ∈ parts, c ∈ p := by
  induction parts with
  | nil => simp at h
  | cons p ps ih =>
    cases ps with
    | nil => exact .inr ⟨p, by simp, by simpa using h⟩
    | cons q qs =>
      simp only [List.intercalate_cons_cons, List.mem_append, List.mem_singleton] at h
      rcases h with (hp | hd) | hr
      · exact .inr ⟨p, by simp, hp⟩
      · exact .inl hd
      · rcases ih hr with hd | ⟨p', hp', hc⟩
        · exact .inl hd
        · exact .inr ⟨p', by simp [hp'], hc⟩

theorem DottedPath.not_mem {text : List Char} (h : DottedPath text) {c : Char}
    (hc : isIdentifierRest c = false) (hdot : c ≠ '.') : c ∉ text := by
  obtain ⟨parts, -, hp, rfl⟩ := h
  intro hm
  rcases mem_intercalate_dot hm with hm | ⟨p, hpp, hm⟩
  · exact hdot hm
  · exact (hp p hpp).not_mem hc hm

theorem checkPath_eq_ok_iff (path : List Char) : checkPath path = .ok () ↔ DottedPath path := by
  have hfind : checkPath path = .ok () ↔ ∀ p ∈ Text.pieces '.' path, Identifier p := by
    simp only [checkPath, ← isIdentifier_iff]
    cases h : (Text.pieces '.' path).find? (!isIdentifier ·) with
    | none => simpa using h
    | some p =>
      have hp := List.find?_some h
      have hne : isIdentifier p ≠ true := by simpa using hp
      simp only [reduceCtorEq, false_iff]
      exact fun hall => hne (hall p (List.mem_of_find?_eq_some h))
  rw [hfind]
  constructor
  · intro h
    exact ⟨_, Text.pieces_ne_nil '.' path, h, (Text.intercalate_pieces '.' path).symm⟩
  · rintro ⟨parts, hne, hp, rfl⟩
    rwa [Text.pieces_intercalate hne fun p h => (hp p h).not_mem (by decide)]

theorem checkVersion_eq_ok_iff (text : List Char) (v : Version) :
    checkVersion text = .ok v ↔ v.Denotes text := by
  have hparse := Version.parse?_eq_some_iff (s := String.ofList text) (v := v)
  rw [String.toList_ofList] at hparse
  rw [← hparse, checkVersion]
  cases Version.parse? (String.ofList text) with
  | none => simp
  | some w => simp

theorem DottedPath.ne_nil {text : List Char} (h : DottedPath text) : text ≠ [] := by
  rintro rfl
  have hc := (checkPath_eq_ok_iff []).2 h
  simp [checkPath, Text.pieces, isIdentifier] at hc

theorem parseQualified_sound {text head name : List Char} {n : InterfaceName}
    (h : parseQualified text head name = .ok n) : Spells (head ++ ':' :: ':' :: name) n := by
  rw [parseQualified, bind_eq_ok_iff] at h
  obtain ⟨⟨⟩, hname, h⟩ := h
  rw [checkPath_eq_ok_iff] at hname
  cases hs : Text.splitFirst? '@' head with
  | some p =>
    obtain ⟨package, version⟩ := p
    obtain ⟨rfl, -⟩ := Text.splitFirst?_eq_some hs
    simp only [hs, bind_eq_ok_iff] at h
    obtain ⟨v, hv, h⟩ := h
    rw [checkVersion_eq_ok_iff] at hv
    by_cases hp : package = []
    · subst hp
      obtain rfl := Except.ok.inj h
      exact .versionAndName hv hname
    · rw [if_pos hp, bind_eq_ok_iff] at h
      obtain ⟨⟨⟩, hpackage, h⟩ := h
      obtain rfl := Except.ok.inj h
      exact .full ((checkPath_eq_ok_iff package).1 hpackage) hv hname
  | none =>
    simp only [hs] at h
    by_cases hh : head = []
    · rw [if_pos hh, bind_eq_ok_iff] at h
      obtain ⟨_, he, _⟩ := h
      cases he
    · rw [if_neg hh, bind_eq_ok_iff] at h
      obtain ⟨⟨⟩, hhead, h⟩ := h
      obtain rfl := Except.ok.inj h
      exact .packageAndName ((checkPath_eq_ok_iff head).1 hhead) hname

theorem parseUnqualified_sound {text : List Char} {n : InterfaceName}
    (h : parseUnqualified text = .ok n) : Spells text n := by
  unfold parseUnqualified at h
  split at h
  · cases h
  · next package version _ hs =>
    obtain ⟨rfl, -⟩ := Text.splitFirst?_eq_some hs
    simp only [bind_eq_ok_iff] at h
    obtain ⟨⟨⟩, hpackage, v, hv, h⟩ := h
    obtain rfl := Except.ok.inj h
    exact .packageAndVersion ((checkPath_eq_ok_iff package).1 hpackage)
      ((checkVersion_eq_ok_iff version v).1 hv)
  · rw [bind_eq_ok_iff] at h
    obtain ⟨⟨⟩, htext, h⟩ := h
    obtain rfl := Except.ok.inj h
    exact .name ((checkPath_eq_ok_iff text).1 htext)

theorem parse_sound {s : String} {n : InterfaceName} (h : parse s = .ok n) :
    Spells s.toList n := by
  unfold parse at h
  split at h
  · cases h
  · split at h
    · next head name hs =>
      rw [Text.splitFirstDouble?_eq_some hs]
      exact parseQualified_sound h
    · exact parseUnqualified_sound h

theorem parse_of_doubled {s : String} {head name : List Char}
    (hs : s.toList = head ++ ':' :: ':' :: name) (hh : ':' ∉ head) :
    parse s = parseQualified s.toList head name := by
  have hsplit : Text.splitFirstDouble? ':' s.toList = some (head, name) :=
    hs ▸ Text.splitFirstDouble?_append name hh
  have hne : s.isEmpty = false := by
    rw [← Bool.not_eq_true, String.isEmpty_iff, ← String.toList_eq_nil_iff, hs]
    simp
  simp [parse, hne, hsplit]

theorem parse_of_not_doubled {s : String} (hs : s.toList ≠ []) (hc : ':' ∉ s.toList) :
    parse s = parseUnqualified s.toList := by
  have hne : s.isEmpty = false := by
    rw [← Bool.not_eq_true, String.isEmpty_iff, ← String.toList_eq_nil_iff]
    exact hs
  simp [parse, hne, Text.splitFirstDouble?_of_not_mem hc]

/-- No separator of a form occurs inside its parts, so the first ones part it where it was
joined. -/
theorem parse_complete {s : String} {n : InterfaceName} (h : Spells s.toList n) :
    parse s = .ok n := by
  generalize ht : s.toList = text at h
  cases h with
  | @full package version name v hpackage hversion hname =>
    have hcolon : ':' ∉ package ++ '@' :: version := by
      simp [hpackage.not_mem (c := ':') (by decide) (by decide),
        hversion.not_mem (c := ':') (by decide) (by decide)]
    have hat := Text.splitFirst?_append version
      (hpackage.not_mem (c := '@') (by decide) (by decide))
    rw [parse_of_doubled ht hcolon]
    simp [parseQualified, hat, bind_eq_ok_iff, (checkPath_eq_ok_iff name).2 hname,
      (checkVersion_eq_ok_iff version v).2 hversion, (checkPath_eq_ok_iff package).2 hpackage,
      hpackage.ne_nil]
  | @versionAndName version name v hversion hname =>
    have hcolon : ':' ∉ '@' :: version := by
      simp [hversion.not_mem (c := ':') (by decide) (by decide)]
    rw [parse_of_doubled ht hcolon]
    simp [parseQualified, Text.splitFirst?, bind_eq_ok_iff, (checkPath_eq_ok_iff name).2 hname,
      (checkVersion_eq_ok_iff version v).2 hversion]
  | @packageAndVersion package version v hpackage hversion =>
    have hcolon : ':' ∉ s.toList := by
      simp [ht, hpackage.not_mem (c := ':') (by decide) (by decide),
        hversion.not_mem (c := ':') (by decide) (by decide)]
    have hat := Text.splitFirst?_append version
      (hpackage.not_mem (c := '@') (by decide) (by decide))
    rw [parse_of_not_doubled (by simp [ht]) hcolon, ht, parseUnqualified, hat]
    obtain ⟨c, cs, rfl⟩ := List.exists_cons_of_ne_nil hpackage.ne_nil
    simp [bind_eq_ok_iff, (checkPath_eq_ok_iff _).2 hpackage,
      (checkVersion_eq_ok_iff version v).2 hversion]
  | @packageAndName package name hpackage hname =>
    have hat := Text.splitFirst?_eq_none_iff.2
      (hpackage.not_mem (c := '@') (by decide) (by decide))
    rw [parse_of_doubled ht (hpackage.not_mem (by decide) (by decide))]
    simp [parseQualified, hat, bind_eq_ok_iff, (checkPath_eq_ok_iff name).2 hname,
      (checkPath_eq_ok_iff package).2 hpackage, hpackage.ne_nil]
  | name hname =>
    have hcolon : ':' ∉ s.toList := ht ▸ hname.not_mem (by decide) (by decide)
    have hat := Text.splitFirst?_eq_none_iff.2
      (hname.not_mem (c := '@') (by decide) (by decide))
    rw [parse_of_not_doubled (ht ▸ hname.ne_nil) hcolon, ht, parseUnqualified, hat]
    exact bind_eq_ok_iff.2 ⟨(), (checkPath_eq_ok_iff text).2 hname, rfl⟩

theorem parse_eq_ok_iff {s : String} {n : InterfaceName} :
    parse s = .ok n ↔ Spells s.toList n :=
  ⟨parse_sound, parse_complete⟩

end HalLink.InterfaceName
