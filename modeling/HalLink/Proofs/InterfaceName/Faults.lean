import HalLink.Proofs.InterfaceName.Grammar

/-!
Which fault is reported for a text that is no name. The first doubled colon, or else the first
at-sign, parts the text, its parts are checked in an order that depends on which of the two it is,
and the first part that fails is the one to blame, whatever is wrong with those after it.
-/

set_option autoImplicit false

namespace HalLink

/-- A doubled `sep` stands between the two parts of the text, and none further to the left. -/
structure Text.FirstDoubled (sep : Char) (text before after : List Char) : Prop where
  text_eq : text = before ++ sep :: sep :: after
  first : ∀ before' after', text = before' ++ sep :: sep :: after' →
    before.length ≤ before'.length

namespace InterfaceName

def FirstMisfit (path component : List Char) : Prop :=
  ∃ before after, path = ['.'].intercalate (before ++ component :: after) ∧
    (∀ p ∈ before, Identifier p) ∧ ¬ Identifier component ∧ ∀ p ∈ component :: after, '.' ∉ p

/-- The faults of a text that a doubled colon parts: the name comes first, then the version, and the
package last. -/
inductive QualifiedFault (text head name : List Char) : NameFault → Prop
  | name {component : List Char} :
      FirstMisfit name component →
      QualifiedFault text head name (.component (String.ofList component))
  | version {package version : List Char} :
      DottedPath name → head = package ++ '@' :: version → '@' ∉ package →
      (∀ v : Version, ¬ v.Denotes version) →
      QualifiedFault text head name (.version (String.ofList version))
  | package {package version component : List Char} {v : Version} :
      DottedPath name → head = package ++ '@' :: version → '@' ∉ package → v.Denotes version →
      package ≠ [] → FirstMisfit package component →
      QualifiedFault text head name (.component (String.ofList component))
  | headless :
      DottedPath name → head = [] →
      QualifiedFault text head name (.malformed (String.ofList text))
  | head {component : List Char} :
      DottedPath name → '@' ∉ head → head ≠ [] → FirstMisfit head component →
      QualifiedFault text head name (.component (String.ofList component))

/-- The faults of a text without a doubled colon: here the package comes before the version. -/
inductive UnqualifiedFault (text : List Char) : NameFault → Prop
  | headless {version : List Char} :
      text = '@' :: version → UnqualifiedFault text (.malformed (String.ofList text))
  | package {package version component : List Char} :
      text = package ++ '@' :: version → '@' ∉ package → package ≠ [] →
      FirstMisfit package component →
      UnqualifiedFault text (.component (String.ofList component))
  | version {package version : List Char} :
      text = package ++ '@' :: version → DottedPath package →
      (∀ v : Version, ¬ v.Denotes version) →
      UnqualifiedFault text (.version (String.ofList version))
  | name {component : List Char} :
      '@' ∉ text → FirstMisfit text component →
      UnqualifiedFault text (.component (String.ofList component))

inductive Faulty (s : String) : NameFault → Prop
  | empty : s = "" → Faulty s .empty
  | qualified {head name : List Char} {fault : NameFault} :
      Text.FirstDoubled ':' s.toList head name → QualifiedFault s.toList head name fault →
      Faulty s fault
  | unqualified {fault : NameFault} :
      s ≠ "" → ¬ [':', ':'] <:+: s.toList → UnqualifiedFault s.toList fault → Faulty s fault

/-- What a fault carries is a piece of the text and is not what that piece has to be. -/
def Blames (s : String) : NameFault → Prop
  | .empty => s = ""
  | .component text => text.toList <:+: s.toList ∧ ¬ Identifier text.toList
  | .version text => text.toList <:+: s.toList ∧ ∀ v : Version, ¬ v.Denotes text.toList
  | .malformed text => text.toList <:+: s.toList ∧ ∀ n, ¬ Spells text.toList n

end InterfaceName

namespace Text

variable {sep : Char} {text before after : List Char}

/-- Wherever a doubled separator stands, the cut is made there or further to the left. -/
theorem exists_splitFirstDouble?_eq (sep : Char) (before after : List Char) :
    ∃ front back, splitFirstDouble? sep (before ++ sep :: sep :: after) = some (front, back) ∧
      front.length ≤ before.length := by
  induction before with
  | nil => exact ⟨[], after, by simp [splitFirstDouble?], Nat.le_refl 0⟩
  | cons c cs ih =>
    obtain ⟨front, back, hsplit, hle⟩ := ih
    obtain ⟨d, ds, hd⟩ := List.exists_cons_of_ne_nil
      (show cs ++ sep :: sep :: after ≠ [] by simp)
    rw [hd] at hsplit
    rw [List.cons_append, hd]
    by_cases hc : c = sep ∧ d = sep
    · exact ⟨[], ds, by simp [splitFirstDouble?, hc], Nat.zero_le _⟩
    · refine ⟨c :: front, back, by simp [splitFirstDouble?, hc, hsplit], ?_⟩
      simpa using hle

theorem splitFirstDouble?_eq_some_iff :
    splitFirstDouble? sep text = some (before, after) ↔ FirstDoubled sep text before after := by
  constructor
  · intro h
    refine ⟨splitFirstDouble?_eq_some h, fun before' after' ht => ?_⟩
    obtain ⟨front, back, hsplit, hle⟩ := exists_splitFirstDouble?_eq sep before' after'
    rw [← ht, h] at hsplit
    obtain ⟨rfl, -⟩ := Prod.mk.inj (Option.some.inj hsplit)
    exact hle
  · intro h
    obtain ⟨front, back, hsplit, hle⟩ := exists_splitFirstDouble?_eq sep before after
    rw [← h.text_eq] at hsplit
    have htext := splitFirstDouble?_eq_some hsplit
    have hlength := Nat.le_antisymm hle (h.first front back htext)
    obtain ⟨rfl, hrest⟩ := List.append_inj (htext.symm.trans h.text_eq) hlength
    obtain rfl : back = after := by simpa using hrest
    exact hsplit

theorem splitFirstDouble?_eq_none_iff :
    splitFirstDouble? sep text = none ↔ ¬ [sep, sep] <:+: text := by
  constructor
  · rintro h ⟨before, after, rfl⟩
    obtain ⟨front, back, hsplit, -⟩ := exists_splitFirstDouble?_eq sep before after
    simp [hsplit] at h
  · intro h
    cases hs : splitFirstDouble? sep text with
    | none => rfl
    | some parts =>
      obtain ⟨before, after⟩ := parts
      exact absurd ⟨before, after, by simp [splitFirstDouble?_eq_some hs]⟩ h

end Text

namespace InterfaceName

theorem find?_not_isIdentifier_iff {path component : List Char} :
    (Text.pieces '.' path).find? (!isIdentifier ·) = some component ↔
      FirstMisfit path component := by
  simp only [List.find?_eq_some_iff_append, FirstMisfit, ← isIdentifier_iff]
  constructor
  · rintro ⟨hbad, before, after, hpieces, hgood⟩
    refine ⟨before, after, ?_, by simpa using hgood, by simpa using hbad, fun p hp => ?_⟩
    · rw [← hpieces, Text.intercalate_pieces]
    · exact Text.not_mem_of_mem_pieces (s := path) (by simp [hpieces, List.mem_cons.1 hp])
  · rintro ⟨before, after, rfl, hgood, hbad, hdot⟩
    refine ⟨by simpa using hbad, before, after, Text.pieces_intercalate (by simp) ?_,
      by simpa using hgood⟩
    intro p hp
    rcases List.mem_append.1 hp with hp | hp
    · exact ((isIdentifier_iff p).1 (hgood p hp)).not_mem (by decide)
    · exact hdot p hp

theorem checkPath_eq_error_iff (path : List Char) (fault : NameFault) :
    checkPath path = .error fault ↔
      ∃ component, FirstMisfit path component ∧ fault = .component (String.ofList component) := by
  rw [checkPath]
  cases hs : (Text.pieces '.' path).find? (!isIdentifier ·) with
  | none => simp [← find?_not_isIdentifier_iff, hs]
  | some component => simp [← find?_not_isIdentifier_iff, hs, eq_comm]

theorem FirstMisfit.checkPath_eq {path component : List Char} (h : FirstMisfit path component) :
    checkPath path = .error (.component (String.ofList component)) :=
  (checkPath_eq_error_iff path _).2 ⟨component, h, rfl⟩

theorem checkVersion_eq_error_iff (text : List Char) (fault : NameFault) :
    checkVersion text = .error fault ↔
      (∀ v : Version, ¬ v.Denotes text) ∧ fault = .version (String.ofList text) := by
  simp only [← checkVersion_eq_ok_iff]
  unfold checkVersion
  cases Version.parse? (String.ofList text) with
  | none => simp [eq_comm]
  | some v => simp

theorem qualifiedFault_of_parseQualified {text head name : List Char} {fault : NameFault}
    (h : parseQualified text head name = .error fault) : QualifiedFault text head name fault := by
  rw [parseQualified, bind_eq_error_iff, checkPath_eq_error_iff] at h
  rcases h with ⟨component, hmisfit, rfl⟩ | ⟨⟨⟩, hname, h⟩
  · exact .name hmisfit
  rw [checkPath_eq_ok_iff] at hname
  cases hs : Text.splitFirst? '@' head with
  | some parts =>
    obtain ⟨package, version⟩ := parts
    obtain ⟨hhead, hat⟩ := Text.splitFirst?_eq_some hs
    simp only [hs, bind_eq_error_iff, checkVersion_eq_error_iff] at h
    rcases h with ⟨hversion, rfl⟩ | ⟨v, hv, h⟩
    · exact .version hname hhead hat hversion
    by_cases hp : package = []
    · simp [hp, pure, Except.pure] at h
    · simp only [if_pos hp, bind_eq_error_iff, checkPath_eq_error_iff] at h
      rcases h with ⟨component, hmisfit, rfl⟩ | ⟨⟨⟩, -, h⟩
      · exact .package hname hhead hat ((checkVersion_eq_ok_iff version v).1 hv) hp hmisfit
      · cases h
  | none =>
    have hat := Text.splitFirst?_eq_none_iff.1 hs
    by_cases hh : head = []
    · simp only [hs, if_pos hh, bind_eq_error_iff] at h
      rcases h with h | ⟨_, h, _⟩
      · obtain rfl := Except.error.inj h
        exact .headless hname hh
      · cases h
    · simp only [hs, if_neg hh, bind_eq_error_iff, checkPath_eq_error_iff] at h
      rcases h with ⟨component, hmisfit, rfl⟩ | ⟨⟨⟩, -, h⟩
      · exact .head hname hat hh hmisfit
      · cases h

theorem QualifiedFault.parseQualified_eq {text head name : List Char} {fault : NameFault}
    (h : QualifiedFault text head name fault) : parseQualified text head name = .error fault := by
  rw [parseQualified, bind_eq_error_iff]
  cases h with
  | name hmisfit => exact .inl hmisfit.checkPath_eq
  | version hname hhead hat hversion =>
    refine .inr ⟨(), (checkPath_eq_ok_iff name).2 hname, ?_⟩
    simp only [hhead, Text.splitFirst?_append _ hat, bind_eq_error_iff, checkVersion_eq_error_iff,
      and_true]
    exact .inl hversion
  | @package package version component v hname hhead hat hv hp hmisfit =>
    refine .inr ⟨(), (checkPath_eq_ok_iff name).2 hname, ?_⟩
    simp only [hhead, Text.splitFirst?_append _ hat, bind_eq_error_iff, if_pos hp]
    exact .inr ⟨v, (checkVersion_eq_ok_iff version v).2 hv, .inl hmisfit.checkPath_eq⟩
  | headless hname hh =>
    refine .inr ⟨(), (checkPath_eq_ok_iff name).2 hname, ?_⟩
    subst hh
    rfl
  | head hname hat hh hmisfit =>
    refine .inr ⟨(), (checkPath_eq_ok_iff name).2 hname, ?_⟩
    simp only [Text.splitFirst?_eq_none_iff.2 hat, if_neg hh, bind_eq_error_iff]
    exact .inl hmisfit.checkPath_eq

theorem unqualifiedFault_of_parseUnqualified {text : List Char} {fault : NameFault}
    (h : parseUnqualified text = .error fault) : UnqualifiedFault text fault := by
  unfold parseUnqualified at h
  split at h
  · next version hs =>
    obtain rfl := Except.error.inj h
    exact .headless (Text.splitFirst?_eq_some hs).1
  · next package version hp hs =>
    obtain ⟨htext, hat⟩ := Text.splitFirst?_eq_some hs
    simp only [bind_eq_error_iff, checkPath_eq_error_iff, checkVersion_eq_error_iff] at h
    rcases h with ⟨component, hmisfit, rfl⟩ | ⟨⟨⟩, hpackage, h⟩
    · exact .package htext hat hp hmisfit
    rcases h with ⟨hversion, rfl⟩ | ⟨v, -, h⟩
    · exact .version htext ((checkPath_eq_ok_iff package).1 hpackage) hversion
    · cases h
  · next hs =>
    simp only [bind_eq_error_iff, checkPath_eq_error_iff] at h
    rcases h with ⟨component, hmisfit, rfl⟩ | ⟨⟨⟩, -, h⟩
    · exact .name (Text.splitFirst?_eq_none_iff.1 hs) hmisfit
    · cases h

theorem UnqualifiedFault.parseUnqualified_eq {text : List Char} {fault : NameFault}
    (h : UnqualifiedFault text fault) : parseUnqualified text = .error fault := by
  cases h with
  | headless htext =>
    subst htext
    rfl
  | @package package version component htext hat hp hmisfit =>
    obtain ⟨c, cs, rfl⟩ := List.exists_cons_of_ne_nil hp
    rw [parseUnqualified, htext, Text.splitFirst?_append _ hat]
    exact bind_eq_error_iff.2 (.inl hmisfit.checkPath_eq)
  | @version package version htext hpackage hversion =>
    obtain ⟨c, cs, rfl⟩ := List.exists_cons_of_ne_nil hpackage.ne_nil
    have hat := hpackage.not_mem (c := '@') (by decide) (by decide)
    rw [parseUnqualified, htext, Text.splitFirst?_append _ hat]
    refine bind_eq_error_iff.2 (.inr ⟨(), (checkPath_eq_ok_iff _).2 hpackage, ?_⟩)
    exact bind_eq_error_iff.2 (.inl ((checkVersion_eq_error_iff version _).2 ⟨hversion, rfl⟩))
  | name hat hmisfit =>
    rw [parseUnqualified, Text.splitFirst?_eq_none_iff.2 hat]
    exact bind_eq_error_iff.2 (.inl hmisfit.checkPath_eq)

theorem parse_of_firstDoubled {s : String} {head name : List Char}
    (h : Text.FirstDoubled ':' s.toList head name) :
    parse s = parseQualified s.toList head name := by
  have hne : s.isEmpty = false := by
    rw [← Bool.not_eq_true, String.isEmpty_iff, ← String.toList_eq_nil_iff, h.text_eq]
    simp
  simp [parse, hne, Text.splitFirstDouble?_eq_some_iff.2 h]

theorem parse_of_undoubled {s : String} (hs : s ≠ "") (h : ¬ [':', ':'] <:+: s.toList) :
    parse s = parseUnqualified s.toList := by
  simp [parse, hs, Text.splitFirstDouble?_eq_none_iff.2 h]

theorem parse_eq_error_iff_faulty {s : String} {fault : NameFault} :
    parse s = .error fault ↔ Faulty s fault := by
  constructor
  · intro h
    by_cases hs : s = ""
    · subst hs
      obtain rfl := Except.error.inj h
      exact .empty rfl
    · cases hsplit : Text.splitFirstDouble? ':' s.toList with
      | some parts =>
        obtain ⟨head, name⟩ := parts
        have hfirst := Text.splitFirstDouble?_eq_some_iff.1 hsplit
        rw [parse_of_firstDoubled hfirst] at h
        exact .qualified hfirst (qualifiedFault_of_parseQualified h)
      | none =>
        have hnone := Text.splitFirstDouble?_eq_none_iff.1 hsplit
        rw [parse_of_undoubled hs hnone] at h
        exact .unqualified hs hnone (unqualifiedFault_of_parseUnqualified h)
  · intro h
    cases h with
    | empty hs =>
      subst hs
      rfl
    | qualified hfirst h =>
      rw [parse_of_firstDoubled hfirst]
      exact h.parseQualified_eq
    | unqualified hs hnone h =>
      rw [parse_of_undoubled hs hnone]
      exact h.parseUnqualified_eq

theorem isInfix_intercalate {sep part : List Char} {parts : List (List Char)} (h : part ∈ parts) :
    part <:+: sep.intercalate parts := by
  induction parts with
  | nil => simp at h
  | cons p ps ih =>
    by_cases hps : ps = []
    · obtain rfl : part = p := by simpa [hps] using h
      simp [hps]
    · rw [List.intercalate_cons_of_ne_nil hps]
      rcases List.mem_cons.1 h with rfl | h
      · exact ⟨[], sep ++ sep.intercalate ps, by simp⟩
      · exact (ih h).trans (List.suffix_append _ _).isInfix

theorem FirstMisfit.isInfix {path component : List Char} (h : FirstMisfit path component) :
    component <:+: path := by
  obtain ⟨before, after, rfl, -⟩ := h
  exact isInfix_intercalate (by simp)

theorem FirstMisfit.not_identifier {path component : List Char} (h : FirstMisfit path component) :
    ¬ Identifier component := by
  obtain ⟨before, after, -, -, hbad, -⟩ := h
  exact hbad

variable {s : String} {fault : NameFault}

theorem blames_component {path component : List Char} (h : FirstMisfit path component)
    (hpath : path <:+: s.toList) : Blames s (.component (String.ofList component)) := by
  rw [Blames, String.toList_ofList]
  exact ⟨h.isInfix.trans hpath, h.not_identifier⟩

theorem blames_version {version : List Char} (h : ∀ v : Version, ¬ v.Denotes version)
    (hversion : version <:+: s.toList) : Blames s (.version (String.ofList version)) := by
  rw [Blames, String.toList_ofList]
  exact ⟨hversion, h⟩

theorem blames_malformed {text : List Char} (h : parse s = .error fault) (ht : text = s.toList) :
    Blames s (.malformed (String.ofList text)) := by
  rw [Blames, String.toList_ofList, ht]
  refine ⟨List.infix_refl _, fun n hn => ?_⟩
  rw [parse_complete hn] at h
  cases h

theorem isInfix_of_at {text package version : List Char} (h : text = package ++ '@' :: version) :
    package <:+: text ∧ version <:+: text :=
  ⟨⟨[], '@' :: version, by simp [h]⟩, ⟨package ++ ['@'], [], by simp [h]⟩⟩

theorem Faulty.blames (h : Faulty s fault) : Blames s fault := by
  have hparse := parse_eq_error_iff_faulty.2 h
  cases h with
  | empty hs => exact hs
  | @qualified head name _ hfirst h =>
    have hhead : head <:+: s.toList := ⟨[], ':' :: ':' :: name, by simp [hfirst.text_eq]⟩
    have hname : name <:+: s.toList := ⟨head ++ [':', ':'], [], by simp [hfirst.text_eq]⟩
    cases h with
    | name hmisfit => exact blames_component hmisfit hname
    | version _ hat _ hversion => exact blames_version hversion ((isInfix_of_at hat).2.trans hhead)
    | package _ hat _ _ _ hmisfit =>
      exact blames_component hmisfit ((isInfix_of_at hat).1.trans hhead)
    | headless _ _ => exact blames_malformed hparse rfl
    | head _ _ _ hmisfit => exact blames_component hmisfit hhead
  | unqualified _ _ h =>
    cases h with
    | headless _ => exact blames_malformed hparse rfl
    | package hat _ _ hmisfit => exact blames_component hmisfit (isInfix_of_at hat).1
    | version hat _ hversion => exact blames_version hversion (isInfix_of_at hat).2
    | name _ hmisfit => exact blames_component hmisfit (List.infix_refl _)

/-- Main result: a text is refused for one fault, the first that its parts have in the order in
which they are checked, and what the fault carries is a piece of the text that is to blame. -/
theorem parse_eq_error_iff_first_fault (s : String) (fault : NameFault) :
    (parse s = .error fault ↔ Faulty s fault) ∧ (parse s = .error fault → Blames s fault) :=
  ⟨parse_eq_error_iff_faulty, fun h => (parse_eq_error_iff_faulty.1 h).blames⟩

/-- Beside a version that is none, the package holds a misfit; around a doubled colon the version is
checked first, and alone the package is. -/
theorem parse_eq_error_iff_first_fault_two_orders :
    Faulty "a.1b@x.y::C" (.version "x.y") ∧ Blames "a.1b@x.y::C" (.version "x.y") ∧
    Faulty "a.1b@x.y" (.component "1b") ∧ Blames "a.1b@x.y" (.component "1b") := by
  have hversion : parse "a.1b@x.y::C" = .error (.version "x.y") := by decide
  have hpackage : parse "a.1b@x.y" = .error (.component "1b") := by decide
  obtain ⟨hq, hqb⟩ := parse_eq_error_iff_first_fault "a.1b@x.y::C" (.version "x.y")
  obtain ⟨hu, hub⟩ := parse_eq_error_iff_first_fault "a.1b@x.y" (.component "1b")
  exact ⟨hq.1 hversion, hqb hversion, hu.1 hpackage, hub hpackage⟩

end InterfaceName

end HalLink
