import HalLink.Routing

set_option autoImplicit false

namespace HalLink.InterfaceName

/-- The components of a text, which hold no dot; there is one dot between each two of them. -/
structure Components (text : String) (parts : List (List Char)) : Prop where
  nonempty : parts ≠ []
  dotless : ∀ p ∈ parts, '.' ∉ p
  joined : text.toList = ['.'].intercalate parts

/-- Takes the next component of what is left and compares it; if nothing is left, no component is
equal to it. -/
def isNext (component : List Char) : StateM (List (List Char)) Bool := do
  let left ← get
  set left.tail
  return left.head? == some component

/-- Containment where the components of the ancestor come one by one and each has to be the next of
the package. -/
def inPackageInTurn (n : InterfaceName) (ancestor : String) : Bool :=
  (((Text.pieces '.' ancestor.toList).allM isNext).run (Text.pieces '.' n.package.toList)).1

theorem inPackage_iff (n : InterfaceName) (ancestor : String) :
    n.inPackage ancestor = true ↔
      n.package = ancestor ∨ (ancestor ++ ".").toList <+: n.package.toList := by
  rw [inPackage, List.isPrefixOf_iff_prefix, Text.pieces_prefix_iff, String.toList_inj,
    String.toList_append]
  rfl

theorem components_iff {text : String} {parts : List (List Char)} :
    Components text parts ↔ parts = Text.pieces '.' text.toList := by
  constructor
  · intro h
    rw [h.joined, Text.pieces_intercalate h.nonempty h.dotless]
  · rintro rfl
    exact ⟨Text.pieces_ne_nil '.' _, fun p => Text.not_mem_of_mem_pieces,
      (Text.intercalate_pieces '.' _).symm⟩

theorem inPackage_iff_begins (n : InterfaceName) (ancestor : String) :
    n.inPackage ancestor = true ↔
      Text.pieces '.' ancestor.toList <+: Text.pieces '.' n.package.toList :=
  List.isPrefixOf_iff_prefix

theorem inPackage_iff_components (n : InterfaceName) (ancestor : String) :
    n.inPackage ancestor = true ↔
      ∃ parts rest, Components ancestor parts ∧ Components n.package (parts ++ rest) := by
  simp only [inPackage_iff_begins, components_iff]
  constructor
  · rintro ⟨rest, h⟩
    exact ⟨_, rest, rfl, h⟩
  · rintro ⟨parts, rest, rfl, h⟩
    exact ⟨rest, h⟩

theorem run_allM_isNext (components left : List (List Char)) :
    ((components.allM isNext).run left).1 = components.isPrefixOf left := by
  induction components generalizing left with
  | nil => rfl
  | cons c cs ih =>
    cases left with
    | nil => rfl
    | cons d ds =>
      rw [List.isPrefixOf_cons_cons, ← ih]
      by_cases h : d = c
      · simp [List.allM, isNext, h]
      · simp [List.allM, isNext, beq_false_of_ne h, beq_false_of_ne (Ne.symm h)]
        rfl

theorem inPackage_eq_inPackageInTurn (n : InterfaceName) (ancestor : String) :
    n.inPackage ancestor = n.inPackageInTurn ancestor :=
  (run_allM_isNext _ _).symm

theorem inPackage_self (n : InterfaceName) : n.inPackage n.package = true :=
  (n.inPackage_iff n.package).2 (.inl rfl)

theorem inPackage_trans {n m : InterfaceName} {ancestor : String}
    (h : n.inPackage m.package = true) (hm : m.inPackage ancestor = true) :
    n.inPackage ancestor = true := by
  rw [inPackage_iff_begins] at *
  exact hm.trans h

theorem package_eq_of_inPackage {n m : InterfaceName} (h : n.inPackage m.package = true)
    (h' : m.inPackage n.package = true) : n.package = m.package := by
  rw [inPackage_iff_begins] at h h'
  have hpieces := h'.eq_of_length (Nat.le_antisymm h'.length_le h.length_le)
  have hjoined := congrArg ['.'].intercalate hpieces
  rw [Text.intercalate_pieces, Text.intercalate_pieces] at hjoined
  exact String.toList_inj.1 hjoined

theorem side_eq_framework_iff (n : InterfaceName) :
    n.side = .framework ↔
      n.package = "android.hidl" ∨ "android.hidl.".toList <+: n.package.toList := by
  have h : n.side = .framework ↔ n.inPackage frameworkPackage = true := by simp [side]
  rw [h]
  exact n.inPackage_iff frameworkPackage

/-- Main result: a package is contained in what its components begin with, whether this is computed
by the components in turn or read off the texts. The containment orders the packages, and the
framework's are the ones contained in its own. -/
theorem inPackage_iff_whole_components (n : InterfaceName) (ancestor : String) :
    n.inPackage ancestor = n.inPackageInTurn ancestor ∧
    (n.inPackage ancestor = true ↔
      n.package = ancestor ∨ (ancestor ++ ".").toList <+: n.package.toList) ∧
    (n.inPackage ancestor = true ↔
      ∃ parts rest, Components ancestor parts ∧ Components n.package (parts ++ rest)) ∧
    n.inPackage n.package = true ∧
    (∀ m : InterfaceName, n.inPackage m.package = true → m.inPackage ancestor = true →
      n.inPackage ancestor = true) ∧
    (∀ m : InterfaceName, n.inPackage m.package = true → m.inPackage n.package = true →
      n.package = m.package) ∧
    (n.side = .framework ↔
      n.package = "android.hidl" ∨ "android.hidl.".toList <+: n.package.toList) :=
  ⟨n.inPackage_eq_inPackageInTurn ancestor, n.inPackage_iff ancestor,
    n.inPackage_iff_components ancestor, n.inPackage_self, fun _ => inPackage_trans,
    fun _ => package_eq_of_inPackage, n.side_eq_framework_iff⟩

theorem inPackage_iff_whole_components_base :
    let n : InterfaceName := ⟨"android.hidl.base", some ⟨1, 0⟩, "IBase"⟩
    let m : InterfaceName := ⟨"android.hidl", some ⟨1, 0⟩, ""⟩
    let n' : InterfaceName := ⟨"android.hidl.base", none, "IOther"⟩
    n.inPackage m.package = true ∧ m.inPackage "android" = true ∧ n.inPackage "android" = true ∧
    n.inPackage n'.package = true ∧ n'.inPackage n.package = true ∧ n.package = n'.package ∧
    n.side = .framework := by
  intro n m n'
  have hnm : n.inPackage m.package = true := by decide
  have hm : m.inPackage "android" = true := by decide
  have hn : n.inPackage n'.package = true := by decide
  have hn' : n'.inPackage n.package = true := by decide
  obtain ⟨-, -, -, -, htrans, hantisymm, hside⟩ := inPackage_iff_whole_components n "android"
  exact ⟨hnm, hm, htrans m hnm hm, hn, hn', hantisymm n' hn hn', hside.2 (.inr (by decide))⟩

example : (mk "android.hidlx" none "").inPackage "android.hidl" = false := by decide

end HalLink.InterfaceName
