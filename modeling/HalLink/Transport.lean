import HalLink.Text.Quoted

set_option autoImplicit false

namespace HalLink

inductive Transport where
  /-- Nothing is declared and the caller applies its default. -/
  | empty
  | hwbinder
  | passthrough
  deriving DecidableEq, Repr

namespace Transport

instance : Inhabited Transport := ⟨.empty⟩

def text : Transport → String
  | empty => ""
  | hwbinder => "hwbinder"
  | passthrough => "passthrough"

/-- Reads a declaration. `empty` has no spelling: leaving a transport open is no declaration. -/
def parse? (s : String) : Option Transport :=
  if s = hwbinder.text then some hwbinder
  else if s = passthrough.text then some passthrough
  else none

def rejection (s : String) : String := "invalid transport " ++ Text.quoted s

theorem parse?_eq_some_iff {s : String} {t : Transport} :
    parse? s = some t ↔ t ≠ empty ∧ s = t.text := by
  unfold parse?
  constructor
  · split
    · rintro ⟨⟩; exact ⟨by simp, by assumption⟩
    · split
      · rintro ⟨⟩; exact ⟨by simp, by assumption⟩
      · simp
  · rintro ⟨ht, rfl⟩
    cases t <;> simp_all [text]

theorem text_injective {s t : Transport} (h : s.text = t.text) : s = t := by
  cases s <;> cases t <;> simp_all [text]

end Transport

end HalLink
