import HalLink.Numbering

set_option autoImplicit false

namespace HalLink

variable {α : Type} {slots : List (Option α)} {j k : Nat} {a : α}

theorem slot_set (hk : k < slots.length) (a? : Option α) (j : Nat) :
    (slots.set k a?)[j]?.join = if j = k then a? else slots[j]?.join := by
  by_cases he : j = k
  · subst he
    simp [hk]
  · simp [he, List.getElem?_set_ne (Ne.symm he)]

theorem slot_append (slots : List (Option α)) (a : α) (j : Nat) :
    (slots ++ [some a])[j]?.join = if j = slots.length then some a else slots[j]?.join := by
  rcases Nat.lt_trichotomy j slots.length with hlt | rfl | hlt
  · simp [List.getElem?_append_left hlt, Nat.ne_of_lt hlt]
  · simp
  · rw [List.getElem?_eq_none (by simp; omega), List.getElem?_eq_none (Nat.le_of_lt hlt)]
    simp [Nat.ne_of_gt hlt]

theorem slot_length (slots : List (Option α)) : slots[slots.length]?.join = none := by simp

theorem lt_of_slot (h : slots[j]?.join = some a) : j < slots.length := by
  refine Decidable.byContradiction fun hlt => ?_
  simp [List.getElem?_eq_none (Nat.not_lt.1 hlt)] at h

theorem slot_set_self (h : slots[k]?.join = some a) : slots.set k (some a) = slots := by
  have hk : slots[k]? = some (some a) := Option.join_eq_some_iff.1 h
  refine List.ext_getElem? fun j => ?_
  by_cases he : j = k
  · subst he
    rw [List.getElem?_set_self (lt_of_slot h), hk]
  · rw [List.getElem?_set_ne (Ne.symm he)]

end HalLink
