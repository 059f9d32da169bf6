set_option autoImplicit false

namespace HalLink

inductive Side where
  | framework
  | device
  deriving DecidableEq, Repr

def Side.label : Side → String
  | framework => "framework"
  | device => "device"

structure Sides (α : Type) where
  framework : α
  device : α
  deriving DecidableEq, Repr

namespace Sides

variable {α β : Type}

def get (s : Sides α) : Side → α
  | .framework => s.framework
  | .device => s.device

def set (s : Sides α) (a : α) : Side → Sides α
  | .framework => { s with framework := a }
  | .device => { s with device := a }

def map (f : α → β) (s : Sides α) : Sides β := ⟨f s.framework, f s.device⟩

theorem ext_get {s t : Sides α} (h : ∀ side, s.get side = t.get side) : s = t := by
  obtain ⟨framework, device⟩ := s
  obtain rfl : framework = t.framework := h .framework
  obtain rfl : device = t.device := h .device
  rfl

@[simp] theorem get_set_self (s : Sides α) (a : α) (side : Side) : (s.set a side).get side = a := by
  cases side <;> rfl

theorem get_set_of_ne (s : Sides α) (a : α) {x y : Side} (h : x ≠ y) :
    (s.set a x).get y = s.get y := by
  cases x <;> cases y <;> first | rfl | exact absurd rfl h

@[simp] theorem set_get_self (s : Sides α) (side : Side) : s.set (s.get side) side = s := by
  cases side <;> rfl

end Sides

end HalLink
