/-!
Storage for blocks that are allocated and released by number. Numbers are never used again, and a
block remembers how often it was released, so that a second release shows.
-/

set_option autoImplicit false

namespace HalLink

structure Block (α : Type) where
  content : α
  releases : Nat
  deriving DecidableEq, Repr

structure Arena (α : Type) where
  blocks : List (Block α)
  deriving DecidableEq, Repr

namespace Arena

variable {α : Type}

def empty : Arena α := ⟨[]⟩

/-- How many blocks were made, those released among them. -/
def size (a : Arena α) : Nat := a.blocks.length

def alloc (a : Arena α) (content : α) : Arena α × Nat :=
  (⟨a.blocks ++ [⟨content, 0⟩]⟩, a.blocks.length)

def live? (a : Arena α) (i : Nat) : Option α :=
  match a.blocks[i]? with
  | some ⟨content, 0⟩ => some content
  | _ => none

def release (a : Arena α) (i : Nat) : Arena α :=
  ⟨a.blocks.modify i fun b => { b with releases := b.releases + 1 }⟩

def update (a : Arena α) (i : Nat) (f : α → α) : Arena α :=
  ⟨a.blocks.modify i fun b => { b with content := f b.content }⟩

@[simp] theorem live?_empty (i : Nat) : (empty : Arena α).live? i = none := by
  simp [empty, live?]

theorem live?_alloc (a : Arena α) (content : α) (i : Nat) :
    (a.alloc content).1.live? i =
      if i = (a.alloc content).2 then some content else a.live? i := by
  simp only [alloc, live?]
  rcases Nat.lt_trichotomy i a.blocks.length with h | rfl | h
  · simp [List.getElem?_append_left h, Nat.ne_of_lt h]
  · simp
  · rw [List.getElem?_eq_none (by simp; omega), List.getElem?_eq_none (Nat.le_of_lt h)]
    simp [Nat.ne_of_gt h]

theorem live?_release_self (a : Arena α) (i : Nat) : (a.release i).live? i = none := by
  simp only [release, live?, List.getElem?_modify]
  cases a.blocks[i]? <;> simp

theorem live?_release_of_ne (a : Arena α) {i j : Nat} (h : i ≠ j) :
    (a.release i).live? j = a.live? j := by
  simp only [release, live?, List.getElem?_modify, h, if_false]
  simp

end Arena

end HalLink
