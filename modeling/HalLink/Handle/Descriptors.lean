set_option autoImplicit false

namespace HalLink

/-- The file that each number refers to, none where the number is free. Files are told apart by the
order in which they were opened. -/
structure DescriptorTable where
  files : List (Option Nat)
  opened : Nat
  deriving DecidableEq, Repr

namespace DescriptorTable

def withFirst (count capacity : Nat) : DescriptorTable :=
  ⟨(List.range capacity).map fun n => if n < count then some n else none, count⟩

/-- Any number may be asked for; those outside the table refer to nothing. -/
def file? (t : DescriptorTable) (fd : Int) : Option Nat :=
  if 0 ≤ fd then t.files[fd.toNat]?.join else none

def isOpen (t : DescriptorTable) (fd : Int) : Bool := (t.file? fd).isSome

def openNumbers (t : DescriptorTable) : List Nat :=
  (List.range t.files.length).filter fun n => t.isOpen n

def giveLowest (t : DescriptorTable) (file : Nat) : Option (DescriptorTable × Int) :=
  (t.files.findIdx? Option.isNone).map fun n => ({ t with files := t.files.set n (some file) }, n)

def openLowest (t : DescriptorTable) : Option (DescriptorTable × Int) :=
  { t with opened := t.opened + 1 }.giveLowest t.opened

def dup (t : DescriptorTable) (fd : Int) : Option (DescriptorTable × Int) :=
  (t.file? fd).bind t.giveLowest

def close (t : DescriptorTable) (fd : Int) : DescriptorTable :=
  if t.isOpen fd then { t with files := t.files.set fd.toNat none } else t

def closeAll (t : DescriptorTable) (fds : List Int) : DescriptorTable := fds.foldl close t

/-- Duplicates descriptors in turn, as far as that succeeds: the table then, and the new
descriptors so far. -/
def dupWhile (t : DescriptorTable) : List Int → DescriptorTable × List Int
  | [] => (t, [])
  | fd :: rest =>
    match t.dup fd with
    | none => (t, [])
    | some (t, new) =>
      let (t, others) := dupWhile t rest
      (t, new :: others)

@[simp] theorem length_close (t : DescriptorTable) (fd : Int) :
    (t.close fd).files.length = t.files.length := by
  unfold close
  split <;> simp

@[simp] theorem opened_close (t : DescriptorTable) (fd : Int) : (t.close fd).opened = t.opened := by
  unfold close
  split <;> rfl

theorem isOpen_of_neg (t : DescriptorTable) {fd : Int} (h : ¬ 0 ≤ fd) : t.isOpen fd = false := by
  simp [isOpen, file?, h]

theorem file?_close (t : DescriptorTable) (fd other : Int) :
    (t.close fd).file? other = if other = fd then none else t.file? other := by
  unfold close
  split
  · next ho =>
    have hfd : 0 ≤ fd := by
      refine Int.not_lt.1 fun hneg => ?_
      simp [t.isOpen_of_neg (Int.not_le.2 hneg)] at ho
    by_cases he : other = fd
    · subst he
      have hnone : (t.files.set other.toNat none)[other.toNat]?.join = none := by
        rw [List.getElem?_set_self']
        cases t.files[other.toNat]? <;> rfl
      simp [file?, hnone]
    · by_cases h0 : 0 ≤ other
      · have hne : fd.toNat ≠ other.toNat := by omega
        simp [file?, he, List.getElem?_set_ne hne]
      · simp [file?, h0]
  · next ho =>
    by_cases he : other = fd
    · subst he
      simpa [isOpen] using ho
    · rw [if_neg he]

end DescriptorTable

end HalLink
