import HalLink.Handle.Session
import HalLink.Proofs.Handle.Store

/-!
What callers do with handles, records and descriptors, and the contracts that they keep: a record
is owned by one handle at most, and nobody releases it while another handle refers to it.
-/

set_option autoImplicit false

namespace HalLink

/-- What a caller does at a time; some of it takes more than one step. -/
inductive HandleUse where
  | openDescriptor
  /-- A new record whose descriptor slots are filled before anything else is done. -/
  | create (fds ints : Int) (values : List Int)
  | duplicateRecord (record : Option Nat)
  | releaseRecord (record : Option Nat)
  | new
  | ofRecord (record : Option Nat)
  | borrow (handle : Nat) (record : Option Nat)
  | hold (handle : Nat) (record : Option Nat) (own : Bool)
  | take (handle : Nat)
  | duplicate (handle : Nat)
  | assignFrom (handle other : Nat)
  | drop (handle : Nat)
  deriving DecidableEq, Repr

namespace HandleUse

/-- The steps of a use. Records are numbered in turn, so the number of a new one is known. -/
def steps (s : HandleSession) : HandleUse → List HandleStep
  | .openDescriptor => [.openDescriptor]
  | .create fds ints values => [.create fds ints, .setFds s.store.records.size 0 values]
  | .duplicateRecord record => [.duplicateRecord record]
  | .releaseRecord record => [.closeRecord record, .deleteRecord record]
  | .new => [.new]
  | .ofRecord record => [.ofRecord record]
  | .borrow i record => [.borrow i record]
  | .hold i record own => [.hold i record own]
  | .take i => [.take i]
  | .duplicate i => [.duplicate i]
  | .assignFrom i other => [.assignFrom i other]
  | .drop i => [.drop i]

def handle? : HandleUse → Option Nat
  | .borrow i _ | .hold i _ _ | .assignFrom i _ | .drop i => some i
  | _ => none

def lent? : HandleUse → Option Nat
  | .ofRecord record | .borrow _ record | .hold _ record _ => record
  | _ => none

end HandleUse

namespace HandleSession

def start (table : DescriptorTable) : HandleSession := ⟨⟨table, .empty⟩, []⟩

def perform (s : HandleSession) (use : HandleUse) : HandleSession :=
  (use.steps s).foldl (fun s step => (s.step step).1) s

def isPointer (s : HandleSession) (record : Option Nat) : Bool :=
  record.all fun i => (s.store.record? i).isSome

def owned? (s : HandleSession) (i : Nat) : Option Nat := (s.handle? i).bind Handle.owns

def copies (s : HandleSession) (i other : Nat) : Bool :=
  match s.handle? i, s.handle? other with
  | some h, some model =>
    s.isPointer model.record && !h.lendsTo model && (model.duplicate s.store).2.isOk
  | _, _ => false

def released? (s : HandleSession) : HandleUse → Option Nat
  | .releaseRecord record => record.filter fun i => (s.store.record? i).isSome
  | .borrow i record | .hold i record _ => if s.isPointer record then s.owned? i else none
  | .assignFrom i other => if s.copies i other then s.owned? i else none
  | .drop i => s.owned? i
  | _ => none

/-- The descriptors in the hands of the caller after a use: opened, and not put into a record. -/
def inHand (s : HandleSession) (hand : List Int) : HandleUse → List Int
  | .openDescriptor =>
    match s.store.table.openLowest with
    | some (_, fd) => fd :: hand
    | none => hand
  | .create fds ints values =>
    if (HandleRecord.zeroed? fds ints).isSome then hand.filter (· ∉ values) else hand
  | _ => hand

def Unowned (s : HandleSession) (i : Nat) : Prop :=
  ∀ j < s.handles.length, ∀ h ∈ s.handle? j, h.owns ≠ some i

def OnlyThrough (s : HandleSession) (k : Option Nat) (i : Nat) : Prop :=
  ∀ j < s.handles.length, ∀ h ∈ s.handle? j, h.record = some i → k = some j

/-- What fills the descriptor slots of a new record: open descriptors, one for each slot, none of
them twice or in another record. -/
def Fits (s : HandleSession) (fds : Int) (values : List Int) : Prop :=
  values.length = fds.toNat ∧ values.Nodup ∧
    ∀ fd ∈ values, s.store.table.isOpen fd = true ∧ s.store.Free fd

/-- The contracts. What is released goes with the last reference to it, and what is handed over has
no owner yet. -/
def Permitted (s : HandleSession) (use : HandleUse) : Prop :=
  (∀ i ∈ s.released? use, s.OnlyThrough use.handle? i ∧ use.lent? ≠ some i) ∧
  match use with
  | .create fds ints values => (HandleRecord.zeroed? fds ints).isSome = true → s.Fits fds values
  | .hold _ record own => own = true → ∀ i ∈ record, s.Unowned i
  | _ => True

def PermittedRun (s : HandleSession) : List HandleUse → Prop
  | [] => True
  | use :: rest => s.Permitted use ∧ PermittedRun (s.perform use) rest

def performAll (s : HandleSession) (uses : List HandleUse) : HandleSession :=
  uses.foldl perform s

def inHandAfter (s : HandleSession) (hand : List Int) : List HandleUse → List Int
  | [] => hand
  | use :: rest => inHandAfter (s.perform use) (s.inHand hand use) rest

instance (s : RecordStore) (fd : Int) : Decidable (s.Free fd) :=
  inferInstanceAs (Decidable (∀ i < s.records.size, ∀ r ∈ s.record? i, fd ∉ r.fds))

instance (s : HandleSession) (i : Nat) : Decidable (s.Unowned i) :=
  inferInstanceAs (Decidable (∀ j < s.handles.length, ∀ h ∈ s.handle? j, h.owns ≠ some i))

instance (s : HandleSession) (k : Option Nat) (i : Nat) : Decidable (s.OnlyThrough k i) :=
  inferInstanceAs (Decidable (∀ j < s.handles.length, ∀ h ∈ s.handle? j,
    h.record = some i → k = some j))

instance (s : HandleSession) (fds : Int) (values : List Int) : Decidable (s.Fits fds values) :=
  inferInstanceAs (Decidable (values.length = fds.toNat ∧ values.Nodup ∧
    ∀ fd ∈ values, s.store.table.isOpen fd = true ∧ s.store.Free fd))

instance (s : HandleSession) (use : HandleUse) : Decidable (s.Permitted use) :=
  @instDecidableAnd _ _ inferInstance <|
    match use with
    | .create fds ints values => inferInstanceAs (Decidable
      ((HandleRecord.zeroed? fds ints).isSome = true → s.Fits fds values))
    | .hold _ record own => inferInstanceAs (Decidable (own = true → ∀ i ∈ record, s.Unowned i))
    | .openDescriptor | .duplicateRecord _ | .releaseRecord _ | .new | .ofRecord _ | .borrow _ _
    | .take _ | .duplicate _ | .assignFrom _ _ | .drop _ => .isTrue trivial

instance decidablePermittedRun (s : HandleSession) :
    (uses : List HandleUse) → Decidable (s.PermittedRun uses)
  | [] => .isTrue trivial
  | use :: rest => @instDecidableAnd _ _ inferInstance (decidablePermittedRun (s.perform use) rest)

end HandleSession

end HalLink
