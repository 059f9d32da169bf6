import HalLink.Fatal
import HalLink.Handle.Store

set_option autoImplicit false

namespace HalLink

structure Handle where
  record : Option Nat
  owned : Bool
  deriving DecidableEq, Repr

namespace Handle

/-- A handle in memory: a pointer slot of eight bytes and one byte of ownership, up to the next
multiple of eight. -/
def layoutSize : Nat := 16

def null : Handle := ⟨none, false⟩

def ofRecord (record : Option Nat) : Handle := ⟨record, false⟩

def owns (h : Handle) : Option Nat := if h.owned then h.record else none

/-- Whether the other handle refers to the record that `h` owns. It does so only as long as `h`
keeps that record. -/
def lendsTo (h other : Handle) : Bool := h.owns.any fun i => other.record == some i

def take (h : Handle) : Handle × Handle := (h, null)

def release (s : RecordStore) (h : Handle) : RecordStore :=
  match h.owned, h.record with
  | true, some i => (((s.close (some i)).1).delete (some i)).1
  | _, _ => s

def hold (s : RecordStore) (h : Handle) (record : Option Nat) (own : Bool) :
    RecordStore × Handle :=
  (h.release s, ⟨record, own⟩)

def borrow (s : RecordStore) (h : Handle) (record : Option Nat) : RecordStore × Handle :=
  h.hold s record false

def duplicate (s : RecordStore) (h : Handle) : RecordStore × Except Fatal Handle :=
  match h.record with
  | none => (s, .ok null)
  | some i =>
    match s.duplicate (some i) with
    | (s, some copy) => (s, .ok ⟨some copy, true⟩)
    | (s, none) => (s, .error .handleCopy)

/-- Makes `h` a copy of another handle. The copy is made before `h` lets go of its record, so a
failure changes nothing. -/
def assignFrom (s : RecordStore) (h other : Handle) : RecordStore × Except Fatal Handle :=
  match other.duplicate s with
  | (s, .ok copy) => (h.release s, .ok copy)
  | (s, .error fault) => (s, .error fault)

def describe (s : RecordStore) (h : Handle) : String :=
  let shown := match h.record.bind s.record? with
    | some r => "Some(" ++ r.describe ++ ")"
    | none => "None"
  "HidlHandle \x7b handle: " ++ shown ++ ", owns_handle: " ++ toString h.owned ++ " \x7d"

end Handle

end HalLink
