import HalLink.Arena
import HalLink.Handle.Descriptors
import HalLink.Handle.Record

/-!
Records and the descriptors they hold. A record is released in two steps: `close` closes its
descriptors and keeps the record, `delete` gives the record up and closes nothing. Where a record is
optional, none stands for a null pointer.
-/

set_option autoImplicit false

namespace HalLink

structure RecordStore where
  table : DescriptorTable
  records : Arena HandleRecord
  deriving DecidableEq, Repr

namespace RecordStore

def invalidArgument : Int := -22

def record? (s : RecordStore) (i : Nat) : Option HandleRecord := s.records.live? i

def add (s : RecordStore) (r : HandleRecord) : RecordStore × Nat :=
  let (records, i) := s.records.alloc r
  ({ s with records }, i)

def create (s : RecordStore) (fds ints : Int) : RecordStore × Option Nat :=
  match HandleRecord.zeroed? fds ints with
  | none => (s, none)
  | some r => (s.add r).map id some

/-- Closes what every descriptor slot holds, whether or not anything was stored there. -/
def close (s : RecordStore) (record : Option Nat) : RecordStore × Int :=
  match record.bind s.record? with
  | none => (s, invalidArgument)
  | some r => ({ s with table := s.table.closeAll r.fds }, 0)

def delete (s : RecordStore) : Option Nat → RecordStore × Int
  | none => (s, 0)
  | some i =>
    match s.record? i with
    | some r =>
      if r.version = HandleRecord.stamp then ({ s with records := s.records.release i }, 0)
      else (s, invalidArgument)
    | none => ({ s with records := s.records.release i }, 0)

/-- A copy of a record with descriptors of its own, duplicated in order. If one cannot be
duplicated, those made before it are closed again and there is no copy. -/
def duplicate (s : RecordStore) (record : Option Nat) : RecordStore × Option Nat :=
  match record.bind s.record? with
  | none => (s, none)
  | some r =>
    let (table, made) := s.table.dupWhile r.fds
    if made.length = r.fds.length then
      let copy : HandleRecord := ⟨HandleRecord.stamp, r.fdCount, r.intCount, made ++ r.ints⟩
      ({ s with table }.add copy).map id some
    else ({ s with table := table.closeAll made }, none)

end RecordStore

end HalLink
