import HalLink.Handle.Basic
import HalLink.Numbering

/-!
Records, handles and descriptors in use together. Records and handles are numbered in the order of
their creation. A step that names a number not given yet fails. One that names a handle or record
that is gone is refused, and so is a copy over the owner of the record that is copied, which would
take that record from the handle that still refers to it. All of these change nothing. What a step
takes is looked up before what it changes.
-/

set_option autoImplicit false

namespace HalLink

/-- The handles by number; a dropped one keeps its number. -/
structure HandleSession where
  store : RecordStore
  handles : List (Option Handle)
  deriving DecidableEq, Repr

inductive HandleStep where
  | openDescriptor
  | closeDescriptor (fd : Int)
  | create (fds ints : Int)
  | setFds (record first : Nat) (values : List Int)
  | setInts (record first : Nat) (values : List Int)
  | setVersion (record : Nat) (version : Int)
  | duplicateRecord (record : Option Nat)
  | closeRecord (record : Option Nat)
  | deleteRecord (record : Option Nat)
  | showRecord (record : Nat)
  | new
  | ofRecord (record : Option Nat)
  | borrow (handle : Nat) (record : Option Nat)
  | hold (handle : Nat) (record : Option Nat) (own : Bool)
  | take (handle : Nat)
  | duplicate (handle : Nat)
  | assignFrom (handle other : Nat)
  | drop (handle : Nat)
  | showHandle (handle : Nat)
  deriving DecidableEq, Repr

inductive HandleResult where
  | done
  | descriptor (fd : Option Int)
  | closed (wasOpen : Bool)
  | record (i : Option Nat)
  | outOfRange (slots : Nat)
  | status (code : Int)
  | shownRecord (r : HandleRecord)
  | handle (i : Nat)
  | duplicated (handle : Nat) (record : Option Nat)
  | fatal (cause : Fatal)
  | shownHandle (h : Handle) (record : Option HandleRecord) (description : String)
  | unknown (fault : UnknownNumber)
  | refused
  deriving DecidableEq, Repr

namespace HandleSession

/-- A table of 64 descriptors, of which the three standard ones are open. -/
def initial : HandleSession := ⟨⟨.withFirst 3 64, .empty⟩, []⟩

def handle? (s : HandleSession) (i : Nat) : Option Handle := s.handles[i]?.join

def absent (given i : Nat) : HandleResult :=
  if i < given then .refused else .unknown ⟨given, i⟩

def withRecord (s : HandleSession) (i : Nat)
    (operation : HandleRecord → HandleSession × HandleResult) : HandleSession × HandleResult :=
  match s.store.record? i with
  | some r => operation r
  | none => (s, absent s.store.records.size i)

def withHandle (s : HandleSession) (i : Nat)
    (operation : Handle → HandleSession × HandleResult) : HandleSession × HandleResult :=
  match s.handle? i with
  | some h => operation h
  | none => (s, absent s.handles.length i)

def withPointer (s : HandleSession) (record : Option Nat)
    (operation : HandleSession × HandleResult) : HandleSession × HandleResult :=
  match record with
  | some i => s.withRecord i fun _ => operation
  | none => operation

/-- Runs an operation that lets go of what a handle owns. What it borrows may be gone already. -/
def withReleasable (s : HandleSession) (h : Handle)
    (operation : HandleSession × HandleResult) : HandleSession × HandleResult :=
  if h.owned then s.withPointer h.record operation else operation

def update (s : HandleSession) (i : Nat) (f : HandleRecord → HandleRecord) : HandleSession :=
  { s with store := { s.store with records := s.store.records.update i f } }

def write (s : HandleSession) (i slots : Nat) (written : Option HandleRecord) :
    HandleSession × HandleResult :=
  match written with
  | some r => (s.update i fun _ => r, .done)
  | none => (s, .outOfRange slots)

def addHandle (s : HandleSession) (store : RecordStore) (h : Handle) : HandleSession :=
  ⟨store, s.handles ++ [some h]⟩

def putHandle (s : HandleSession) (i : Nat) (put : RecordStore × Handle) : HandleSession :=
  ⟨put.1, s.handles.set i (some put.2)⟩

def step (s : HandleSession) : HandleStep → HandleSession × HandleResult
  | .openDescriptor =>
    match s.store.table.openLowest with
    | some (table, fd) => ({ s with store := { s.store with table } }, .descriptor (some fd))
    | none => (s, .descriptor none)
  | .closeDescriptor fd =>
    ({ s with store := { s.store with table := s.store.table.close fd } },
      .closed (s.store.table.isOpen fd))
  | .create fds ints =>
    let (store, made) := s.store.create fds ints
    ({ s with store }, .record made)
  | .setFds i first values => s.withRecord i fun r =>
    s.write i r.fdCount (r.setFds? first values)
  | .setInts i first values => s.withRecord i fun r =>
    s.write i r.intCount (r.setInts? first values)
  | .setVersion i version => s.withRecord i fun r =>
    (s.update i fun _ => { r with version }, .done)
  | .duplicateRecord record => s.withPointer record <|
    let (store, made) := s.store.duplicate record
    ({ s with store }, .record made)
  | .closeRecord record => s.withPointer record <|
    let (store, code) := s.store.close record
    ({ s with store }, .status code)
  | .deleteRecord record => s.withPointer record <|
    let (store, code) := s.store.delete record
    ({ s with store }, .status code)
  | .showRecord i => s.withRecord i fun r => (s, .shownRecord r)
  | .new => (s.addHandle s.store .null, .handle s.handles.length)
  | .ofRecord record => s.withPointer record
    (s.addHandle s.store (.ofRecord record), .handle s.handles.length)
  | .borrow i record => s.withPointer record <| s.withHandle i fun h => s.withReleasable h
    (s.putHandle i (h.borrow s.store record), .done)
  | .hold i record own => s.withPointer record <| s.withHandle i fun h => s.withReleasable h
    (s.putHandle i (h.hold s.store record own), .done)
  | .take i => s.withHandle i fun h =>
    let (moved, left) := h.take
    ((s.putHandle i (s.store, left)).addHandle s.store moved, .handle s.handles.length)
  | .duplicate i => s.withHandle i fun h => s.withPointer h.record <|
    match h.duplicate s.store with
    | (store, .ok copy) => (s.addHandle store copy, .duplicated s.handles.length copy.record)
    | (store, .error fault) => ({ s with store }, .fatal fault)
  | .assignFrom i other => s.withHandle other fun model => s.withPointer model.record <|
    s.withHandle i fun h => s.withReleasable h <|
    if h.lendsTo model then (s, .refused) else
    match h.assignFrom s.store model with
    | (store, .ok copy) => (s.putHandle i (store, copy), .record copy.record)
    | (store, .error fault) => ({ s with store }, .fatal fault)
  | .drop i => s.withHandle i fun h => s.withReleasable h
    (⟨h.release s.store, s.handles.set i none⟩, .done)
  | .showHandle i => s.withHandle i fun h => s.withPointer h.record
    (s, .shownHandle h (h.record.bind s.store.record?) (h.describe s.store))

def trace (s : HandleSession) : List HandleStep → List (HandleSession × HandleResult)
  | [] => []
  | step :: rest => s.step step :: trace (s.step step).1 rest

end HandleSession

def HandleResult.records : HandleResult → List LogRecord
  | .fatal cause => [cause.record]
  | _ => []

end HalLink
