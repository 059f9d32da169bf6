import HalLink.Arena
import HalLink.Fatal

/-!
Byte strings that own a private copy of their bytes or borrow them from a buffer of the caller. An
owned copy ends with a NUL after the last byte; every empty string points at one shared NUL and owns
nothing.
-/

set_option autoImplicit false

namespace HalLink

structure Pointer where
  buffer : Nat
  offset : Nat
  deriving DecidableEq, Repr

inductive Place where
  | sentinel
  | heap (block : Nat)
  | external (p : Pointer)
  deriving DecidableEq, Repr

structure ByteString where
  place : Place
  size : UInt32
  owned : Bool
  deriving DecidableEq, Repr

namespace ByteString

/-- A string in memory: a pointer slot of eight bytes, four bytes of size and one of ownership, up
to the next multiple of eight. -/
def layoutSize : Nat := 16

def empty : ByteString := ⟨.sentinel, 0, false⟩

def isEmpty (s : ByteString) : Bool := s.size == 0

def take (s : ByteString) : ByteString × ByteString := (s, empty)

end ByteString

def untilNul (bytes : List UInt8) : List UInt8 := bytes.takeWhile (· != 0)

def checkedSize (length : Nat) : Except Fatal UInt32 :=
  if length < UInt32.size then .ok (UInt32.ofNat length) else .error .stringSize

/-- The copies that strings own, and the buffers of the callers, each with the NUL after its last
byte. -/
structure Memory where
  heap : Arena (List UInt8)
  buffers : List (List UInt8)
  deriving DecidableEq, Repr

namespace Memory

def initial : Memory := ⟨.empty, []⟩

def bytesFrom (m : Memory) (p : Pointer) : List UInt8 :=
  (m.buffers[p.buffer]?.getD []).drop p.offset

def content (m : Memory) : Place → List UInt8
  | .sentinel => [0]
  | .heap block => (m.heap.live? block).getD []
  | .external p => m.bytesFrom p

def bytes (m : Memory) (s : ByteString) : List UInt8 := (m.content s.place).take s.size.toNat

def copy (m : Memory) (bytes : List UInt8) : Except Fatal (Memory × ByteString) := do
  let size ← checkedSize bytes.length
  if size = 0 then return (m, .empty)
  let (heap, block) := m.heap.alloc (bytes ++ [0])
  return ({ m with heap }, ⟨.heap block, size, true⟩)

def copyCString (m : Memory) : Option Place → Except Fatal (Memory × ByteString)
  | none => .ok (m, .empty)
  | some place => m.copy (untilNul (m.content place))

/-- A copy of so many bytes at a pointer, NUL or not. The length is checked before anything is
read. -/
def copyParts (m : Memory) (data : Option Pointer) (length : Nat) :
    Except Fatal (Memory × ByteString) := do
  let _ ← checkedSize length
  match data with
  | none => return (m, .empty)
  | some p => m.copy ((m.bytesFrom p).take length)

def release (m : Memory) (s : ByteString) : Memory :=
  match s.owned, s.place with
  | true, .heap block => { m with heap := m.heap.release block }
  | _, _ => m

structure Updated where
  memory : Memory
  string : ByteString
  fatal : Option Fatal

def refilled (m : Memory) : Except Fatal (Memory × ByteString) → Updated
  | .ok (m, s) => ⟨m, s, none⟩
  | .error fault => ⟨m, .empty, some fault⟩

def assign (m : Memory) (s : ByteString) (bytes : List UInt8) : Updated :=
  let m := m.release s
  m.refilled (m.copy bytes)

def assignCString (m : Memory) (s : ByteString) (data : Option Place) : Updated :=
  let m := m.release s
  m.refilled (m.copyCString data)

/-- Borrows so many bytes at a pointer. A length that does not fit leaves the string as it was;
without bytes to borrow, be it that the pointer is null, the string is empty. -/
def borrow (m : Memory) (s : ByteString) (data : Option Pointer) (length : Nat) : Updated :=
  match checkedSize length with
  | .error fault => ⟨m, s, some fault⟩
  | .ok size =>
    let m := m.release s
    match data with
    | some p => if size = 0 then ⟨m, .empty, none⟩ else ⟨m, ⟨.external p, size, false⟩, none⟩
    | none => ⟨m, .empty, none⟩

def duplicate (m : Memory) (s : ByteString) : Except Fatal (Memory × ByteString) :=
  m.copy (m.bytes s)

def assignFrom (m : Memory) (s other : ByteString) : Updated := m.assign s (m.bytes other)

def poke (m : Memory) (p : Pointer) (byte : UInt8) : Memory :=
  { m with buffers := m.buffers.modify p.buffer fun b => b.set p.offset byte }

end Memory

end HalLink
