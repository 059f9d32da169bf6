import HalLink.ByteString.View
import HalLink.Numbering

/-!
Any number of byte strings and buffers in one memory. Strings and buffers are numbered in the order
of their creation. A step that names a number not given yet fails, and one that names a string that
is gone, or bytes outside its buffer, is refused; both change nothing. What a step takes is looked
up before what it changes.
-/

set_option autoImplicit false

namespace HalLink

/-- The strings by number; a dropped one keeps its number. -/
structure StringSession where
  memory : Memory
  strings : List (Option ByteString)
  deriving DecidableEq, Repr

inductive StringStep where
  | makeBuffer (bytes : List UInt8)
  | poke (p : Pointer) (byte : UInt8)
  | create
  | copy (bytes : List UInt8)
  | copyUntilNul (bytes : List UInt8)
  | copyCString (data : Option Pointer)
  | copyParts (data : Option Pointer) (length : Nat)
  | borrow (slot : Nat) (data : Option Pointer) (length : Nat)
  | assign (slot : Nat) (bytes : List UInt8)
  | assignCString (slot : Nat) (data : Option Pointer)
  | clear (slot : Nat)
  | take (slot : Nat)
  | duplicate (slot : Nat)
  | assignFrom (slot other : Nat)
  | drop (slot : Nat)
  | compare (a b : Nat)
  | equalsText (slot : Nat) (text : String)
  | equalsBytes (slot : Nat) (bytes : List UInt8)
  | view (slot : Nat)
  deriving DecidableEq, Repr

inductive StringResult where
  | done
  | buffer (index : Nat)
  | created (slot : Nat)
  /-- A string made from another, and whether it points where that one pointed. -/
  | derived (slot : Nat) (samePlace : Bool)
  | fatal (cause : Fatal)
  | compared (equal : Bool) (order : Ordering)
  | equal (answer : Bool)
  | view (v : StringView)
  | unknown (fault : UnknownNumber)
  | refused

namespace StringSession

def initial : StringSession := ⟨.initial, []⟩

def string? (s : StringSession) (slot : Nat) : Option ByteString := s.strings[slot]?.join

def views (s : StringSession) : List (Option StringView) :=
  s.strings.map (·.map s.memory.view)

def construct (s : StringSession) :
    Except Fatal (Memory × ByteString) → StringSession × StringResult
  | .ok (memory, string) => (⟨memory, s.strings ++ [some string]⟩, .created s.strings.length)
  | .error fault => (s, .fatal fault)

def put (s : StringSession) (slot : Nat) (u : Memory.Updated) : StringSession × StringResult :=
  (⟨u.memory, s.strings.set slot (some u.string)⟩,
    match u.fatal with
    | some fault => .fatal fault
    | none => .done)

/-- Whether so many bytes can be read at a pointer. A length beyond the limit is fatal before
anything is read, so it needs no bytes. -/
def canRead (s : StringSession) (data : Option Pointer) (length : Nat) : Bool :=
  length = 0 || UInt32.size ≤ length || match data with
    | some p => length ≤ (s.memory.bytesFrom p).length
    | none => false

def canReadCString (s : StringSession) : Option Pointer → Bool
  | some p => (s.memory.bytesFrom p).contains 0
  | none => true

def withString (s : StringSession) (slot : Nat)
    (operation : ByteString → StringSession × StringResult) : StringSession × StringResult :=
  match s.string? slot with
  | some string => operation string
  | none =>
    (s, if slot < s.strings.length then .refused else .unknown ⟨s.strings.length, slot⟩)

def withBuffer (s : StringSession) (data : Option Pointer)
    (operation : StringSession × StringResult) : StringSession × StringResult :=
  match data with
  | some p =>
    if p.buffer < s.memory.buffers.length then operation
    else (s, .unknown ⟨s.memory.buffers.length, p.buffer⟩)
  | none => operation

def step (s : StringSession) : StringStep → StringSession × StringResult
  | .makeBuffer bytes =>
    ({ s with memory := { s.memory with buffers := s.memory.buffers ++ [bytes ++ [0]] } },
      .buffer s.memory.buffers.length)
  | .poke p byte => s.withBuffer (some p) <|
    if s.canRead (some p) 1 then ({ s with memory := s.memory.poke p byte }, .done)
    else (s, .unknown ⟨(s.memory.bytesFrom ⟨p.buffer, 0⟩).length, p.offset⟩)
  | .create => s.construct (.ok (s.memory, .empty))
  | .copy bytes => s.construct (s.memory.copy bytes)
  | .copyUntilNul bytes => s.construct (s.memory.copy (untilNul bytes))
  | .copyCString data => s.withBuffer data <|
    if s.canReadCString data then s.construct (s.memory.copyCString (data.map .external))
    else (s, .refused)
  | .copyParts data length => s.withBuffer data <|
    if s.canRead data length then s.construct (s.memory.copyParts data length) else (s, .refused)
  | .borrow slot data length => s.withBuffer data <| s.withString slot fun string =>
    if s.canRead data length then s.put slot (s.memory.borrow string data length)
    else (s, .refused)
  | .assign slot bytes => s.withString slot fun string =>
    s.put slot (s.memory.assign string bytes)
  | .assignCString slot data => s.withBuffer data <| s.withString slot fun string =>
    if s.canReadCString data then s.put slot (s.memory.assignCString string (data.map .external))
    else (s, .refused)
  | .clear slot => s.withString slot fun string =>
    s.put slot ⟨s.memory.release string, .empty, none⟩
  | .take slot => s.withString slot fun string =>
    let (moved, left) := string.take
    ({ s with strings := s.strings.set slot (some left) ++ [some moved] },
      .derived s.strings.length (moved.place == string.place))
  | .duplicate slot => s.withString slot fun string =>
    match s.memory.duplicate string with
    | .ok (memory, copy) =>
      (⟨memory, s.strings ++ [some copy]⟩,
        .derived s.strings.length (copy.place == string.place))
    | .error fault => (s, .fatal fault)
  | .assignFrom slot other => s.withString other fun model => s.withString slot fun string =>
    s.put slot (s.memory.assignFrom string model)
  | .drop slot => s.withString slot fun string =>
    (⟨s.memory.release string, s.strings.set slot none⟩, .done)
  | .compare a b => s.withString a fun x => s.withString b fun y =>
    (s, .compared (s.memory.equalStrings x y) (s.memory.compareStrings x y))
  | .equalsText slot text => s.withString slot fun string =>
    (s, .equal (s.memory.equalsText string text))
  | .equalsBytes slot bytes => s.withString slot fun string =>
    (s, .equal (s.memory.equalsBytes string bytes))
  | .view slot => s.withString slot fun string => (s, .view (s.memory.view string))

def trace (s : StringSession) : List StringStep → List (StringSession × StringResult)
  | [] => []
  | step :: rest => s.step step :: trace (s.step step).1 rest

end StringSession

def StringResult.records : StringResult → List LogRecord
  | .fatal cause => [cause.record]
  | _ => []

end HalLink
