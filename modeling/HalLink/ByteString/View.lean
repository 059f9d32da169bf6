import HalLink.ByteString.Basic
import HalLink.Text.Quoted
import HalLink.Text.Utf8

set_option autoImplicit false

namespace HalLink

def compareBytes : List UInt8 → List UInt8 → Ordering
  | [], [] => .eq
  | [], _ :: _ => .lt
  | _ :: _, [] => .gt
  | a :: as, b :: bs => (compare a b).then (compareBytes as bs)

/-- What makes a hash: it takes in lengths and bytes, one after another. -/
structure Hasher (σ : Type) where
  writeLength : σ → Nat → σ
  write : σ → List UInt8 → σ

namespace Memory

def cString? (m : Memory) (s : ByteString) : Option (List UInt8) :=
  if s.isEmpty then some []
  else if (m.bytes s).contains 0 then none
  else if (m.content s.place)[s.size.toNat]? = some 0 then some (m.bytes s)
  else none

/-- Whether a NUL follows the bytes. What follows borrowed bytes is the lender's matter. -/
def isTerminated? (m : Memory) (s : ByteString) : Option Bool :=
  if s.isEmpty || s.owned then some ((m.content s.place)[s.size.toNat]? == some 0) else none

def text (m : Memory) (s : ByteString) : Except Utf8.Fault String := Utf8.decode (m.bytes s)

def lossyText (m : Memory) (s : ByteString) : String := Utf8.decodeLossy (m.bytes s)

def display (m : Memory) (s : ByteString) : String := m.lossyText s

def compareStrings (m : Memory) (a b : ByteString) : Ordering :=
  compareBytes (m.bytes a) (m.bytes b)

def equalStrings (m : Memory) (a b : ByteString) : Bool := m.bytes a == m.bytes b

def equalsBytes (m : Memory) (s : ByteString) (bytes : List UInt8) : Bool := m.bytes s == bytes

def equalsText (m : Memory) (s : ByteString) (text : String) : Bool :=
  m.equalsBytes s (Utf8.encode text)

/-- A string is hashed as a slice: the length goes in before the bytes. -/
def hash {σ : Type} (m : Memory) (hasher : Hasher σ) (s : ByteString) (state : σ) : σ :=
  hasher.write (hasher.writeLength state (m.bytes s).length) (m.bytes s)

end Memory

structure StringView where
  size : Nat
  bytes : List UInt8
  owned : Bool
  place : Place
  terminated : Option Bool
  cString : Option (List UInt8)
  text : Except Utf8.Fault String
  lossy : String

def Memory.view (m : Memory) (s : ByteString) : StringView where
  size := s.size.toNat
  bytes := m.bytes s
  owned := s.owned
  place := s.place
  terminated := m.isTerminated? s
  cString := m.cString? s
  text := m.text s
  lossy := m.lossyText s

def StringView.quoted (v : StringView) : String := Text.quoted v.lossy

end HalLink
