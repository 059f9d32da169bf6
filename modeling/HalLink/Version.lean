import HalLink.Text.Quoted
import HalLink.Text.Split

set_option autoImplicit false

namespace HalLink

structure Version where
  major : UInt32
  minor : UInt32
  deriving DecidableEq, Repr

namespace Version

def render (v : Version) : String :=
  toString v.major.toNat ++ "." ++ toString v.minor.toNat

def digitsValue (digits : List Char) : Nat :=
  digits.foldl (fun n c => 10 * n + (c.toNat - '0'.toNat)) 0

def part? (digits : List Char) : Option UInt32 :=
  if digits ≠ [] ∧ digits.all Char.isDigit ∧ digitsValue digits < UInt32.size then
    some (UInt32.ofNat (digitsValue digits))
  else none

def parse? (s : String) : Option Version := do
  let (major, minor) ← Text.splitFirst? '.' s.toList
  return ⟨← part? major, ← part? minor⟩

def rejection (s : String) : String := "invalid version " ++ Text.quoted s

protected def compare (a b : Version) : Ordering :=
  (compare a.major b.major).then (compare a.minor b.minor)

instance : Ord Version := ⟨Version.compare⟩

theorem toNat_of_part? {digits : List Char} {n : UInt32} (h : part? digits = some n) :
    n.toNat = digitsValue digits := by
  simp only [part?] at h
  split at h
  · next hd =>
    obtain rfl := Option.some.inj h
    simpa using Nat.mod_eq_of_lt hd.2.2
  · cases h

end Version

end HalLink
