/-!
Native handle records: a header of three words, then descriptors, then integers. The header counts
both and carries its own size in bytes as a version stamp. Words have 32 bits in memory; nothing is
computed with them, so they are integers here.
-/

set_option autoImplicit false

namespace HalLink

structure HandleRecord where
  version : Int
  fdCount : Nat
  intCount : Nat
  words : List Int
  deriving DecidableEq, Repr

namespace HandleRecord

def headerSize : Nat := 12

def stamp : Int := headerSize

def maxFds : Int := 1024

def maxInts : Int := 1024

def zeroed? (fds ints : Int) : Option HandleRecord :=
  if 0 ≤ fds ∧ fds ≤ maxFds ∧ 0 ≤ ints ∧ ints ≤ maxInts then
    some ⟨stamp, fds.toNat, ints.toNat, List.replicate (fds.toNat + ints.toNat) 0⟩
  else none

def fds (r : HandleRecord) : List Int := r.words.take r.fdCount

def ints (r : HandleRecord) : List Int := (r.words.drop r.fdCount).take r.intCount

def setWord (r : HandleRecord) (i : Nat) (word : Int) : HandleRecord :=
  { r with words := r.words.set i word }

def setWords (r : HandleRecord) (i : Nat) : List Int → HandleRecord
  | [] => r
  | word :: rest => (r.setWord i word).setWords (i + 1) rest

def setFds? (r : HandleRecord) (i : Nat) (values : List Int) : Option HandleRecord :=
  if i + values.length ≤ r.fdCount then some (r.setWords i values) else none

def setInts? (r : HandleRecord) (i : Nat) (values : List Int) : Option HandleRecord :=
  if i + values.length ≤ r.intCount then some (r.setWords (r.fdCount + i) values) else none

def describeWords (words : List Int) : String :=
  "[" ++ ", ".intercalate (words.map toString) ++ "]"

def describe (r : HandleRecord) : String :=
  "NativeHandle \x7b version: " ++ toString r.version ++ ", fds: " ++ describeWords r.fds ++
    ", ints: " ++ describeWords r.ints ++ " \x7d"

end HandleRecord

end HalLink
