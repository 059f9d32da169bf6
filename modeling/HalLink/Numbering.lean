set_option autoImplicit false

namespace HalLink

structure UnknownNumber where
  given : Nat
  number : Nat
  deriving DecidableEq, Repr

def UnknownNumber.message (fault : UnknownNumber) : String :=
  "index out of bounds: the len is " ++ toString fault.given ++ " but the index is " ++
    toString fault.number

end HalLink
