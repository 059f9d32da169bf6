set_option autoImplicit false

namespace HalLink

inductive Level where
  | error
  | warn
  | debug
  deriving DecidableEq, Repr

def logTag : String := "HidlSupport"

structure LogRecord where
  level : Level
  target : String
  message : String
  deriving DecidableEq, Repr

end HalLink
