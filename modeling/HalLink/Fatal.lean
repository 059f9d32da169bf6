import HalLink.Log

/-!
Conditions that no caller is expected to survive. What the operation changed before it met one stays
changed.
-/

set_option autoImplicit false

namespace HalLink

inductive Fatal where
  | stringSize
  | handleCopy
  deriving DecidableEq, Repr

def Fatal.message : Fatal → String
  | stringSize => "string size can't exceed 2^32 bytes."
  | handleCopy => "Failed to clone native_handle in hidl_handle."

def Fatal.record (f : Fatal) : LogRecord := ⟨.error, logTag, f.message⟩

end HalLink
