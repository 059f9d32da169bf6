import HalLink.Files
import HalLink.Manifest.Schema
import HalLink.Toml.Document

set_option autoImplicit false

namespace HalLink

inductive ManifestFault where
  | unreadable (path : String) (cause : ReadFault)
  | malformedFile (path : String)
  | malformedText
  | entry (fault : EntryFault)
  deriving DecidableEq, Repr

def ManifestFault.message : ManifestFault → String
  | unreadable path cause => "failed to read manifest " ++ path ++ ": " ++ cause.message
  | malformedFile path => "failed to parse manifest " ++ path
  | malformedText => "failed to parse manifest"
  | entry fault => fault.message

namespace Manifest

def parse (malformed : ManifestFault) (text : String) : Except ManifestFault Manifest :=
  match (Toml.parse? text).bind RawEntry.ofRoot? with
  | none => .error malformed
  | some raw => (ofRaw raw).mapError .entry

def ofText (text : String) : Except ManifestFault Manifest := parse .malformedText text

def load (read : ReadBytes) (path : String) : Except ManifestFault Manifest :=
  match read.text path with
  | .error cause => .error (.unreadable path cause)
  | .ok text => parse (.malformedFile path) text

end Manifest

end HalLink
