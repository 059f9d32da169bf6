import HalLink.CommandLine

set_option autoImplicit false

open HalLink

def faultOfError : IO.Error → ReadFault
  | .noFileOrDirectory .. => .notFound
  | e => .system 0 (toString e)

def readBytes (path : String) : IO (Except ReadFault (List UInt8)) := do
  try
    return .ok (← IO.FS.readBinFile path).toList
  catch e =>
    return .error (faultOfError e)

def main (arguments : List String) : IO Unit := do
  let environment : Environment :=
    ⟨← IO.getEnv pathVariables.framework, ← IO.getEnv pathVariables.device⟩
  let files ← (CommandLine.pathsToRead environment arguments).mapM fun path => do
    return (path, ← readBytes path)
  let read : ReadBytes := fun path => (files.lookup path).getD (.error .notFound)
  let (output, _) := CommandLine.execute read environment arguments
  IO.print (CommandLine.printed output)
