import HalLink.Catalog.Basic

set_option autoImplicit false

namespace HalLink.CommandLine

def usage : String :=
  "hidl-transport reports the transport declared for HIDL interfaces. " ++
    "Usage: hidl-transport [--framework PATH] [--device PATH] NAME... | --help"

def helpOption : String := "--help"

def optionOf : Side → String
  | .framework => "--framework"
  | .device => "--device"

def optionSide? (argument : String) : Option Side :=
  if argument = optionOf .framework then some .framework
  else if argument = optionOf .device then some .device
  else none

structure Request where
  paths : Sides (Option String)
  names : List String
  deriving DecidableEq, Repr

/-- Reads arguments from left to right. An option takes the next argument as its path whatever that
is; without a next one the option itself is the error. -/
def readArguments : List String → Except String Request
  | [] => .ok ⟨⟨none, none⟩, []⟩
  | argument :: rest =>
    match optionSide? argument with
    | none => (readArguments rest).map fun r => { r with names := argument :: r.names }
    | some side =>
      match rest with
      | [] => .error argument
      | path :: rest =>
        (readArguments rest).map fun r =>
          { r with paths := r.paths.set (r.paths.get side <|> some path) side }

def Request.manifestPaths (r : Request) (environment : Environment) : Sides String :=
  ⟨r.paths.framework.getD environment.paths.framework,
    r.paths.device.getD environment.paths.device⟩

def line (name : String) : Transport → String
  | .empty => name ++ ": default"
  | t => name ++ ": " ++ t.text

def answers (read : ReadBytes) (c : Catalog) : List String → List String × List Event
  | [] => ([], [])
  | name :: rest =>
    let found := c.transport read name
    let (lines, events) := answers read found.catalog rest
    (line name found.answer :: lines, found.events ++ events)

def execute (read : ReadBytes) (environment : Environment) (arguments : List String) :
    String × List Event :=
  if arguments.contains helpOption then (usage, [])
  else match readArguments arguments with
    | .error option => ("missing path after " ++ option ++ "\n" ++ usage, [])
    | .ok r =>
      if r.names.isEmpty then (usage, [])
      else
        let (lines, events) := answers read (.ofPaths (r.manifestPaths environment)) r.names
        ("\n".intercalate lines, events)

def pathsToRead (environment : Environment) (arguments : List String) : List String :=
  if arguments.contains helpOption then []
  else match readArguments arguments with
    | .error _ => []
    | .ok r =>
      let paths := r.manifestPaths environment
      let consulted := r.names.filterMap fun name =>
        (request name).toOption.map fun n => paths.get n.side
      consulted.eraseDups

def printed (output : String) : String := output ++ "\n"

end HalLink.CommandLine
