import HalLink.Text.Split
import HalLink.Text.Utf8

/-!
Files as far as manifests need them: what a path leads to, and why it may lead to no text. There are
no links and no permissions. Relative paths start at the working directory.
-/

set_option autoImplicit false

namespace HalLink

inductive ReadFault where
  | notFound
  | isDirectory
  | notADirectory
  | nameTooLong
  | nulInPath
  | invalidText
  | system (code : Nat) (reason : String)
  deriving DecidableEq, Repr

def ReadFault.message : ReadFault → String
  | notFound => "No such file or directory (os error 2)"
  | isDirectory => "Is a directory (os error 21)"
  | notADirectory => "Not a directory (os error 20)"
  | nameTooLong => "File name too long (os error 36)"
  | nulInPath => "file name contained an unexpected NUL byte"
  | invalidText => "stream did not contain valid UTF-8"
  | system code reason => reason ++ " (os error " ++ toString code ++ ")"

/-- What reading answers for each path: the bytes, or why there are none. -/
abbrev ReadBytes := String → Except ReadFault (List UInt8)

/-- The text of a file, which has to be UTF-8 from end to end. -/
def ReadBytes.text (read : ReadBytes) (path : String) : Except ReadFault String := do
  let bytes ← read path
  match Utf8.decode bytes with
  | .ok s => .ok s
  | .error _ => .error .invalidText

namespace Path

def components (path : String) : List String :=
  (Text.pieces '/' path.toList).map String.ofList

def isAbsolute (path : String) : Bool := path.toList.head? == some '/'

/-- The components that tell two paths apart: empty ones say nothing, nor does a dot except in
front. -/
def significant (path : String) : List String :=
  match components path with
  | [] => []
  | first :: rest =>
    (if first = "" then [] else [first]) ++ rest.filter fun c => c ≠ "" && c ≠ "."

/-- Whether the last component leads to a directory without naming it. -/
def endsOnDots (path : String) : Bool :=
  match ((components path).filter (· ≠ "")).getLast? with
  | some last => last == "." || last == ".."
  | none => false

def same (a b : String) : Bool :=
  isAbsolute a == isAbsolute b && significant a == significant b

end Path

inductive FileNode where
  | file (bytes : List UInt8)
  | directory
  deriving DecidableEq, Repr

abbrev Location := List String

/-- What lies where, with the latest first. The root is a directory that is not listed. -/
structure FileSystem where
  nodes : List (Location × FileNode)
  deriving Repr

namespace FileSystem

/-- The directory that relative paths start from. Its name is empty, as no component that leads
further is, so a path that has left it upwards does not come back. -/
def workingDirectory : Location := [""]

def initial : FileSystem := ⟨[(workingDirectory, .directory)]⟩

def node? (fs : FileSystem) : Location → Option FileNode
  | [] => some .directory
  | place => fs.nodes.lookup place

/-- The longest component and the longest path that the system takes, in bytes; the NUL at its end
counts for the path. -/
def maxComponent : Nat := 255

def maxPath : Nat := 4096

def start (path : String) : Location := if Path.isAbsolute path then [] else workingDirectory

def walk (fs : FileSystem) (place : Location) : List String → Except ReadFault Location
  | [] => .ok place
  | c :: rest =>
    match fs.node? place with
    | some (.file _) => .error .notADirectory
    | none => .error .notFound
    | some .directory =>
      if c = "" ∨ c = "." then walk fs place rest
      else if c = ".." then walk fs place.dropLast rest
      else if maxComponent < c.utf8ByteSize then .error .nameTooLong
      else if fs.node? (place ++ [c]) = none then .error .notFound
      else walk fs (place ++ [c]) rest

/-- Why the system does not even look at a path. -/
def pathFault? (path : String) : Option ReadFault :=
  if path.toList.contains '\x00' then some .nulInPath
  else if path = "" then some .notFound
  else if maxPath ≤ path.utf8ByteSize then some .nameTooLong
  else none

def locate (fs : FileSystem) (path : String) : Except ReadFault Location :=
  match pathFault? path with
  | some fault => .error fault
  | none => fs.walk (start path) (Path.components path)

def read (fs : FileSystem) : ReadBytes := fun path => do
  match fs.node? (← fs.locate path) with
  | some (.file bytes) => .ok bytes
  | some .directory => .error .isDirectory
  | none => .error .notFound

/-- Follows components from a directory and makes each directory that is missing on the way, also
one that the next component leaves again. Nothing can be made below a file. -/
def makeDirectories (fs : FileSystem) (here : Location) :
    List String → Option (FileSystem × Location)
  | [] => some (fs, here)
  | c :: rest =>
    if c = "" ∨ c = "." then makeDirectories fs here rest
    else if c = ".." then makeDirectories fs here.dropLast rest
    else if maxComponent < c.utf8ByteSize then none
    else match fs.node? (here ++ [c]) with
      | some (.file _) => none
      | some .directory => makeDirectories fs (here ++ [c]) rest
      | none => makeDirectories ⟨(here ++ [c], .directory) :: fs.nodes⟩ (here ++ [c]) rest

def putFile (fs : FileSystem) (above : Location) (name : String) (bytes : List UInt8) :
    Option FileSystem :=
  if name = "" ∨ name = "." ∨ name = ".." ∨ maxComponent < name.utf8ByteSize then none
  else if fs.node? (above ++ [name]) = some .directory then none
  else some ⟨(above ++ [name], .file bytes) :: fs.nodes.filter (·.1 ≠ above ++ [name])⟩

/-- The file system with a file or directory at a path and all directories that the path goes
through, if the system takes the path. -/
def write? (fs : FileSystem) (path : String) (node : FileNode) : Option FileSystem := do
  let components := Path.components path
  if (pathFault? path).isSome then none
  match node with
  | .directory => return (← fs.makeDirectories (start path) components).1
  | .file bytes =>
    let (made, above) ← fs.makeDirectories (start path) components.dropLast
    made.putFile above (← components.getLast?) bytes

def write (fs : FileSystem) (path : String) (node : FileNode) : FileSystem :=
  (fs.write? path node).getD fs

/-- Takes away what lies at a path and below it; a path that leads nowhere takes nothing away. A
directory that the path ends on without naming it, by dots, is emptied and stays. -/
def remove (fs : FileSystem) (path : String) : FileSystem :=
  match fs.locate path with
  | .ok place =>
    let stays := Path.endsOnDots path
    ⟨fs.nodes.filter fun (p, _) => !place.isPrefixOf p || stays && p == place⟩
  | .error _ => fs

end FileSystem

end HalLink
