import WordAsm.Check
import WordAsm.Command.Path

/-! A directory that a command works in, and the place where it lies. Files are kept under the
components that lead to them from the directory; those of a file outside it begin by going up. Paths
are followed component by component from the top, so that going up from a folder needs the folder to
be there, a component is looked up only when those before it have been found, and going up and down
again may lead back into the directory. -/

namespace WordAsm

/-- Why a path cannot be used. -/
inductive PathFault where
  | missing
  | notDirectory
  | isDirectory
  | tooLong
  | noRoom
  /-- The system has another reason. -/
  | refused (reason : String)
  deriving DecidableEq, Repr

def PathFault.message : PathFault → String
  | missing => "no such file or directory"
  | notDirectory => "not a directory"
  | isDirectory => "is a directory"
  | tooLong => "file name too long"
  | noRoom => "no space left on device"
  | refused reason => reason

/-- An attempt at a path that failed. -/
structure AccessFault where
  action : String
  path : String
  fault : PathFault
  deriving DecidableEq, Repr

def AccessFault.message (access : AccessFault) : String :=
  access.action ++ " " ++ access.path ++ ": " ++ access.fault.message

structure Directory where
  files : List (List String × List UInt8)
  deriving DecidableEq, Repr

/-- Where a directory lies, and what there is beside the files. -/
structure Site where
  /-- The names that lead to the directory from the top. -/
  home : List String
  /-- Folders that are there even if no file lies in them. -/
  folders : List (List String)
  /-- The further names of files, each with the one that the contents are kept under. -/
  links : List (List String × List String)
  /-- The bytes that a file can take, if there is a limit. -/
  room : Option Nat
  deriving DecidableEq, Repr

namespace Site

/-- Right below the top, under a name that no path has, with nothing around it. -/
def isolated : Site :=
  ⟨[""], [], [], none⟩

/-- Where following a path starts. -/
def start (site : Site) (path : String) : List String :=
  if Path.isRooted path then [] else site.home

/-- The name that the contents of a file are kept under. -/
def kept (site : Site) (name : List String) : List String :=
  (site.links.lookup name).getD name

/-- What a file takes of the contents that are written to it. -/
def fitting (site : Site) (contents : List UInt8) : List UInt8 :=
  contents.take (site.room.getD contents.length)

end Site

namespace Directory

/-- The contents of the file with the given name. -/
def file? (dir : Directory) (name : List String) (site : Site := .isolated) : Option (List UInt8) :=
  dir.files.lookup (site.kept name)

/-- The directory itself or one above it, a folder of its own, or one that something lies in. -/
def isFolder (dir : Directory) (site : Site) (name : List String) : Bool :=
  name.all (· = "..") || site.folders.any name.isPrefixOf ||
    (dir.files.map Prod.fst ++ site.links.map Prod.fst).any fun other =>
      name.isPrefixOf other && name.length < other.length

/-- What a path leads to. -/
inductive Place where
  | file (name : List String)
  | folder
  /-- Nothing yet, in a folder that is there. -/
  | vacant (name : List String)
  deriving DecidableEq, Repr

/-- Follows components from a folder, which is given by the names that lead to it from the top. -/
def follow (dir : Directory) (site : Site) : (folder : List String) → List String →
    Except PathFault Place
  | _, [] => .ok .folder
  | folder, component :: rest =>
    if component = "" ∨ component = "." then follow dir site folder rest
    else if component = ".." then follow dir site folder.dropLast rest
    else if Path.maxComponentBytes < Text.byteCount component then .error .tooLong
    else
      let name := Path.relative site.home (folder ++ [component])
      if (dir.file? name site).isSome then
        if rest.isEmpty then .ok (.file name) else .error .notDirectory
      else if dir.isFolder site name then follow dir site (folder ++ [component]) rest
      else if rest.isEmpty then .ok (.vacant name) else .error .missing

/-- What is wrong with a path whatever it leads to. -/
def pathFault? (path : String) : Option PathFault :=
  if path = "" then some .missing
  else if Path.maxBytes < Text.byteCount path then some .tooLong
  else none

def locate (dir : Directory) (site : Site) (path : String) : Except PathFault Place := do
  forbid (pathFault? path)
  dir.follow site (site.start path) (Path.split path)

/-- The path leads to a file. -/
def hasFile (dir : Directory) (site : Site) (path : String) : Bool :=
  dir.locate site path matches .ok (.file _)

def read (dir : Directory) (site : Site) (path : String) : Except AccessFault (List UInt8) :=
  match dir.locate site path with
  | .ok (.file name) => .ok ((dir.file? name site).getD [])
  | .ok .folder => .error ⟨"read", path, .isDirectory⟩
  | .ok (.vacant _) => .error ⟨"open", path, .missing⟩
  | .error fault => .error ⟨"open", path, fault⟩

/-- Gives the file that is kept under a name its contents. -/
def put (dir : Directory) (name : List String) (contents : List UInt8) : Directory :=
  ⟨replace dir.files⟩
where
  replace : List (List String × List UInt8) → List (List String × List UInt8)
    | [] => [(name, contents)]
    | entry :: rest => if entry.1 = name then (name, contents) :: rest else entry :: replace rest

/-- Where a file can be written. A slash at the end asks for a directory. -/
def locateForWriting (dir : Directory) (site : Site) (path : String) :
    Except PathFault (List String) := do
  forbid (pathFault? path)
  let components := ((Path.split path).reverse.dropWhile (· = "")).reverse
  let wanted := if (Path.split path).getLast? = some "" then components.dropLast ++ [""]
    else components
  match ← dir.follow site (site.start path) wanted with
  | .file name | .vacant name => .ok name
  | .folder => .error .isDirectory

/-- Makes or empties a file and then writes to it what it can take, with what went wrong if
something did. -/
def write (dir : Directory) (site : Site) (path : String) (contents : List UInt8) :
    Directory × Option AccessFault :=
  match dir.locateForWriting site path with
  | .ok name =>
    (dir.put (site.kept name) (site.fitting contents),
      if site.fitting contents = contents then none else some ⟨"write", path, .noRoom⟩)
  | .error fault => (dir, some ⟨"open", path, fault⟩)

/-- The files inside that are new or have other contents than in an earlier state. -/
def changes (before after : Directory) : List (String × List UInt8) :=
  (after.files.filter fun (name, contents) =>
      name.head? ≠ some ".." ∧ before.file? name ≠ some contents).map
    fun (name, contents) => ("/".intercalate name, contents)

end Directory

end WordAsm
