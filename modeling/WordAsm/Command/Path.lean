import WordAsm.Text.Utf8

/-! Paths, as texts. A path is a sequence of components parted by slashes; cleaning it drops what
is empty or a dot and lets each pair of dots take back the component before it, by the text alone
and not by what is there. The system takes paths and components up to some number of bytes. -/

namespace WordAsm.Path

/-- The bytes that a path may have. -/
def maxBytes : Nat := 4095

/-- The bytes that a component may have. -/
def maxComponentBytes : Nat := 255

/-- The components of a path, empty ones included. -/
def splitChars : List Char → List (List Char)
  | [] => [[]]
  | c :: rest =>
    if c = '/' then [] :: splitChars rest
    else match splitChars rest with
      | [] => [[c]]
      | component :: components => (c :: component) :: components

def split (path : String) : List String :=
  (splitChars path.toList).map String.ofList

def isRooted (path : String) : Bool :=
  path.toList.head? == some '/'

/-- Takes a component to those kept so far, last one first. -/
def keep (rooted : Bool) (kept : List String) (component : String) : List String :=
  if component = "" ∨ component = "." then kept
  else if component = ".." then
    match kept with
    | [] => if rooted then [] else [".."]
    | last :: before => if last = ".." then ".." :: last :: before else before
  else component :: kept

/-- The components of a cleaned path. -/
def cleanComponents (path : String) : List String :=
  ((split path).foldl (keep (isRooted path)) []).reverse

def clean (path : String) : String :=
  let text := "/".intercalate (cleanComponents path)
  if isRooted path then "/" ++ text else if text = "" then "." else text

/-- What leads from a folder to a place, both given by the names that lead to them from the top: up
to the folder that they share, and down from there. -/
def relative : (folder place : List String) → List String
  | name :: folder, other :: place =>
    if name = other then relative folder place
    else (name :: folder).map (fun _ => "..") ++ other :: place
  | folder, place => folder.map (fun _ => "..") ++ place

/-- The last component of a path, without slashes behind it. -/
def base (path : String) : String :=
  if path = "" then "."
  else
    let component := (path.toList.reverse.dropWhile (· = '/')).takeWhile (· ≠ '/')
    if component.isEmpty then "/" else String.ofList component.reverse

/-- What follows the last dot of a name, the dot included; empty if there is no dot. -/
def extension (name : String) : String :=
  let reversed := name.toList.reverse.takeWhile (· ≠ '/')
  if reversed.contains '.' then
    String.ofList ('.' :: (reversed.takeWhile (· ≠ '.')).reverse)
  else ""

/-- A text without an ending, if it has that ending. -/
def dropEnding (text ending : String) : String :=
  if ending.toList.isSuffixOf text.toList then
    String.ofList (text.toList.take (text.length - ending.length))
  else text

end WordAsm.Path
