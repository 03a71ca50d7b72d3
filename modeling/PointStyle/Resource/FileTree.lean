import PointStyle.Resource.Provider

/-!
File trees with symbolic links, and what a path leads to. A path is a text; following it from the
top of the tree gives a place, the list of names on the way down without any links. Places have no
`.` and no `..`. The top is also the working directory, where paths that are not absolute start.
-/
namespace PointStyle

/-- A tree of files, directories and symbolic links. -/
inductive FileTree where
  | file (bytes : Bytes)
  | directory (entries : List (String × FileTree))
  | link (target : String)

/-- The names on the way from the top of a tree down to a place. -/
abbrev Place := List String

namespace Path

def split : List Char → List (List Char)
  | [] => [[]]
  | c :: rest =>
    if c = '/' then [] :: split rest
    else
      match split rest with
      | [] => [[c]]
      | first :: others => (c :: first) :: others

/-- The parts of a path between its slashes; some may be empty. -/
def parts (path : String) : List String :=
  (split path.toList).map String.ofList

/-- The parts of a path that lead from one place to another. -/
def steps (path : String) : List String :=
  (parts path).filter fun part => part ≠ "" ∧ part ≠ "."

/-- Whether a path starts at the top of the tree wherever it is used. -/
def isAbsolute (path : String) : Bool :=
  path.toList.head? == some '/'

/-- A path continued by another, which counts alone when it is absolute. -/
def join (path next : String) : String :=
  if isAbsolute next then next
  else if path = "" ∨ path.toList.getLast? = some '/' then path ++ next
  else path ++ "/" ++ next

/-- Whether a path holds a character that no path can hold. -/
def hasNul (path : String) : Bool :=
  path.toList.any (·.toNat == 0)

end Path

namespace FileTree

/-- The longest name of an entry, in bytes. -/
def nameLimit : Nat := 255

/-- A path to be opened has fewer bytes than this. -/
def pathLimit : Nat := 4096

/-- The number of links that one path may follow. -/
def linkLimit : Nat := 40

def find? (tree : FileTree) (place : Place) : Option FileTree :=
  match place with
  | [] => some tree
  | name :: rest =>
    match tree with
    | .directory entries => (Table.get? entries name).bind (·.find? rest)
    | _ => none

/-- How far a path leads without following a link. -/
inductive Stretch where
  /-- All the way to a place. -/
  | arrived (place : Place)
  /-- To a name that its directory does not have, with parts of the path left to follow. -/
  | missing (place : Place) (rest : List String)
  /-- To a link in a directory, with parts of the path left to follow. -/
  | link (parent : Place) (target : String) (rest : List String)

/-- Follows the parts of a path from a place up to the first link. A file has nothing below it, not
even itself or its directory. -/
def advance (tree : FileTree) (here : Place) : List String → Except SystemError Stretch
  | [] => .ok (.arrived here)
  | part :: rest =>
    match tree.find? here with
    | some (.directory entries) =>
      if part = "" ∨ part = "." then advance tree here rest
      else if part = ".." then advance tree here.dropLast rest
      else if nameLimit < part.utf8ByteSize then .error .nameTooLong
      else
        match Table.get? entries part with
        | none => .ok (.missing (here ++ [part]) rest)
        | some (.link target) => .ok (.link here target rest)
        | some _ => advance tree (here ++ [part]) rest
    | some (.file _) => .error .notDirectory
    | _ => .error .notFound

/-- What a path leads to once its links are followed. -/
inductive Destination where
  /-- A place where something stands. -/
  | taken (place : Place)
  /-- A place in a directory where nothing stands yet. -/
  | free (place : Place)

/-- Follows the parts of a path from a place, through no more links than allowed. -/
def reach (tree : FileTree) (links : Nat) (here : Place) (parts : List String) :
    Except SystemError Destination :=
  match advance tree here parts with
  | .error error => .error error
  | .ok (.arrived place) => .ok (.taken place)
  | .ok (.missing place []) => .ok (.free place)
  | .ok (.missing _ _) => .error .notFound
  | .ok (.link parent target rest) =>
    match links with
    | 0 => .error .tooManyLinks
    | links + 1 =>
      let start := if Path.isAbsolute target then [] else parent
      reach tree links start (Path.parts target ++ rest)

/-- The place that the parts of a path lead to from the top, where something has to stand. -/
def follow (tree : FileTree) (parts : List String) : Except SystemError Place :=
  match tree.reach linkLimit [] parts with
  | .ok (.taken place) => .ok place
  | .ok (.free _) => .error .notFound
  | .error error => .error error

/-- The place that a path leads to; the empty path leads nowhere. -/
def canonical (tree : FileTree) (path : String) : Except SystemError Place :=
  if Path.hasNul path then .error .nulByte
  else if path = "" then .error .notFound
  else tree.follow (Path.parts path)

/-- The place of a path that is to be opened, which must not be too long as a text. -/
def locate (tree : FileTree) (path : String) : Except SystemError Place :=
  if Path.hasNul path then .error .nulByte
  else if pathLimit ≤ path.utf8ByteSize then .error .nameTooLong
  else tree.canonical path

def readAt (tree : FileTree) (place : Place) : Except SystemError Bytes :=
  match tree.find? place with
  | some (.file bytes) => .ok bytes
  | some (.directory _) => .error .isDirectory
  | _ => .error .notFound

def isFileAt (tree : FileTree) (place : Place) : Bool :=
  match tree.find? place with
  | some (.file _) => true
  | _ => false

/-- Puts something at a place, with the directories on the way that are missing. Below a file or a
link nothing can be put. -/
def put (tree : FileTree) (place : Place) (new : FileTree) : FileTree :=
  match place with
  | [] => new
  | name :: rest =>
    match tree with
    | .directory entries =>
      let child := (Table.get? entries name).getD (.directory [])
      .directory (Table.insert entries name (child.put rest new))
    | other => other

def erase (tree : FileTree) (place : Place) : FileTree :=
  match place, tree with
  | [name], .directory entries => .directory (Table.remove entries name)
  | name :: rest, .directory entries =>
    match Table.get? entries name with
    | some child => .directory (Table.insert entries name (child.erase rest))
    | none => .directory entries
  | _, other => other

/-- Makes a directory of a name, if the path before it leads to a directory without such an
entry. -/
def makeMissing (tree : FileTree) (before : List String) (name : String) : FileTree :=
  match tree.follow before with
  | .error _ => tree
  | .ok parent =>
    match tree.advance parent [name] with
    | .ok (.missing place _) => tree.put place (.directory [])
    | _ => tree

/-- Makes the directories that are missing along the parts of a path, one after the other, so that
each `..` goes up from a directory that is there. -/
def makeDirectories (tree : FileTree) (before : List String) : List String → FileTree
  | [] => tree
  | part :: rest => (tree.makeMissing before part).makeDirectories (before ++ [part]) rest

/-- Makes a directory and those that are missing on the way. -/
def makeDirectory (tree : FileTree) (path : String) : FileTree :=
  tree.makeDirectories [] (Path.parts path)

/-- Makes the directories on the way to an entry. -/
def makeParent (tree : FileTree) (path : String) : FileTree :=
  tree.makeDirectories [] (Path.steps path).dropLast

/-- The place of an entry itself, which may be a link. -/
def entry? (tree : FileTree) (path : String) : Option Place :=
  match tree.follow (Path.steps path).dropLast with
  | .ok parent => some (parent ++ (Path.steps path).getLast?.toList)
  | .error _ => none

/-- Writes a file, with the directories on the way. A link stands for what it leads to, and a
directory stays as it is. -/
def write (tree : FileTree) (path : String) (bytes : Bytes) : FileTree :=
  let tree := tree.makeParent path
  match tree.reach linkLimit [] (Path.parts path) with
  | .ok (.taken place) => if tree.isFileAt place then tree.put place (.file bytes) else tree
  | .ok (.free place) => tree.put place (.file bytes)
  | .error _ => tree

/-- Makes a symbolic link, with the directories on the way, unless there is an entry already. -/
def makeLink (tree : FileTree) (path target : String) : FileTree :=
  let tree := tree.makeParent path
  match tree.entry? path with
  | some place => if (tree.find? place).isNone then tree.put place (.link target) else tree
  | none => tree

/-- Deletes a file, a link or a directory with all it holds. -/
def delete (tree : FileTree) (path : String) : FileTree :=
  match tree.entry? path with
  | some place => tree.erase place
  | none => tree

end FileTree

end PointStyle
