import PointStyle.Resource.FileTree

/-!
A directory as a provider of resources. Sources are paths below its root; those that would lead out
of it are refused.
-/
namespace PointStyle

namespace Resource

/-- A directory of resources. The place of its root is looked up once, when it is opened, and is
unknown if there was nothing there. -/
structure Directory where
  root : String
  rootPlace : Option Place
deriving DecidableEq, Repr

namespace Directory

def ofPath (tree : FileTree) (root : String) : Directory :=
  ⟨root, (tree.canonical root).toOption⟩

/-- What a source stands for: a place, or a path about which nothing is known yet. -/
inductive Target where
  | settled (place : Place)
  | unsettled (path : String)

/-- What a source stands for, unless it is refused. A source that leads somewhere has to lead below
the root; one that leads nowhere, or whose root was never found, must not go up. -/
def resolve (directory : Directory) (tree : FileTree) (src : String) : Option Target :=
  if Path.isAbsolute src then none
  else
    let path := Path.join directory.root src
    match tree.canonical path, directory.rootPlace with
    | .ok place, some root => if root.isPrefixOf place then some (.settled place) else none
    | _, _ => if ".." ∈ Path.parts src then none else some (.unsettled path)

def Target.locate (target : Target) (tree : FileTree) : Except SystemError Place :=
  match target with
  | .settled place => .ok place
  | .unsettled path => tree.locate path

def load (directory : Directory) (tree : FileTree) (src : String) : Except ResourceError Bytes :=
  match directory.resolve tree src with
  | none => .error (.loadFailed src .outsideRoot)
  | some target =>
    match target.locate tree >>= tree.readAt with
    | .ok bytes => .ok bytes
    | .error .notFound => .error (.notFound src)
    | .error error => .error (.loadFailed src (.system error))

def has (directory : Directory) (tree : FileTree) (src : String) : Bool :=
  match directory.resolve tree src with
  | none => false
  | some target =>
    match target.locate tree with
    | .ok place => tree.isFileAt place
    | .error _ => false

/-- The provider of what the tree holds now. -/
def provider (directory : Directory) (tree : FileTree) : Provider where
  name := "filesystem"
  load := directory.load tree
  has := directory.has tree

end Directory

end Resource

end PointStyle
