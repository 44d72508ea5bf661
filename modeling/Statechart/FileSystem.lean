import Statechart.Dict
import Statechart.Text.Segment

/-! Files as far as charts and settings need them: contents by path, and the files of a directory.

    A file system is what it answers. One is made of a list of paths with their contents; a path makes
    every directory on its way, also one that it leaves again. -/

namespace Statechart

/-- What a file system answers: the content of the file at a path, and the names of the files in the
    directory at a path. -/
structure FileSystem where
  read? : (path : String) → Option String
  files? : (path : String) → Option (List String)

namespace FileSystem

/-- The pieces of a path between its slashes. -/
def parts (path : String) : List String := (Text.pieces '/' path.toList).map String.ofList

/-- The last name of a path. -/
def fileName (path : String) : String :=
  (((parts path).filter fun p => p ≠ "" ∧ p ≠ ".").getLast?).getD ""

/-- A file name before and behind its last dot; a dot at the start does not count. -/
def splitName (name : List Char) : List Char × Option (List Char) :=
  match (name.reverse.span fun c => c ≠ '.') with
  | (_, []) => (name, none)
  | (_, [_]) => (name, none)
  | (ending, _ :: stem) => (stem.reverse, some ending.reverse)

/-- The last name of a path without its extension. -/
def stem (path : String) : String := String.ofList (splitName (fileName path).toList).1

/-- The extension of a path, in lower case. -/
def extension? (path : String) : Option String :=
  (splitName (fileName path).toList).2.map fun cs => String.ofList (cs.map Char.toLower)

/-- Directories below the top and files with their contents, by the names on the way to them. -/
structure Tree where
  directories : List (List String)
  files : Dict (List String) String

namespace Tree

/-- The tree without files. -/
def empty : Tree := ⟨[], []⟩

/-- Where a name leads from a directory: two dots lead up, one dot and nothing lead nowhere else. -/
def step (here : List String) (name : String) : List String :=
  if name = "" ∨ name = "." then here else if name = ".." then here.dropLast else here ++ [name]

/-- The directories on a way of names, the first one included. -/
def trail (here : List String) : List String → List (List String)
  | [] => [here]
  | name :: names => here :: trail (step here name) names

/-- The tree with a file at the end of a way of names and the directories on that way. -/
def add (t : Tree) (names : List String) (content : String) : Tree :=
  let file := names.foldl step []
  { directories := trail [] names.dropLast ++ t.directories
    files := (file, content) :: Dict.erase file t.files }

/-- Whether a list of names is a directory of a tree. -/
def isDirectory (t : Tree) (dir : List String) : Bool := dir.isEmpty || t.directories.contains dir

/-- Where a way of names leads, from a directory on; every name but the last must be one of a
    directory, and there is nothing above the top. -/
def walk (t : Tree) (here : List String) : List String → Option (List String)
  | [] => some here
  | name :: names =>
    if !t.isDirectory here || (name = ".." && here.isEmpty) then none
    else walk t (step here name) names

/-- Where a path leads; one that starts with a slash leads nowhere. -/
def locate (t : Tree) (path : String) : Option (List String) :=
  if path.toList.head? = some '/' then none else t.walk [] (parts path)

/-- The names of the files that lie directly in a directory. -/
def filesIn (t : Tree) (dir : List String) : List String :=
  t.files.filterMap fun f => if f.1.dropLast = dir then f.1.getLast? else none

end Tree

/-- The file system of a list of paths with contents. -/
def ofFiles (files : List (String × String)) : FileSystem :=
  let tree := files.foldl (fun (t : Tree) (path, content) => t.add (parts path) content) .empty
  { read? := fun path => (tree.locate path).bind fun file => Dict.get? file tree.files
    files? := fun path =>
      (tree.locate path).bind fun dir =>
        if tree.isDirectory dir then some (tree.filesIn dir) else none }

/-- The path of a name in a directory. -/
def join (dir name : String) : String :=
  if dir.isEmpty ∨ dir.toList.getLast? = some '/' then dir ++ name else dir ++ "/" ++ name

end FileSystem
end Statechart
