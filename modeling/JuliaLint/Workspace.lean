import JuliaLint.CommandLine
import JuliaLint.Text.Utf8

namespace JuliaLint

/-!
A directory tree in memory, from which the command line can read its files.
Paths are relative to the root of the tree; empty names and single dots stay
where they are, and two dots lead one directory up.  Whatever lies above the
root is a directory about which nothing else is known.
-/

abbrev Path := List String

/-- The names in a path as it is written, those that stay in place included. -/
def Path.ofString (path : String) : Path :=
  path.splitOn "/"

/-- The path without the names that stay in place. -/
def Path.clean (path : Path) : Path :=
  path.filter fun name => name != "" && name != "."

/-- Directories and files with their bytes. -/
structure Workspace where
  directories : List Path
  files : List (Path × List UInt8)

namespace Workspace

/-- Where a walk through the tree may stand. -/
inductive Place where
  | inside (directory : Path)
  | above
  | file (bytes : List UInt8)

/-- Whether a directory of the tree has the path, as one of its own or on the way to another. -/
def hasDirectory (workspace : Workspace) (path : Path) : Bool :=
  workspace.directories.any path.isPrefixOf ||
    workspace.files.any fun file => path.isPrefixOf file.1

def enter? (workspace : Workspace) : Place → String → Option Place
  | .file _, _ => none
  | .above, name =>
      if name = "" ∨ name = "." ∨ name = ".." then some .above else none
  | .inside directory, name =>
      if name = "" ∨ name = "." then
        some (.inside directory)
      else if name = ".." then
        if directory = [] then some .above else some (.inside directory.dropLast)
      else
        match workspace.files.lookup (directory ++ [name]) with
        | some bytes => some (.file bytes)
        | none =>
            if workspace.hasDirectory (directory ++ [name]) then
              some (.inside (directory ++ [name]))
            else
              none

/-- Where a path leads; the empty path leads nowhere. -/
def find? (workspace : Workspace) (path : String) : Option Place :=
  match path.toList with
  | [] => none
  | '/' :: rest =>
      if rest.all (· == '/') then some .above else none
  | _ => (Path.ofString path).foldlM workspace.enter? (.inside [])

def read (workspace : Workspace) (path : String) : Except CommandLine.ReadFault Text :=
  match workspace.find? path with
  | none => .error (.missing path)
  | some (.file bytes) => .ok (Utf8.decode bytes)
  | some _ => .error .directory

end Workspace
end JuliaLint
