import TemplateRecovery.Fault.Problem
import TemplateRecovery.Text.Split

/-!
# Paths and file trees

A path is shown without empty parts and without parts that stand for the same directory. A
`FileTree` is a set of files and directories under relative paths.

* `Path.normalize` is the path as it is shown.
* `FileTree.read` reads the file at a path.
-/

namespace TemplateRecovery

namespace Path

/-- The front of an absolute path: two slashes are kept, one or more than two count as one. -/
def root (cs : List Char) : String :=
  match cs.takeWhile (· == '/') with
  | [] => ""
  | [_, _] => "//"
  | _ => "/"

/-- The parts of a path that are not idle. -/
def parts (s : String) : List String :=
  (Text.splitAt '/' s).filter fun part => part != "" && part != "."

/-- The path as it is shown. -/
def normalize (s : String) : String :=
  let front := root s.toList
  match parts s with
  | [] => if front = "" then "." else front
  | ps => front ++ Text.join "/" ps

end Path

/-- Files and directories under relative paths. -/
structure FileTree (α : Type) where
  /-- A path leads to the contents of a file, or to a directory. -/
  entries : List (List String × Option α)

namespace FileTree

variable {α : Type}

/-- What stands at a resolved path: a file, a directory, or nothing. -/
def entry? (t : FileTree α) (ps : List String) : Option (Option α) :=
  match t.entries.find? (·.1 == ps) with
  | some (_, contents) => some contents
  | none => if ps.isEmpty ∨ t.entries.any (ps.isPrefixOf ·.1) then some none else none

/-- The number of bytes that the name of a file may have. -/
def nameLimit : Nat := 255

/-- The number of bytes that a path may have. -/
def pathLimit : Nat := 4095

/-- The directories outside of the tree that every path can name. -/
def systemDirectories : List String :=
  ["bin", "dev", "etc", "home", "lib", "opt", "proc", "root", "sys", "tmp", "usr", "var"]

/-- Follows an absolute path, of which only the common directories are known. -/
def walkAbsolute : List String → FileProblem
  | [] => .directory
  | [part] =>
    if nameLimit < part.utf8ByteSize then .longName
    else if part = ".." ∨ part ∈ systemDirectories then .directory
    else .missing
  | part :: _ => if nameLimit < part.utf8ByteSize then .longName else .missing

/-- Follows the parts of a path from a directory. What is outside of the tree is not known, apart from
the directory around it. -/
def walk (t : FileTree α) : List String → List String → Except FileProblem (Option α)
  | here, [] =>
    match t.entry? here with
    | some found => .ok found
    | none => .error .missing
  | here, part :: rest =>
    match t.entry? here with
    | none => .error .missing
    | some (some _) => .error .notDirectory
    | some none =>
      if nameLimit < part.utf8ByteSize then .error .longName
      else if part = ".." then
        match here, rest with
        | [], [] => .ok none
        | [], _ => .error .missing
        | _, _ => t.walk here.dropLast rest
      else t.walk (here ++ [part]) rest

def read (t : FileTree α) (path : String) : Except FileProblem α :=
  if '\x00' ∈ path.toList then .error .zero
  else if pathLimit < (Path.normalize path).utf8ByteSize then .error .longName
  else if Path.root path.toList ≠ "" then .error (walkAbsolute (Path.parts path))
  else
    match t.walk [] (Path.parts path) with
    | .ok (some contents) => .ok contents
    | .ok none => .error .directory
    | .error problem => .error problem

end FileTree

end TemplateRecovery
