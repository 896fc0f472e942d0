import CircuitScan.Path
import CircuitScan.ReadFault

/-!
# CircuitScan.FileTree

A directory with files and directories in it, to read files from by their paths. A path is walked
part by part, and every part but the last has to lead to a directory. Outside the tree there is
nothing but directories without names.
-/

namespace CircuitScan

/-- A directory: the parts of each path in it, with the bytes of files and nothing for
directories. The directories on the way to an entry need no entry of their own. -/
structure FileTree where
  entries : List (List String × Option ByteArray) := []

namespace FileTree

/-- What a place in a tree holds. -/
inductive Node where
  | file (bytes : ByteArray)
  | directory

/-- The tree without entries. -/
def empty : FileTree := {}

/-- The names in a path that leads nowhere but down. -/
def names (path : String) : List String := (Path.parts path).filter fun p => p ≠ "" && p ≠ "."

/-- Adds the file of a path. -/
def addFile (t : FileTree) (path : String) (bytes : ByteArray) : FileTree :=
  ⟨(names path, some bytes) :: t.entries⟩

/-- Adds the directory of a path. -/
def addDirectory (t : FileTree) (path : String) : FileTree := ⟨(names path, none) :: t.entries⟩

/-- What a place inside the tree holds. -/
def node? (t : FileTree) (place : List String) : Option Node :=
  match t.entries.find? fun (path, bytes) => path = place && bytes.isSome with
  | some (_, some bytes) => some (.file bytes)
  | _ =>
    if place = [] || t.entries.any fun (path, _) => place.isPrefixOf path then some .directory
    else none

/-- Where a walk has come to: a place in the tree, or a directory outside. -/
abbrev Place := Option (List String)

/-- What is at the place of a walk. -/
def nodeAt? (t : FileTree) : Place → Option Node
  | none => some .directory
  | some place => t.node? place

/-- The place behind one more part of a path, seen from a directory. -/
def enter (part : String) : Place → Except ReadFault Place
  | none => if part = "" || part = "." || part = ".." then .ok none else .error .missing
  | some place =>
    if part = "" || part = "." then .ok (some place)
    else if part = ".." then .ok (if place = [] then none else some place.dropLast)
    else .ok (some (place ++ [part]))

/-- Walks the parts of a path. -/
def walk (t : FileTree) : List String → Place → Except ReadFault Place
  | [], place => .ok place
  | part :: parts, place =>
    match t.nodeAt? place with
    | none => .error .missing
    | some (.file _) => .error .notDirectory
    | some .directory => do
      let place ← enter part place
      t.walk parts place

/-- The text of the file that a path leads to. -/
def read (t : FileTree) (path : String) : Except ReadFault String := do
  if path = "" then throw .missing
  let origin : Place := if path.toList.head? = some '/' then none else some []
  let place ← t.walk (Path.parts path) origin
  match t.nodeAt? place with
  | none => throw .missing
  | some .directory => throw .isDirectory
  | some (.file bytes) =>
    match String.fromUTF8? bytes with
    | some text => return text
    | none => throw .notText

end FileTree

end CircuitScan
