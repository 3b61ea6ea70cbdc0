import ClassMachine.Sources

/-!
# Folders of listings

A folder is what a file system says about a directory: the files in it, each
with its text or the reason why it cannot be read. The listings of a folder
are its files with the extension `javap`.
-/

namespace ClassMachine.Cli

/-- The entries of a directory by name, with their text or the reason why there
is none. -/
structure Folder where
  files : List (String × Except String String)

/-- The extension of listings. -/
def extension : String :=
  "javap"

/-- The name in front of the extension of a listing. A dot at the very front
starts no extension. -/
def stem? (file : String) : Option String :=
  match Text.cutLast? '.' file.toList with
  | some (c :: front, ext) =>
    if ext = extension.toList then some (String.ofList (c :: front)) else none
  | _ => none

/-- A path into a directory. -/
def joinPath (dir name : String) : String :=
  if dir = "" ∨ dir.toList.getLast? = some '/' then dir ++ name else dir ++ "/" ++ name

namespace Folder

/-- The names of the listings in ascending order. -/
def names (folder : Folder) : List String :=
  ascending (folder.files.filterMap fun (file, _) => stem? file)

/-- The text of a listing. -/
def text (folder : Folder) (dir name : String) : Except SourceError String :=
  let file := name ++ "." ++ extension
  match folder.files.lookup file with
  | some (.ok text) => .ok text
  | some (.error reason) => .error (.unavailable name (joinPath dir file ++ ": " ++ reason))
  | none => .error (.unavailable name (joinPath dir file))

/-- The classes of all listings. -/
def read (folder : Folder) (dir : String) : Except SourceError (List ClassCode) :=
  folder.names.mapM (readNamed (folder.text dir))

end Folder

/-! ## Directory trees in memory -/

/-- The wording of the reasons for which a file system refuses a path. -/
def noSuchFile : String := "No such file or directory (os error 2)"
def notADirectory : String := "Not a directory (os error 20)"
def isADirectory : String := "Is a directory (os error 21)"
def nameTooLong : String := "File name too long (os error 36)"

/-- The greatest number of bytes in a path. -/
def pathLimit : Nat := 4095

/-- The greatest number of bytes in the name of a file or directory. -/
def nameLimit : Nat := 255

/-- Files by the parts of their path, with their text, and directories without
one. -/
structure FileTree where
  entries : List (List String × Option String)

/-- A place in or above a tree. Nothing is known of the directories above, but
that none of them holds listings. -/
inductive Place where
  | within (parts : List String)
  | above
deriving DecidableEq, Repr

namespace FileTree

/-- The parts of a path. -/
def parts (path : String) : List String :=
  (path.toList.splitOn '/').map String.ofList

/-- A tree of files and directories by path. -/
def ofPaths (paths : List (String × Option String)) : FileTree :=
  ⟨paths.map fun (path, text) =>
    ((parts path).filter fun part => part ≠ "" ∧ part ≠ ".", text)⟩

/-- The text of the file at a place. -/
def file? (t : FileTree) : Place → Option String
  | .within place => (t.entries.find? fun entry => entry.1 == place && entry.2.isSome).bind Prod.snd
  | .above => none

/-- The file or directory of a name in the directory at a place, if there is one,
perhaps only on the way to another. -/
def child? (t : FileTree) (name : String) : Place → Option Place
  | .within place =>
    if t.entries.any fun entry => (place ++ [name]).isPrefixOf entry.1 then
      some (.within (place ++ [name]))
    else none
  | .above => none

/-- The directory above a place. -/
def parent : Place → Place
  | .within [] => .above
  | .within place => .within place.dropLast
  | .above => .above

/-- Follows the parts of a path from a place. -/
def follow (t : FileTree) : Place → List String → Except String Place
  | place, [] => .ok place
  | place, part :: rest =>
    if (t.file? place).isSome then .error notADirectory
    else if part = "" ∨ part = "." then t.follow place rest
    else if part = ".." then t.follow (parent place) rest
    else if nameLimit < part.utf8ByteSize then .error nameTooLong
    else
      match t.child? part place with
      | some place => t.follow place rest
      | none => .error noSuchFile

/-- The names directly below a place, each once. -/
def below (t : FileTree) : Place → List String
  | .within place =>
    (t.entries.filterMap fun entry =>
      if place.isPrefixOf entry.1 then (entry.1.drop place.length).head? else none).eraseDups
  | .above => []

/-- The text of the entry of a name in the directory at a place. The directory
was reached by a path, which has to leave room for the name. -/
def entry (t : FileTree) (path : String) (place : Place) (name : String) : Except String String :=
  if pathLimit < (joinPath path name).utf8ByteSize then .error nameTooLong
  else
    match (t.child? name place).bind t.file? with
    | some text => .ok text
    | none => .error isADirectory

/-- The folder that a path leads to. Paths start at the root of the tree, or
above it if a slash stands in front. -/
def folder (t : FileTree) (path : String) : Except String Folder := do
  if path = "" then throw noSuchFile
  if pathLimit < path.utf8ByteSize then throw nameTooLong
  let start := if path.toList.head? = some '/' then .above else .within []
  let place ← t.follow start (parts path)
  if (t.file? place).isSome then throw notADirectory
  return ⟨(t.below place).map fun name => (name, t.entry path place name)⟩

end FileTree

end ClassMachine.Cli
