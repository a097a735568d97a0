import PageScript.Text.Fold

/-!
# Paths and files

A path is a text of names with slashes between them.  A file tree is everything below the working
directory: each file with the names on the way to it.  A directory exists if a file is below it;
the working directory always does.

* `Path.extension?`    what is behind the last dot of a file's name;
* `FileTree.entry`     what stands at a path;
* `Entry.read`         the text of a file, or why there is none.
-/

namespace PageScript

/-! ## paths -/

namespace Path

/-- the names in a path; an empty one and a single dot say nothing -/
def names (path : String) : List String :=
  (path.splitOn "/").filter fun name => name ≠ "" ∧ name ≠ "."

def fileName? (path : String) : Option String :=
  match (names path).getLast? with
  | some ".." => none
  | name => name

/-- what is behind the last dot of a file's name; a dot in front of the name does not count -/
def extension? (path : String) : Option String := do
  match (← fileName? path).splitOn "." with
  | [] => none
  | [_] => none
  | ["", _] => none
  | parts => parts.getLast?

def hasExtension (path extension : String) : Bool :=
  match extension? path with
  | some e => Text.sameWord e extension
  | none => false

def join (path name : String) : String :=
  if path.endsWith "/" then path ++ name else path ++ "/" ++ name

def joinAll (path : String) (names : List String) : String := names.foldl join path

end Path

/-! ## files -/

/-- a file below a directory, with the names on the way to it -/
structure FileBelow where
  names : List String
  text : String
deriving DecidableEq

inductive ReadFault
  | missing
  /-- the path leads through a file -/
  | throughFile
  | isDirectory
deriving DecidableEq

def ReadFault.message : ReadFault → String
  | .missing => "No such file or directory (os error 2)"
  | .throughFile => "Not a directory (os error 20)"
  | .isDirectory => "Is a directory (os error 21)"

/-- what stands at a path -/
inductive Entry
  | file (text : String)
  | directory (files : List FileBelow)
  | absent (why : ReadFault)
deriving DecidableEq

def Entry.read : Entry → Except ReadFault String
  | .file text => .ok text
  | .directory _ => .error .isDirectory
  | .absent why => .error why

def Entry.isPresent : Entry → Bool
  | .file _ => true
  | .directory _ => true
  | .absent _ => false

/-- everything below the working directory -/
structure FileTree where
  files : List FileBelow

namespace FileTree

def ofPaths (paths : List (String × String)) : FileTree :=
  ⟨paths.map fun (path, text) => ⟨Path.names path, text⟩⟩

def below (t : FileTree) (names : List String) : List FileBelow :=
  t.files.filterMap fun f =>
    if names.isPrefixOf f.names then some { f with names := f.names.drop names.length } else none

/-- what is reached by names from the working directory -/
def node (t : FileTree) (names : List String) : Entry :=
  match t.files.find? fun f => f.names == names with
  | some f => .file f.text
  | none =>
    let files := t.below names
    if names.isEmpty || !files.isEmpty then .directory files else .absent .missing

/-- goes on from a place; only a directory has anything below or around it -/
def walk (t : FileTree) (here : List String) : List String → Entry
  | [] => t.node here
  | name :: names =>
    match t.node here with
    | .file _ => .absent .throughFile
    | .absent why => .absent why
    | .directory _ =>
      if name = "" ∨ name = "." then t.walk here names
      else if name = ".." then
        if here.isEmpty then .absent .missing else t.walk here.dropLast names
      else t.walk (here ++ [name]) names

/-- what stands at a path; nothing outside of the working directory is known -/
def entry (t : FileTree) (path : String) : Entry :=
  if path = "" ∨ path.startsWith "/" then .absent .missing else t.walk [] (path.splitOn "/")

end FileTree

end PageScript
