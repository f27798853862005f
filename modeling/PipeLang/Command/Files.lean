/-!
# Source files

`Path.extension?` is what stands behind the last point of a file's name. A directory of
files (`FileTree`) answers a path with the bytes of a file or with the reason why there are
none : a part of the path may not exist, be too long, or be a file where a directory is
needed.
-/

namespace PipeLang

/-! ## Paths -/

namespace Path

/-- The parts between slashes. -/
def split : List Char → List (List Char)
  | [] => [[]]
  | '/' :: cs => [] :: split cs
  | c :: cs =>
    match split cs with
    | [] => [[c]]
    | part :: parts => (c :: part) :: parts

/-- The parts that name something : empty parts and single points name nothing. -/
def parts (path : String) : List String :=
  ((split path.toList).map String.ofList).filter fun p => p ≠ "" && p ≠ "."

/-- The name of the file : the last part, unless that leads upwards. -/
def fileName? (path : String) : Option String :=
  (parts path).getLast?.filter (· ≠ "..")

/-- What stands behind the last point of a name, if something stands before it. -/
def extensionOf? (name : List Char) : Option (List Char) :=
  let behind := (name.reverse.takeWhile (· ≠ '.')).reverse
  let before := name.take (name.length - behind.length - 1)
  if behind.length = name.length || before.isEmpty then none else some behind

/-- The extension of the file that a path names. -/
def extension? (path : String) : Option String :=
  (fileName? path).bind fun name => (extensionOf? name.toList).map String.ofList

/-- The path can only name a directory. -/
def namesDirectory (path : String) : Bool :=
  match (split path.toList).getLast? with
  | some [] => true
  | some ['.'] => true
  | _ => false

end Path

/-! ## Reading -/

/-- Why a file could not be read or written. -/
inductive FileError where
  | notFound
  | notDirectory
  | isDirectory
  | nameTooLong
  | notText
  | other (text : String)
deriving DecidableEq

/-- The text of a file error. -/
def FileError.text : FileError → String
  | notFound => "No such file or directory (os error 2)"
  | notDirectory => "Not a directory (os error 20)"
  | isDirectory => "Is a directory (os error 21)"
  | nameTooLong => "File name too long (os error 36)"
  | notText => "stream did not contain valid UTF-8"
  | other text => text

/-- The text of a file. -/
def FileError.decode (bytes : ByteArray) : Except FileError String :=
  match String.fromUTF8? bytes with
  | some text => .ok text
  | none => .error .notText

/-- The most bytes that a name may have. -/
def nameLimit : Nat := 255

/-- The most bytes that a path may have. -/
def pathLimit : Nat := 4095

/-- What stands at a place. -/
inductive Entry where
  | file (bytes : ByteArray)
  | directory

/-- The files and directories of one directory, by the parts of their paths. -/
structure FileTree where
  files : List (List String × ByteArray)
  directories : List (List String)

namespace FileTree

/-- A directory with nothing in it. -/
def empty : FileTree := ⟨[], []⟩

/-- There is a directory at a place, if only because something lies in it. -/
def isDirectory (t : FileTree) (place : List String) : Bool :=
  place.isEmpty
    || t.directories.any (place.isPrefixOf ·)
    || t.files.any fun (p, _) => place.isPrefixOf p && p ≠ place

/-- What stands at a place, if anything does. -/
def entry? (t : FileTree) (place : List String) : Option Entry :=
  match t.files.lookup place with
  | some bytes => some (.file bytes)
  | none => if t.isDirectory place then some .directory else none

/-- What the parts of a path lead to. Every part is looked up in a directory, and its name is
measured there. Outside of the tree there are only empty directories. -/
def follow (t : FileTree) (place : List String) : List String → Except FileError Entry
  | [] =>
    match t.entry? place with
    | some entry => .ok entry
    | none => .error .notFound
  | part :: parts =>
    match t.entry? place with
    | none => .error .notFound
    | some (.file _) => .error .notDirectory
    | some .directory =>
      if part = ".." then
        if place.isEmpty then empty.follow [] parts else t.follow place.dropLast parts
      else if nameLimit < part.utf8ByteSize then .error .nameTooLong
      else t.follow (place ++ [part]) parts

/-- The bytes of the file that a path names. -/
def read (t : FileTree) (path : String) : Except FileError ByteArray := do
  if pathLimit < path.utf8ByteSize then throw .nameTooLong
  if path.isEmpty then throw .notFound
  let start := if path.startsWith "/" then empty else t
  match ← start.follow [] (Path.parts path) with
  | .file bytes => if Path.namesDirectory path then throw .notDirectory else pure bytes
  | .directory => throw .isDirectory

/-- Write a file of the directory itself. The file may be there already, a directory of its
name may not. -/
def create (t : FileTree) (name : String) (bytes : ByteArray) : Except FileError FileTree :=
  match t.entry? [name] with
  | some .directory => .error .isDirectory
  | _ => .ok { t with files := ([name], bytes) :: t.files }

end FileTree

end PipeLang
