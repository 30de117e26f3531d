import CallCountLint.Text.Offset

/-!
This module contains a model of the files that a run can reach: a directory with everything beneath
it. A path is relative to that directory. Of the world outside, only its directories are known to be
there.
-/

namespace CallCountLint.Cli

inductive FileError where
  | notFound
  | isDirectory
  | notDirectory
  | notText
  | other (message : String)
  deriving DecidableEq, Repr

def FileError.message : FileError → String
  | .notFound => "No such file or directory (os error 2)"
  | .isDirectory => "Is a directory (os error 21)"
  | .notDirectory => "Not a directory (os error 20)"
  | .notText => "stream did not contain valid UTF-8"
  | .other message => message

def decodeText (bytes : ByteArray) : Except FileError Text :=
  match String.fromUTF8? bytes with
  | some text => .ok text.toList
  | none => .error .notText

def encodeText (text : Text) : ByteArray :=
  (String.ofList text).toUTF8

structure File where
  name : List String
  bytes : ByteArray

instance : DecidableEq File := fun a b =>
  decidable_of_iff (a.name = b.name ∧ a.bytes.data = b.bytes.data) (by
    cases a
    cases b
    simp [ByteArray.ext_iff])

/--
A set of files. There are as many directories as the names of the files need.
-/
structure FileSystem where
  files : List File
  deriving DecidableEq

namespace FileSystem

inductive Place where
  | inside (directory : List String)
  | outside
  deriving DecidableEq, Repr

def find? (fileSystem : FileSystem) (name : List String) : Option File :=
  fileSystem.files.find? (·.name == name)

def isDirectory (fileSystem : FileSystem) (name : List String) : Bool :=
  fileSystem.files.any fun file => name.isPrefixOf file.name

def follow (fileSystem : FileSystem) : Place → List String → Except FileError (List String)
  | _, [] => .error .isDirectory
  | .outside, part :: parts =>
    if part = "" ∨ part = "." ∨ part = ".." then fileSystem.follow .outside parts
    else .error .notFound
  | .inside directory, part :: parts =>
    if part = "" ∨ part = "." then
      fileSystem.follow (.inside directory) parts
    else if part = ".." then
      fileSystem.follow (if directory = [] then .outside else .inside directory.dropLast) parts
    else
      let name := directory ++ [part]
      if (fileSystem.find? name).isSome then
        if parts = [] then .ok name else .error .notDirectory
      else if fileSystem.isDirectory name then
        fileSystem.follow (.inside name) parts
      else
        .error .notFound

def resolve (fileSystem : FileSystem) (path : String) : Except FileError (List String) :=
  if path = "" then
    .error .notFound
  else if path.toList.head? = some '/' then
    fileSystem.follow .outside (path.splitOn "/")
  else
    fileSystem.follow (.inside []) (path.splitOn "/")

def read (fileSystem : FileSystem) (path : String) : Except FileError Text := do
  let name ← fileSystem.resolve path
  match fileSystem.find? name with
  | some file => decodeText file.bytes
  | none => throw .notFound

/--
Replace the contents of a file that is there.
-/
def write (fileSystem : FileSystem) (path : String) (text : Text) : FileSystem :=
  match fileSystem.resolve path with
  | .ok name =>
    { files := fileSystem.files.map fun file =>
        if file.name = name then { file with bytes := encodeText text } else file }
  | .error _ => fileSystem

end FileSystem

end CallCountLint.Cli
