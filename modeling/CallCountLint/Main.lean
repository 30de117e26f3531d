import CallCountLint.Cli.Run

/-!
This module contains the program. The linter does not parse: the tree of the file is read from
standard input, one row a line.
-/

namespace CallCountLint.Cli

open Syntax

/--
The cause of a system error. Its code may be negated.
-/
def FileError.ofError : IO.Error → FileError
  | .noFileOrDirectory .. => .notFound
  | .inappropriateType _ code message =>
    match min code (0 - code) with
    | 20 => .notDirectory
    | 21 => .isDirectory
    | _ => .other message
  | error => .other error.toString

def readDisk (path : String) : IO (Except FileError Text) := do
  try
    return decodeText (← IO.FS.readBinFile path)
  catch error =>
    return .error (.ofError error)

partial def readLines (stream : IO.FS.Stream) (lines : Array String) : IO (Array String) := do
  let line ← stream.getLine
  if line.isEmpty then
    return lines
  else
    readLines stream (lines.push line.trimAscii.toString)

def readTree : IO (Option ParseTree) := do
  let lines ← readLines (← IO.getStdin) #[]
  return (lines.toList.mapM ParseTree.Row.ofLine?).bind ParseTree.ofRows?

def analyzeDisk (options : Options) : IO UInt32 := do
  let config ← match options.config with
    | some path => readDisk path
    | none => pure (.error .notFound)
  let source ← readDisk options.path
  let read := fun path => if some path = options.config then config else source
  let tree ← match source with
    | .ok _ => readTree
    | .error _ => pure (some default)
  let some tree := tree
    | IO.eprintln "error: no syntax tree on standard input"
      return 1
  let effects := options.effects read fun _ => tree
  IO.print effects.output.text
  if let some content := effects.content then
    try
      IO.FS.writeBinFile options.path (encodeText content)
    catch error =>
      IO.eprintln ("error: " ++ (FileError.ofError error).message)
      return 1
  if let some message := effects.failure.bind Failure.message? then
    IO.eprintln ("error: " ++ message)
  return ((effects.failure.map Failure.status).getD 0).toUInt32

end CallCountLint.Cli

open CallCountLint.Cli in
def main (arguments : List String) : IO UInt32 := do
  match Command.ofArguments arguments with
  | .help =>
    IO.print helpText
    return 0
  | .version =>
    IO.print versionText
    return 0
  | .misuse =>
    IO.eprint helpText
    return 2
  | .analyze options => analyzeDisk options
