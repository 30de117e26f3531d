/-!
This module contains the command line. Arguments are taken from left to right, and the first one
that settles the matter does: a request for help or for the version, or a mistake.
-/

namespace CallCountLint.Cli

structure Options where
  path : String
  config : Option String := none
  deprecatedIn : Option String := none
  removedIn : Option String := none
  fix : Bool := false
  json : Bool := false
  deriving DecidableEq, Repr

inductive Command where
  | help
  | version
  | misuse
  | analyze (options : Options)
  deriving DecidableEq, Repr

def helpText : String :=
  "Usage: repeated-assertion-lint analyze [OPTIONS] <PATH>\n\n"
    ++ "Options:\n"
    ++ "      --config <PATH>            Read deprecation versions from a JSON file\n"
    ++ "      --deprecated-in <VERSION>  Version in which the assertion is deprecated\n"
    ++ "      --removed-in <VERSION>     Version in which the assertion is removed\n"
    ++ "      --fix                      Rewrite deprecated assertions in place\n"
    ++ "      --json                     Print diagnostics and replacements as JSON\n"
    ++ "  -h, --help                     Print help\n"

def versionText : String := "repeated-assertion-lint 0.1.0\n"

inductive Argument where
  /-- `--`, after which every argument is plain. -/
  | terminator
  | long (name : List Char) (value : Option (List Char))
  /-- A dash with at least one letter. Only the first letter matters. -/
  | short (letter : Char)
  | plain
  deriving DecidableEq, Repr

def Argument.ofString (text : String) : Argument :=
  match text.toList with
  | ['-', '-'] => .terminator
  | '-' :: '-' :: text =>
    match text.dropWhile (· != '=') with
    | _ :: value => .long (text.takeWhile (· != '=')) (some value)
    | [] => .long text none
  | '-' :: letter :: _ => .short letter
  | _ => .plain

inductive Setting where
  | config
  | deprecatedIn
  | removedIn
  deriving DecidableEq, Repr

inductive Flag where
  | fix
  | json
  deriving DecidableEq, Repr

def Setting.ofName? (name : List Char) : Option Setting :=
  if name = "config".toList then some .config
  else if name = "deprecated-in".toList then some .deprecatedIn
  else if name = "removed-in".toList then some .removedIn
  else none

def Flag.ofName? (name : List Char) : Option Flag :=
  if name = "fix".toList then some .fix
  else if name = "json".toList then some .json
  else none

structure Given where
  path : Option String := none
  config : Option String := none
  deprecatedIn : Option String := none
  removedIn : Option String := none
  fix : Bool := false
  json : Bool := false
  deriving DecidableEq, Repr

namespace Given

def setPath? (given : Given) (path : String) : Option Given :=
  if given.path.isNone ∧ path ≠ "" then some { given with path := some path } else none

/--
Give an option with its value. Each may be given once, and the path of the configuration may not be
empty.
-/
def set? (given : Given) (setting : Setting) (value : String) : Option Given :=
  match setting with
  | .config =>
    if given.config.isNone ∧ value ≠ "" then some { given with config := some value } else none
  | .deprecatedIn =>
    if given.deprecatedIn.isNone then some { given with deprecatedIn := some value } else none
  | .removedIn =>
    if given.removedIn.isNone then some { given with removedIn := some value } else none

def setFlag? (given : Given) : Flag → Option Given
  | .fix => if given.fix then none else some { given with fix := true }
  | .json => if given.json then none else some { given with json := true }

def toCommand (given : Given) : Command :=
  match given with
  | { path := some path, config, deprecatedIn, removedIn, fix, json } =>
    .analyze { path, config, deprecatedIn, removedIn, fix, json }
  | _ => .misuse

end Given

namespace Command

def ofPlain (given : Given) : List String → Command
  | [] => given.toCommand
  | argument :: arguments =>
    match given.setPath? argument with
    | some given => ofPlain given arguments
    | none => .misuse

/--
Take the arguments after `analyze`. The value of an option may follow it as a plain argument.
-/
def ofAnalyze (given : Given) : List String → Command
  | [] => given.toCommand
  | argument :: arguments =>
    match Argument.ofString argument with
    | .terminator => ofPlain given arguments
    | .short letter => if letter = 'h' then .help else .misuse
    | .plain =>
      match given.setPath? argument with
      | some given => ofAnalyze given arguments
      | none => .misuse
    | .long name value =>
      match Setting.ofName? name, value with
      | some setting, some value =>
        match given.set? setting (String.ofList value) with
        | some given => ofAnalyze given arguments
        | none => .misuse
      | some setting, none =>
        match arguments with
        | [] => .misuse
        | value :: arguments =>
          if Argument.ofString value = .plain then
            match given.set? setting value with
            | some given => ofAnalyze given arguments
            | none => .misuse
          else
            .misuse
      | none, some _ => .misuse
      | none, none =>
        if name = "help".toList then
          .help
        else
          match (Flag.ofName? name).bind given.setFlag? with
          | some given => ofAnalyze given arguments
          | none => .misuse

def ofArguments : List String → Command
  | [] => .misuse
  | "analyze" :: arguments => ofAnalyze {} arguments
  | "help" :: names =>
    if names = [] ∨ names = ["analyze"] ∨ names = ["help"] then .help else .misuse
  | argument :: _ =>
    match Argument.ofString argument with
    | .long name none =>
      if name = "help".toList then .help
      else if name = "version".toList then .version
      else .misuse
    | .short letter =>
      if letter = 'h' then .help else if letter = 'V' then .version else .misuse
    | _ => .misuse

end Command

end CallCountLint.Cli
