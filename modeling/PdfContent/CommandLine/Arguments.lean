import PdfContent.Session

/-!
The arguments of the command line: a command, a file and options. Arguments are read from left to
right. An option may have its value behind an equals sign or as the next argument; such a value is
checked only when the argument after it turns out to be known, so the first argument that cannot
stand where it stands is what is reported.
-/

namespace PdfContent.CommandLine

inductive Command
  | ops
  | transparency
  deriving DecidableEq, Inhabited

inductive OutputFormat
  | text
  | json
  deriving DecidableEq, Inhabited

structure Request where
  command : Command
  file : String
  pages : Option String := none
  format : OutputFormat := .text
  options : Options := {}
  deriving Inhabited

inductive Stop
  | help
  | version
  | nothingGiven
  | unknownArgument
  | unknownCommand
  | commandMissing
  | fileMissing
  | valueMissing
  | valueNotListed
  | valueInvalid
  | valueUnexpected
  | givenTwice
  deriving DecidableEq, Inhabited

def Stop.isError : Stop → Bool
  | help => false
  | version => false
  | _ => true

def Stop.message : Stop → String
  | help => "help was asked for"
  | version => "the version was asked for"
  | nothingGiven => "no command is given"
  | unknownArgument => "an argument is not known here"
  | unknownCommand => "the command is not known"
  | commandMissing => "the command is missing"
  | fileMissing => "the file is missing"
  | valueMissing => "an option lacks its value"
  | valueNotListed => "the value of an option is not one of its values"
  | valueInvalid => "the value of an option cannot be read"
  | valueUnexpected => "an option that has no value was given one"
  | givenTwice => "an option was given twice"

inductive Setting
  | file
  | logLevel
  | pages
  | format
  | flavour
  | formLimit
  deriving DecidableEq, Inhabited

inductive Flag
  | help
  | version
  | noWarnings
  | setting (setting : Setting)
  deriving DecidableEq, Inhabited

inductive Place
  | front
  | behind (command : Command)
  deriving DecidableEq, Inhabited

def Command.ofName? (name : String) : Option Command :=
  if name == "ops" then some ops
  else if name == "transparency" then some transparency
  else none

namespace Place

def flag? (place : Place) (name : String) : Option Flag :=
  if name == "help" then some .help
  else if name == "log-level" then some (.setting .logLevel)
  else
    match place with
    | front => if name == "version" then some .version else none
    | behind _ =>
      if name == "pages" then some (.setting .pages)
      else if name == "format" then some (.setting .format)
      else if name == "flavour" then some (.setting .flavour)
      else if name == "max-depth" then some (.setting .formLimit)
      else if name == "no-warnings" then some .noWarnings
      else none

def shortFlag? (place : Place) (letter : Char) : Option Flag :=
  if letter == 'h' then some .help
  else if letter == 'V' && place == front then some .version
  else none

end Place

structure Reading where
  file : Option String := none
  fileNamed : Bool := false
  logLevel : Option String := none
  pages : Option String := none
  format : Option OutputFormat := none
  flavour : Option Flavour := none
  formLimit : Option Nat := none
  noWarnings : Bool := false
  /-- A setting that was named last, with its value if that was given too. -/
  pending : Option (Setting × Option String) := none
  flagsEnded : Bool := false

namespace Reading

def has (r : Reading) : Setting → Bool
  | .file => r.file.isSome
  | .logLevel => r.logLevel.isSome
  | .pages => r.pages.isSome
  | .format => r.format.isSome
  | .flavour => r.flavour.isSome
  | .formLimit => r.formLimit.isSome

def formatOf? (value : String) : Option OutputFormat :=
  if value == "text" then some .text
  else if value == "json" then some .json
  else none

def store (r : Reading) (setting : Setting) (value : String) : Except Stop Reading :=
  match setting with
  | .file => if value == "" then .error .valueMissing else .ok { r with file := some value }
  | .logLevel => .ok { r with logLevel := some value }
  | .pages => .ok { r with pages := some value }
  | .format =>
    match formatOf? value with
    | some format => .ok { r with format := some format }
    | none => .error .valueNotListed
  | .flavour =>
    match Flavour.parse value with
    | .ok flavour => .ok { r with flavour := some flavour }
    | .error _ => .error .valueInvalid
  | .formLimit =>
    match Numeral.parse? 10 Numeral.greatest64 value.toList with
    | some limit => .ok { r with formLimit := some limit }
    | none => .error .valueInvalid

def set (r : Reading) (setting : Setting) (value : String) : Except Stop Reading :=
  if r.has setting then .error .givenTwice else r.store setting value

def settle (r : Reading) : Except Stop Reading :=
  match r.pending with
  | none => .ok r
  | some (_, none) => .error .valueMissing
  | some (setting, some value) => { r with pending := none }.set setting value

def awaitsValue? (r : Reading) : Option Setting :=
  match r.pending with
  | some (setting, none) => some setting
  | _ => none

def applyFlag (r : Reading) (flag : Flag) (value : Option String) : Except Stop Reading :=
  match flag, value with
  | .setting setting, some value => do (← r.settle).set setting value
  | .setting setting, none => return { ← r.settle with pending := some (setting, none) }
  | _, some _ => .error .valueUnexpected
  | .help, none => do
    let _ ← r.settle
    throw .help
  | .version, none => do
    let _ ← r.settle
    throw .version
  | .noWarnings, none => do
    let r ← r.settle
    if r.noWarnings then throw .givenTwice
    return { r with noWarnings := true }

def readLong (r : Reading) (place : Place) (argument : List Char) : Except Stop Reading :=
  let (name, value) :=
    match Text.cut? ['='] argument with
    | some (name, value) => (name, some (String.ofList value))
    | none => (argument, none)
  match place.flag? (String.ofList name) with
  | some flag => r.applyFlag flag value
  | none => .error .unknownArgument

def readShort (r : Reading) (place : Place) (letter : Char) : Except Stop Reading :=
  match place.shortFlag? letter with
  | some flag => r.applyFlag flag none
  | none => .error .unknownArgument

def readPlain (r : Reading) (place : Place) (argument : String) : Except Stop Reading :=
  match place with
  | .front =>
    let isCommand := (Command.ofName? argument).isSome || argument == "help"
    .error (if r.flagsEnded && isCommand then .unknownArgument else .unknownCommand)
  | .behind _ =>
    if r.fileNamed then .error .unknownArgument
    else do
      return { ← r.settle with pending := some (.file, some argument), fileNamed := true }

def readArgument (r : Reading) (place : Place) (argument : String) : Except Stop Reading :=
  if r.flagsEnded then r.readPlain place argument
  else
    match argument.toList with
    | ['-', '-'] => .ok { r with flagsEnded := true }
    | '-' :: '-' :: name => r.readLong place name
    | '-' :: letter :: _ => r.readShort place letter
    | _ =>
      match r.awaitsValue? with
      | some setting => .ok { r with pending := some (setting, some argument) }
      | none => r.readPlain place argument

def options (r : Reading) : Options where
  formLimit := r.formLimit.getD 10
  collectsWarnings := !r.noWarnings
  flavour := r.flavour

def request (r : Reading) (command : Command) : Except Stop Request := do
  let r ← r.settle
  match r.file with
  | none => throw .fileMissing
  | some file =>
    return { command, file, pages := r.pages, format := r.format.getD .text, options := r.options }

def expectsCommand (r : Reading) : Bool := !r.flagsEnded && r.awaitsValue?.isNone

end Reading

def readBehind (command : Command) (arguments : List String) : Except Stop Request := do
  let start : Reading := {}
  let r ← arguments.foldlM (fun r argument => r.readArgument (.behind command) argument) start
  r.request command

def readHelp : List String → Stop
  | [] => .help
  | [name] => if (Command.ofName? name).isSome || name == "help" then .help else .unknownCommand
  | _ => .unknownCommand

def readFront (r : Reading) : List String → Except Stop Request
  | [] => do
    let r ← r.settle
    throw (if r.has .logLevel then .commandMissing else .nothingGiven)
  | argument :: rest =>
    match if r.expectsCommand then Command.ofName? argument else none with
    | some command => readBehind command rest
    | none =>
      if r.expectsCommand && argument == "help" then .error (readHelp rest)
      else
        match r.readArgument .front argument with
        | .error stop => .error stop
        | .ok r => readFront r rest

def parse (arguments : List String) : Except Stop Request := readFront {} arguments

end PdfContent.CommandLine
