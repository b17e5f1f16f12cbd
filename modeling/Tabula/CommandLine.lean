import Tabula.Conversion

/-!
# The command line

Arguments are read from left to right. A setting takes its value from the same argument,
behind an equals sign or, in its short form, directly behind its letter, or else from the
next argument. Letters of switches can be run together. Two hyphens alone make all later
arguments input files. A request for the version or for help ends the reading, so only
misuse in front of it is noticed.
-/

namespace Tabula.CommandLine

/-- An option that takes a value. -/
inductive Setting where
  | directory
  | nameHead
  | rowsField
deriving DecidableEq, Repr

/-- An option without a value. -/
inductive Switch where
  | pretty
  | dryRun
  | verbose
  | version
  | help
deriving DecidableEq, Repr

/-- What the name of an option stands for. -/
inductive Meaning where
  | setting (setting : Setting)
  | switch (switch : Switch)
deriving DecidableEq, Repr

/-- The options by their long names. -/
def longNames : Entries String Meaning :=
  [("outdir", .setting .directory), ("prefix", .setting .nameHead),
    ("default-key", .setting .rowsField), ("pretty", .switch .pretty),
    ("dry-run", .switch .dryRun), ("verbose", .switch .verbose),
    ("version", .switch .version), ("help", .switch .help)]

/-- The options by their letters. -/
def letters : Entries Char Meaning :=
  [('o', .setting .directory), ('v', .switch .verbose), ('V', .switch .version),
    ('h', .switch .help)]

/-- What a list of arguments asks for. -/
inductive Request where
  | convert (options : Conversion.Options)
  | version
  | help
  | misuse
deriving DecidableEq, Repr

/-- The arguments read so far. -/
structure Arguments where
  input : Option String := none
  settings : Entries Setting String := []
  switches : List Switch := []
deriving DecidableEq, Repr

namespace Arguments

/-- Sets a switch. The version and help switches are requests of their own; the others
must not be repeated. -/
def turnOn (given : Arguments) (switch : Switch) : Except Request Arguments :=
  match switch with
  | .version => .error .version
  | .help => .error .help
  | other =>
      if other ∈ given.switches then .error .misuse
      else .ok { given with switches := other :: given.switches }

/-- Gives a setting its value. No setting is given twice, and the directory is not
empty. -/
def assign (given : Arguments) (setting : Setting) (value : String) :
    Except Request Arguments :=
  if (Entries.get? given.settings setting).isSome ∨ (setting = .directory ∧ value = "") then
    .error .misuse
  else
    .ok { given with settings := (setting, value) :: given.settings }

/-- Takes the one input file, which is not empty. -/
def addInput (given : Arguments) (value : String) : Except Request Arguments :=
  if given.input.isSome ∨ value = "" then .error .misuse
  else .ok { given with input := some value }

/-- Reads an option by its long name, with a value behind an equals sign if there is one.
The result says which setting still needs a value. -/
def readLong (given : Arguments) (text : List Char) :
    Except Request (Arguments × Option Setting) :=
  let (name, value) := match Text.cut? '=' text with
    | some (name, value) => (name, some value)
    | none => (text, none)
  match Entries.get? longNames (String.ofList name), value with
  | some (.switch switch), none => (given.turnOn switch).map (·, none)
  | some (.setting setting), some value =>
      (given.assign setting (String.ofList value)).map (·, none)
  | some (.setting setting), none => .ok (given, some setting)
  | _, _ => .error .misuse

/-- Reads a run of letters. What follows the letter of a setting is its value. -/
def readLetters (given : Arguments) : List Char → Except Request (Arguments × Option Setting)
  | [] => .ok (given, none)
  | letter :: rest =>
      match Entries.get? letters letter with
      | some (.switch switch) =>
          match given.turnOn switch with
          | .error request => .error request
          | .ok next => readLetters next rest
      | some (.setting setting) =>
          match rest with
          | [] => .ok (given, some setting)
          | '=' :: value => (given.assign setting (String.ofList value)).map (·, none)
          | value => (given.assign setting (String.ofList value)).map (·, none)
      | none => .error .misuse

/-- Whether an argument cannot be the value of a setting in front of it. -/
def looksLikeOption (argument : String) : Bool :=
  argument.toList.head? = some '-' && argument ≠ "-"

/-- Reads one argument where no value is expected and options are allowed. -/
def readOne (given : Arguments) (argument : String) :
    Except Request (Arguments × Option Setting) :=
  match argument.toList with
  | '-' :: '-' :: text => given.readLong text
  | '-' :: letter :: rest => given.readLetters (letter :: rest)
  | _ => (given.addInput argument).map (·, none)

/-- Reads the remaining arguments. A setting in `awaited` takes the next one as its value,
and after two hyphens alone only inputs are left. -/
def readAll (given : Arguments) (awaited : Option Setting) (onlyInputs : Bool) :
    List String → Except Request Arguments
  | [] => if awaited.isSome then .error .misuse else .ok given
  | argument :: rest =>
      match awaited with
      | some setting =>
          if looksLikeOption argument then
            .error .misuse
          else
            match given.assign setting argument with
            | .error request => .error request
            | .ok next => readAll next none onlyInputs rest
      | none =>
          if onlyInputs then
            match given.addInput argument with
            | .error request => .error request
            | .ok next => readAll next none true rest
          else if argument = "--" then
            readAll given none true rest
          else
            match given.readOne argument with
            | .error request => .error request
            | .ok (next, awaited) => readAll next awaited false rest

/-- The conversion that complete arguments ask for. Without an input they are misused. -/
def request (given : Arguments) : Request :=
  match given.input with
  | none => .misuse
  | some input =>
      let value (setting : Setting) (default : String) :=
        (Entries.get? given.settings setting).getD default
      .convert
        { input
          directory := value .directory "."
          form :=
            { nameHead := value .nameHead ""
              style := if .pretty ∈ given.switches then .indented else .compact }
          rowsField := value .rowsField "data"
          dryRun := .dryRun ∈ given.switches }

end Arguments

/-- What a list of arguments asks for. -/
def Request.ofArguments (arguments : List String) : Request :=
  match Arguments.readAll {} none false arguments with
  | .ok given => given.request
  | .error request => request

/-- What the program answers: its exit code, the lines of its output and the message of a
failure. -/
structure Response where
  code : Nat
  output : List String := []
  failure : Option String := none
deriving DecidableEq, Repr

/-- The name that the program goes by. -/
def programName : String := "sheetjson"

/-- The line that answers a request for the version. -/
def versionLine : String := programName ++ " 1.0.0"

/-- The environment variable that sets the size limit of inputs. -/
def limitVariable : String := programName.map Char.toUpper ++ "_MAX_FILE_SIZE"

/-- The line that shows how the program is used. -/
def usageLine : String := "Usage: " ++ programName ++ " [OPTIONS] <FILE>"

/-- The lines that answer a request for help. -/
def helpLines : List String :=
  ["Convert spreadsheets into nested JSON documents", "", usageLine, "",
    "  -o, --outdir <OUTDIR>            Output directory [default: .]",
    "      --prefix <PREFIX>            Start of every output file name",
    "      --pretty                     Pretty-print the documents",
    "      --default-key <DEFAULT_KEY>  Field for the rows of a table [default: data]",
    "      --dry-run                    List the documents without writing files",
    "  -v, --verbose                    Log details",
    "  -h, --help                       Print help",
    "  -V, --version                    Print version"]

/-- The answer to a request for the version. -/
def Response.version : Response :=
  { code := 0, output := [versionLine] }

/-- The answer to a request for help. -/
def Response.help : Response :=
  { code := 0, output := helpLines }

/-- The answer to misused arguments. -/
def Response.misuse : Response :=
  { code := 2 }

/-- The answer to a finished conversion: the paths written or, on a dry run, the names of
the artifacts. -/
def Response.ofConversion (options : Conversion.Options) :
    Except Conversion.Fault Conversion.Summary → Response
  | .error fault => { code := 1, failure := some fault.message }
  | .ok summary =>
      { code := 0, output := if options.dryRun then summary.artifacts else summary.written }

/-- Runs the program on a file tree, with the text of its size limit setting. -/
def run (arguments : List String) (limitSetting : Option String) (tree : File.Tree) :
    File.Tree × Response :=
  match Request.ofArguments arguments with
  | .version => (tree, .version)
  | .help => (tree, .help)
  | .misuse => (tree, .misuse)
  | .convert options =>
      let (after, outcome) := Conversion.run options (Conversion.sizeLimit limitSetting) tree
      (after, .ofConversion options outcome)

end Tabula.CommandLine
