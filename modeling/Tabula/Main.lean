import Tabula.CommandLine

/-!
# The program

The command line on the files of the machine. What the arguments mean, what becomes of the
bytes of an input and how every failure reads is settled elsewhere; only the access to
files and the printing happen here.
-/

namespace Tabula.CommandLine

/-- The number and the description of a failure of the operating system. -/
def failureReason : IO.Error → UInt32 × String
  | .otherError number text | .resourceBusy number text | .resourceVanished number text
  | .unsupportedOperation number text | .hardwareFault number text
  | .unsatisfiedConstraints number text | .illegalOperation number text
  | .protocolError number text | .timeExpired number text | .interrupted _ number text
  | .noFileOrDirectory _ number text | .invalidArgument _ number text
  | .permissionDenied _ number text | .resourceExhausted _ number text
  | .inappropriateType _ number text | .alreadyExists _ number text
  | .noSuchThing _ number text => (number, text)
  | .unexpectedEof => (0, "Unexpected end of file")
  | .userError text => (0, text)

/-- The reason for which an operation on a file failed. -/
def fileFault (error : IO.Error) : File.Fault :=
  match failureReason error with
  | (2, _) => .notFound
  | (17, _) => .alreadyExists
  | (20, _) => .notDirectory
  | (21, _) => .isDirectory
  | (36, _) => .nameTooLong
  | (number, text) => .other number.toNat text

/-- Runs an operation on the file of a path and keeps the reason of its failure. What the
path itself forbids is not tried. -/
def attempt {α : Type} (path : String) (operation : IO α) : IO (Except File.Fault α) := do
  if let .error reason := File.Tree.checkPath path then
    return .error reason
  try
    return .ok (← operation)
  catch error =>
    return .error (fileFault error)

/-- The number of bytes that a file has from here on. They are counted and not kept. -/
def countBytes (handle : IO.FS.Handle) : IO Nat := do
  let mut counted := 0
  repeat
    let chunk ← handle.read 65536
    if chunk.isEmpty then
      break
    counted := counted + chunk.size
  return counted

/-- The bytes of an input, which are taken in only after its size is checked. -/
def readInput (input : String) (limit : Nat) (handle : IO.FS.Handle) :
    ExceptT Conversion.Fault IO ByteArray := do
  Conversion.checkSize limit input (← countBytes handle)
  handle.rewind
  handle.readBinToEnd

/-- The artifacts of the input. A file that is there but cannot be read is no readable
source; without one there is nothing to look at. -/
def readArtifacts (options : Conversion.Options) (limit : Nat) :
    ExceptT Conversion.Fault IO (List Artifact) := do
  Conversion.checkName options.input
  let read ← attempt options.input
    (IO.FS.withFile options.input .read fun handle => (readInput options.input limit handle).run)
  match read with
  | .ok data => Conversion.artifactsOf options (.ok (.file (.bytes (← data))))
  | .error .isDirectory =>
      let directory := File.Node.emptyDirectory
      Conversion.checkSize limit options.input directory.size
      Conversion.artifactsOf options (.ok directory)
  | .error (.other number text) => Conversion.artifactsOf options (.error (.other number text))
  | .error reason => throw (.file options.input reason)

/-- Makes a directory, unless the path leads to one already: a dot below the path can be
there only then. -/
def ensureDirectory (path : String) : IO (Except File.Fault Unit) := do
  match ← attempt path (IO.FS.createDir path) with
  | .ok () => return .ok ()
  | .error reason =>
      let inside := File.Path.join path "."
      match ← attempt inside (IO.FS.createDir inside) with
      | .error .alreadyExists => return .ok ()
      | _ => return .error reason

/-- Makes the directory that a path names, and those around it only if the path fails
because they are missing. -/
def makeDirectories (path : String) : IO (Except File.Fault Unit) := do
  if path = "" then
    return .ok ()
  match ← ensureDirectory path with
  | .error .notFound =>
      for outer in File.Tree.ancestors path do
        if let .error reason ← ensureDirectory outer then
          return .error reason
      ensureDirectory path
  | outcome => return outcome

/-- Writes the artifacts, one file each, and gives their paths. -/
def writeArtifacts (options : Conversion.Options) (artifacts : List Artifact) :
    ExceptT Conversion.Fault IO (List String) := do
  if let .error reason ← makeDirectories options.directory then
    throw (.writing ⟨options.directory, reason⟩)
  artifacts.mapM fun artifact => do
    let path := Export.filePath options.directory options.form artifact
    let text := artifact.document.print options.form.style
    if let .error reason ← attempt path (IO.FS.writeFile path text) then
      throw (.writing ⟨path, reason⟩)
    return path

/-- Converts the input of a request. -/
def convert (options : Conversion.Options) (limit : Nat) :
    ExceptT Conversion.Fault IO Conversion.Summary := do
  let artifacts ← readArtifacts options limit
  let written ← if options.dryRun then pure [] else writeArtifacts options artifacts
  return { artifacts := artifacts.map Artifact.name, written }

/-- The answer to the arguments of the program. -/
def respond (arguments : List String) : IO Response := do
  match Request.ofArguments arguments with
  | .version => return .version
  | .help => return .help
  | .misuse =>
      IO.eprintln usageLine
      return .misuse
  | .convert options =>
      let limit := Conversion.sizeLimit (← IO.getEnv limitVariable)
      return .ofConversion options (← (convert options limit).run)

end Tabula.CommandLine

/-- Answers the arguments of the program, and ends with the exit code of the answer. -/
def main (arguments : List String) : IO UInt32 := do
  let response ← Tabula.CommandLine.respond arguments
  for line in response.output do
    IO.println line
  if let some message := response.failure then
    IO.eprintln ("Error: " ++ message)
  return response.code.toUInt32
