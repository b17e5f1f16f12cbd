import Tabula.Number.Decimal

/-!
# Faults of files

The reasons for which a path is refused, nearly all of them by the operating system.
-/

namespace Tabula.File

/-- Why an operation on a path fails. -/
inductive Fault where
  /-- Some part of the path does not exist. -/
  | notFound
  /-- The path exists already. -/
  | alreadyExists
  /-- A file stands where a directory is needed. -/
  | notDirectory
  /-- A directory stands where a file is needed. -/
  | isDirectory
  /-- The path or one of its parts has too many bytes. -/
  | nameTooLong
  /-- The path holds a NUL character, so it reaches no operating system at all. -/
  | nulInPath
  /-- Any other reason, by its number and in the operating system's words. No operation on a
  file tree gives it. -/
  | other (number : Nat) (description : String)
deriving DecidableEq, Repr

/-- The wording of a fault, with its number if the operating system gave one. -/
def Fault.message : Fault → String
  | notFound => "No such file or directory (os error 2)"
  | alreadyExists => "File exists (os error 17)"
  | notDirectory => "Not a directory (os error 20)"
  | isDirectory => "Is a directory (os error 21)"
  | nameTooLong => "File name too long (os error 36)"
  | nulInPath => "file name contained an unexpected NUL byte"
  | other number description => s!"{description} (os error {naturalText number})"

end Tabula.File
