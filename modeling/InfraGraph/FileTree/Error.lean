/-!
# Failures of file operations
-/

namespace InfraGraph

/-- What sort of failure it is, as far as callers tell them apart. -/
inductive FailureKind where
  /-- The operation was asked for something that can't be. -/
  | invalidInput
  /-- Nothing is there. -/
  | notFound
  /-- What is there can't be used. -/
  | invalidData
  /-- Anything else. -/
  | other
  deriving DecidableEq, Repr

/-- Why a file operation fails. -/
inductive FileError where
  /-- Nothing is at the path. -/
  | notFound
  /-- Something is already at the path. -/
  | alreadyExists
  /-- A part of the path is no folder. -/
  | notADirectory
  /-- A folder is where a file is needed. -/
  | isADirectory
  /-- A name or the whole path is longer than the system allows. -/
  | nameTooLong
  /-- A folder isn't empty. -/
  | directoryNotEmpty
  /-- Too many symbolic links lead on. -/
  | tooManyLinks
  /-- The path contains a zero character. -/
  | zeroInPath
  /-- The contents are not text. -/
  | notText
  /-- A failure that comes with its own wording. -/
  | reported (kind : FailureKind) (message : String)
  deriving DecidableEq, Repr

namespace FileError

/-- The wording of a failure. -/
def message : FileError → String
  | notFound => "No such file or directory (os error 2)"
  | alreadyExists => "File exists (os error 17)"
  | notADirectory => "Not a directory (os error 20)"
  | isADirectory => "Is a directory (os error 21)"
  | nameTooLong => "File name too long (os error 36)"
  | directoryNotEmpty => "Directory not empty (os error 39)"
  | tooManyLinks => "Too many levels of symbolic links (os error 40)"
  | zeroInPath => "file name contained an unexpected NUL byte"
  | notText => "stream did not contain valid UTF-8"
  | reported _ message => message

/-- The sort of a failure. -/
def kind : FileError → FailureKind
  | zeroInPath => .invalidInput
  | notFound => .notFound
  | notText => .invalidData
  | reported kind _ => kind
  | _ => .other

end FileError

end InfraGraph
