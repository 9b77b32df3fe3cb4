/-!
# Causes of failed file and program operations

The causes the operating system reports, with the number and text it gives them, and those that
are found without it.
-/

namespace TestWeave.Host

/-- Why an operation on a file or a program failed. -/
inductive IoError
  | notFound
  | badFormat
  | denied
  | exists
  | notDirectory
  | isDirectory
  | noSpace
  | nameTooLong
  /-- A text was asked for and the bytes are none. -/
  | notText
  /-- A path with a character that ends it early. -/
  | nulInPath
  /-- A program or an argument with a character that ends it early. -/
  | nulInArgument
  /-- Something asked for is not there, and no call of the system said so. -/
  | absent
  deriving DecidableEq, Repr

/-- The text of a cause. -/
def IoError.message : IoError → String
  | .notFound => "No such file or directory (os error 2)"
  | .badFormat => "Exec format error (os error 8)"
  | .denied => "Permission denied (os error 13)"
  | .exists => "File exists (os error 17)"
  | .notDirectory => "Not a directory (os error 20)"
  | .isDirectory => "Is a directory (os error 21)"
  | .noSpace => "No space left on device (os error 28)"
  | .nameTooLong => "File name too long (os error 36)"
  | .notText => "stream did not contain valid UTF-8"
  | .nulInPath => "file name contained an unexpected NUL byte"
  | .nulInArgument => "nul byte found in provided data"
  | .absent => "entity not found"

end TestWeave.Host
