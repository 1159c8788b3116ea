/-!
# File errors

What can go wrong with a file or a directory, with the wording and the number that the operating
system gives it.
-/

namespace BuildPlan

/-- Why an operation on files fails. -/
inductive FileError where
  | notFound
  /-- A file that should be a program is none. -/
  | notProgram
  | permissionDenied
  | busy
  | alreadyThere
  | notDirectory
  | isDirectory
  | nameTooLong
  /-- A path holds a NUL. -/
  | nulInPath
  /-- A file that should be text is not. -/
  | notUtf8
  /-- No part of a path can be created. -/
  | noTree
  /-- A finished file cannot be put in its place. -/
  | persist (reason : FileError)
  deriving DecidableEq, Repr

namespace FileError

def message : FileError → String
  | notFound => "No such file or directory (os error 2)"
  | notProgram => "Exec format error (os error 8)"
  | permissionDenied => "Permission denied (os error 13)"
  | busy => "Device or resource busy (os error 16)"
  | alreadyThere => "File exists (os error 17)"
  | notDirectory => "Not a directory (os error 20)"
  | isDirectory => "Is a directory (os error 21)"
  | nameTooLong => "File name too long (os error 36)"
  | nulInPath => "file name contained an unexpected NUL byte"
  | notUtf8 => "stream did not contain valid UTF-8"
  | noTree => "failed to create whole tree"
  | persist reason =>
    "failed to persist temp file: failed to persist temporary file path: " ++ reason.message

end FileError

end BuildPlan
