-- SUMMARY: What the operating system may refuse, and how it says so.

/-!
# System errors
-/

namespace DecompilerDesk

inductive SystemError where
  | notFound
  | permissionDenied
  | notDirectory
  | isDirectory
  | noSpace
  | brokenPipe
  | nameTooLong
  | tooManyLinks
  /-- A path holds a zero byte. -/
  | zeroInPath
  /-- A command holds a zero byte. -/
  | zeroInCommand
  | notUtf8
  | outOfMemory
  /-- Anything else, as the system says it. -/
  | other (text : String)
  deriving DecidableEq, Repr

def SystemError.message : SystemError → String
  | notFound => "No such file or directory (os error 2)"
  | permissionDenied => "Permission denied (os error 13)"
  | notDirectory => "Not a directory (os error 20)"
  | isDirectory => "Is a directory (os error 21)"
  | noSpace => "No space left on device (os error 28)"
  | brokenPipe => "Broken pipe (os error 32)"
  | nameTooLong => "File name too long (os error 36)"
  | tooManyLinks => "Too many levels of symbolic links (os error 40)"
  | zeroInPath => "file name contained an unexpected NUL byte"
  | zeroInCommand => "nul byte found in provided data"
  | notUtf8 => "stream did not contain valid UTF-8"
  | outOfMemory => "out of memory"
  | other text => text

end DecompilerDesk
