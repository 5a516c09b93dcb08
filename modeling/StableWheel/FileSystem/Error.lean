import StableWheel.Decimal.Natural

/-! Why an operation on files fails. -/
namespace StableWheel

/-- What the operating system refuses. -/
inductive Errno where
  | noEntry
  | denied
  | exists
  | notDirectory
  | isDirectory
  | invalid
  | nameTooLong
  | linkLoop
  deriving Repr, DecidableEq

def Errno.code : Errno → Nat
  | noEntry => 2
  | denied => 13
  | .exists => 17
  | notDirectory => 20
  | isDirectory => 21
  | invalid => 22
  | nameTooLong => 36
  | linkLoop => 40

def Errno.text : Errno → String
  | noEntry => "No such file or directory"
  | denied => "Permission denied"
  | .exists => "File exists"
  | notDirectory => "Not a directory"
  | isDirectory => "Is a directory"
  | invalid => "Invalid argument"
  | nameTooLong => "File name too long"
  | linkLoop => "Too many levels of symbolic links"

/-- Why an operation on files fails. -/
inductive FileError where
  | os (e : Errno)
  /-- A name with a zero byte in it, which the system is never asked about. -/
  | zeroByte
  /-- A program that was to be started with a zero byte in its name or its arguments. -/
  | zeroInCommand
  /-- A file that was to be read as text holds something else. -/
  | notText
  deriving Repr, DecidableEq

def FileError.message : FileError → String
  | os e => e.text ++ " (os error " ++ Decimal.natural e.code ++ ")"
  | zeroByte => "file name contained an unexpected NUL byte"
  | zeroInCommand => "nul byte found in provided data"
  | notText => "stream did not contain valid UTF-8"

end StableWheel
