import Formula.CommandLine
import Formula.CommandLine.FileTree

/-! # The program -/

namespace Formula.CommandLine

/-- The fault that the system's number stands for. Some calls give the number negated. -/
def faultOfCode? (code : UInt32) : Option FileFault :=
  match if code < 0x80000000 then code else 0 - code with
  | 2 => some .notFound
  | 20 => some .notDirectory
  | 21 => some .isDirectory
  | 36 => some .nameTooLong
  | _ => none

/-- The fault behind an error, if it is one that a file tree has. -/
def faultOfError? : IO.Error → Option FileFault
  | .noFileOrDirectory .. => some .notFound
  | .inappropriateType _ code _ => faultOfCode? code
  | .invalidArgument _ code _ => faultOfCode? code
  | .resourceExhausted _ code _ => faultOfCode? code
  | .otherError code _ => faultOfCode? code
  | _ => none

/-- The contents of a file, or why it cannot be read. -/
def contents (path : String) : IO (Except String String) := do
  try
    match String.fromUTF8? (← IO.FS.readBinFile path) with
    | some text => return .ok text
    | none => return .error FileFault.notText.message
  catch e =>
    match faultOfError? e with
    | some fault => return .error fault.message
    | none => return .error (toString e)

end Formula.CommandLine

def main (args : List String) : IO UInt32 := do
  let outcome ← Formula.CommandLine.run Formula.CommandLine.contents args
  IO.print outcome.stdout
  IO.eprint outcome.stderr
  return outcome.status
