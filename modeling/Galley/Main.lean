import Galley.CommandLine.Run
/-! The program: reads the input, prints the output, and tells errors on the error stream. -/
namespace Galley.CommandLine

def readingError : IO.Error → String
  | .noFileOrDirectory .. => "No such file or directory (os error 2)"
  | .permissionDenied .. => "Permission denied (os error 13)"
  | .inappropriateType .. => "Is a directory (os error 21)"
  | e => toString e

def decodeInput (bytes : ByteArray) : Except String String :=
  match String.fromUTF8? bytes with
  | some s => .ok s
  | none => .error "stream did not contain valid UTF-8"

def readInput (path : String) : IO (Except String String) := do
  try
    let bytes ←
      if path = standardInput then (← IO.getStdin).readBinToEnd else IO.FS.readBinFile path
    return decodeInput bytes
  catch e => return .error (readingError e)

def inputPath? (args : List String) : Option String :=
  match parse args with
  | some (.run _ _ path) => some path
  | _ => none

end Galley.CommandLine

open Galley.CommandLine

def main (args : List String) : IO UInt32 := do
  let input ← match inputPath? args with
    | some path => readInput path
    | none => pure (.ok "")
  let outcome := run false (fun _ => input) args
  IO.print outcome.stdout
  match outcome.error with
  | some line => IO.eprintln line
  | none => pure ()
  return outcome.code.toUInt32
