import Quill.Command
import Std.Time.DateTime.Timestamp

/-!
The command line. Everything that is decided is decided by `Quill.Command`; this module
reads the file and the clock, and writes.
-/

namespace Quill.Command

set_option autoImplicit false

def usage : String :=
  "Usage: quill [--log] [--max-depth N] tokenize [--json] FILE\n" ++
  "       quill [--log] [--max-depth N] parse FILE\n" ++
  "       quill [--log] [--max-depth N] run FILE\n"

def usageStatus : UInt32 := 2

/-- A directory opens, and only reading it fails. -/
def openFault : IO.Error → ReadFault
  | .noFileOrDirectory _ _ _ => .notFound
  | .inappropriateType _ _ _ => .notDirectory
  | .invalidArgument _ 36 _ => .nameTooLong
  | .permissionDenied _ code reason => .other s!"{reason} (os error {code})"
  | error => .other error.toString

def readFault : IO.Error → ReadFault
  | .inappropriateType _ _ _ => .isDirectory
  | error => .other error.toString

def readFile (file : String) : BaseIO (Except ReadFault ByteArray) := do
  let opening := IO.FS.Handle.mk file .read
  match ← opening.toBaseIO with
  | .error error => return .error (openFault error)
  | .ok handle =>
      let contents ← handle.readBinToEnd.toBaseIO
      return contents.mapError readFault

def secondsNow : IO Float := do
  let moment ← Std.Time.Timestamp.now
  let milliseconds := moment.toNanosecondsSinceUnixEpoch.toInt / 1000000
  return Float.ofInt milliseconds / 1000

def sliceLength : Nat := 4096

/-- Goes on for one slice with an emptied output. The clock is read once for a slice, during which
it is always the same time. -/
def runSlice (time : Float) (machine : Machine) : Machine :=
  match machine with
  | ⟨state, control, stack⟩ =>
      let settings : Machine.Settings := ⟨state.settings.maxCallDepth, fun _ => time⟩
      Machine.run sliceLength ⟨{ state.clearOutput with settings := settings }, control, stack⟩

/-- Runs a program to its end, and prints what it prints after each slice. -/
partial def drive (output : IO.FS.Stream) (machine : Machine) : IO Response := do
  let machine := runSlice (← secondsNow) machine
  if machine.halted then return conclude machine
  output.write machine.state.sink.stored
  output.flush
  drive output machine

def answer (output : IO.FS.Stream) (outcome : Outcome) : IO Response :=
  match outcome with
  | .answered response => return response
  | .loaded machine => drive output machine

end Quill.Command

open Quill in
def main (arguments : List String) : IO UInt32 := do
  match Command.Invocation.ofArguments? arguments with
  | none =>
      (← IO.getStderr).putStr Command.usage
      return Command.usageStatus
  | some invocation =>
      if invocation.log then IO.FS.writeFile Command.logFile ""
      let output ← IO.getStdout
      let contents ← Command.readFile invocation.file
      let response ← Command.answer output (Command.start (fun _ => 0) invocation contents)
      output.putStr response.output
      output.flush
      (← IO.getStderr).putStr response.errors
      return UInt32.ofNat response.status
