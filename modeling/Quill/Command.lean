import Quill.Program
import Quill.Text.Quoted
import Quill.Text.Utf8
import Quill.Token.Listing
import Quill.Tree.Printer

/-!
The command line without its effects: what the arguments ask for, and what is written
and with which status the program ends.
-/

namespace Quill.Command

set_option autoImplicit false

inductive Action where
  | tokenize (indented : Bool)
  | parse
  | run
deriving DecidableEq, Repr

structure Invocation where
  action : Action
  file : String
  log : Bool
  maxCallDepth : Nat
deriving DecidableEq, Repr

/-- What has been read of the arguments so far. Words come in order and options anywhere,
except that only words follow a double dash, which comes after the action. -/
structure Draft where
  words : List String
  indented : Bool
  log : Bool
  maxCallDepth : Nat

/-- A limit is a natural number of at most 64 binary digits, as a counter of the machine has; a plus
sign may precede it. -/
def depth? (text : String) : Option Nat :=
  let digits := match text.toList with
    | '+' :: digits => digits
    | digits => digits
  let value := Number.digitsValue digits
  if digits.isEmpty || !digits.all Char.isDigit || Nat.pow 2 64 ≤ value then none else some value

def depthOption : List Char := "--max-depth=".toList

def isOption (argument : String) : Bool :=
  match argument.toList with
  | '-' :: _ :: _ => true
  | _ => false

def readArguments : List String → Draft → Option Draft
  | [], draft => some draft
  | "--" :: rest, draft =>
      if draft.words.isEmpty then none else some { draft with words := draft.words ++ rest }
  | "--log" :: rest, draft => readArguments rest { draft with log := true }
  | "--json" :: rest, draft => readArguments rest { draft with indented := true }
  | "--max-depth" :: number :: rest, draft => do
      let depth ← depth? number
      readArguments rest { draft with maxCallDepth := depth }
  | word :: rest, draft =>
      if depthOption.isPrefixOf word.toList then do
        let depth ← depth? (String.ofList (word.toList.drop depthOption.length))
        readArguments rest { draft with maxCallDepth := depth }
      else if isOption word then none
      else readArguments rest { draft with words := draft.words ++ [word] }

def Draft.action? (draft : Draft) (word : String) : Option Action :=
  match word, draft.indented with
  | "tokenize", indented => some (.tokenize indented)
  | "parse", false => some .parse
  | "run", false => some .run
  | _, _ => none

def Draft.invocation? (draft : Draft) : Option Invocation :=
  match draft.words with
  | [word, file] => do
      let action ← draft.action? word
      some ⟨action, file, draft.log, draft.maxCallDepth⟩
  | _ => none

def Invocation.ofArguments? (arguments : List String) : Option Invocation := do
  let draft ← readArguments arguments ⟨[], false, false, Machine.defaultCallDepth⟩
  draft.invocation?

def logFile : String := "app.log"

inductive ReadFault where
  | notFound
  | notDirectory
  | nameTooLong
  /-- A directory opens like a file and has no contents to map. -/
  | isDirectory
  | other (reason : String)
deriving DecidableEq, Repr

def ReadFault.reason : ReadFault → String
  | notFound => "No such file or directory (os error 2)"
  | notDirectory => "Not a directory (os error 20)"
  | nameTooLong => "File name too long (os error 36)"
  | isDirectory => "No such device (os error 19)"
  | other reason => reason

inductive HostFault where
  | unreadable (file : String) (fault : ReadFault)
  | notText (file : String) (fault : Text.Utf8Fault)
deriving DecidableEq, Repr

def HostFault.summary : HostFault → String
  | unreadable file .isDirectory => "Failed to map file " ++ Text.quoted file
  | unreadable file _ => "Failed to open file " ++ Text.quoted file
  | notText file _ => "File " ++ Text.quoted file ++ " is not valid UTF-8"

def HostFault.reason : HostFault → String
  | unreadable _ fault => fault.reason
  | notText _ fault => fault.message

def HostFault.message (fault : HostFault) : String :=
  "Error: " ++ fault.summary ++ "\n\nCaused by:\n    " ++ fault.reason ++ "\n"

structure Response where
  status : Nat
  output : String
  errors : String
deriving DecidableEq, Repr

def staticStatus : Nat := 65

def runtimeStatus : Nat := 70

def hostStatus : Nat := 1

def report (diagnostics : List Diagnostic) : String :=
  String.join (diagnostics.map fun diagnostic => diagnostic.render ++ "\n")

def status (diagnostics : List Diagnostic) : Nat :=
  if diagnostics.isEmpty then 0
  else if diagnostics.any fun diagnostic => diagnostic.stage? == some .runtime then runtimeStatus
  else staticStatus

def respond (output : String) (diagnostics : List Diagnostic) : Response :=
  ⟨status diagnostics, output, report diagnostics⟩

def source (file : String) (contents : Except ReadFault ByteArray) : Except HostFault String :=
  match contents with
  | .error fault => .error (.unreadable file fault)
  | .ok bytes =>
      match Text.decode bytes with
      | .ok text => .ok text
      | .error fault => .error (.notText file fault)

def tokenize (indented : Bool) (text : String) : Response :=
  let scan := Lexer.scan text
  let listing := if indented then Listing.indented scan.tokens else Listing.plain scan.tokens
  respond listing (scan.fault.toList.map (·.diagnose .lex Lexer.Fault.message))

def parse (text : String) : Response :=
  match Program.parse text with
  | .error diagnostic => respond "" [diagnostic]
  | .ok parsed =>
      let output :=
        if parsed.statements.isEmpty then "" else printProgram parsed.statements ++ "\n"
      respond output (Program.parseDiagnostics parsed)

def diagnostics (result : Except (List Diagnostic) Unit) : List Diagnostic :=
  match result with
  | .ok () => []
  | .error diagnostics => diagnostics

/-- What an invocation comes to before any program runs. Listings and faults are answered at once;
only a program that compiles has steps still to take. -/
inductive Outcome where
  | answered (response : Response)
  | loaded (machine : Machine)

/-- Carries out an invocation on the contents of its file, up to the first step of the
program that it runs, if it runs one. -/
def start (clock : Nat → Float) (invocation : Invocation)
    (contents : Except ReadFault ByteArray) : Outcome :=
  match source invocation.file contents with
  | .error fault => .answered ⟨hostStatus, "", fault.message⟩
  | .ok text =>
      match invocation.action with
      | .tokenize indented => .answered (tokenize indented text)
      | .parse => .answered (parse text)
      | .run =>
          match Program.compile text with
          | .error diagnostics => .answered (respond "" diagnostics)
          | .ok program =>
              .loaded (program.load (.fresh ⟨invocation.maxCallDepth, clock⟩ .unlimited))

def conclude (machine : Machine) : Response :=
  respond (Text.decodeLossy machine.state.sink.stored) (diagnostics (Program.result machine))

/-- Carries out an invocation to its end. There is no response if the program does not
stop within a number of steps. -/
def perform (steps : Nat) (clock : Nat → Float) (invocation : Invocation)
    (contents : Except ReadFault ByteArray) : Option Response :=
  match start clock invocation contents with
  | .answered response => some response
  | .loaded machine =>
      let stopped := machine.run steps
      if stopped.halted then some (conclude stopped) else none

end Quill.Command
