import LineGrammar.Note

/-!
The arguments of the command and what they ask for.
-/

namespace LineGrammar

structure Options where
  file : String
  print : Bool
  watch : Option Nat
  verbosity : Nat
  deriving DecidableEq, Repr

inductive Request
  | run (options : Options)
  | help
  | version
  deriving DecidableEq, Repr

inductive UsageError
  | unexpectedArgument (argument : String)
  | unexpectedValue (option : String)
  | missingFile
  | emptyFile
  | missingSeconds
  | invalidSeconds (value : String)
  | repeatedOption (option : String)
  deriving DecidableEq, Repr

def UsageError.message : UsageError → String
  | unexpectedArgument argument => "unexpected argument '" ++ argument ++ "' found"
  | unexpectedValue option      => "unexpected value for '" ++ option ++ "' found"
  | missingFile                 => "the following required arguments were not provided:\n  <FILE>"
  | emptyFile                   => "a value is required for '<FILE>' but none was supplied"
  | missingSeconds              =>
    "a value is required for '--watch <SECONDS>' but none was supplied"
  | invalidSeconds value        => "invalid value '" ++ value ++ "' for '--watch <SECONDS>'"
  | repeatedOption option       => "the argument '" ++ option ++ "' cannot be used multiple times"

namespace Options

def helpText : String :=
  "Usage: grammarian [OPTIONS] <FILE>\n" ++
  "\n" ++
  "Arguments:\n" ++
  "  <FILE>  File containing the grammar\n" ++
  "\n" ++
  "Options:\n" ++
  "  -p, --print            Print the compiled grammar\n" ++
  "  -w, --watch <SECONDS>  Keep running and rebuild whenever the file changes, " ++
  "checking every SECONDS\n" ++
  "  -v, --verbose...       More logging (-v info, -vv debug, -vvv trace)\n" ++
  "  -h, --help             Print help\n" ++
  "  -V, --version          Print version\n"

def versionText : String :=
  "grammarian 0.1.0\n"

structure Draft where
  file : Option String
  print : Bool
  watch : Option Nat
  verbosity : Nat

-- What one argument leads to: the arguments are read on, or read on with the next one as the number
-- of seconds, or the request is settled and the others do not matter.
inductive Progress
  | proceed (draft : Draft)
  | awaitSeconds (draft : Draft)
  | settled (request : Request)

def seconds? (value : String) : Option Nat :=
  let digits := match value.toList with
    | '+' :: rest => rest
    | all         => all
  if digits.isEmpty || !digits.all Char.isDigit then none
  else
    let n := digits.foldl (fun n c => 10 * n + (c.toNat - '0'.toNat)) 0
    if n < UInt64.size then some n else none

namespace Draft

variable (draft : Draft)

def setFile (argument : String) : Except UsageError Draft :=
  if draft.file.isSome then .error (.unexpectedArgument argument)
  else if argument.isEmpty then .error .emptyFile
  else .ok { draft with file := some argument }

def setPrint : Except UsageError Draft :=
  if draft.print then .error (.repeatedOption "--print") else .ok { draft with print := true }

def setWatch (value : String) : Except UsageError Draft :=
  match seconds? value with
  | none => .error (.invalidSeconds value)
  | some n =>
    if draft.watch.isSome then .error (.repeatedOption "--watch <SECONDS>")
    else .ok { draft with watch := some n }

def raiseVerbosity : Draft :=
  { draft with verbosity := draft.verbosity + 1 }

def long (name : String) (value : Option String) : Except UsageError Progress :=
  match name, value with
  | "print",   none       => .proceed <$> draft.setPrint
  | "verbose", none       => .ok (.proceed draft.raiseVerbosity)
  | "help",    none       => .ok (.settled .help)
  | "version", none       => .ok (.settled .version)
  | "watch",   none       => .ok (.awaitSeconds draft)
  | "watch",   some value => .proceed <$> draft.setWatch value
  | name,      some _     => .error (.unexpectedValue name)
  | name,      none       => .error (.unexpectedArgument name)

-- Options by their letters, written together. The one that takes a value takes all that follows it,
-- after an equals sign or right away.
def short (draft : Draft) : List Char → Except UsageError Progress
  | [] => .ok (.proceed draft)
  | 'p' :: rest => do (← draft.setPrint).short rest
  | 'v' :: rest => draft.raiseVerbosity.short rest
  | 'h' :: _ => .ok (.settled .help)
  | 'V' :: _ => .ok (.settled .version)
  | ['w'] => .ok (.awaitSeconds draft)
  | 'w' :: '=' :: value => .proceed <$> draft.setWatch (String.ofList value)
  | 'w' :: value => .proceed <$> draft.setWatch (String.ofList value)
  | c :: _ => .error (.unexpectedArgument (String.ofList ['-', c]))

def isOption (argument : String) : Bool :=
  argument.toList.head? == some '-' && argument != "-"

def option (argument : String) : Except UsageError Progress :=
  match argument.toList with
  | '-' :: '-' :: text =>
    draft.long (String.ofList (text.takeWhile (· != '=')))
      ((text.dropWhile (· != '=')).tail?.map String.ofList)
  | text => draft.short text.tail

def files (draft : Draft) : List String → Except UsageError Draft
  | [] => .ok draft
  | argument :: rest => do (← draft.setFile argument).files rest

def finish : Except UsageError Request :=
  match draft.file with
  | none      => .error .missingFile
  | some file => .ok (.run ⟨file, draft.print, draft.watch, draft.verbosity⟩)

def arguments (draft : Draft) : List String → Except UsageError Request
  | [] => draft.finish
  | argument :: rest => do
    if argument = "--" then (← draft.files rest).finish
    else if isOption argument then
      match ← draft.option argument with
      | .proceed draft   => draft.arguments rest
      | .settled request => return request
      | .awaitSeconds draft =>
        match rest with
        | [] => throw .missingSeconds
        | value :: rest =>
          if isOption value then throw .missingSeconds
          else (← draft.setWatch value).arguments rest
    else (← draft.setFile argument).arguments rest

end Draft

def ofArguments (arguments : List String) : Except UsageError Request :=
  (Draft.mk none false none 0).arguments arguments

def threshold (options : Options) : Threshold :=
  match options.verbosity with
  | 0 => some .warn
  | 1 => some .info
  | 2 => some .debug
  | _ => some .trace

end Options

end LineGrammar
