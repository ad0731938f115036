import LineGrammar.CommandLine.Report
import Std.Time

/-!
The command. Everything that it prints is decided elsewhere. Here the file is looked at, the clock
is read, and the texts are written out.
-/

namespace LineGrammar

-- The system's number of an error comes with either sign.
def readFault : IO.Error → ReadFault
  | .noFileOrDirectory .. => .notFound
  | .permissionDenied .. => .other "Permission denied (os error 13)"
  | error@(.inappropriateType _ number _) =>
    if number = 20 ∨ 0 - number = 20 then .notDirectory
    else if number = 21 ∨ 0 - number = 21 then .isDirectory
    else .other (toString error)
  | error@(.invalidArgument _ number _) =>
    if number = 36 ∨ 0 - number = 36 then .nameTooLong else .other (toString error)
  | error => .other (toString error)

def observe (path : String) : IO FileView := do
  let modified ← try
      let time := (← ((← IO.currentDir) / path).metadata).modified
      pure (some (time.sec * 1000000000 + time.nsec.toNat))
    catch _ => pure none
  let contents ← try
      pure (.ok (← IO.FS.readBinFile path).data.toList)
    catch error => pure (.error (readFault error))
  return ⟨contents, modified⟩

def deliver (report : Report) : IO Unit := do
  let now ← Std.Time.PlainDateTime.now
  IO.eprint (report.stderr (now.format "dd.MM HH:mm:ss"))
  IO.print report.stdout
  (← IO.getStdout).flush

partial def watch (options : Options) (seconds : Nat) (publication : Publication) : IO Unit := do
  for _ in [0:max seconds 1] do IO.sleep 1000
  let (report, publication) := options.look publication (← observe options.file)
  deliver report
  watch options seconds publication

def run (options : Options) : IO UInt32 := do
  let view ← observe options.file
  let report := options.report view
  deliver report
  if let some seconds := options.watch then
    if let .ok publication := Publication.build options.file 0 view then
      watch options seconds publication
  return report.exitCode.toUInt32

end LineGrammar

def main (arguments : List String) : IO UInt32 := do
  match LineGrammar.Options.ofArguments arguments with
  | .ok (.run options) => LineGrammar.run options
  | .ok .help =>
    IO.print LineGrammar.Options.helpText
    return 0
  | .ok .version =>
    IO.print LineGrammar.Options.versionText
    return 0
  | .error error =>
    IO.eprintln ("error: " ++ error.message)
    return 2
