import LineGrammar.CommandLine.Options
import LineGrammar.Publication

/-!
What the command answers when it is asked to load a grammar, and later when it looks at a file that
it watches.
-/

namespace LineGrammar

structure Report where
  stdout : String
  notes : List Note
  error : Option GrammarError
  deriving DecidableEq, Repr

namespace Report

def exitCode (report : Report) : Nat :=
  match report.error with
  | none       => 0
  | some error => if error.fault.isReadFault then 74 else 65

def errorLine (error : GrammarError) : String :=
  "\x1b[31;49;1m[error]\x1b[39;49;1m  " ++ error.message ++ "\x1b[0m\n"

def noteLine (time : String) (note : Note) : String :=
  "[" ++ time ++ "] " ++ String.ofList (note.level.label.toList.rightpad 5 ' ') ++ " " ++
    note.message ++ "\n"

def stderr (report : Report) (time : String) : String :=
  String.join (report.notes.map (noteLine time)) ++ (report.error.map errorLine).getD ""

end Report

namespace Options

variable (options : Options)

def shown (notes : List Note) : List Note :=
  notes.filter options.threshold.shows

def summary (g : Grammar) : String :=
  options.file ++ ": ok, root " ++ g.rootName ++ ", " ++
    toString g.nonterminalCount ++ " nonterminals, " ++
    toString g.terminalCount ++ " terminals, " ++
    toString g.productionCount ++ " productions\n"

def printed (g : Grammar) : String :=
  if options.print then g.display else ""

-- The first loading of the file, which is all there is unless the file is to be watched.
def report (view : FileView) : Report :=
  let notes := Grammar.loadFileNotes options.file view.contents
  match Grammar.loadFile options.file view.contents with
  | .error error => ⟨"", options.shown notes, some error⟩
  | .ok g =>
    let watching := options.watch.map (Note.watching options.file)
    ⟨options.printed g ++ options.summary g, options.shown (notes ++ watching.toList), none⟩

-- A look at the watched file. What goes wrong is only noted, and the grammar in service stays.
def look (publication : Publication) (view : FileView) : Report × Publication :=
  if publication.isUpToDate view then (⟨"", [], none⟩, publication)
  else
    let notes := options.shown (Publication.rebuildNotes options.file view)
    match Publication.build options.file (publication.edition.number + 1) view with
    | .error _  => (⟨"", notes, none⟩, publication)
    | .ok fresh =>
      let stdout := options.printed fresh.edition.grammar ++ options.file ++ ": reloaded\n"
      (⟨stdout, notes, none⟩, fresh)

end Options
end LineGrammar
