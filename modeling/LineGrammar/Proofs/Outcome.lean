import LineGrammar.CommandLine.Report
import LineGrammar.Proofs.DisplayCounts
import LineGrammar.Proofs.Phases
import Mathlib.Data.List.Flatten

/-!
The outcome of the command. What comes of loading the file decides the exit code and the standard output, and
the numbers in the summary are those that can be counted in the displayed text. More verbosity adds lines to
standard error and does nothing else.
-/

namespace LineGrammar

theorem textLines_append_feed (front rest : String) : textLines (front ++ "\n" ++ rest).toList =
    textLines (front ++ "\n").toList ++ textLines rest.toList := by
  simp only [textLines, String.toList_append]
  exact linesBy_append_feed _ _

namespace Report

theorem textLines_stderr (report : Report) (time : String) : textLines (report.stderr time).toList =
    (report.notes.flatMap fun note => textLines (noteLine time note).toList) ++
      textLines ((report.error.map errorLine).getD "").toList := by
  obtain ⟨stdout, notes, error⟩ := report
  rw [stderr]
  dsimp only
  generalize (error.map errorLine).getD "" = tail
  induction notes
  case nil => simp
  case cons note rest ih =>
    rw [List.map_cons, String.join_cons, String.append_assoc, List.flatMap_cons, List.append_assoc, ← ih]
    exact textLines_append_feed _ _

theorem errorLine_of_file {error : GrammarError} {file : String} (h : error.location.file = some file) :
    errorLine error = "\x1b[31;49;1m[error]\x1b[39;49;1m  " ++ file ++
      (if error.location.line = 0 then "" else ":" ++ toString error.location.line) ++ ": " ++
        error.fault.words ++ "\x1b[0m\n" := by
  have hline : errorLine error =
      "\x1b[31;49;1m[error]\x1b[39;49;1m  " ++ error.message ++ "\x1b[0m\n" := rfl
  rw [hline, GrammarError.message_of_file h]
  simp only [String.append_assoc]

end Report

namespace Options

variable {options : Options} {view : FileView} {error : GrammarError} {g : Grammar}

-- Each further flag shows one more level of detail, as long as there is one.
theorem threshold_shows_iff (options : Options) (note : Note) :
    options.threshold.shows note ↔ note.level.detail ≤ options.verbosity + 2 := by
  have hmost : note.level.detail ≤ 5 := by cases note.level <;> decide
  unfold threshold
  split
  case h_4 hzero hone htwo =>
    have hshown : note.level.detail ≤ Level.trace.detail := hmost
    simp only [Threshold.shows, Option.any_some, decide_eq_true_eq, hshown, true_iff]
    have hne : options.verbosity ≠ 0 ∧ options.verbosity ≠ 1 ∧ options.verbosity ≠ 2 := ⟨hzero, hone, htwo⟩
    omega
  all_goals
    rename_i hverbosity
    rw [hverbosity, Threshold.shows, Option.any_some, decide_eq_true_eq]
    rfl

theorem shown_eq_filter (options : Options) (notes : List Note) :
    options.shown notes = notes.filter (·.level.detail ≤ options.verbosity + 2) :=
  List.filter_congr fun note _ => Bool.eq_iff_iff.mpr (by simp [threshold_shows_iff])

theorem shown_sublist {verbosity : Nat} (h : options.verbosity ≤ verbosity) (notes : List Note) :
    (options.shown notes).Sublist ({ options with verbosity }.shown notes) := by
  refine List.monotone_filter_right notes fun note hshows => ?_
  rw [threshold_shows_iff] at hshows ⊢
  exact Nat.le_trans hshows (Nat.add_le_add_right h 2)

theorem report_of_error (options : Options)
    (h : Grammar.loadFile options.file view.contents = .error error) :
    options.report view =
      ⟨"", options.shown (Grammar.loadFileNotes options.file view.contents), some error⟩ := by
  simp only [report, h]

theorem report_of_ok (options : Options) (h : Grammar.loadFile options.file view.contents = .ok g) :
    options.report view =
      ⟨options.printed g ++ options.summary g,
        options.shown (Grammar.loadFileNotes options.file view.contents ++
          (options.watch.map (Note.watching options.file)).toList), none⟩ := by
  simp only [report, h]

-- What the command answers when it finds the file so. The time at which a note is taken is not known,
-- so standard error is a function of it. More verbosity may put further notes between those that there
-- are, which is why `louder` compares standard error line by line.
structure Answers (options : Options) (view : FileView) : Prop where
  success    : (options.report view).exitCode = 0 ↔
    ∃ g, Grammar.loadFile options.file view.contents = .ok g
  unreadable : (options.report view).exitCode = 74 ↔ ∃ location cause,
    Grammar.loadFile options.file view.contents = .error ⟨location, .unreadable cause⟩
  faulty     : (options.report view).exitCode = 65 ↔ ∃ error,
    Grammar.loadFile options.file view.contents = .error error ∧ ∀ cause, error.fault ≠ .unreadable cause
  failed     : ∀ error, Grammar.loadFile options.file view.contents = .error error →
    (options.report view).stdout = "" ∧ error.location.file = some options.file ∧
      ∀ time, (options.report view).stderr time =
        String.join (((Grammar.loadFileNotes options.file view.contents).filter
          (·.level.detail ≤ options.verbosity + 2)).map fun note =>
            "[" ++ time ++ "] " ++ String.ofList (note.level.label.toList.rightpad 5 ' ') ++ " " ++
              note.message ++ "\n") ++
          ("\x1b[31;49;1m[error]\x1b[39;49;1m  " ++ options.file ++
            (if error.location.line = 0 then "" else ":" ++ toString error.location.line) ++ ": " ++
            error.fault.words ++ "\x1b[0m\n")
  loaded     : ∀ g, Grammar.loadFile options.file view.contents = .ok g →
    ∃ root, g.symbols.nonterminals[g.root]? = some root ∧
      (options.report view).stdout = (if options.print then g.display else "") ++
        (options.file ++ ": ok, root " ++ root.name ++ ", " ++
          toString (displayedLineCount g.display) ++ " nonterminals, " ++
          toString g.symbols.terminals.length ++ " terminals, " ++
          toString (displayedAlternativeCount g.display) ++ " productions\n")
  louder     : ∀ verbosity, options.verbosity ≤ verbosity →
    ({ options with verbosity }.report view).exitCode = (options.report view).exitCode ∧
      ({ options with verbosity }.report view).stdout = (options.report view).stdout ∧
      ∀ time, (textLines ((options.report view).stderr time).toList).Sublist
        (textLines (({ options with verbosity }.report view).stderr time).toList)

theorem exitCode_of_error (h : Grammar.loadFile options.file view.contents = .error error) :
    (options.report view).exitCode = if error.fault.isReadFault then 74 else 65 := by
  rw [report_of_error options h, Report.exitCode]

theorem exitCode_of_ok (h : Grammar.loadFile options.file view.contents = .ok g) :
    (options.report view).exitCode = 0 := by
  rw [report_of_ok options h, Report.exitCode]

theorem exitCode_iff (options : Options) (view : FileView) :
    ((options.report view).exitCode = 0 ↔ ∃ g, Grammar.loadFile options.file view.contents = .ok g) ∧
      ((options.report view).exitCode = 74 ↔ ∃ location cause,
        Grammar.loadFile options.file view.contents = .error ⟨location, .unreadable cause⟩) ∧
      ((options.report view).exitCode = 65 ↔ ∃ error,
        Grammar.loadFile options.file view.contents = .error error ∧
          ∀ cause, error.fault ≠ .unreadable cause) := by
  cases h : Grammar.loadFile options.file view.contents
  case ok          => simp [exitCode_of_ok h]
  case error error =>
    obtain ⟨location, fault⟩ := error
    cases fault <;> simp [exitCode_of_error h, Fault.isReadFault]

theorem file_of_loadFile {path : String} (h : Grammar.loadFile path view.contents = .error error) :
    error.location.file = some path := by
  unfold Grammar.loadFile at h
  split at h
  case h_1 =>
    cases h
    rfl
  case h_2 => cases Grammar.placed_of_load h <;> rfl

theorem exists_load_of_loadFile {path : String} (h : Grammar.loadFile path view.contents = .ok g) :
    ∃ source, Grammar.load (some path) source = .ok g := by
  unfold Grammar.loadFile at h
  split at h
  case h_1 => cases h
  case h_2 source _ => exact ⟨source, h⟩

theorem textLines_stderr_sublist {report louder : Report} (hnotes : report.notes.Sublist louder.notes)
    (herror : report.error = louder.error) (time : String) :
    (textLines (report.stderr time).toList).Sublist (textLines (louder.stderr time).toList) := by
  rw [Report.textLines_stderr, Report.textLines_stderr, herror]
  exact (hnotes.flatMap _).append_right _

theorem report_louder {verbosity : Nat} (h : options.verbosity ≤ verbosity) (view : FileView) :
    ({ options with verbosity }.report view).stdout = (options.report view).stdout ∧
      ({ options with verbosity }.report view).error = (options.report view).error ∧
      (options.report view).notes.Sublist ({ options with verbosity }.report view).notes := by
  cases hload : Grammar.loadFile options.file view.contents
  case error error =>
    rw [report_of_error options hload, report_of_error { options with verbosity } hload]
    exact ⟨rfl, rfl, shown_sublist h _⟩
  case ok g =>
    rw [report_of_ok options hload, report_of_ok { options with verbosity } hload]
    exact ⟨rfl, rfl, shown_sublist h _⟩

theorem answers_view (options : Options) (view : FileView) : options.Answers view where
  success    := (exitCode_iff options view).left
  unreadable := (exitCode_iff options view).right.left
  faulty     := (exitCode_iff options view).right.right
  failed error h := by
    have hfile := file_of_loadFile h
    rw [report_of_error options h, shown_eq_filter]
    refine ⟨rfl, hfile, fun time => ?_⟩
    rw [Report.stderr, Option.map_some, Option.getD_some, Report.errorLine_of_file hfile]
    rfl
  loaded g h := by
    obtain ⟨source, hload⟩ := exists_load_of_loadFile h
    have hcounts := Grammar.countsDisplay_of_load hload
    obtain ⟨root, hroot, _⟩ := (Grammar.sound_of_ofLines (Grammar.load_eq_ok_iff.mp hload).left).root
    have hname : g.rootName = root.name := SymbolTable.nonterminalName_of_getElem? hroot
    refine ⟨root, hroot, ?_⟩
    rw [report_of_ok options h, hcounts.lines, hcounts.alternatives, ← hname]
    rfl
  louder verbosity h := by
    have ⟨hstdout, herror, hnotes⟩ := report_louder h view
    refine ⟨?_, hstdout, textLines_stderr_sublist hnotes herror.symm⟩
    rw [Report.exitCode, herror, Report.exitCode]

example : ((Options.mk "g" true none 0).report ⟨.ok (encode "A → b B+\n| 0\nB → b"), none⟩).stdout =
    "A → b B+ | 0\nB+ → B+ B | B\nB → b\n" ++
      "g: ok, root A, 3 nonterminals, 1 terminals, 5 productions\n" := by
  decide +kernel

end Options
end LineGrammar
