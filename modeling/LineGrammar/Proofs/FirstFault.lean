import LineGrammar.Load
import LineGrammar.Proofs.Encoding
import LineGrammar.Proofs.Endings
import LineGrammar.Proofs.Faults

/-!
The error that reading a source ends in is that of its first line at fault. It is decided by the lines up
to that one, so nothing that follows them changes it, and no check of the grammar is run.
-/

namespace LineGrammar

section

variable {active : Option String} {number k : Nat} {fault : Fault} {lines : List Line}
variable {texts before : List (List Char)} {text : List Char}

theorem firstFault?_eq_some_iff : firstFault? active number lines = some (k, fault) ↔
    ∃ before line after, lines = before ++ line :: after ∧ firstFault? active number before = none ∧
      line.fault? ((headNames before).getLast?.or active) = some fault ∧ k = number + before.length := by
  constructor
  case mp =>
    intro h
    induction lines generalizing active number
    case nil => simp [firstFault?] at h
    case cons line rest ih =>
      rw [firstFault?] at h
      split at h
      case h_1 other hf =>
        cases h
        exact ⟨[], line, rest, rfl, rfl, hf, rfl⟩
      case h_2 hf =>
        obtain ⟨before, faulty, after, rfl, hn, hl, rfl⟩ := ih h
        refine ⟨line :: before, faulty, after, rfl, ?_, ?_, ?_⟩
        · rw [firstFault?, hf]
          exact hn
        · rw [getLast?_headNames_cons_or]
          exact hl
        · simp [Nat.add_comm, Nat.add_left_comm]
  case mpr =>
    rintro ⟨before, line, after, rfl, hn, hl, rfl⟩
    rw [firstFault?_append, hn, Option.none_or, firstFault?, hl]

def Faultless (texts : List (List Char)) : Prop :=
  ∀ before text after, texts = before ++ text :: after → ∀ fault, ¬LineFault before text fault

theorem faultless_iff : Faultless texts ↔ firstFault? none number (texts.map Line.ofText) = none := by
  rw [firstFault?_ofText_eq_none_iff]
  simp only [Faultless, lineFault_iff, Option.eq_none_iff_forall_ne_some, ne_eq]

theorem firstFault?_ofText_eq_some_iff :
    firstFault? none number (texts.map Line.ofText) = some (k, fault) ↔
      ∃ before text after, texts = before ++ text :: after ∧ Faultless before ∧
        LineFault before text fault ∧ k = number + before.length := by
  rw [firstFault?_eq_some_iff]
  constructor
  case mp =>
    rintro ⟨front, line, back, he, hn, hl, rfl⟩
    obtain ⟨before, rest, rfl, rfl, hr⟩ := List.map_eq_append_iff.mp he
    obtain ⟨text, after, rfl, rfl, rfl⟩ := List.map_eq_cons_iff.mp hr
    refine ⟨before, text, after, rfl, faultless_iff.mpr hn, lineFault_iff.mpr ?_, by simp⟩
    simpa using hl
  case mpr =>
    rintro ⟨before, text, after, rfl, hn, hl, rfl⟩
    refine ⟨before.map Line.ofText, Line.ofText text, after.map Line.ofText, by simp,
      faultless_iff.mp hn, ?_, by simp⟩
    simpa using lineFault_iff.mp hl

end

namespace Loader

variable {loader new : Loader} {number : Nat} {before after : List (Option (List Char))}
variable {error : GrammarError}

theorem run_readLines_append_of_error (h : (readLines number before).run loader = .error error new) :
    (readLines number (before ++ after)).run loader = .error error new := by
  rw [readLines_append, EStateM.run_bind, h]

end Loader

namespace Grammar

variable {file : Option String} {lines before after : List (Option (List Char))} {error : GrammarError}
variable {texts : List (List Char)} {source front continuation : List UInt8}

-- A line without a text is one that is no UTF-8.
inductive Reports (file : Option String) (lines : List (Option (List Char))) : GrammarError → Prop
  | unreadable {before : List (List Char)} {after : List (Option (List Char))}
      (lines_eq : lines = before.map some ++ none :: after) (first : Faultless before) :
    Reports file lines ⟨⟨file, 0⟩, .unreadable .notUtf8⟩
  | line {before : List (List Char)} {text : List Char} {after : List (Option (List Char))}
      {fault : Fault} (lines_eq : lines = before.map some ++ some text :: after)
      (first : Faultless before) (faulty : LineFault before text fault) :
    Reports file lines ⟨⟨file, before.length + 1⟩, fault⟩
  | emptyGrammar {texts : List (List Char)} (lines_eq : lines = texts.map some)
      (faultless : Faultless texts) (headless : ∀ text ∈ texts, ¬Line.IsHead text) :
    Reports file lines ⟨⟨file, 0⟩, .emptyGrammar⟩

inductive FaultyAt (before : List (Option (List Char))) : Option (List Char) → Prop
  | unreadable : FaultyAt before none
  | line {text : List Char} {fault : Fault} (faulty : LineFault before.reduceOption text fault) :
    FaultyAt before (some text)

def Faulty (lines : List (Option (List Char))) : Prop :=
  ∃ before line after, lines = before ++ line :: after ∧ FaultyAt before line

-- The reading of some lines has failed at one of them, and not for want of a rule head.
theorem exists_run_of_error (h : ofLines file lines = .error error) (hne : error.fault ≠ .emptyGrammar) :
    ∃ loader, Loader.run file lines = .error error loader := by
  unfold ofLines at h
  split at h
  case h_2 other loader hrun =>
    cases h
    exact ⟨loader, hrun⟩
  case h_1 loader hrun =>
    unfold Loader.finish at h
    split at h
    case h_1 =>
      cases h
      exact absurd rfl hne
    case h_2 => cases h

theorem run_append_of_error (h : ofLines file before = .error error) (hne : error.fault ≠ .emptyGrammar) :
    Loader.run file (before ++ after) = Loader.run file before := by
  have ⟨loader, hrun⟩ := exists_run_of_error h hne
  rw [hrun]
  exact Loader.run_readLines_append_of_error hrun

theorem ofLines_append_of_error (h : ofLines file before = .error error)
    (hne : error.fault ≠ .emptyGrammar) : ofLines file (before ++ after) = .error error := by
  rw [← h, ofLines, ofLines, run_append_of_error h hne]

theorem ofLines_of_unreadable (hf : Faultless texts) :
    ofLines file (texts.map some ++ none :: after) = .error ⟨⟨file, 0⟩, .unreadable .notUtf8⟩ := by
  have ⟨loader, hrun, _, _, hfile⟩ := exists_run_of_no_fault file (faultless_iff.mp hf)
  unfold Loader.run at hrun
  rw [ofLines, Loader.run, Loader.readLines_append, EStateM.run_bind, hrun]
  simp [Loader.readLines, hfile]

theorem ofLines_of_line {fault : Fault} {before : List (List Char)} {text : List Char}
    (hf : Faultless before) (hl : LineFault before text fault) :
    ofLines file (before.map some ++ some text :: after) =
      .error ⟨⟨file, before.length + 1⟩, fault⟩ := by
  have hfirst : firstFault? none 1 ((before ++ [text]).map Line.ofText) =
      some (before.length + 1, fault) :=
    firstFault?_ofText_eq_some_iff.mpr ⟨before, text, [], rfl, hf, hl, Nat.add_comm ..⟩
  have hrun : ofLines file ((before ++ [text]).map some) = .error ⟨⟨file, before.length + 1⟩, fault⟩ :=
    ofLines_of_fault hfirst
  have happend : ofLines file ((before ++ [text]).map some ++ after) = _ :=
    ofLines_append_of_error hrun hl.ne_emptyGrammar
  simpa using happend

theorem ofLines_of_reports (h : Reports file lines error) : ofLines file lines = .error error := by
  cases h
  case unreadable he hf =>
    rw [he]
    exact ofLines_of_unreadable hf
  case line he hf hl =>
    rw [he]
    exact ofLines_of_line hf hl
  case emptyGrammar texts he hf hn =>
    rw [he]
    refine ofLines_of_no_heads (faultless_iff.mp hf) ?_
    by_contra hne
    have ⟨text, hm, hh⟩ := headNames_ne_nil_iff.mp hne
    exact hn text hm hh

theorem exists_map_some_append (lines : List (Option (List Char))) :
    ∃ (texts : List (List Char)) (rest : List (Option (List Char))), lines = texts.map some ++ rest ∧
      (rest = [] ∨ ∃ after, rest = none :: after) := by
  by_cases hm : none ∈ lines
  case neg =>
    obtain ⟨texts, rfl⟩ := exists_map_some_iff.mpr hm
    exact ⟨texts, [], by simp, .inl rfl⟩
  case pos =>
    obtain ⟨before, after, rfl, hb⟩ := List.eq_append_cons_of_mem hm
    obtain ⟨texts, rfl⟩ := exists_map_some_iff.mpr hb
    exact ⟨texts, none :: after, rfl, .inr ⟨after, rfl⟩⟩

theorem exists_reports_or (file : Option String) (lines : List (Option (List Char))) :
    (∃ error, Reports file lines error) ∨
      ∃ texts : List (List Char), lines = texts.map some ∧ Faultless texts ∧ ∃ g, ofLines file lines = .ok g := by
  obtain ⟨texts, rest, rfl, hrest⟩ := exists_map_some_append lines
  cases hf : firstFault? none 1 (texts.map Line.ofText)
  case some first =>
    obtain ⟨number, fault⟩ := first
    obtain ⟨before, text, after, rfl, hn, hl, rfl⟩ := firstFault?_ofText_eq_some_iff.mp hf
    have hlines : (before ++ text :: after).map some ++ rest =
        before.map some ++ some text :: (after.map some ++ rest) := by simp
    exact .inl ⟨_, .line hlines hn hl⟩
  case none =>
    have hn := faultless_iff.mpr hf
    obtain rfl | ⟨after, rfl⟩ := hrest
    case inr => exact .inl ⟨_, .unreadable rfl hn⟩
    case inl =>
      rw [List.append_nil]
      by_cases hh : headNames (texts.map Line.ofText) = []
      case pos =>
        refine .inl ⟨_, .emptyGrammar rfl hn fun text hm hhead => ?_⟩
        exact headNames_ne_nil_iff.mpr ⟨text, hm, hhead⟩ hh
      case neg =>
        have ⟨g, hg, _⟩ := exists_of_no_fault file hf hh
        exact .inr ⟨texts, rfl, hn, g, hg⟩

theorem ofLines_eq_error_iff : ofLines file lines = .error error ↔ Reports file lines error := by
  constructor
  case mpr => exact ofLines_of_reports
  case mp =>
    intro h
    obtain ⟨other, ho⟩ | ⟨_, _, _, g, hg⟩ := exists_reports_or file lines
    · cases h.symm.trans (ofLines_of_reports ho)
      exact ho
    · cases h.symm.trans hg

theorem not_faulty_of_faultless (hf : Faultless texts) : ¬Faulty (texts.map some) := by
  rintro ⟨before, line, after, he, hl⟩
  obtain ⟨front, rest, rfl, rfl, hr⟩ := List.map_eq_append_iff.mp he
  obtain ⟨text, back, rfl, rfl, rfl⟩ := List.map_eq_cons_iff.mp hr
  cases hl with | line hl =>
  rw [reduceOption_map_some] at hl
  exact hf front text back rfl _ hl

theorem exists_error_of_faulty (h : Faulty lines) :
    ∃ error, ofLines file lines = .error error ∧ error.fault ≠ .emptyGrammar := by
  obtain ⟨error, hr⟩ | ⟨texts, rfl, hf, _⟩ := exists_reports_or file lines
  case inr => exact absurd h (not_faulty_of_faultless hf)
  case inl =>
    refine ⟨error, ofLines_of_reports hr, ?_⟩
    cases hr
    case unreadable           => simp
    case line hl              => exact hl.ne_emptyGrammar
    case emptyGrammar he hf _ => exact absurd (he ▸ h) (not_faulty_of_faultless hf)

theorem notesOfLines_eq (file : Option String) (lines : List (Option (List Char))) :
    notesOfLines file lines = ((Loader.start file).after (Loader.readLines 1 lines)).notes := by
  unfold notesOfLines Loader.after Loader.run
  cases (Loader.readLines 1 lines).run (Loader.start file) <;> rfl

theorem ofLine_of_mem_notesOfLines {note : Note} (h : note ∈ notesOfLines file lines) : note.OfLine := by
  have hstart : (Loader.start file).NotesLines := by simp [Loader.NotesLines, Loader.start]
  obtain ⟨_, hsteps⟩ := Loader.exists_steps_after_readLines (Loader.sound_start file) 1 lines
  rw [notesOfLines_eq] at h
  exact hsteps.notesLines hstart note h

theorem sourceLines_append (front rest : List UInt8) : sourceLines (front ++ [0x0A] ++ rest) =
    sourceLines (front ++ [0x0A]) ++ sourceLines rest := by
  rw [sourceLines, byteLines, linesBy_append_feed, List.map_append]
  rfl

-- The first line at fault decides what a source fails with. Reading goes no further than that line, so
-- nothing that is written behind it changes the error or adds a note. Only the error of a source
-- without rules can be mended by what comes after.
structure FailsFirst (file : Option String) (source : List UInt8) : Prop where
  error_iff : ∀ error, ofBytes file source = .error error ↔ Reports file (sourceLines source) error
  fails     : Faulty (sourceLines source) →
    ∃ error, ofBytes file source = .error error ∧ error.fault ≠ .emptyGrammar
  stays     : ∀ front error, source = front ++ [0x0A] → ofBytes file source = .error error →
    error.fault ≠ .emptyGrammar → ∀ continuation,
      ofBytes file (source ++ continuation) = .error error ∧
      load file (source ++ continuation) = .error error ∧
      loadNotes file (source ++ continuation) = loadNotes file source ∧
      ∀ check, .checking check ∉ loadNotes file (source ++ continuation)

theorem load_of_ofBytes_error (h : ofBytes file source = .error error) : load file source = .error error :=
  load_eq_error_iff.mpr (.inl h)

theorem loadNotes_of_ofBytes_error (h : ofBytes file source = .error error) :
    loadNotes file source = notesOfBytes file source := by
  simp [loadNotes, h]

theorem failsFirst_of_source (file : Option String) (source : List UInt8) : FailsFirst file source := by
  refine ⟨fun error => ofLines_eq_error_iff, exists_error_of_faulty, ?stays⟩
  rintro front error rfl h hne continuation
  have hrun : Loader.run file (sourceLines (front ++ [0x0A] ++ continuation)) =
      Loader.run file (sourceLines (front ++ [0x0A])) := by
    rw [sourceLines_append, run_append_of_error h hne]
  have hfails : ofBytes file (front ++ [0x0A] ++ continuation) = .error error := by
    rw [← h, ofBytes, ofBytes, ofLines, ofLines, hrun]
  refine ⟨hfails, load_of_ofBytes_error hfails, ?notes, fun check hm => ?check⟩
  case notes =>
    rw [loadNotes_of_ofBytes_error hfails, loadNotes_of_ofBytes_error h, notesOfBytes, notesOfBytes,
      notesOfLines, notesOfLines, hrun]
  case check =>
    rw [loadNotes_of_ofBytes_error hfails] at hm
    exact ofLine_of_mem_notesOfLines hm

example : ofLines none (["A → a", "| \"b 0 | A", "1 → c"].map (some ·.toList)) =
    .error ⟨⟨none, 2⟩, .epsilonNotAlone⟩ := by
  decide +kernel

end Grammar
end LineGrammar
