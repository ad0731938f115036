import LineGrammar.Proofs.Steps

/-!
What a reading leaves behind, also where it ends in an error in the middle of a line. Whichever way it
ends, what it has done to a sound loader it has done in steps, so it leaves what every step keeps.
-/

namespace LineGrammar

def Note.OfLine : Note → Prop
  | .ruleHead _ _ | .repetition _ _ => True
  | _                               => False

namespace Loader

def after {α : Type} (loader : Loader) (x : Reading α) : Loader :=
  match x.run loader with
  | .ok _ new    => new
  | .error _ new => new

variable {a b loader : Loader} {piece : Piece} {pieces : List Piece} {file : Option String}

section

variable {id : NonterminalId}

theorem exists_steps_after_addAlternative (hs : loader.Sound) (hc : loader.current = some id)
    (texts : List (List Char)) :
    ∃ pieces, loader.Steps pieces (loader.after (addAlternative id texts)) := by
  cases hw : alternativeOfTexts texts
  case error => exact ⟨[], by simpa [after, addAlternative, hw, run_fail] using Steps.nil⟩
  case ok words =>
    have hwell := wellFormed_of_alternativeOfTexts hw
    obtain ⟨symbols, mid, hrun, hm⟩ := run_mapM_symbolOf hs hwell
    have hsteps := steps_of_run_mapM_symbolOf hs hwell hrun
    by_cases hself : symbols = [.nonterminal id]
    case pos => exact ⟨_, by simpa [after, addAlternative, hw, hrun, hself, run_fail] using hsteps⟩
    case neg =>
      have hlast : mid.Step (.alternative words) (mid.addProduction id symbols) :=
        .alternative (hm.advances.current.trans hc) hm.spells hm.knows
      exact ⟨_, by simpa [after, addAlternative, hw, hrun, hself] using hsteps.append hlast.steps⟩

theorem exists_steps_after_addAlternatives (hs : loader.Sound) (hc : loader.current = some id)
    (alternatives : List (List (List Char))) :
    ∃ pieces, loader.Steps pieces (loader.after (addAlternatives id alternatives)) := by
  induction alternatives generalizing loader
  case nil => exact ⟨[], .nil⟩
  case cons texts rest ih =>
    have ⟨first, hfirst⟩ := exists_steps_after_addAlternative hs hc texts
    cases hrun : (addAlternative id texts).run loader
    case error =>
      simp only [after, hrun] at hfirst
      exact ⟨first, by simpa only [after, addAlternatives_cons, EStateM.run_bind, hrun] using hfirst⟩
    case ok mid =>
      have hm := steps_of_run_addAlternative hs hc hrun
      have hcm := hm.current head?_of_mem_alternativePieces
      have ⟨later, hlater⟩ := ih (hm.sound hs) (hcm.trans hc)
      refine ⟨alternativePieces texts ++ later, ?_⟩
      simpa only [after, addAlternatives_cons, EStateM.run_bind, hrun] using hm.append hlater

end

theorem exists_steps_after_readLine (hs : loader.Sound) (number : Nat) (text : List Char) :
    ∃ pieces, loader.Steps pieces (loader.after (readLine number text)) := by
  have hstep : loader.Step (.line number) (loader.atLine number) := .line number
  cases lineRun hs number text
  case blank hrun => exact ⟨_, by simpa only [after, hrun] using hstep.steps⟩
  case fault hrun => exact ⟨_, by simpa only [after, hrun] using hstep.steps⟩
  case alternatives hhead hc hrun =>
    obtain ⟨_, hlater⟩ := exists_steps_after_addAlternatives (hhead.sound (hs.atLine number)) hc
      (Line.ofText text).texts
    simp only [after, ← hrun] at hlater
    exact ⟨_, .cons hstep (hhead.append hlater)⟩

theorem exists_steps_after_readLines (hs : loader.Sound) (number : Nat)
    (lines : List (Option (List Char))) :
    ∃ pieces, loader.Steps pieces (loader.after (readLines number lines)) := by
  induction lines generalizing loader number
  case nil => exact ⟨[], .nil⟩
  case cons line rest ih =>
    cases line
    case none      => exact ⟨[], .nil⟩
    case some text =>
      have ⟨first, hfirst⟩ := exists_steps_after_readLine hs number text
      cases hrun : (readLine number text).run loader
      case error =>
        simp only [after, hrun] at hfirst
        exact ⟨first, by simpa only [after, readLines_cons, EStateM.run_bind, hrun] using hfirst⟩
      case ok mid =>
        simp only [after, hrun] at hfirst
        have ⟨later, hlater⟩ := ih (hfirst.sound hs) (number + 1)
        refine ⟨first ++ later, ?_⟩
        simpa only [after, readLines_cons, EStateM.run_bind, hrun] using hfirst.append hlater

-- The loaders that lines lead to, whatever their numbers and also after lines at fault.
inductive Reached (file : Option String) : Loader → Prop
  | start : Reached file (start file)
  | readLine {loader : Loader} (number : Nat) (text : List Char) (reached : Reached file loader) :
    Reached file (loader.after (readLine number text))

-- The loaders that lines lead through, also those in the middle of a line.
inductive Passed (file : Option String) : Loader → Prop
  | start : Passed file (start file)
  | step {a b : Loader} {piece : Piece} (passed : Passed file a) (step : a.Step piece b) : Passed file b

theorem Passed.sound (h : Passed file loader) : loader.Sound := by
  induction h
  case start           => exact sound_start file
  case step hstep ih   => exact hstep.sound ih

theorem Passed.steps (ha : Passed file a) (h : a.Steps pieces b) : Passed file b := by
  induction h
  case nil             => exact ha
  case cons hstep _ ih => exact ih (ha.step hstep)

theorem passed_after_readLines (file : Option String) (lines : List (Option (List Char))) :
    Passed file ((start file).after (readLines 1 lines)) := by
  have ⟨_, hsteps⟩ := exists_steps_after_readLines (sound_start file) 1 lines
  exact Passed.start.steps hsteps

theorem passed_of_run {lines : List (Option (List Char))} (h : run file lines = .ok () loader) :
    Passed file loader := by
  have hpassed := passed_after_readLines file lines
  unfold run at h
  rwa [after, h] at hpassed

theorem Reached.passed (h : Reached file loader) : Passed file loader := by
  induction h
  case start => exact .start
  case readLine number text _ ih =>
    have ⟨_, hsteps⟩ := exists_steps_after_readLine ih.sound number text
    exact ih.steps hsteps

theorem Reached.sound (h : Reached file loader) : loader.Sound :=
  h.passed.sound

def NotesLines (loader : Loader) : Prop :=
  ∀ note ∈ loader.notes, note.OfLine

theorem NotesLines.note (h : loader.NotesLines) {n : Note} (hn : n.OfLine) : (loader.note n).NotesLines := by
  intro other hm
  cases List.mem_append.mp hm
  case inl hm => exact h other hm
  case inr hm => exact List.mem_singleton.mp hm ▸ hn

theorem NotesLines.addProduction (h : loader.NotesLines) (head : NonterminalId) (symbols : List Symbol) :
    (loader.addProduction head symbols).NotesLines := by
  unfold Loader.addProduction
  split
  case isTrue  => exact h
  case isFalse => exact h

theorem NotesLines.addHelper (h : loader.NotesLines) (name : String) (base : Symbol)
    (repetition : Repetition) : (loader.addHelper name base repetition).2.NotesLines := by
  have hn : (Loader.note { loader with symbols := (loader.symbols.insertHelper name loader.location).2 }
      (.repetition name loader.line)).NotesLines := NotesLines.note h trivial
  exact (hn.addProduction _ _).addProduction _ _

theorem NotesLines.openRule (h : loader.NotesLines) (id : NonterminalId) (name : String) :
    (loader.openRule id name).NotesLines := by
  rw [openRule_eq]
  exact h.note (n := .ruleHead name loader.line) trivial

theorem Step.notesLines (h : a.Step piece b) (ha : a.NotesLines) : b.NotesLines := by
  cases h
  case head name _ =>
    have hm : (a.internNonterminal name).2.NotesLines := ha
    exact hm.openRule _ _
  case helper      => exact ha.addHelper _ _ _
  case alternative => exact ha.addProduction _ _
  all_goals exact ha

theorem Steps.notesLines (h : a.Steps pieces b) (ha : a.NotesLines) : b.NotesLines := by
  induction h
  case nil             => exact ha
  case cons hstep _ ih => exact ih (hstep.notesLines ha)

end Loader
end LineGrammar
