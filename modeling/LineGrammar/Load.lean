import LineGrammar.Source
import LineGrammar.Validation

/-!
Loading a grammar: it is read and then checked, so what is loaded is sound.
-/

namespace LineGrammar.Grammar

def load (file : Option String) (source : List UInt8) : Except GrammarError Grammar := do
  let g ← ofBytes file source
  g.validate
  return g

section

variable {file : Option String} {source : List UInt8} {g : Grammar} {error : GrammarError}

theorem load_eq_ok_iff : load file source = .ok g ↔ ofBytes file source = .ok g ∧ g.validate = .ok () := by
  rw [load]
  cases ofBytes file source with
  | error    => simp [bind, Except.bind]
  | ok other =>
    cases hv : other.validate with
    | error _ => simp +contextual [hv, bind, Except.bind, eq_comm]
    | ok _    => simp +contextual [hv, bind, Except.bind, pure, Except.pure, eq_comm]

theorem load_eq_error_iff : load file source = .error error ↔
    ofBytes file source = .error error ∨ ∃ g, ofBytes file source = .ok g ∧ g.validate = .error error := by
  rw [load]
  cases ofBytes file source with
  | error    => simp [bind, Except.bind]
  | ok other => cases hv : other.validate <;> simp [hv, bind, Except.bind, pure, Except.pure]

end

def loadNotes (file : Option String) (source : List UInt8) : List Note :=
  notesOfBytes file source ++
    match ofBytes file source with
    | .error _ => []
    | .ok g =>
      g.validationNotes ++
        match g.validate with
        | .error _ => []
        | .ok ()   => [.loaded file g.nonterminalCount g.terminalCount g.productionCount]

def loadFile (path : String) (contents : Except ReadFault (List UInt8)) :
    Except GrammarError Grammar :=
  match contents with
  | .error cause => .error ⟨⟨some path, 0⟩, .unreadable cause⟩
  | .ok source   => load (some path) source

def loadFileNotes (path : String) (contents : Except ReadFault (List UInt8)) : List Note :=
  match contents with
  | .error _   => []
  | .ok source => loadNotes (some path) source

end LineGrammar.Grammar
