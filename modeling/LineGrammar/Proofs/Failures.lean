import LineGrammar.Proofs.Faults
import LineGrammar.Proofs.Flags
import LineGrammar.Proofs.Productivity
import LineGrammar.Proofs.Reachability
import LineGrammar.Validation

/-!
What the phases of loading fail with. Whatever loader a line is read into, the fault is one that a line can
have, and only a rule head that is no identifier is reported as one. Whatever grammar is checked, the fault is
none of those.
-/

namespace LineGrammar

inductive Phase
  | decoding
  | reading
  | finishing
  | checking
  deriving DecidableEq, Repr

def Fault.phase : Fault → Phase
  | unreadable _ => .decoding
  | missingNonterminal | invalidNonterminalName _ | invalidIdentifier _ | unmatchedQuote _
  | epsilonNotAlone | derivesItself _ | syntheticNameClash _ => .reading
  | emptyGrammar => .finishing
  | unreferenced _ | undefinedNonterminal _ | noProductions _ | nonDerivable _ | unreachable _ => .checking

theorem Fault.phase_eq_reading_iff {fault : Fault} : fault.phase = .reading ↔ fault.isSyntaxFault := by
  cases fault <;> simp [phase, isSyntaxFault]

theorem Fault.phase_eq_decoding_iff {fault : Fault} : fault.phase = .decoding ↔ fault.isReadFault := by
  cases fault <;> simp [phase, isReadFault]

def Fault.isRightFault : Fault → Bool
  | invalidIdentifier _ | unmatchedQuote _ | epsilonNotAlone | derivesItself _ | syntheticNameClash _ => true
  | _ => false

theorem Fault.isSyntaxFault_of_isRightFault {fault : Fault} (h : fault.isRightFault) :
    fault.isSyntaxFault := by
  cases fault <;> first | rfl | cases h

theorem isRightFault_of_alternativeOfTexts {texts : List (List Char)} {fault : Fault}
    (h : alternativeOfTexts texts = .error fault) : fault.isRightFault := by
  obtain ⟨_, _, rfl⟩ | ⟨_, _, _, _, _, _, hword⟩ := alternativeOfTexts_eq_error_iff.mp h
  · rfl
  · cases hword <;> rfl

namespace Loader

def FailsOnly {α : Type} (P : Fault → Prop) (x : Reading α) : Prop :=
  ∀ (loader : Loader) error new, x.run loader = .error error new → P error.fault

namespace FailsOnly

variable {α β : Type} {P Q : Fault → Prop} {x : Reading α} {g : α → Reading β}

theorem mono (h : FailsOnly P x) (hsub : ∀ fault, P fault → Q fault) : FailsOnly Q x :=
  fun loader error new hrun => hsub _ (h loader error new hrun)

theorem pure (a : α) : FailsOnly P (pure a : Reading α) :=
  fun _ _ _ => nofun

theorem get : FailsOnly P (get : Reading Loader) :=
  fun _ _ _ => nofun

theorem modify (f : Loader → Loader) : FailsOnly P (modify f : Reading Unit) :=
  fun _ _ _ => nofun

theorem modifyGet (f : Loader → α × Loader) : FailsOnly P (modifyGet f : Reading α) :=
  fun _ _ _ => nofun

theorem fail {fault : Fault} (h : P fault) : FailsOnly P (Loader.fail fault : Reading α) := by
  intro loader error new hrun
  cases hrun
  exact h

theorem bind (hx : FailsOnly P x) (hg : ∀ a, FailsOnly P (g a)) : FailsOnly P (x >>= g) := by
  intro loader error new hrun
  rw [EStateM.run_bind] at hrun
  split at hrun
  case h_1 a mid _ => exact hg a mid error new hrun
  case h_2 hfirst  =>
    cases hrun
    exact hx loader _ _ hfirst

end FailsOnly

theorem failsOnly_resolve (item : Item) : FailsOnly (·.isRightFault) (resolve item) := by
  cases item
  case terminal    => exact .bind (.modifyGet _) fun _ => .pure _
  case nonterminal => exact .bind (.modifyGet _) fun _ => .bind (.modify _) fun _ => .pure _

theorem failsOnly_repeated (base : Symbol) (repetition : Repetition) :
    FailsOnly (·.isRightFault) (repeated base repetition) := by
  refine .bind .get fun loader => ?_
  dsimp only
  split
  case h_1 => exact .modifyGet _
  case h_2 =>
    split
    case isTrue  => exact .pure _
    case isFalse => exact .fail rfl

theorem failsOnly_symbolOf (word : Word) : FailsOnly (·.isRightFault) (symbolOf word) := by
  refine .bind (failsOnly_resolve word.item) fun base => ?_
  cases word.repetition
  case none => exact .pure _
  case some => exact .bind (failsOnly_repeated base _) fun _ => .pure _

theorem failsOnly_mapM_symbolOf (words : List Word) : FailsOnly (·.isRightFault) (words.mapM symbolOf) := by
  induction words
  case nil => exact .pure []
  case cons word rest ih =>
    rw [List.mapM_cons]
    exact .bind (failsOnly_symbolOf word) fun _ => .bind ih fun _ => .pure _

theorem failsOnly_addAlternative (head : NonterminalId) (texts : List (List Char)) :
    FailsOnly (·.isRightFault) (addAlternative head texts) := by
  unfold addAlternative
  cases hw : alternativeOfTexts texts
  case error => exact .fail (isRightFault_of_alternativeOfTexts hw)
  case ok words =>
    refine .bind (failsOnly_mapM_symbolOf words) fun symbols => ?_
    split
    case isTrue  => exact .bind .get fun _ => .bind (.fail rfl) fun _ => .modify _
    case isFalse => exact .modify _

theorem failsOnly_addAlternatives (head : NonterminalId) (alternatives : List (List (List Char))) :
    FailsOnly (·.isRightFault) (addAlternatives head alternatives) := by
  induction alternatives
  case nil                => exact .pure _
  case cons texts rest ih => exact .bind (failsOnly_addAlternative head texts) fun _ => ih

theorem failsOnly_declare (name : String) : FailsOnly (·.isRightFault) (declare name) := by
  refine .bind (.modifyGet _) fun id => .bind .get fun loader => ?_
  have hopen : FailsOnly (·.isRightFault)
      (modify (·.openRule id name) >>= fun _ => pure id : Reading NonterminalId) :=
    .bind (.modify _) fun _ => .pure id
  dsimp only
  split
  case isTrue  => exact .bind (.fail rfl) fun _ => hopen
  case isFalse => exact hopen

theorem failsOnly_readLine (number : Nat) (text : List Char) :
    FailsOnly (·.isSyntaxFault) (readLine number text) := by
  have hright := fun head alternatives =>
    (failsOnly_addAlternatives head alternatives).mono fun _ => Fault.isSyntaxFault_of_isRightFault
  have hdeclare := fun name => (failsOnly_declare name).mono fun _ => Fault.isSyntaxFault_of_isRightFault
  refine .bind (.modify _) fun _ => ?_
  cases Line.ofText text
  case blank => exact .pure _
  case alternatives alternatives =>
    refine .bind .get fun loader => ?_
    cases loader.current
    case none => exact .fail rfl
    case some => exact hright _ _
  case rule head alternatives =>
    dsimp only
    split
    case isTrue  => exact .bind (hdeclare _) fun id => hright id _
    case isFalse => exact .fail rfl

theorem phase_of_finish {loader : Loader} {error : GrammarError} (h : loader.finish = .error error) :
    error.fault.phase = .finishing := by
  unfold finish at h
  split at h
  case h_1 =>
    cases h
    rfl
  case h_2 => cases h

end Loader

namespace Grammar

variable {g : Grammar} {error : GrammarError}

theorem phase_of_run_check {check : Check} (h : check.run g = .error error) :
    error.fault.phase = .checking := by
  cases check
  case references =>
    obtain ⟨_, _, _, rfl⟩ := checkReferences_eq_error_iff.mp h
    rfl
  case ruleLists =>
    obtain ⟨id, n, fault, _, hf, rfl⟩ := checkRuleLists_eq_error_iff.mp h
    unfold ruleFault? at hf
    split at hf
    case isTrue => cases hf; rfl
    case isFalse =>
      split at hf
      case isTrue  => cases hf; rfl
      case isFalse => cases hf
  case derivability =>
    obtain ⟨_, rfl⟩ := checkDerivability_eq_error_iff.mp h
    rfl
  case reachability =>
    obtain ⟨_, rfl⟩ := checkReachability_eq_error_iff.mp h
    rfl

theorem phase_of_validate (h : g.validate = .error error) : error.fault.phase = .checking := by
  obtain ⟨_, _, hcheck⟩ := exists_of_forM_eq_error h
  exact phase_of_run_check hcheck

end Grammar
end LineGrammar
