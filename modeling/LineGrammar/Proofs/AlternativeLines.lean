import Mathlib.Data.List.Induction
import LineGrammar.Proofs.EntrySites

/-!
The lines that productions come from. Whatever reading a line adds is located on that line, and the
alternatives that a source has up to a line are as many as the productions, so the two go together.
-/

namespace LineGrammar

def numberedClauses : Option String → Nat → List Line → List (Clause × Nat)
  | _, _, [] => []
  | active, number, line :: rest =>
    (line.clauses active).map (·, number) ++ numberedClauses (line.head?.or active) (number + 1) rest

def numberedAlternatives (name : String) (lines : List Line) : List (List (List Char) × Nat) :=
  ((numberedClauses none 1 lines).filter (·.1.head == name)).map fun clause => (clause.1.texts, clause.2)

section

variable {active : Option String} {number : Nat} {name : String} {line : Line}
variable {before after lines : List Line}

theorem map_fst_numberedClauses (active : Option String) (number : Nat) (lines : List Line) :
    (numberedClauses active number lines).map Prod.fst = clausesFrom active lines := by
  induction lines generalizing active number
  case nil => rfl
  case cons line rest ih => simp [numberedClauses, clausesFrom, ih, Function.comp_def]

theorem numberedClauses_append : numberedClauses active number (before ++ after) =
    numberedClauses active number before ++
      numberedClauses ((headNames before).getLast?.or active) (number + before.length) after := by
  induction before generalizing active number
  case nil => rfl
  case cons line rest ih =>
    simp only [List.cons_append, numberedClauses, ih, List.append_assoc, getLast?_headNames_cons_or,
      List.length_cons, Nat.add_right_comm, Nat.add_assoc]

theorem map_fst_numberedAlternatives :
    (numberedAlternatives name lines).map Prod.fst = alternativesOf name (clausesFrom none lines) := by
  rw [← map_fst_numberedClauses none 1, alternativesOf, List.filter_map, numberedAlternatives]
  simp [Function.comp_def]

theorem numberedAlternatives_concat (name : String) (lines : List Line) (line : Line) : ∃ later,
    numberedAlternatives name (lines ++ [line]) = numberedAlternatives name lines ++ later ∧
      ∀ written ∈ later, written.2 = lines.length + 1 := by
  rw [numberedAlternatives, numberedClauses_append, List.filter_append, List.map_append]
  refine ⟨_, rfl, fun written hm => ?_⟩
  simp only [numberedClauses, List.append_nil, List.mem_map, List.mem_filter] at hm
  obtain ⟨_, ⟨⟨clause, _, rfl⟩, _⟩, rfl⟩ := hm
  exact Nat.add_comm ..

theorem map_fst_keepFirst_numberedAlternatives :
    (keepFirst (isEpsilonText ·.1) (numberedAlternatives name lines)).map Prod.fst =
      keepFirst isEpsilonText (alternativesOf name (clausesFrom none lines)) := by
  rw [← map_fst_numberedAlternatives, keepFirst_map]

end

namespace Loader

variable {a b c loader new : Loader} {piece : Piece} {pieces : List Piece} {id : NonterminalId}
variable {n : Nonterminal} {number : Nat} {text : List Char} {file : Option String} {lines : List (Option (List Char))}

structure AddsHere (old new : Loader) : Prop where
  location      : new.location = old.location
  productionsOf : ∀ id, ∃ added, new.rules.productionsOf id = old.rules.productionsOf id ++ added ∧
    ∀ production ∈ added, production.location = old.location

namespace AddsHere

theorem of_rules (hl : new.location = loader.location) (hr : new.rules = loader.rules) :
    loader.AddsHere new :=
  ⟨hl, fun id => ⟨[], by simp [hr]⟩⟩

theorem trans (h₁ : a.AddsHere b) (h₂ : b.AddsHere c) : a.AddsHere c where
  location := h₂.location.trans h₁.location
  productionsOf id := by
    have ⟨first, hfirst, hf⟩ := h₁.productionsOf id
    have ⟨second, hsecond, hs⟩ := h₂.productionsOf id
    refine ⟨first ++ second, by rw [hsecond, hfirst, List.append_assoc], ?_⟩
    rw [List.forall_mem_append]
    exact ⟨hf, fun production hm => (hs production hm).trans h₁.location⟩

end AddsHere

theorem addsHere_addProduction (loader : Loader) (head : NonterminalId) (symbols : List Symbol) :
    loader.AddsHere (loader.addProduction head symbols) := by
  refine ⟨(samePlace_addProduction symbols).location_eq, fun id => ?_⟩
  unfold addProduction
  split
  case isTrue  => exact ⟨[], by simp⟩
  case isFalse =>
    rw [Rules.productionsOf_add]
    split
    case isTrue  => exact ⟨_, rfl, by simp⟩
    case isFalse => exact ⟨[], by simp⟩

theorem addsHere_addHelper (name : String) (base : Symbol) (repetition : Repetition) :
    loader.AddsHere (loader.addHelper name base repetition).2 := by
  have hn : loader.AddsHere (Loader.note
      { loader with symbols := (loader.symbols.insertHelper name loader.location).2 }
      (.repetition name loader.line)) := .of_rules rfl rfl
  exact hn.trans ((addsHere_addProduction ..).trans (addsHere_addProduction ..))

theorem Step.addsHere (h : a.Step piece b) (hp : piece.lineAfter a.line = a.line) : a.AddsHere b := by
  cases h
  case line        => exact .of_rules (congrArg (Location.mk a.file) hp) rfl
  case helper      => exact addsHere_addHelper ..
  case alternative => exact addsHere_addProduction ..
  case head        =>
    refine ⟨by rw [openRule_eq]; rfl, fun id => ⟨[], ?_, by simp⟩⟩
    rw [rules_openRule, Rules.productionsOf_declare, List.append_nil]
    rfl
  all_goals exact .of_rules rfl rfl

theorem Steps.addsHere (h : a.Steps pieces b) (hp : ∀ piece ∈ pieces, piece.lineAfter a.line = a.line) :
    a.AddsHere b := by
  induction h
  case nil => exact .of_rules rfl rfl
  case cons a b _ _ _ hstep _ ih =>
    rw [List.forall_mem_cons] at hp
    have hb := hstep.addsHere hp.left
    have hline : b.line = a.line := congrArg Location.line hb.location
    exact hb.trans (ih (hline ▸ hp.right))

theorem addsHere_of_run_readLine (hs : loader.Sound) (h : (readLine number text).run loader = .ok () new) :
    (loader.atLine number).AddsHere new := by
  cases steps_of_run_readLine hs h with | cons hstep hrest =>
  cases hstep
  exact hrest.addsHere fun _ => lineAfter_of_mem_linePieces

theorem run_readLines_singleton_iff {line : Option (List Char)} :
    (readLines number [line]).run loader = .ok () new ↔
      ∃ text, line = some text ∧ (readLine number text).run loader = .ok () new := by
  cases line
  case none => simp [readLines]
  case some text =>
    rw [readLines_cons, EStateM.run_bind]
    cases hrun : (readLine number text).run loader <;> simp [hrun, readLines]

theorem length_productionsOf_of_run (h : run file lines = .ok () loader)
    (hn : loader.symbols.nonterminals[id]? = some n) (hw : n.synthetic = false) :
    (loader.rules.productionsOf id).length =
      (keepFirst (isEpsilonText ·.1) (numberedAlternatives n.name (linesOf lines))).length := by
  have ⟨_, hr⟩ := sound_and_records_of_run h
  rw [← (hr.productions hn hw).length_eq, ← map_fst_keepFirst_numberedAlternatives, List.length_map]

theorem numberedAlternatives_eq_nil {heads : List String} {lines : List Line} {name : String}
    (hr : loader.Records heads (clausesFrom none lines)) (hno : name ∉ heads) :
    numberedAlternatives name lines = [] := by
  rw [← List.map_eq_nil_iff (f := Prod.fst), map_fst_numberedAlternatives]
  exact alternativesOf_eq_nil fun clause hm he => hno (he ▸ (hr.headed clause hm).left)

theorem map_location_of_run (h : run file lines = .ok () loader)
    (hn : loader.symbols.nonterminals[id]? = some n) (hw : n.synthetic = false) :
    (loader.rules.productionsOf id).map Production.location =
      (keepFirst (isEpsilonText ·.1) (numberedAlternatives n.name (linesOf lines))).map (⟨file, ·.2⟩) := by
  induction lines using List.reverseRecOn generalizing loader n
  case nil =>
    cases h
    simp [start, SymbolTable.empty] at hn
  case append_singleton before line ih =>
    have hlength := length_productionsOf_of_run h hn hw
    obtain ⟨mid, hbefore, hline⟩ := run_readLines_append_iff.mp h
    obtain ⟨text, rfl, hrun⟩ := run_readLines_singleton_iff.mp hline
    obtain ⟨texts, rfl⟩ := exists_texts_of_readLines hbefore
    obtain ⟨hs, hr⟩ := sound_and_records_of_run hbefore
    obtain ⟨hnew, _⟩ := sound_and_records_of_run h
    have hfile : mid.file = file := (steps_of_run_readLines (sound_start file) hbefore).file
    have hgrows := (steps_of_run_readLine hs hrun).extends.symbols
    have hmid : (mid.rules.productionsOf id).map Production.location =
        (keepFirst (isEpsilonText ·.1) (numberedAlternatives n.name (linesOf (texts.map some)))).map
          (⟨file, ·.2⟩) := by
      by_cases hlt : id < mid.symbols.nonterminals.length
      case pos =>
        obtain ⟨m, hm, hg⟩ := hgrows.reflect hlt hn
        exact hg.name ▸ ih hbefore hm (hg.synthetic ▸ hw)
      case neg =>
        have hno := hr.not_mem_heads hnew.symbols hgrows hn (Nat.not_lt.mp hlt)
        rw [hs.rules.productionsOf_eq_nil (Nat.not_lt.mp hlt), numberedAlternatives_eq_nil hr hno]
        rfl
    obtain ⟨added, hadded, hhere⟩ := (addsHere_of_run_readLine hs hrun).productionsOf id
    obtain ⟨later, hlater, hnumber⟩ :=
      numberedAlternatives_concat n.name (linesOf (texts.map some)) (.ofText text)
    obtain ⟨kept, hkept, hsub⟩ := exists_keepFirst_append (p := (isEpsilonText ·.1))
      (numberedAlternatives n.name (linesOf (texts.map some))) later
    have hproductions : loader.rules.productionsOf id = mid.rules.productionsOf id ++ added := hadded
    have halternatives : numberedAlternatives n.name (linesOf (texts.map some ++ [some text])) =
        numberedAlternatives n.name (linesOf (texts.map some)) ++ later := by
      rw [linesOf_append]
      exact hlater
    rw [hproductions, halternatives, hkept] at hlength ⊢
    -- The productions there were keep their locations, and all new ones are on the last line.
    refine map_append_eq_of_length hmid hlength (c := ⟨file, texts.length + 1⟩) (fun production hm => ?_)
      fun written hm => ?_
    · simp [hhere production hm, location, atLine, hfile, Nat.add_comm]
    · simp [hnumber written (hsub hm), linesOf_map_some]

end Loader
end LineGrammar
