import LineGrammar.Grammar
import Mathlib.Logic.Relation

/-!
Derivations. A string of terminals can be derived from a sentential form exactly if each symbol of the
form yields a part of it.
-/

namespace LineGrammar.Grammar

inductive Step (g : Grammar) : List Symbol → List Symbol → Prop
  | replace (before after : List Symbol) {head : NonterminalId} {production : Production}
      (mem : production ∈ g.productionsOf head) :
    Step g (before ++ .nonterminal head :: after) (before ++ production.symbols ++ after)

def Derives (g : Grammar) : List Symbol → List Symbol → Prop :=
  Relation.ReflTransGen g.Step

-- What a form derives, read off symbol by symbol. A derivation may replace nonterminals in any order;
-- this has one shape for all of them, that of the trees, and what is derived is proved about by
-- induction on it.
inductive Yields (g : Grammar) : List Symbol → List TerminalId → Prop
  | nil : Yields g [] []
  | terminal {id : TerminalId} {rest : List Symbol} {string : List TerminalId}
      (tail : Yields g rest string) : Yields g (.terminal id :: rest) (id :: string)
  | nonterminal {head : NonterminalId} {production : Production} {rest : List Symbol}
      {front back : List TerminalId} (mem : production ∈ g.productionsOf head)
      (expansion : Yields g production.symbols front) (tail : Yields g rest back) :
    Yields g (.nonterminal head :: rest) (front ++ back)

variable {g : Grammar} {a b c d : List Symbol} {u v w : List TerminalId} {head : NonterminalId}

theorem Step.append_left (h : g.Step a b) (c : List Symbol) : g.Step (c ++ a) (c ++ b) := by
  cases h with | replace before after mem =>
  simpa using Step.replace (c ++ before) after mem

theorem Step.append_right (h : g.Step a b) (c : List Symbol) : g.Step (a ++ c) (b ++ c) := by
  cases h with | replace before after mem =>
  simpa using Step.replace before (after ++ c) mem

namespace Derives

theorem refl (a : List Symbol) : g.Derives a a :=
  Relation.ReflTransGen.refl

theorem trans (h₁ : g.Derives a b) (h₂ : g.Derives b c) : g.Derives a c :=
  Relation.ReflTransGen.trans h₁ h₂

theorem append (h₁ : g.Derives a b) (h₂ : g.Derives c d) : g.Derives (a ++ c) (b ++ d) := by
  have left : g.Derives (a ++ c) (b ++ c) := h₁.lift (· ++ c) fun _ _ hs => hs.append_right c
  have right : g.Derives (b ++ c) (b ++ d) := h₂.lift (b ++ ·) fun _ _ hs => hs.append_left b
  exact left.trans right

theorem of_mem {production : Production} (hp : production ∈ g.productionsOf head) :
    g.Derives [.nonterminal head] production.symbols := by
  have : g.Step [.nonterminal head] production.symbols := by simpa using Step.replace [] [] hp
  exact .single this

end Derives

namespace Yields

theorem derives (h : g.Yields a w) : g.Derives a (w.map .terminal) := by
  induction h
  case nil => exact .refl []
  case terminal ih => exact (Derives.refl [_]).append ih
  case nonterminal mem _ _ hp hr =>
    rw [List.map_append]
    exact ((Derives.of_mem mem).trans hp).append hr

theorem append (h₁ : g.Yields a u) (h₂ : g.Yields b v) : g.Yields (a ++ b) (u ++ v) := by
  induction h₁
  case nil => exact h₂
  case terminal ih => exact .terminal ih
  case nonterminal mem hp _ _ ih =>
    rw [List.append_assoc]
    exact .nonterminal mem hp ih

theorem exists_of_append (h : g.Yields (a ++ b) w) :
    ∃ u v, w = u ++ v ∧ g.Yields a u ∧ g.Yields b v := by
  induction a generalizing w
  case nil => exact ⟨[], w, rfl, .nil, h⟩
  case cons symbol rest ih =>
    cases h
    case terminal id string h =>
      obtain ⟨u, v, rfl, hu, hv⟩ := ih h
      exact ⟨id :: u, v, rfl, .terminal hu, hv⟩
    case nonterminal production front back mem hp h =>
      obtain ⟨u, v, rfl, hu, hv⟩ := ih h
      exact ⟨front ++ u, v, by simp, .nonterminal mem hp hu, hv⟩

end Yields

theorem yields_append_iff :
    g.Yields (a ++ b) w ↔ ∃ u v, w = u ++ v ∧ g.Yields a u ∧ g.Yields b v where
  mp := Yields.exists_of_append
  mpr := by
    rintro ⟨u, v, rfl, hu, hv⟩
    exact hu.append hv

theorem yields_cons_iff {symbol : Symbol} :
    g.Yields (symbol :: a) w ↔ ∃ u v, w = u ++ v ∧ g.Yields [symbol] u ∧ g.Yields a v := by
  rw [← List.singleton_append, yields_append_iff]

theorem yields_nil_iff : g.Yields [] w ↔ w = [] := by
  constructor
  · intro h
    cases h
    rfl
  · rintro rfl
    exact .nil

theorem yields_terminal_iff {id : TerminalId} : g.Yields [.terminal id] w ↔ w = [id] := by
  constructor
  · intro h
    cases h with | terminal h =>
    rw [yields_nil_iff.mp h]
  · rintro rfl
    exact .terminal .nil

theorem yields_nonterminal_iff :
    g.Yields [.nonterminal head] w ↔
      ∃ production ∈ g.productionsOf head, g.Yields production.symbols w := by
  constructor
  · intro h
    cases h with | nonterminal mem hp h =>
    cases h
    exact ⟨_, mem, by simpa using hp⟩
  · intro ⟨production, mem, hp⟩
    simpa using Yields.nonterminal mem hp .nil

theorem yields_terminals (w : List TerminalId) : g.Yields (w.map .terminal) w := by
  induction w
  case nil         => exact .nil
  case cons id _ ih => exact .terminal ih

-- The expansion that a step has made is put back into the nonterminal that it replaced.
theorem Step.yields (hs : g.Step a b) (h : g.Yields b w) : g.Yields a w := by
  cases hs with | replace before after mem =>
  obtain ⟨_, v, rfl, h, hv⟩ := h.exists_of_append
  obtain ⟨u, p, rfl, hu, hp⟩ := h.exists_of_append
  rw [List.append_assoc]
  exact hu.append (.nonterminal mem hp hv)

theorem derives_iff_yields : g.Derives a (w.map .terminal) ↔ g.Yields a w := by
  constructor
  case mp =>
    intro h
    induction h using Relation.ReflTransGen.head_induction_on
    case refl             => exact yields_terminals w
    case head hs _ ih     => exact hs.yields ih
  case mpr => exact Yields.derives

end LineGrammar.Grammar
