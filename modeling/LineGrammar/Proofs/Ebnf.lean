import LineGrammar.Proofs.Clauses
import Mathlib

/-!
The direct reading of a source. Each nonterminal stands for a language, a repetition mark for a closure
of the language before it, and an alternative for the concatenation of its words. The languages of a
source are the least ones that contain what its alternatives say.
-/

open Computability

namespace LineGrammar

abbrev Meaning := String → Language Terminal

def Item.language (meaning : Meaning) : Item → Language Terminal
  | terminal t       => {[t]}
  | nonterminal name => meaning name

def Repetition.language : Repetition → Language Terminal → Language Terminal
  | zeroOrMore, base => base∗
  | oneOrMore,  base => base * base∗
  | optional,   base => 1 + base

def Word.language (meaning : Meaning) : Word → Language Terminal
  | ⟨item, none⟩            => item.language meaning
  | ⟨item, some repetition⟩ => repetition.language (item.language meaning)

def wordsLanguage (meaning : Meaning) (words : List Word) : Language Terminal :=
  (words.map (Word.language meaning)).prod

theorem Item.language_mono (item : Item) : Monotone fun meaning => item.language meaning := by
  intro a b h
  cases item
  case terminal t       => exact le_refl _
  case nonterminal name => exact h name

theorem Repetition.language_mono (repetition : Repetition) : Monotone repetition.language := by
  intro a b h
  cases repetition
  case zeroOrMore => exact kstar_mono h
  case oneOrMore  => exact mul_le_mul' h (kstar_mono h)
  case optional   => exact add_le_add_right h 1

theorem Word.language_mono (word : Word) : Monotone fun meaning => word.language meaning := by
  intro a b h
  match word with
  | ⟨item, none⟩            => exact item.language_mono h
  | ⟨item, some repetition⟩ => exact repetition.language_mono (item.language_mono h)

theorem wordsLanguage_mono (words : List Word) :
    Monotone fun meaning => wordsLanguage meaning words := by
  intro a b h
  induction words
  case nil => exact le_refl _
  case cons word rest ih => exact mul_le_mul' (word.language_mono h) ih

variable {clauses : List Clause} {meaning : Meaning}

def ClosedUnder (clauses : List Clause) (meaning : Meaning) : Prop :=
  ∀ clause ∈ clauses, ∀ words, alternativeOfTexts clause.texts = .ok words →
    wordsLanguage meaning words ≤ meaning clause.head

-- The strings that every closed family has in the language of the name. This family is closed as well,
-- so it is the least one.
def ebnfLanguage (clauses : List Clause) : Meaning :=
  fun name => {string | ∀ meaning, ClosedUnder clauses meaning → string ∈ meaning name}

theorem ebnfLanguage_le (h : ClosedUnder clauses meaning) : ebnfLanguage clauses ≤ meaning :=
  fun _ _ hs => hs meaning h

theorem closedUnder_ebnfLanguage : ClosedUnder clauses (ebnfLanguage clauses) := by
  intro clause hm words hw string hs meaning hc
  exact hc clause hm words hw (wordsLanguage_mono words (ebnfLanguage_le hc) hs)

end LineGrammar
