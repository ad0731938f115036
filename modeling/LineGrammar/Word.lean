import LineGrammar.Fault
import LineGrammar.Symbol
import LineGrammar.Text.Identifier
import LineGrammar.Text.Uppercase

/-!
The words of a right-hand side. A word is a literal in quotes or an identifier, and may end in a
repetition mark; an identifier that starts with an uppercase character names a nonterminal.
-/

namespace LineGrammar

inductive Repetition
  | zeroOrMore
  | oneOrMore
  | optional
  deriving DecidableEq, Repr

namespace Repetition

def mark : Repetition → Char
  | zeroOrMore => '*'
  | oneOrMore  => '+'
  | optional   => '?'

def ofMark? (c : Char) : Option Repetition :=
  if c = zeroOrMore.mark then some zeroOrMore
  else if c = oneOrMore.mark then some oneOrMore
  else if c = optional.mark then some optional
  else none

theorem ofMark?_eq_some_iff {c : Char} {repetition : Repetition} :
    ofMark? c = some repetition ↔ c = repetition.mark := by
  cases repetition <;> grind [ofMark?, mark]

@[simp]
theorem ofMark?_mark (repetition : Repetition) : ofMark? repetition.mark = some repetition :=
  ofMark?_eq_some_iff.mpr rfl

end Repetition

inductive Item
  | terminal (t : Terminal)
  | nonterminal (name : String)
  deriving DecidableEq, Repr

namespace Item

def name : Item → String
  | terminal t       => t.name
  | nonterminal name => name

def ofText (text : List Char) : Except Fault Item :=
  match text with
  | [] => .error (.invalidIdentifier "")
  | c :: _ =>
    if (Quote.ofChar? c).isSome then
      match Terminal.ofQuoted? text with
      | some t => .ok (.terminal t)
      | none   => .error (.unmatchedQuote (String.ofList text))
    else if isIdentifier text then
      if isUppercase c then .ok (.nonterminal (String.ofList text))
      else .ok (.terminal (.named (String.ofList text)))
    else .error (.invalidIdentifier (String.ofList text))

end Item

structure Word where
  item : Item
  repetition : Option Repetition
  deriving DecidableEq, Repr

namespace Word

-- Only one mark is taken off.
def splitMark (text : List Char) : List Char × Option Repetition :=
  match text.getLast?.bind Repetition.ofMark? with
  | some repetition => (text.dropLast, some repetition)
  | none            => (text, none)

def ofText (text : List Char) : Except Fault Word := do
  let (base, repetition) := splitMark text
  return ⟨← Item.ofText base, repetition⟩

def text (word : Word) : List Char :=
  word.item.name.toList ++ (word.repetition.map Repetition.mark).toList

end Word

-- A lone 0 stands for the empty alternative, and nothing may be written next to it.
def alternativeOfTexts (texts : List (List Char)) : Except Fault (List Word) :=
  if texts.contains ['0'] then
    if texts.length = 1 then .ok [] else .error .epsilonNotAlone
  else texts.mapM Word.ofText

end LineGrammar
