import LineGrammar.Location

/-!
The symbols of a grammar. Terminals are matched against the tokens of an input, nonterminals are
expanded by rules; inside a grammar both go by their numbers in its symbol table.
-/

namespace LineGrammar

abbrev TerminalId := Nat
abbrev NonterminalId := Nat

inductive Symbol
  | terminal (id : TerminalId)
  | nonterminal (id : NonterminalId)
  deriving DecidableEq, Repr

namespace Symbol

def isTerminal : Symbol → Bool
  | terminal _    => true
  | nonterminal _ => false

def nonterminal? : Symbol → Option NonterminalId
  | terminal _     => none
  | nonterminal id => some id

end Symbol

inductive Quote
  | single
  | double
  deriving DecidableEq, Repr

namespace Quote

def char : Quote → Char
  | single => '\x27'
  | double => '"'

def ofChar? (c : Char) : Option Quote :=
  if c = single.char then some single
  else if c = double.char then some double
  else none

theorem ofChar?_eq_some_iff {c : Char} {quote : Quote} :
    ofChar? c = some quote ↔ c = quote.char := by
  cases quote <;> grind [ofChar?, char]

@[simp]
theorem ofChar?_char (quote : Quote) : ofChar? quote.char = some quote :=
  ofChar?_eq_some_iff.mpr rfl

end Quote

structure Token where
  kind : String
  text : String
  deriving DecidableEq, Repr

-- A named terminal stands for the tokens of a kind, a literal for those with exactly its text.
inductive Terminal
  | named (name : String)
  | literal (quote : Quote) (text : String)
  deriving DecidableEq, Repr

namespace Terminal

def name : Terminal → String
  | named name         => name
  | literal quote text => String.ofList (quote.char :: text.toList ++ [quote.char])

def isLiteral : Terminal → Bool
  | named _     => false
  | literal _ _ => true

def text? : Terminal → Option String
  | named _        => none
  | literal _ text => some text

def accepts (terminal : Terminal) (token : Token) : Bool :=
  match terminal with
  | named name     => name == token.kind
  | literal _ text => text == token.text

def ofQuoted? : List Char → Option Terminal
  | [] => none
  | c :: rest =>
    match Quote.ofChar? c with
    | none => none
    | some quote =>
      if rest.getLast? = some c then some (literal quote (String.ofList rest.dropLast)) else none

theorem ofQuoted?_eq_some_iff {text : List Char} {terminal : Terminal} :
    ofQuoted? text = some terminal ↔
      ∃ quote inner, terminal = literal quote inner ∧ text = terminal.name.toList := by
  constructor
  case mp =>
    intro h
    unfold ofQuoted? at h
    split at h
    case h_1 => simp at h
    case h_2 c rest =>
      split at h
      case h_1 => simp at h
      case h_2 quote hq =>
        split at h
        case isFalse => simp at h
        case isTrue hr =>
          obtain ⟨inner, rfl⟩ := List.getLast?_eq_some_iff.mp hr
          injection h with h
          refine ⟨quote, _, h.symm, ?_⟩
          simp [← h, name, Quote.ofChar?_eq_some_iff.mp hq]
  case mpr =>
    rintro ⟨quote, inner, rfl, rfl⟩
    simp [name, ofQuoted?]

end Terminal

-- What is known about a nonterminal. Its location is that of its first rule head or, as long as it
-- has none, that of its first mention.
structure Nonterminal where
  name : String
  location : Location
  referenced : Bool
  defined : Bool
  synthetic : Bool
  deriving DecidableEq, Repr

namespace Nonterminal

def mentioned (name : String) (location : Location) : Nonterminal :=
  ⟨name, location, false, false, false⟩

-- The repetition that brings a helper into being both defines and uses it.
def helper (name : String) (location : Location) : Nonterminal :=
  ⟨name, location, true, true, true⟩

-- Only the first rule head counts.
def define (nonterminal : Nonterminal) (location : Location) : Nonterminal :=
  if nonterminal.defined then nonterminal
  else { nonterminal with defined := true, location := location }

def reference (nonterminal : Nonterminal) : Nonterminal :=
  { nonterminal with referenced := true }

end Nonterminal
end LineGrammar
