import LineGrammar.Grammar
import LineGrammar.Line
import LineGrammar.Note
import LineGrammar.Word

/-!
A grammar while it is being read, one line after the other. A line that has a fault ends the
reading, but what its words before the fault have done to the grammar stays done.
-/

namespace LineGrammar

structure Loader where
  file : Option String
  symbols : SymbolTable
  rules : Rules
  root : Option NonterminalId
  -- The most recent rule head, to which lines that start with a bar add.
  current : Option NonterminalId
  nextProduction : Nat
  line : Nat
  notes : List Note
  deriving DecidableEq, Repr

abbrev Reading := EStateM GrammarError Loader

namespace Loader

def start (file : Option String) : Loader :=
  ⟨file, .empty, [], none, none, 0, 0, []⟩

section

variable (loader : Loader)

def location : Location :=
  ⟨loader.file, loader.line⟩

def note (n : Note) : Loader :=
  { loader with notes := loader.notes ++ [n] }

def atLine (number : Nat) : Loader :=
  { loader with line := number }

def internTerminal (terminal : Terminal) : TerminalId × Loader :=
  let (id, symbols) := loader.symbols.internTerminal terminal
  (id, { loader with symbols := symbols })

def internNonterminal (name : String) : NonterminalId × Loader :=
  let (id, symbols) := loader.symbols.internNonterminal name loader.location
  (id, { loader with symbols := symbols })

def reference (id : NonterminalId) : Loader :=
  { loader with symbols := loader.symbols.reference id }

-- A second empty production is left out.
def addProduction (head : NonterminalId) (symbols : List Symbol) : Loader :=
  if symbols.isEmpty && (loader.rules.productionsOf head).any Production.isEpsilon then loader
  else { loader with
    rules := loader.rules.add head ⟨loader.nextProduction, symbols, loader.location⟩
    nextProduction := loader.nextProduction + 1 }

-- The first rule of all is that of the root, which needs no other reference.
def openRule (id : NonterminalId) (name : String) : Loader :=
  let defined := { loader with symbols := loader.symbols.define id loader.location }
  let noted := defined.note (.ruleHead name loader.line)
  let rooted := if noted.root.isNone then { noted.reference id with root := some id } else noted
  { rooted with current := some id, rules := rooted.rules.declare id }

def helperAlternatives (helper : NonterminalId) (base : Symbol) :
    Repetition → List Symbol × List Symbol
  | .zeroOrMore => ([.nonterminal helper, base], [])
  | .oneOrMore  => ([.nonterminal helper, base], [base])
  | .optional   => ([base], [])

def addHelper (name : String) (base : Symbol) (repetition : Repetition) : NonterminalId × Loader :=
  let (helper, symbols) := loader.symbols.insertHelper name loader.location
  let (first, second) := helperAlternatives helper base repetition
  let noted := { loader with symbols := symbols }.note (.repetition name loader.line)
  (helper, (noted.addProduction helper first).addProduction helper second)

def finish : Except GrammarError Grammar :=
  match loader.root with
  | none      => .error ⟨⟨loader.file, 0⟩, .emptyGrammar⟩
  | some root => .ok ⟨loader.symbols, loader.rules, root, loader.file⟩

end

def fail {α : Type} (fault : Fault) : Reading α := do
  throw ⟨(← get).location, fault⟩

def resolve : Item → Reading Symbol
  | .terminal t => return .terminal (← modifyGet (·.internTerminal t))
  | .nonterminal name => do
    let id ← modifyGet (·.internNonterminal name)
    modify (·.reference id)
    return .nonterminal id

-- A helper is made at the first use and shared by all later ones.
def repeated (base : Symbol) (repetition : Repetition) : Reading NonterminalId := do
  let symbols := (← get).symbols
  let name := (symbols.symbolName base).push repetition.mark
  match symbols.nonterminalNamed? name with
  | none    => modifyGet (·.addHelper name base repetition)
  | some id => if symbols.isSynthetic id then return id else fail (.syntheticNameClash name)

def symbolOf (word : Word) : Reading Symbol := do
  let base ← resolve word.item
  match word.repetition with
  | none            => return base
  | some repetition => return .nonterminal (← repeated base repetition)

def addAlternative (head : NonterminalId) (texts : List (List Char)) : Reading Unit := do
  match alternativeOfTexts texts with
  | .error fault => fail fault
  | .ok words =>
    let symbols ← words.mapM symbolOf
    if symbols = [.nonterminal head] then
      fail (.derivesItself ((← get).symbols.nonterminalName head))
    modify (·.addProduction head symbols)

def addAlternatives (head : NonterminalId) (alternatives : List (List (List Char))) :
    Reading Unit :=
  alternatives.forM (addAlternative head)

-- A helper cannot get a rule by its name.
def declare (name : String) : Reading NonterminalId := do
  let id ← modifyGet (·.internNonterminal name)
  if (← get).symbols.isSynthetic id then fail (.syntheticNameClash name)
  modify (·.openRule id name)
  return id

def readLine (number : Nat) (text : List Char) : Reading Unit := do
  modify (·.atLine number)
  match Line.ofText text with
  | .blank => return
  | .alternatives alternatives =>
    match (← get).current with
    | none      => fail .missingNonterminal
    | some head => addAlternatives head alternatives
  | .rule head alternatives =>
    if isIdentifier head then addAlternatives (← declare (String.ofList head)) alternatives
    else fail (.invalidNonterminalName (String.ofList head))

-- A line whose bytes are no text is found when its turn comes, and reported for the file as a whole.
def readLines : Nat → List (Option (List Char)) → Reading Unit
  | _, [] => return
  | _, none :: _ => do throw ⟨⟨(← get).file, 0⟩, .unreadable .notUtf8⟩
  | number, some text :: rest => do
    readLine number text
    readLines (number + 1) rest

end Loader
end LineGrammar
