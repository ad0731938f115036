import LineGrammar.Production
import LineGrammar.SymbolTable

/-!
A compiled grammar and its written form.
-/

namespace LineGrammar

structure Grammar where
  symbols : SymbolTable
  rules : Rules
  root : NonterminalId
  file : Option String
  deriving DecidableEq, Repr

namespace Grammar

variable (g : Grammar)

def productionsOf (head : NonterminalId) : List Production :=
  g.rules.productionsOf head

def productions : List Production :=
  g.rules.productions

def nonterminalCount : Nat :=
  g.symbols.nonterminals.length

def terminalCount : Nat :=
  g.symbols.terminals.length

def productionCount : Nat :=
  g.productions.length

def nonterminalIds : List NonterminalId :=
  List.range g.nonterminalCount

def rootName : String :=
  g.symbols.nonterminalName g.root

def productionText (production : Production) : String :=
  if production.isEpsilon then "0"
  else " ".intercalate (production.symbols.map g.symbols.symbolName)

def ruleText (rule : Rule) : String :=
  g.symbols.nonterminalName rule.head ++ " → " ++
    " | ".intercalate (rule.productions.map g.productionText)

def display : String :=
  String.join (g.rules.map fun rule => g.ruleText rule ++ "\n")

def terminalsAccepting (token : Token) : List Terminal :=
  g.symbols.terminals.filter (·.accepts token)

def samePairCount : Nat :=
  g.productions.foldl (fun count p => count + g.productions.countP p.isSame) 0

def distinctProductionCount : Nat :=
  (g.productions.map Production.id).eraseDups.length

def commonNonterminals (other : Grammar) : List String :=
  (g.symbols.nonterminals.map Nonterminal.name).filter fun name =>
    (other.symbols.nonterminalNamed? name).isSome

def commonTerminals (other : Grammar) : List String :=
  (g.symbols.terminals.filter other.symbols.terminals.contains).map Terminal.name

end Grammar
end LineGrammar
