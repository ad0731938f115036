import LineGrammar.Fault
import LineGrammar.Grammar

/-!
Two checks of the nonterminals one by one: each is referenced, and each has a rule with at least one
production. They report the first nonterminal that is at fault, at its own location.
-/

namespace LineGrammar.Grammar

variable (g : Grammar)

def firstUnreferenced? : Option Nonterminal :=
  g.symbols.nonterminals.find? (!·.referenced)

def checkReferences : Except GrammarError Unit :=
  match g.firstUnreferenced? with
  | some n => .error ⟨n.location, .unreferenced n.name⟩
  | none   => .ok ()

def ruleFault? (id : NonterminalId) (n : Nonterminal) : Option Fault :=
  if !n.defined then some (.undefinedNonterminal n.name)
  else if (g.productionsOf id).isEmpty then some (.noProductions n.name)
  else none

def firstRuleFault? : Option GrammarError :=
  g.symbols.nonterminals.zipIdx.findSome? fun (n, id) =>
    (g.ruleFault? id n).map (⟨n.location, ·⟩)

def checkRuleLists : Except GrammarError Unit :=
  match g.firstRuleFault? with
  | some error => .error error
  | none       => .ok ()

end LineGrammar.Grammar
