import LineGrammar.Symbol

/-!
The names of a grammar and their numbers. Terminals and nonterminals are numbered apart, each from 0
in the order in which their names were first given.
-/

namespace LineGrammar

structure SymbolTable where
  terminals : List Terminal
  nonterminals : List Nonterminal
  deriving DecidableEq, Repr

namespace SymbolTable

def empty : SymbolTable :=
  ⟨[], []⟩

variable (table : SymbolTable)

def terminalNamed? (name : String) : Option TerminalId :=
  table.terminals.findIdx? (·.name == name)

def nonterminalNamed? (name : String) : Option NonterminalId :=
  table.nonterminals.findIdx? (·.name == name)

def internTerminal (terminal : Terminal) : TerminalId × SymbolTable :=
  match table.terminalNamed? terminal.name with
  | some id => (id, table)
  | none    => (table.terminals.length, { table with terminals := table.terminals ++ [terminal] })

def internNonterminal (name : String) (location : Location) : NonterminalId × SymbolTable :=
  match table.nonterminalNamed? name with
  | some id => (id, table)
  | none    => (table.nonterminals.length,
      { table with nonterminals := table.nonterminals ++ [.mentioned name location] })

-- Under a known name a helper takes over that entry's number.
def insertHelper (name : String) (location : Location) : NonterminalId × SymbolTable :=
  match table.nonterminalNamed? name with
  | some id => (id,
      { table with nonterminals := table.nonterminals.set id (.helper name location) })
  | none    => (table.nonterminals.length,
      { table with nonterminals := table.nonterminals ++ [.helper name location] })

def define (id : NonterminalId) (location : Location) : SymbolTable :=
  { table with nonterminals := table.nonterminals.modify id (·.define location) }

def reference (id : NonterminalId) : SymbolTable :=
  { table with nonterminals := table.nonterminals.modify id (·.reference) }

-- Empty for a number that was never given out.
def nonterminalName (id : NonterminalId) : String :=
  (table.nonterminals[id]?.map Nonterminal.name).getD ""

def symbolName : Symbol → String
  | .terminal id    => (table.terminals[id]?.map Terminal.name).getD ""
  | .nonterminal id => table.nonterminalName id

def isSynthetic (id : NonterminalId) : Bool :=
  (table.nonterminals[id]?.map Nonterminal.synthetic).getD false

variable {table} {name : String} {id : NonterminalId} {location : Location}

theorem nonterminalNamed?_eq_none_iff : table.nonterminalNamed? name = none ↔
    ∀ n ∈ table.nonterminals, n.name ≠ name := by
  simp [nonterminalNamed?]

theorem terminalNamed?_eq_none_iff : table.terminalNamed? name = none ↔
    ∀ t ∈ table.terminals, t.name ≠ name := by
  simp [terminalNamed?]

@[simp]
theorem map_name_define : (table.define id location).nonterminals.map Nonterminal.name =
    table.nonterminals.map Nonterminal.name := by
  apply List.ext_getElem
  · simp [define]
  · intro i _ _
    by_cases h : id = i <;> simp [define, h, Nonterminal.define, apply_ite]

@[simp]
theorem map_name_reference : (table.reference id).nonterminals.map Nonterminal.name =
    table.nonterminals.map Nonterminal.name := by
  apply List.ext_getElem
  · simp [reference]
  · intro i _ _
    by_cases h : id = i <;> simp [reference, h, Nonterminal.reference]

end SymbolTable
end LineGrammar
