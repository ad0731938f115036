import LineGrammar.Symbol

/-!
Productions, and the rules that gather those of a nonterminal.
-/

namespace LineGrammar

-- One alternative of a rule. Its number tells it from every other production of the grammar, also
-- from those with the same symbols.
structure Production where
  id : Nat
  symbols : List Symbol
  location : Location
  deriving DecidableEq, Repr

namespace Production

def isEpsilon (production : Production) : Bool :=
  production.symbols.isEmpty

def isSame (a b : Production) : Bool :=
  a.id == b.id

def nonterminals (production : Production) : List NonterminalId :=
  production.symbols.filterMap Symbol.nonterminal?

theorem mem_nonterminals_iff {production : Production} {id : NonterminalId} :
    id ∈ production.nonterminals ↔ .nonterminal id ∈ production.symbols := by
  rw [nonterminals, List.mem_filterMap]
  constructor
  case mp =>
    intro ⟨symbol, hm, he⟩
    cases symbol <;> cases he
    exact hm
  case mpr => exact fun hm => ⟨_, hm, rfl⟩

end Production

structure Rule where
  head : NonterminalId
  productions : List Production
  deriving DecidableEq, Repr

-- The rules of a grammar in the order in which their heads were first declared.
abbrev Rules := List Rule

namespace Rules

variable (rules : Rules)

def hasHead (head : NonterminalId) : Bool :=
  rules.any (·.head == head)

def productionsOf (head : NonterminalId) : List Production :=
  ((rules.find? (·.head == head)).map Rule.productions).getD []

def declare (head : NonterminalId) : Rules :=
  if rules.hasHead head then rules else rules ++ [⟨head, []⟩]

def add (head : NonterminalId) (production : Production) : Rules :=
  (rules.declare head).map fun rule =>
    if rule.head = head then { rule with productions := rule.productions ++ [production] } else rule

def productions : List Production :=
  rules.flatMap Rule.productions

variable {rules} {head other : NonterminalId} {production : Production}

@[simp]
theorem hasHead_iff : rules.hasHead head ↔ ∃ rule ∈ rules, rule.head = head := by
  simp [hasHead]

theorem hasHead_declare :
    (rules.declare head).hasHead other ↔ rules.hasHead other ∨ head = other := by
  unfold declare
  split
  case isTrue h =>
    constructor
    · exact .inl
    · rintro (h' | rfl)
      · exact h'
      · exact h
  case isFalse => simp [or_and_right, exists_or]

theorem productionsOf_declare :
    (rules.declare head).productionsOf other = rules.productionsOf other := by
  unfold declare
  split
  case isTrue => rfl
  case isFalse h =>
    simp only [productionsOf, List.find?_append, List.find?_cons, List.find?_nil]
    cases hf : rules.find? (·.head == other)
    case some => rfl
    case none =>
      cases ho : head == other
      case false => rfl
      case true  => rfl

theorem productionsOf_add : (rules.add head production).productionsOf other =
    if head = other then rules.productionsOf other ++ [production]
    else rules.productionsOf other := by
  have hd : (rules.declare head).hasHead head := hasHead_declare.mpr (.inr rfl)
  have hp : (rules.declare head).productionsOf other = rules.productionsOf other :=
    productionsOf_declare
  rw [← hp]
  simp only [productionsOf, add, List.find?_map, Function.comp_def, apply_ite Rule.head, ite_self]
  cases hf : (rules.declare head).find? (·.head == other)
  case none =>
    have : head ≠ other := by
      rintro rfl
      obtain ⟨rule, hm, he⟩ := hasHead_iff.mp hd
      exact List.find?_eq_none.mp hf rule hm (by simpa using he)
    simp [this]
  case some rule =>
    have : rule.head = other := by simpa using List.find?_some hf
    subst this
    by_cases ho : head = rule.head <;> simp [ho, eq_comm]

end Rules
end LineGrammar
