import LineGrammar.Proofs.Endings

/-!
A loader only ever grows. Whatever a line says, and also where it is at fault, the entries, the root, the
rules and the productions that are there stay what they are and where they are.
-/

namespace LineGrammar

def Rules.Extends (old new : Rules) : Prop :=
  ∀ (i : Nat) rule, old[i]? = some rule →
    ∃ later, new[i]? = some later ∧ later.head = rule.head ∧ rule.productions <+: later.productions

namespace Rules

variable {rules : Rules} {a b c : Rules}

theorem Extends.refl (rules : Rules) : rules.Extends rules :=
  fun _ rule h => ⟨rule, h, rfl, List.prefix_refl _⟩

theorem Extends.trans (h₁ : a.Extends b) (h₂ : b.Extends c) : a.Extends c := by
  intro i rule h
  have ⟨later, hl, hhead, hprefix⟩ := h₁ i rule h
  have ⟨last, hlast, hhead', hprefix'⟩ := h₂ i later hl
  exact ⟨last, hlast, hhead'.trans hhead, hprefix.trans hprefix'⟩

theorem extends_declare (rules : Rules) (head : NonterminalId) : rules.Extends (rules.declare head) := by
  unfold declare
  split
  case isTrue  => exact .refl rules
  case isFalse =>
    intro i rule h
    exact ⟨rule, by rw [List.getElem?_append_left (lt_length_of_getElem? h), h], rfl, List.prefix_refl _⟩

theorem extends_add (rules : Rules) (head : NonterminalId) (production : Production) :
    rules.Extends (rules.add head production) := by
  refine (extends_declare rules head).trans fun i rule h => ?_
  rw [add, List.getElem?_map, h, Option.map_some]
  refine ⟨_, rfl, ?_⟩
  split
  case isTrue  => exact ⟨rfl, List.prefix_append ..⟩
  case isFalse => exact ⟨rfl, List.prefix_refl _⟩

end Rules

namespace Loader

variable {a b c loader : Loader} {piece : Piece} {pieces : List Piece} {file : Option String}

structure Extends (old new : Loader) : Prop where
  symbols        : old.symbols.Grows new.symbols
  root           : ∀ id, old.root = some id → new.root = some id
  rules          : old.rules.Extends new.rules
  nextProduction : old.nextProduction ≤ new.nextProduction

namespace Extends

theorem refl (loader : Loader) : loader.Extends loader :=
  ⟨.refl _, fun _ => id, .refl _, Nat.le_refl _⟩

theorem trans (h₁ : a.Extends b) (h₂ : b.Extends c) : a.Extends c where
  symbols        := h₁.symbols.trans h₂.symbols
  root id h      := h₂.root id (h₁.root id h)
  rules          := h₁.rules.trans h₂.rules
  nextProduction := Nat.le_trans h₁.nextProduction h₂.nextProduction

theorem of_symbols {symbols : SymbolTable} (hg : loader.symbols.Grows symbols) :
    loader.Extends { loader with symbols := symbols } :=
  ⟨hg, fun _ => id, .refl _, Nat.le_refl _⟩

end Extends

theorem extends_addProduction (loader : Loader) (head : NonterminalId) (symbols : List Symbol) :
    loader.Extends (loader.addProduction head symbols) := by
  unfold addProduction
  split
  case isTrue  => exact .refl loader
  case isFalse => exact ⟨.refl _, fun _ => id, Rules.extends_add _ _ _, Nat.le_succ _⟩

-- Under a name that is taken the helper would replace an entry, so it matters that the name is new.
theorem extends_addHelper {name : String} (hf : loader.symbols.nonterminalNamed? name = none)
    (base : Symbol) (repetition : Repetition) :
    loader.Extends (loader.addHelper name base repetition).2 := by
  have hn : loader.Extends (Loader.note
      { loader with symbols := (loader.symbols.insertHelper name loader.location).2 }
      (.repetition name loader.line)) :=
    ⟨SymbolTable.grows_insertHelper hf loader.location, fun _ => id, .refl _, Nat.le_refl _⟩
  exact hn.trans ((extends_addProduction ..).trans (extends_addProduction ..))

theorem extends_openRule (loader : Loader) (id : NonterminalId) (name : String) :
    loader.Extends (loader.openRule id name) where
  symbols        := grows_openRule loader id name
  root other h   := by rw [root_openRule, h, Option.some_or]
  rules          := rules_openRule ▸ Rules.extends_declare _ _
  nextProduction := by rw [openRule_eq]

theorem Step.extends (h : a.Step piece b) : a.Extends b := by
  cases h
  case line            => exact ⟨.refl _, fun _ => id, .refl _, Nat.le_refl _⟩
  case shared          => exact .refl a
  case terminal        => exact .of_symbols (SymbolTable.grows_internTerminal _)
  case alternative     => exact extends_addProduction ..
  case helper hf       => exact extends_addHelper hf ..
  case nonterminal     =>
    exact .of_symbols (SymbolTable.grows_internNonterminal.trans SymbolTable.grows_reference)
  case head            =>
    exact (Extends.of_symbols SymbolTable.grows_internNonterminal).trans (extends_openRule ..)

theorem Steps.extends (h : a.Steps pieces b) : a.Extends b := by
  induction h
  case nil             => exact .refl _
  case cons hstep _ ih => exact hstep.extends.trans ih

-- Reading ends between two steps also where it fails, and every step only adds.
theorem extends_of_reached (h : Reached file loader) :
    (∀ number text, loader.Extends (loader.after (readLine number text))) ∧
      ∀ number lines, loader.Extends (loader.after (readLines number lines)) := by
  constructor
  case left =>
    intro number text
    have ⟨_, hsteps⟩ := exists_steps_after_readLine h.sound number text
    exact hsteps.extends
  case right =>
    intro number lines
    have ⟨_, hsteps⟩ := exists_steps_after_readLines h.sound number lines
    exact hsteps.extends

-- The second line fails at `A`, when `c+` has become a helper and has been added as an alternative.
theorem extends_of_line_at_fault :
    let loader := (start none).after (readLine 1 "A → b* B | 0".toList)
    let later := loader.after (readLine 2 "| c+ | A | d".toList)
    Grammar.ofLines none (["A → b* B | 0", "| c+ | A | d"].map (some ·.toList)) =
        .error ⟨⟨none, 2⟩, .derivesItself "A"⟩ ∧
      later.symbols.terminals = [.named "b", .named "c"] ∧
      later.symbols.nonterminals.map Nonterminal.name = ["A", "b*", "B", "c+"] ∧
      later.rules.map (fun rule => (rule.head, rule.productions.map Production.id)) =
        [(0, [2, 3, 6]), (1, [0, 1]), (3, [4, 5])] ∧
      loader.Extends later := by
  intro loader later
  have hreached : Reached none loader := .readLine 1 _ .start
  exact ⟨by decide +kernel, by decide +kernel, by decide +kernel, by decide +kernel,
    (extends_of_reached hreached).left 2 _⟩

end Loader
end LineGrammar
