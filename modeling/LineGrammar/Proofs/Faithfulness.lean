import LineGrammar.Proofs.Reading

/-!
The rules of a grammar are what its source says: one for each head, with a production for each
alternative that is written under that head, in order and word by word.
-/

namespace LineGrammar

namespace SymbolTable

variable {table : SymbolTable} {text : List Char} {symbol : Symbol} {id : NonterminalId}

-- The symbol that a word stands for. Literals and identifiers go by their own text, and a word with a
-- mark is as a whole the name of a helper.
inductive StandsFor (table : SymbolTable) : List Char → Symbol → Prop
  | quoted {text : List Char} {id : TerminalId} {t : Terminal}
      (shape : ∃ (quote : Quote) (inner : List Char), text = quote.char :: inner ++ [quote.char])
      (entry : table.terminals[id]? = some t) (literal : t.isLiteral = true)
      (name : t.name.toList = text) :
    StandsFor table text (.terminal id)
  | uppercase {text : List Char} {id : NonterminalId} {n : Nonterminal}
      (shape : isIdentifier text ∧ text.head?.any isUppercase = true)
      (entry : table.nonterminals[id]? = some n) (written : n.synthetic = false)
      (name : n.name.toList = text) :
    StandsFor table text (.nonterminal id)
  | other {text : List Char} {id : TerminalId} {t : Terminal}
      (shape : isIdentifier text ∧ text.head?.any isUppercase = false)
      (entry : table.terminals[id]? = some t) (named : t.isLiteral = false)
      (name : t.name.toList = text) :
    StandsFor table text (.terminal id)
  | marked {text : List Char} {id : NonterminalId} {n : Nonterminal}
      (shape : ∃ (base : List Char) (repetition : Repetition), text = base ++ [repetition.mark])
      (entry : table.nonterminals[id]? = some n) (helper : n.synthetic = true)
      (name : n.name.toList = text) :
    StandsFor table text (.nonterminal id)

theorem standsFor_of_spells {word : Word} (hw : Word.ofText text = .ok word)
    (hs : table.Spells word symbol) : table.StandsFor text symbol := by
  obtain ⟨hi, rfl⟩ := Word.ofText_eq_ok_iff.mp hw
  cases hs
  case plain item hd =>
    have ht : Word.text ⟨item, none⟩ = item.name.toList := by simp [Word.text]
    rw [ht]
    cases hd
    case nonterminal hn hs => exact .uppercase hi hn hs rfl
    case terminal t hn =>
      cases t
      case named           => exact .other hi hn rfl rfl
      case literal q inner => exact .quoted ⟨q, inner.toList, by simp [Item.name, Terminal.name]⟩ hn rfl rfl
  case repeated item repetition _ _ hn hs ht =>
    exact .marked ⟨item.name.toList, repetition, by simp [Word.text]⟩ hn hs ht

inductive Says (table : SymbolTable) : List (List Char) → Production → Prop
  | epsilon {production : Production} (symbols : production.symbols = []) :
    Says table [['0']] production
  | words {texts : List (List Char)} {production : Production} (other : ['0'] ∉ texts)
      (symbols : List.Forall₂ table.StandsFor texts production.symbols) :
    Says table texts production

theorem Writes.says {texts : List (List Char)} {production : Production}
    (h : table.Writes texts production) : table.Says texts production := by
  have ⟨words, hw, hs⟩ := h
  cases alternativeOfTexts_eq_ok_iff.mp hw
  case inl h =>
    obtain ⟨rfl, rfl⟩ := h
    exact .epsilon (List.forall₂_nil_left_iff.mp hs)
  case inr h =>
    have ⟨hz, ht⟩ := h
    exact .words hz (forall₂_trans ht hs fun _ _ _ => standsFor_of_spells)

end SymbolTable

namespace Grammar

variable {g : Grammar}

-- Nonterminals are told apart by name and words by what they stand for, so the numbers in the tables
-- do not matter. Each alternative of a head has its production, also one that is written twice. Only
-- of the empty alternatives of a head the first one alone counts.
structure Faithful (g : Grammar) (lines : List Line) : Prop where
  root        : ∃ name, (headNames lines).head? = some name ∧
    g.symbols.nonterminalNamed? name = some g.root
  rules_nodup : (g.rules.map Rule.head).Nodup
  hasHead     : ∀ id, g.rules.hasHead id ↔ ∃ n, g.symbols.nonterminals[id]? = some n ∧
    (n.name ∈ headNames lines ∨ n.synthetic = true)
  productions : ∀ name ∈ headNames lines, ∃ id, g.symbols.nonterminalNamed? name = some id ∧
    List.Forall₂ g.symbols.Says
      (keepFirst isEpsilonText (alternativesOf name (clausesFrom none lines))) (g.productionsOf id)

variable {file : Option String} {lines : List (Option (List Char))}

theorem faithful_of_ofLines (h : ofLines file lines = .ok g) : g.Faithful (linesOf lines) := by
  have ⟨hg, hr⟩ := sound_and_records_of_ofLines h
  constructor
  case root =>
    have ⟨n, hn, _⟩ := hg.root
    refine ⟨n.name, ?_, hg.symbols.nonterminalNamed?_eq_some_iff.mpr ⟨n, hn, rfl⟩⟩
    rw [hr.root, SymbolTable.nonterminalName_of_getElem? hn]
  case rules_nodup => exact hg.rules.heads_nodup
  case hasHead =>
    intro id
    constructor
    case mp =>
      intro hd
      have ⟨n, hn, _⟩ := hg.rules.defined.mp hd
      cases hs : n.synthetic
      case false => exact ⟨n, hn, .inl ((hr.hasHead hn hs).mp hd)⟩
      case true  => exact ⟨n, hn, .inr hs⟩
    case mpr =>
      intro ⟨n, hn, hor⟩
      cases hs : n.synthetic
      case true => exact hg.hasHead_of_synthetic hn hs
      case false =>
        have hm : n.name ∈ headNames (linesOf lines) := by simpa [hs] using hor
        exact (hr.hasHead hn hs).mpr hm
  case productions =>
    intro name hm
    obtain ⟨id, n, hn, hs, rfl⟩ := hr.entered name hm
    refine ⟨id, hg.symbols.nonterminalNamed?_eq_some_iff.mpr ⟨n, hn, rfl⟩, ?_⟩
    exact (hr.productions hn hs).imp fun _ _ hw => hw.says

theorem faithful_of_resumed_rule :
    ∃ g, ofLines none (["A → b | 0 | B*", "C → A", "A → 0", "| 'x' A"].map (some ·.toList)) = .ok g ∧
      g.symbols.nonterminalNamed? "A" = some g.root ∧
      List.Forall₂ g.symbols.Says
        ([["b"], ["0"], ["B*"], ["'x'", "A"]].map (·.map String.toList)) (g.productionsOf g.root) := by
  obtain ⟨g, hg, hA⟩ : ∃ g,
      ofLines none (["A → b | 0 | B*", "C → A", "A → 0", "| 'x' A"].map (some ·.toList)) = .ok g ∧
      g.symbols.nonterminalNamed? "A" = some g.root := exists_of_ofLines (by decide +kernel)
  have ⟨id, hid, hsays⟩ := (faithful_of_ofLines hg).productions "A" (by decide +kernel)
  cases hA.symm.trans hid
  exact ⟨g, hg, hA, hsays⟩

end Grammar
end LineGrammar
