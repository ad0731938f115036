import LineGrammar.Proofs.Rules

/-!
What reading a word does to a loader. From a sound loader it always succeeds, leaves a sound loader
behind, and changes nothing about the rules that are written down.
-/

namespace LineGrammar

@[simp]
theorem Reading.run_map {α β : Type} (f : α → β) (x : Reading α) (loader : Loader) :
    EStateM.run (f <$> x) loader =
      match x.run loader with
      | .ok a new        => .ok (f a) new
      | .error error new => .error error new := by
  simp only [EStateM.run, Functor.map, EStateM.map]
  cases x loader <;> rfl

namespace Loader

variable {loader new : Loader} {item : Item} {word : Word} {symbol : Symbol}

-- What holds of a loader whatever lines it has read, and also in the middle of a line. The open rule
-- is never that of a helper, so lines that start with a bar add nothing to one.
structure Sound (loader : Loader) : Prop where
  symbols : loader.symbols.Sound
  rules   : loader.rules.Fits loader.symbols
  root    : ∀ {id}, loader.root = some id → loader.symbols.Knows (.nonterminal id)
  current : ∀ {id}, loader.current = some id →
    loader.symbols.isSynthetic id = false ∧ loader.rules.hasHead id

theorem sound_start (file : Option String) : (start file).Sound := by
  refine ⟨.empty, .empty, ?_, ?_⟩ <;> simp [start]

theorem Sound.atLine (h : loader.Sound) (number : Nat) : (loader.atLine number).Sound :=
  ⟨h.symbols, h.rules, h.root, h.current⟩

-- What reading the words of an alternative may change. The rules of nonterminals that are no helpers
-- stay as they are.
structure Advances (old new : Loader) : Prop where
  file          : new.file = old.file
  line          : new.line = old.line
  root          : new.root = old.root
  current       : new.current = old.current
  symbols       : old.symbols.Grows new.symbols
  productionsOf : ∀ {id}, new.symbols.isSynthetic id = false →
    new.rules.productionsOf id = old.rules.productionsOf id
  hasHead       : ∀ {id}, new.symbols.isSynthetic id = false →
    (new.rules.hasHead id ↔ old.rules.hasHead id)

namespace Advances

theorem refl (loader : Loader) : loader.Advances loader :=
  ⟨rfl, rfl, rfl, rfl, .refl _, fun _ => rfl, fun _ => .rfl⟩

theorem trans {a b c : Loader} (h₁ : a.Advances b) (h₂ : b.Advances c) : a.Advances c where
  file    := h₂.file.trans h₁.file
  line    := h₂.line.trans h₁.line
  root    := h₂.root.trans h₁.root
  current := h₂.current.trans h₁.current
  symbols := h₁.symbols.trans h₂.symbols
  productionsOf hs :=
    (h₂.productionsOf hs).trans (h₁.productionsOf (h₂.symbols.isSynthetic_eq_false hs))
  hasHead hs := (h₂.hasHead hs).trans (h₁.hasHead (h₂.symbols.isSynthetic_eq_false hs))

theorem of_mentions {symbols : SymbolTable} (hg : loader.symbols.Mentions symbols) :
    loader.Advances { loader with symbols := symbols } :=
  ⟨rfl, rfl, rfl, rfl, hg.toGrows, fun _ => rfl, fun _ => .rfl⟩

end Advances

theorem Sound.of_mentions (h : loader.Sound) {symbols : SymbolTable} (hs : symbols.Sound)
    (hg : loader.symbols.Mentions symbols) : ({ loader with symbols := symbols } : Loader).Sound where
  symbols := hs
  rules   := h.rules.mentions hg
  root hr := (h.root hr).mono hg.toGrows
  current {id} hc := by
    obtain ⟨hw, hd⟩ := h.current hc
    refine ⟨?_, hd⟩
    by_contra hne
    cases hn : symbols.nonterminals[id]?
    case none => simp [SymbolTable.isSynthetic, hn] at hne
    case some n =>
      simp only [SymbolTable.isSynthetic_of_getElem? hn, Bool.not_eq_false] at hne
      obtain ⟨m, hm, _, he⟩ := hg.reflects hn (.inr hne)
      simp [SymbolTable.isSynthetic_of_getElem? hm, he, hne] at hw

structure Reads (old new : Loader) (word : Word) (symbol : Symbol) : Prop where
  sound    : new.Sound
  advances : old.Advances new
  spells   : new.symbols.Spells word symbol
  knows    : new.symbols.Knows symbol

theorem run_resolve (h : loader.Sound) (hi : item.WellFormed) :
    ∃ symbol new, (resolve item).run loader = .ok symbol new ∧
      loader.Reads new ⟨item, none⟩ symbol := by
  match item, hi with
  | .terminal t, hi =>
    have hg := loader.symbols.mentions_internTerminal t
    have hd := SymbolTable.internTerminal_denotes h.symbols hi
    refine ⟨_, _, rfl, h.of_mentions (h.symbols.internTerminal hi) hg, .of_mentions hg, .plain hd, ?_⟩
    cases hd with | terminal hd => exact lt_length_of_getElem? hd
  | .nonterminal name, ⟨hi, _⟩ =>
    have hg := (loader.symbols.mentions_internNonterminal name loader.location).trans
      (SymbolTable.mentions_reference (loader.symbols.internNonterminal name loader.location).1)
    have hd := SymbolTable.internNonterminal_denotes h.symbols hi loader.location
    refine ⟨_, _, rfl, h.of_mentions (h.symbols.internNonterminal hi).reference hg, .of_mentions hg,
      .plain (hd.mono SymbolTable.grows_reference), SymbolTable.reference_knows hd⟩

-- The second alternative of a new helper is never left out, as the first one is not empty.
theorem addHelper_eq (h : loader.Sound) {name : String} {base : Symbol} {repetition : Repetition}
    (hf : loader.symbols.nonterminalNamed? name = none) :
    loader.addHelper name base repetition = (loader.symbols.nonterminals.length,
      { loader with
        symbols := (loader.symbols.insertHelper name loader.location).2
        notes := loader.notes ++ [.repetition name loader.line]
        rules := (loader.rules.add loader.symbols.nonterminals.length
          ⟨loader.nextProduction, (helperAlternatives loader.symbols.nonterminals.length base
            repetition).1, loader.location⟩).add loader.symbols.nonterminals.length
          ⟨loader.nextProduction + 1, (helperAlternatives loader.symbols.nonterminals.length base
            repetition).2, loader.location⟩
        nextProduction := loader.nextProduction + 2 }) := by
  have hnil : loader.rules.productionsOf loader.symbols.nonterminals.length = [] :=
    h.rules.productionsOf_eq_nil (Nat.le_refl _)
  have hid : (loader.symbols.insertHelper name loader.location).1 =
      loader.symbols.nonterminals.length := by simp [SymbolTable.insertHelper, hf]
  simp only [addHelper, hid]
  cases repetition <;>
    simp [addProduction, helperAlternatives, note, hnil, location, Production.isEpsilon,
      Rules.productionsOf_add]

theorem addHelper_reads (h : loader.Sound) {name : String} {base : Symbol}
    {repetition : Repetition} (hi : item.WellFormed)
    (hn : name.toList = Word.text ⟨item, some repetition⟩)
    (hf : loader.symbols.nonterminalNamed? name = none)
    (hb : loader.symbols.Denotes item base) (hk : loader.symbols.Knows base) :
    loader.Reads (loader.addHelper name base repetition).2 ⟨item, some repetition⟩
      (.nonterminal (loader.addHelper name base repetition).1) := by
  have hg := SymbolTable.grows_insertHelper hf loader.location
  have hs := SymbolTable.insertHelper_spells hn hf loader.location
  have hid : (loader.symbols.insertHelper name loader.location).1 =
      loader.symbols.nonterminals.length := by simp [SymbolTable.insertHelper, hf]
  have hsyn : (loader.symbols.insertHelper name loader.location).2.isSynthetic
      loader.symbols.nonterminals.length = true := by
    simp [SymbolTable.insertHelper, hf, SymbolTable.isSynthetic, Nonterminal.helper]
  have hne : ∀ {id}, (loader.symbols.insertHelper name loader.location).2.isSynthetic id = false →
      loader.symbols.nonterminals.length ≠ id := by
    rintro id hf rfl
    simp [hsyn] at hf
  have hrules := h.rules.addHelper ⟨loader.nextProduction, _, loader.location⟩
    ⟨loader.nextProduction + 1, _, loader.location⟩ loader.location hi hn hf hb hk rfl rfl
  rw [addHelper_eq h hf]
  constructor
  case sound =>
    refine ⟨h.symbols.insertHelper hi hn hf, hrules, fun hr => (h.root hr).mono hg, fun {id} hc => ?_⟩
    obtain ⟨hw, hd⟩ := h.current hc
    obtain ⟨n, hn, _⟩ := h.rules.defined.mp hd
    obtain ⟨n', hn', hgn⟩ := hg.nonterminals hn
    refine ⟨?_, Rules.hasHead_add.mpr (.inl (Rules.hasHead_add.mpr (.inl hd)))⟩
    rw [SymbolTable.isSynthetic_of_getElem? hn', hgn.synthetic,
      ← SymbolTable.isSynthetic_of_getElem? hn, hw]
  case advances =>
    refine ⟨rfl, rfl, rfl, rfl, hg, fun hs => ?_, fun hs => ?_⟩
    · simp [Rules.productionsOf_add, hne hs]
    · simp [Rules.hasHead_add, hne hs, -Rules.hasHead_iff]
  case spells => exact hid ▸ hs
  case knows =>
    exact ⟨.helper name loader.location, by simp [SymbolTable.insertHelper, hf], rfl⟩

-- No name of a helper is in use for anything else, so a repetition never clashes.
theorem run_repeated (h : loader.Sound) {base : Symbol} (repetition : Repetition)
    (hi : item.WellFormed) (hb : loader.symbols.Denotes item base)
    (hk : loader.symbols.Knows base) :
    ∃ id new, (repeated base repetition).run loader = .ok id new ∧
      loader.Reads new ⟨item, some repetition⟩ (.nonterminal id) := by
  let name := item.name.push repetition.mark
  have hn : name.toList = Word.text ⟨item, some repetition⟩ := by simp [name, Word.text]
  simp only [repeated, EStateM.run_bind, EStateM.run_get, hb.symbolName]
  cases hf : loader.symbols.nonterminalNamed? name
  case none =>
    exact ⟨_, _, rfl, addHelper_reads h hi hn hf hb hk⟩
  case some id =>
    obtain ⟨n, hid, he⟩ := h.symbols.nonterminalNamed?_eq_some_iff.mp hf
    have hw := h.symbols.nonterminal n (List.mem_of_getElem? hid)
    have hs : n.synthetic = true := hw.synthetic_iff.mpr ⟨repetition, by simp [he, name]⟩
    have hr := (h.rules.helpers hid hs).left
    refine ⟨id, loader, ?_, h, .refl loader, .repeated hid hs (he ▸ hn), n, hid, hr⟩
    simp [SymbolTable.isSynthetic_of_getElem? hid, hs]

theorem run_symbolOf (h : loader.Sound) (hw : word.item.WellFormed) :
    ∃ symbol new, (symbolOf word).run loader = .ok symbol new ∧ loader.Reads new word symbol := by
  have ⟨base, mid, hrun, hm⟩ := run_resolve h hw
  match word, hw with
  | ⟨item, none⟩, _ => exact ⟨base, mid, by simp [symbolOf, hrun], hm⟩
  | ⟨item, some repetition⟩, hw =>
    cases hm.spells with | plain hd =>
    have ⟨id, new, hrun', hn⟩ := run_repeated hm.sound repetition hw hd hm.knows
    exact ⟨.nonterminal id, new, by simp [symbolOf, hrun, hrun'], hn.sound,
      hm.advances.trans hn.advances, hn.spells, hn.knows⟩

structure ReadsAll (old new : Loader) (words : List Word) (symbols : List Symbol) : Prop where
  sound    : new.Sound
  advances : old.Advances new
  spells   : List.Forall₂ new.symbols.Spells words symbols
  knows    : ∀ symbol ∈ symbols, new.symbols.Knows symbol

theorem run_mapM_symbolOf {words : List Word} (h : loader.Sound)
    (hw : ∀ word ∈ words, word.item.WellFormed) :
    ∃ symbols new, (words.mapM symbolOf).run loader = .ok symbols new ∧
      loader.ReadsAll new words symbols := by
  induction words generalizing loader
  case nil => exact ⟨[], loader, rfl, h, .refl loader, .nil, by simp⟩
  case cons word rest ih =>
    have ⟨symbol, mid, hrun, hm⟩ := run_symbolOf h (hw word List.mem_cons_self)
    have ⟨symbols, new, hrun', hn⟩ := ih hm.sound fun w hm => hw w (List.mem_cons_of_mem _ hm)
    refine ⟨symbol :: symbols, new, by simp [hrun, hrun'], hn.sound, hm.advances.trans hn.advances,
      .cons (hm.spells.mono hn.advances.symbols) hn.spells, ?_⟩
    simp only [List.mem_cons, forall_eq_or_imp]
    exact ⟨hm.knows.mono hn.advances.symbols, hn.knows⟩

end Loader
end LineGrammar
