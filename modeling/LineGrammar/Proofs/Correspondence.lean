import LineGrammar.Proofs.Helpers
import LineGrammar.Proofs.Reduced

/-!
Two grammars compared by names. The numbers of symbols and productions may differ, but where the rules
say the same under the same names, the same is derived and reached.
-/

namespace LineGrammar.Grammar

variable {g g' : Grammar} {symbol symbol' : Symbol} {id id' : NonterminalId} {n n' : Nonterminal}

inductive Corresponds (g g' : Grammar) : Symbol → Symbol → Prop
  | terminal {i j : TerminalId} {t : Terminal} (left : g.symbols.terminals[i]? = some t)
      (right : g'.symbols.terminals[j]? = some t) :
    Corresponds g g' (.terminal i) (.terminal j)
  | nonterminal {i j : NonterminalId} {m n : Nonterminal} (left : g.symbols.nonterminals[i]? = some m)
      (right : g'.symbols.nonterminals[j]? = some n) (name : m.name = n.name) :
    Corresponds g g' (.nonterminal i) (.nonterminal j)

namespace Corresponds

theorem symm (h : g.Corresponds g' symbol symbol') : g'.Corresponds g symbol' symbol := by
  cases h
  case terminal left right         => exact .terminal right left
  case nonterminal left right name => exact .nonterminal right left name.symm

theorem of_denotes {item : Item} (h : g.symbols.Denotes item symbol)
    (h' : g'.symbols.Denotes item symbol') : g.Corresponds g' symbol symbol' := by
  cases h
  case terminal ht =>
    cases h' with | terminal ht' =>
    exact .terminal ht ht'
  case nonterminal hn _ =>
    generalize hi : Item.nonterminal _ = item at h'
    cases h' with
    | terminal => cases hi
    | nonterminal hn' _ =>
      injection hi with hi
      exact .nonterminal hn hn' hi

theorem of_spells {word : Word} (h : g.symbols.Spells word symbol)
    (h' : g'.symbols.Spells word symbol') : g.Corresponds g' symbol symbol' := by
  cases h
  case plain hd =>
    cases h' with | plain hd' =>
    exact of_denotes hd hd'
  case repeated hn _ ht =>
    cases h' with | repeated hn' _ ht' =>
    exact .nonterminal hn hn' (String.toList_injective (ht.trans ht'.symm))

theorem unique (hg' : g'.Sound) {i j : NonterminalId}
    (h₁ : g.Corresponds g' (.nonterminal id) (.nonterminal i))
    (h₂ : g.Corresponds g' (.nonterminal id) (.nonterminal j)) : i = j := by
  cases h₁ with | nonterminal left right name =>
  cases h₂ with | nonterminal left' right' name' =>
  cases left.symm.trans left'
  exact hg'.symbols.id_eq right right' (name.symm.trans name')

end Corresponds

def Simulates (g g' : Grammar) : Prop :=
  ∀ id id', g.Corresponds g' (.nonterminal id) (.nonterminal id') →
    ∀ production ∈ g.productionsOf id, ∃ production' ∈ g'.productionsOf id',
      List.Forall₂ (g.Corresponds g') production.symbols production'.symbols

namespace Simulates

theorem exists_yields (h : g.Simulates g') {form form' : List Symbol} {string : List TerminalId}
    (hy : g.Yields form string) (hf : List.Forall₂ (g.Corresponds g') form form') :
    ∃ string', g'.Yields form' string' := by
  induction hy generalizing form'
  case nil =>
    cases hf
    exact ⟨[], .nil⟩
  case terminal ih =>
    cases hf with | cons hc hf =>
    cases hc with | terminal _ _ =>
    have ⟨string', hy'⟩ := ih hf
    exact ⟨_, .terminal hy'⟩
  case nonterminal mem _ _ ihp ihr =>
    cases hf with | cons hc hf =>
    cases hc with | nonterminal left right name =>
    have ⟨production', mem', hp⟩ := h _ _ (.nonterminal left right name) _ mem
    have ⟨front, hfront⟩ := ihp hp
    have ⟨back, hback⟩ := ihr hf
    exact ⟨front ++ back, .nonterminal mem' hfront hback⟩

theorem productive (h : g.Simulates g')
    (hc : g.Corresponds g' (.nonterminal id) (.nonterminal id')) (hp : g.Productive id) :
    g'.Productive id' := by
  have ⟨string, hy⟩ := hp
  exact h.exists_yields hy (.cons hc .nil)

theorem exists_reachable (h : g.Simulates g')
    (hroot : g.Corresponds g' (.nonterminal g.root) (.nonterminal g'.root)) (hr : g.Reachable id) :
    ∃ id', g.Corresponds g' (.nonterminal id) (.nonterminal id') ∧ g'.Reachable id' := by
  induction hr
  case refl => exact ⟨g'.root, hroot, .refl⟩
  case tail hm ih =>
    have ⟨id', hc, hr'⟩ := ih
    have ⟨production, mem, hs⟩ := mem_occurrences_iff.mp hm
    have ⟨production', mem', hf⟩ := h _ _ hc production mem
    have ⟨symbol', hs', hc'⟩ := exists_right_of_forall₂ hf hs
    cases hc' with | nonterminal left right name =>
    exact ⟨_, .nonterminal left right name, hr'.tail (mem_occurrences_iff.mpr ⟨_, mem', hs'⟩)⟩

end Simulates

def NamesIn (g g' : Grammar) : Prop :=
  ∀ n ∈ g.symbols.nonterminals, ∃ n' ∈ g'.symbols.nonterminals, n'.name = n.name

theorem NamesIn.exists_corresponds (h : g.NamesIn g') (hlt : id < g.nonterminalCount) :
    ∃ id', id' < g'.nonterminalCount ∧ g.Corresponds g' (.nonterminal id) (.nonterminal id') ∧
      g'.symbols.nonterminalName id' = g.symbols.nonterminalName id := by
  have hn := List.getElem?_eq_getElem hlt
  have ⟨n', hm, he⟩ := h _ (List.mem_of_getElem? hn)
  have ⟨id', hn'⟩ := List.mem_iff_getElem?.mp hm
  refine ⟨id', lt_length_of_getElem? hn', .nonterminal hn hn' he.symm, ?_⟩
  rw [SymbolTable.nonterminalName_of_getElem? hn, SymbolTable.nonterminalName_of_getElem? hn', he]

variable {name : String}

-- A simulation carries over what is productive, and so in the other direction what is not.
theorem mem_map_underivable (hg : g.Sound) (hg' : g'.Sound) (hnames : g.NamesIn g')
    (h : g'.Simulates g) (hm : name ∈ g.underivable.map g.symbols.nonterminalName) :
    name ∈ g'.underivable.map g'.symbols.nonterminalName := by
  obtain ⟨id, hid, rfl⟩ := List.mem_map.mp hm
  have ⟨hlt, hp⟩ := (mem_underivable_iff hg).mp hid
  have ⟨id', hlt', hc, he⟩ := hnames.exists_corresponds hlt
  exact List.mem_map.mpr ⟨id', (mem_underivable_iff hg').mpr ⟨hlt', mt (h.productive hc.symm) hp⟩, he⟩

theorem mem_map_unreached (hg : g.Sound) (hg' : g'.Sound) (hnames : g.NamesIn g')
    (h : g'.Simulates g) (hroot : g'.Corresponds g (.nonterminal g'.root) (.nonterminal g.root))
    (hm : name ∈ g.unreached.map g.symbols.nonterminalName) :
    name ∈ g'.unreached.map g'.symbols.nonterminalName := by
  obtain ⟨id, hid, rfl⟩ := List.mem_map.mp hm
  have ⟨hlt, hr⟩ := (mem_unreached_iff hg).mp hid
  have ⟨id', hlt', hc, he⟩ := hnames.exists_corresponds hlt
  refine List.mem_map.mpr ⟨id', (mem_unreached_iff hg').mpr ⟨hlt', fun hr' => hr ?_⟩, he⟩
  have ⟨i, hi, hri⟩ := h.exists_reachable hroot hr'
  exact hc.symm.unique hg hi ▸ hri

def alternativesNamed (g : Grammar) (name : String) : List (List String) :=
  match g.symbols.nonterminalNamed? name with
  | none    => []
  | some id => (g.productionsOf id).map fun production => production.symbols.map g.symbols.symbolName

theorem alternativesNamed_of_getElem? (hg : g.Sound) (hn : g.symbols.nonterminals[id]? = some n) :
    g.alternativesNamed n.name =
      (g.productionsOf id).map fun production => production.symbols.map g.symbols.symbolName := by
  simp [alternativesNamed, hg.symbols.nonterminalNamed?_eq_some_iff.mpr ⟨n, hn, rfl⟩]

theorem alternativesNamed_of_not_mem (h : ∀ n ∈ g.symbols.nonterminals, n.name ≠ name) :
    g.alternativesNamed name = [] := by
  simp [alternativesNamed, SymbolTable.nonterminalNamed?_eq_none_iff.mpr h]

theorem alternativesNamed_of_written (hg : g.Sound) {heads : List String} {clauses : List Clause}
    (hr : g.Records heads clauses) (hn : g.symbols.nonterminals[id]? = some n)
    (hs : n.synthetic = false) :
    g.alternativesNamed n.name =
      (keepFirst isEpsilonText (alternativesOf n.name clauses)).map alternativeNames := by
  rw [alternativesNamed_of_getElem? hg hn]
  exact (map_eq_map_of_forall₂ (hr.productions hn hs) fun _ _ hw => hw.map_symbolName.symm).symm

-- A helper has the same alternatives in every grammar, as its name says which they are.
theorem alternativesNamed_of_synthetic (hg : g.Sound) (hn : g.symbols.nonterminals[id]? = some n)
    (hs : n.synthetic = true) {item : Item} {repetition : Repetition} (hi : item.WellFormed)
    (ht : n.name.toList = Word.text ⟨item, some repetition⟩) :
    g.alternativesNamed n.name = repetition.expansion n.name item.name := by
  have ⟨_, item', repetition', base, hi', ht', hd, hx⟩ := hg.rules.helpers hn hs
  cases Word.text_injective hi hi' (ht.symm.trans ht')
  have hself : g.symbols.symbolName (.nonterminal id) = n.name :=
    SymbolTable.nonterminalName_of_getElem? hn
  calc g.alternativesNamed n.name
      = ((g.productionsOf id).map Production.symbols).map (List.map g.symbols.symbolName) := by
        rw [alternativesNamed_of_getElem? hg hn, List.map_map]
        rfl
    _ = (repetition.expansion (.nonterminal id) base).map (List.map g.symbols.symbolName) := by
        rw [← hx.map_symbols_eq]
        rfl
    _ = repetition.expansion n.name item.name := by
        rw [Repetition.map_expansion, hself, hd.symbolName]

theorem alternativesNamed_eq_of_synthetic (hg : g.Sound) (hg' : g'.Sound)
    (hn : g.symbols.nonterminals[id]? = some n) (hn' : g'.symbols.nonterminals[id']? = some n')
    (he : n'.name = n.name) (hs : n.synthetic = true) (hs' : n'.synthetic = true) :
    g'.alternativesNamed n.name = g.alternativesNamed n.name := by
  have ⟨_, item, repetition, _, hi, ht, _⟩ := hg.rules.helpers hn hs
  rw [alternativesNamed_of_synthetic hg hn hs hi ht, ← he,
    alternativesNamed_of_synthetic hg' hn' hs' hi (he ▸ ht)]

end LineGrammar.Grammar
