import LineGrammar.Proofs.Steps

/-!
What is in the tables of a grammar: the terminals and nonterminals that its source mentions, each with
the flags that its mentions give it, and nothing else.
-/

namespace LineGrammar

structure Nonterminal.Traced (n : Nonterminal) (done : List Piece) (isRoot : Prop) : Prop where
  written    : n.synthetic = false → .head n.name ∈ done ∨ .item (.nonterminal n.name) ∈ done
  helper     : n.synthetic = true → ∃ item repetition, .repetition item repetition ∈ done ∧
    n.name.toList = Word.text ⟨item, some repetition⟩
  referenced : n.synthetic = false → n.referenced = true →
    isRoot ∨ .item (.nonterminal n.name) ∈ done

namespace Nonterminal

variable {n : Nonterminal} {name : String} {location : Location} {done later : List Piece}
variable {isRoot wasRoot : Prop}

theorem Traced.mono (h : n.Traced done wasRoot) (hd : done ⊆ later) (hr : wasRoot → isRoot) :
    n.Traced later isRoot where
  written hs := (h.written hs).imp (hd ·) (hd ·)
  helper hs := by
    have ⟨item, repetition, hm, hn⟩ := h.helper hs
    exact ⟨item, repetition, hd hm, hn⟩
  referenced hs hr' := (h.referenced hs hr').imp hr (hd ·)

theorem Traced.define (h : n.Traced done isRoot) (location : Location) :
    (n.define location).Traced done isRoot := by
  unfold Nonterminal.define
  split
  · exact h
  · exact ⟨h.written, h.helper, h.referenced⟩

theorem Traced.reference (h : n.Traced done isRoot)
    (hr : isRoot ∨ .item (.nonterminal n.name) ∈ done) : n.reference.Traced done isRoot :=
  ⟨h.written, h.helper, fun _ _ => hr⟩

theorem traced_mentioned (h : .head name ∈ done ∨ .item (.nonterminal name) ∈ done) :
    (mentioned name location).Traced done isRoot := by
  refine ⟨fun _ => h, ?_, ?_⟩ <;> simp [mentioned]

theorem traced_helper {item : Item} {repetition : Repetition}
    (h : .repetition item repetition ∈ done)
    (hn : name.toList = Word.text ⟨item, some repetition⟩) :
    (helper name location).Traced done isRoot := by
  refine ⟨?_, fun _ => ⟨item, repetition, h, hn⟩, ?_⟩ <;> simp [helper]

end Nonterminal

namespace SymbolTable

structure Traced (table : SymbolTable) (done : List Piece) (root : Option NonterminalId) : Prop where
  terminal    : ∀ t ∈ table.terminals, .item (.terminal t) ∈ done
  nonterminal : ∀ {id : NonterminalId} {n}, table.nonterminals[id]? = some n →
    n.Traced done (root = some id)

namespace Traced

variable {table : SymbolTable} {done later : List Piece} {root : Option NonterminalId}
variable {id : NonterminalId} {name : String} {location : Location}

theorem empty : SymbolTable.empty.Traced [] none := by
  constructor <;> simp [SymbolTable.empty]

theorem mono (h : table.Traced done root) (hd : done ⊆ later) {newRoot : Option NonterminalId}
    (hr : ∀ id, root = some id → newRoot = some id) : table.Traced later newRoot :=
  ⟨fun t hm => hd (h.terminal t hm), fun hn => (h.nonterminal hn).mono hd (hr _)⟩

theorem internTerminal (h : table.Traced done root) {t : Terminal}
    (ht : .item (.terminal t) ∈ done) : (table.internTerminal t).2.Traced done root := by
  unfold SymbolTable.internTerminal
  split
  case h_1 => exact h
  case h_2 =>
    refine ⟨fun t' hm => ?_, h.nonterminal⟩
    cases List.mem_append.mp hm
    case inl hm => exact h.terminal t' hm
    case inr hm => exact List.mem_singleton.mp hm ▸ ht

theorem append (h : table.Traced done root) {n : Nonterminal} (hn : ∀ isRoot, n.Traced done isRoot) :
    ({ table with nonterminals := table.nonterminals ++ [n] } : SymbolTable).Traced done root where
  terminal := h.terminal
  nonterminal {id m} hm := by
    simp only [List.getElem?_append, List.getElem?_singleton] at hm
    split at hm
    case isTrue => exact h.nonterminal hm
    case isFalse =>
      split at hm <;> cases hm
      exact hn _

theorem internNonterminal (h : table.Traced done root)
    (hn : .head name ∈ done ∨ .item (.nonterminal name) ∈ done) (location : Location) :
    (table.internNonterminal name location).2.Traced done root := by
  unfold SymbolTable.internNonterminal
  split
  case h_1 => exact h
  case h_2 => exact h.append fun _ => Nonterminal.traced_mentioned hn

theorem insertHelper (h : table.Traced done root) {item : Item} {repetition : Repetition}
    (hm : .repetition item repetition ∈ done)
    (hn : name.toList = Word.text ⟨item, some repetition⟩)
    (hf : table.nonterminalNamed? name = none) (location : Location) :
    (table.insertHelper name location).2.Traced done root := by
  simp only [SymbolTable.insertHelper, hf]
  exact h.append fun _ => Nonterminal.traced_helper hm hn

theorem modify (h : table.Traced done root) {f : Nonterminal → Nonterminal}
    (hf : ∀ n, table.nonterminals[id]? = some n → (f n).Traced done (root = some id)) :
    ({ table with nonterminals := table.nonterminals.modify id f } : SymbolTable).Traced done root where
  terminal := h.terminal
  nonterminal {i n} hn := by
    simp only [List.getElem?_modify, Option.map_eq_map, Option.map_eq_some_iff] at hn
    obtain ⟨m, hm, rfl⟩ := hn
    split
    case isTrue hi => exact hi ▸ hf m (hi ▸ hm)
    case isFalse   => exact h.nonterminal hm

theorem define (h : table.Traced done root) (location : Location) :
    (table.define id location).Traced done root :=
  h.modify fun _ hn => (h.nonterminal hn).define location

theorem reference (h : table.Traced done root)
    (hr : root = some id ∨ ∀ n, table.nonterminals[id]? = some n → .item (.nonterminal n.name) ∈ done) :
    (table.reference id).Traced done root :=
  h.modify fun n hn => (h.nonterminal hn).reference (hr.imp_right (· n hn))

end Traced

theorem name_of_internNonterminal {table : SymbolTable} (h : table.Sound) {name : String}
    {location : Location} {n : Nonterminal} (hi : isIdentifier name.toList)
    (hn : (table.internNonterminal name location).2.nonterminals[
      (table.internNonterminal name location).1]? = some n) : n.name = name := by
  have hd := internNonterminal_denotes h hi location
  generalize (table.internNonterminal name location).1 = id at hd hn
  cases hd with | nonterminal hm _ =>
  cases hm.symm.trans hn
  rfl

end SymbolTable

namespace Loader

variable {loader : Loader} {a b : Loader} {piece : Piece} {pieces done : List Piece}

@[simp]
theorem symbols_addProduction (id : NonterminalId) (symbols : List Symbol) :
    (loader.addProduction id symbols).symbols = loader.symbols := by
  unfold addProduction
  split <;> rfl

@[simp]
theorem root_addProduction (id : NonterminalId) (symbols : List Symbol) :
    (loader.addProduction id symbols).root = loader.root := by
  unfold addProduction
  split <;> rfl

@[simp]
theorem symbols_addHelper (name : String) (base : Symbol) (repetition : Repetition) :
    (loader.addHelper name base repetition).2.symbols =
      (loader.symbols.insertHelper name loader.location).2 := by
  simp [addHelper, note]

@[simp]
theorem root_addHelper (name : String) (base : Symbol) (repetition : Repetition) :
    (loader.addHelper name base repetition).2.root = loader.root := by
  simp [addHelper, note]

theorem traced_openRule {id : NonterminalId} (ht : loader.symbols.Traced done loader.root)
    (name : String) :
    (loader.openRule id name).symbols.Traced done (loader.openRule id name).root := by
  rw [root_openRule]
  cases hr : loader.root
  case none =>
    rw [symbols_openRule_of_no_root hr, Option.none_or]
    have ht : loader.symbols.Traced done (some id) := ht.mono (List.Subset.refl _) (by simp [hr])
    exact (ht.define _).reference (.inl rfl)
  case some =>
    rw [symbols_openRule_of_root (hr ▸ rfl), Option.some_or, ← hr]
    exact ht.define _

theorem Step.traced (hs : a.Sound) (h : a.Step piece b) (ht : a.symbols.Traced done a.root) :
    b.symbols.Traced (done ++ [piece]) b.root := by
  have hp : piece ∈ done ++ [piece] := by simp
  have ht := ht.mono (List.subset_append_left done [piece]) fun _ => id
  cases h
  case line        => exact ht
  case shared      => exact ht
  case alternative => simpa using ht
  case terminal    => exact ht.internTerminal hp
  case helper hi hb hk hf =>
    simpa using ht.insertHelper hp (by simp [Word.text]) hf a.location
  case nonterminal name hi =>
    refine (ht.internNonterminal (.inr hp) a.location).reference (.inr fun n hn => ?_)
    exact SymbolTable.name_of_internNonterminal hs.symbols hi.left hn ▸ hp
  case head name hi => exact traced_openRule (ht.internNonterminal (.inl hp) a.location) name

theorem Steps.traced (hs : a.Sound) (h : a.Steps pieces b) (ht : a.symbols.Traced done a.root) :
    b.symbols.Traced (done ++ pieces) b.root :=
  h.induction (P := fun done loader => loader.symbols.Traced done loader.root) hs ht
    fun hs hstep ht => hstep.traced hs ht

end Loader

def Clause.Uses (clause : Clause) (word : Word) : Prop :=
  ∃ words, alternativeOfTexts clause.texts = .ok words ∧ word ∈ words

def UsesWord (clauses : List Clause) (word : Word) : Prop :=
  ∃ clause ∈ clauses, clause.Uses word

theorem UsesWord.wellFormed {clauses : List Clause} {word : Word} (h : UsesWord clauses word) :
    word.item.WellFormed := by
  have ⟨_, _, _, hw, hm⟩ := h
  exact wellFormed_of_alternativeOfTexts hw word hm

-- The item is written somewhere, with or without a mark.
def UsesItem (clauses : List Clause) (item : Item) : Prop :=
  ∃ word, UsesWord clauses word ∧ word.item = item

section

variable {item : Item} {repetition : Repetition} {word : Word} {texts : List (List Char)}
variable {name : String} {number : Nat} {lines : List Line} {piece : Piece} {clauses : List Clause}

theorem item_mem_pieces_iff : .item item ∈ word.pieces ↔ word.item = item := by
  match word with
  | ⟨_, none⟩   => simp [Word.pieces, eq_comm]
  | ⟨_, some _⟩ => simp [Word.pieces, eq_comm]

theorem repetition_mem_pieces_iff :
    .repetition item repetition ∈ word.pieces ↔ word = ⟨item, some repetition⟩ := by
  match word with
  | ⟨_, none⟩   => simp [Word.pieces]
  | ⟨_, some _⟩ => simp [Word.pieces, eq_comm]

theorem exists_words_of_mem_alternativePieces (h : piece ∈ alternativePieces texts) :
    ∃ words, alternativeOfTexts texts = .ok words ∧
      (piece = .alternative words ∨ ∃ word ∈ words, piece ∈ word.pieces) := by
  unfold alternativePieces at h
  split at h
  case h_1 => simp at h
  case h_2 words hw =>
    simp only [List.mem_append, List.mem_flatMap, List.mem_singleton] at h
    exact ⟨words, hw, h.symm⟩

theorem mem_linePieces {line : Line} (h : piece ∈ line.pieces number) :
    piece = .line number ∨ (∃ name, line.head? = some name ∧ piece = .head name) ∨
      ∃ texts ∈ line.texts, piece ∈ alternativePieces texts := by
  simpa [Line.pieces, eq_comm] using h

theorem exists_line_of_mem_pieces (h : piece ∈ pieces number lines) :
    ∃ line ∈ lines, ∃ k, piece ∈ line.pieces k := by
  induction lines generalizing number
  case nil => simp [pieces] at h
  case cons line rest ih =>
    cases List.mem_append.mp h
    case inl h => exact ⟨line, List.mem_cons_self, number, h⟩
    case inr h =>
      have ⟨other, hm, hk⟩ := ih h
      exact ⟨other, List.mem_cons_of_mem _ hm, hk⟩

theorem mem_headNames_of_mem_pieces (h : .head name ∈ pieces number lines) :
    name ∈ headNames lines := by
  have ⟨line, hm, k, hk⟩ := exists_line_of_mem_pieces h
  obtain he | ⟨_, hl, he⟩ | ⟨texts, _, ht⟩ := mem_linePieces hk
  · cases he
  · cases he
    exact List.mem_filterMap.mpr ⟨line, hm, hl⟩
  · cases Loader.head?_of_mem_alternativePieces _ ht

theorem exists_line_of_mem_clausesFrom {active : Option String} {clause : Clause}
    (h : clause ∈ clausesFrom active lines) : ∃ line ∈ lines, clause.texts ∈ line.texts := by
  induction lines generalizing active
  case nil => simp [clausesFrom] at h
  case cons line rest ih =>
    cases List.mem_append.mp h
    case inl h =>
      refine ⟨line, List.mem_cons_self, ?_⟩
      unfold Line.clauses at h
      split at h
      case h_1 =>
        obtain ⟨texts, ht, rfl⟩ := List.mem_map.mp h
        exact ht
      case h_2 => simp at h
    case inr h =>
      obtain ⟨other, hm, ht⟩ := ih h
      exact ⟨other, List.mem_cons_of_mem _ hm, ht⟩

theorem exists_clause_of_mem_texts {active : Option String} {line : Line}
    (hf : firstFault? active number lines = none) (hl : line ∈ lines) (ht : texts ∈ line.texts) :
    ∃ clause ∈ clausesFrom active lines, clause.texts = texts := by
  induction lines generalizing active number
  case nil => simp at hl
  case cons first rest ih =>
    rw [firstFault?] at hf
    split at hf
    case h_1 => cases hf
    case h_2 hnone =>
      cases hl
      case tail hl =>
        obtain ⟨clause, hm, he⟩ := ih hf hl
        exact ⟨clause, List.mem_append_right _ hm, he⟩
      case head =>
        obtain ⟨head, hhead⟩ : ∃ head, line.head?.or active = some head := by
          cases line
          case blank        => simp [Line.texts] at ht
          case rule         => exact ⟨_, rfl⟩
          case alternatives =>
            cases active
            case none      => simp [Line.fault?] at hnone
            case some head => exact ⟨head, rfl⟩
        refine ⟨⟨head, texts⟩, List.mem_append_left _ ?_, rfl⟩
        simpa [Line.clauses, hhead] using ht

variable {active : Option String}

theorem exists_clause_of_mem_pieces (hf : firstFault? active number lines = none)
    (h : piece ∈ pieces number lines) :
    (∃ k, piece = .line k) ∨ (∃ name, piece = .head name) ∨
      ∃ clause ∈ clausesFrom active lines, ∃ words, alternativeOfTexts clause.texts = .ok words ∧
        (piece = .alternative words ∨ ∃ word ∈ words, piece ∈ word.pieces) := by
  have ⟨line, hm, k, hk⟩ := exists_line_of_mem_pieces h
  obtain he | ⟨name, _, he⟩ | ⟨texts, ht, hp⟩ := mem_linePieces hk
  · exact .inl ⟨k, he⟩
  · exact .inr (.inl ⟨name, he⟩)
  · obtain ⟨clause, hc, rfl⟩ := exists_clause_of_mem_texts hf hm ht
    exact .inr (.inr ⟨clause, hc, exists_words_of_mem_alternativePieces hp⟩)

theorem usesWord_of_mem_pieces (hf : firstFault? active number lines = none)
    (h : .repetition item repetition ∈ pieces number lines) :
    UsesWord (clausesFrom active lines) ⟨item, some repetition⟩ := by
  obtain ⟨_, he⟩ | ⟨_, he⟩ | ⟨clause, hc, words, hw, he | ⟨word, hm, hp⟩⟩ :=
    exists_clause_of_mem_pieces hf h
  case inr.inr.inr => exact ⟨clause, hc, words, hw, repetition_mem_pieces_iff.mp hp ▸ hm⟩
  all_goals cases he

theorem usesItem_of_mem_pieces (hf : firstFault? active number lines = none)
    (h : .item item ∈ pieces number lines) : UsesItem (clausesFrom active lines) item := by
  obtain ⟨_, he⟩ | ⟨_, he⟩ | ⟨clause, hc, words, hw, he | ⟨word, hm, hp⟩⟩ :=
    exists_clause_of_mem_pieces hf h
  case inr.inr.inr => exact ⟨word, ⟨clause, hc, words, hw, hm⟩, item_mem_pieces_iff.mp hp⟩
  all_goals cases he

end

namespace Grammar

variable {g : Grammar} {heads : List String} {clauses : List Clause} {word : Word} {item : Item}

theorem exists_writes_of_mem_clauses (hr : g.Records heads clauses) {clause : Clause}
    (hc : clause ∈ clauses) :
    ∃ id, ∃ production ∈ g.productionsOf id, g.symbols.Writes clause.texts production := by
  have ⟨head, texts⟩ := clause
  obtain ⟨id, n, hn, hs, rfl⟩ := hr.entered head (hr.headed _ hc).left
  have ht := (mem_keepFirst isEpsilonText_iff).mpr (mem_alternativesOf.mpr hc)
  have ⟨production, hp, hw⟩ := exists_right_of_forall₂ (hr.productions hn hs) ht
  exact ⟨id, production, hp, hw⟩

theorem exists_spells_of_usesWord (hr : g.Records heads clauses) (hu : UsesWord clauses word) :
    ∃ id, ∃ production ∈ g.productionsOf id, ∃ symbol ∈ production.symbols,
      g.symbols.Spells word symbol := by
  have ⟨clause, hc, words, hw, hm⟩ := hu
  have ⟨id, production, hp, words', hw', hf⟩ := exists_writes_of_mem_clauses hr hc
  cases hw.symm.trans hw'
  have ⟨symbol, hsymbol, hx⟩ := exists_right_of_forall₂ hf hm
  exact ⟨id, production, hp, symbol, hsymbol, hx⟩

-- The base of a repetition occurs in the first production of the helper.
theorem exists_denotes_of_usesItem (hg : g.Sound) (hr : g.Records heads clauses)
    (hu : UsesItem clauses item) :
    ∃ id, ∃ production ∈ g.productionsOf id, ∃ symbol ∈ production.symbols,
      g.symbols.Denotes item symbol := by
  obtain ⟨word, hw, rfl⟩ := hu
  have ⟨id, production, hp, symbol, hs, hx⟩ := exists_spells_of_usesWord hr hw
  cases hx
  case plain hd => exact ⟨id, production, hp, symbol, hs, hd⟩
  case repeated helper n hn hsyn ht =>
    have ⟨_, item', repetition', base, hi, ht', hd, hx⟩ := hg.rules.helpers hn hsyn
    cases Word.text_injective hw.wellFormed hi (ht.symm.trans ht')
    have ⟨first, hfirst, hb⟩ := hx.exists_base_mem
    exact ⟨helper, first, hfirst, base, hb, hd⟩

structure Census (g : Grammar) (heads : List String) (clauses : List Clause) : Prop where
  terminal   : ∀ t, t ∈ g.symbols.terminals ↔ UsesItem clauses (.terminal t)
  written    : ∀ name, (∃ n ∈ g.symbols.nonterminals, n.synthetic = false ∧ n.name = name) ↔
    name ∈ heads ∨ UsesItem clauses (.nonterminal name)
  helper     : ∀ item repetition, item.WellFormed →
    ((∃ n ∈ g.symbols.nonterminals, n.synthetic = true ∧
        n.name.toList = Word.text ⟨item, some repetition⟩) ↔
      UsesWord clauses ⟨item, some repetition⟩)
  referenced : ∀ {id : NonterminalId} {n}, g.symbols.nonterminals[id]? = some n →
    n.synthetic = false → (n.referenced = true ↔ id = g.root ∨ UsesItem clauses (.nonterminal n.name))
  defined    : ∀ {id : NonterminalId} {n}, g.symbols.nonterminals[id]? = some n →
    n.synthetic = false → (n.defined = true ↔ n.name ∈ heads)

variable {file : Option String} {lines : List (Option (List Char))}

theorem firstFault?_of_ofLines (h : ofLines file lines = .ok g) :
    firstFault? none 1 (linesOf lines) = none := by
  obtain ⟨texts, rfl⟩ := exists_texts_of_ofLines h
  rw [linesOf_map_some]
  cases hf : firstFault? none 1 (texts.map Line.ofText)
  case none => rfl
  case some => simp [ofLines_of_fault hf] at h

theorem traced_of_ofLines (h : ofLines file lines = .ok g) :
    g.symbols.Traced (pieces 1 (linesOf lines)) (some g.root) := by
  have ⟨loader, hsteps, hfinish⟩ := exists_steps_of_ofLines h
  obtain ⟨root, hroot, rfl⟩ := Loader.finish_eq_ok_iff.mp hfinish
  have := hsteps.traced (Loader.sound_start file) .empty
  simpa [hroot] using this

theorem census_of_ofLines (h : ofLines file lines = .ok g) :
    g.Census (headNames (linesOf lines)) (clausesFrom none (linesOf lines)) := by
  have ⟨hg, hr⟩ := sound_and_records_of_ofLines h
  have ht := traced_of_ofLines h
  have hf := firstFault?_of_ofLines h
  constructor
  case terminal =>
    intro t
    constructor
    · exact fun hm => usesItem_of_mem_pieces hf (ht.terminal t hm)
    · intro hu
      have ⟨_, _, _, _, _, hd⟩ := exists_denotes_of_usesItem hg hr hu
      cases hd with | terminal hn =>
      exact List.mem_of_getElem? hn
  case written =>
    intro name
    constructor
    · rintro ⟨n, hm, hs, rfl⟩
      have ⟨id, hn⟩ := List.mem_iff_getElem?.mp hm
      have := (ht.nonterminal hn).written hs
      exact this.imp mem_headNames_of_mem_pieces (usesItem_of_mem_pieces hf)
    · rintro (hm | hu)
      · have ⟨id, n, hn, hs, he⟩ := hr.entered name hm
        exact ⟨n, List.mem_of_getElem? hn, hs, he⟩
      · have ⟨_, _, _, _, _, hd⟩ := exists_denotes_of_usesItem hg hr hu
        cases hd with | nonterminal hn hs =>
        exact ⟨_, List.mem_of_getElem? hn, hs, rfl⟩
  case helper =>
    intro item repetition hi
    constructor
    · intro ⟨n, hm, hs, he⟩
      have ⟨id, hn⟩ := List.mem_iff_getElem?.mp hm
      have ⟨item', repetition', hp, he'⟩ := (ht.nonterminal hn).helper hs
      have hu := usesWord_of_mem_pieces hf hp
      -- The name of a helper says which word it is for.
      cases Word.text_injective hi hu.wellFormed (he.symm.trans he')
      exact hu
    · intro hu
      have ⟨_, _, _, _, _, hx⟩ := exists_spells_of_usesWord hr hu
      cases hx with | repeated hn hs he =>
      exact ⟨_, List.mem_of_getElem? hn, hs, he⟩
  case referenced =>
    intro id n hn hs
    constructor
    · intro href
      have := (ht.nonterminal hn).referenced hs href
      exact this.imp (fun he => (Option.some.inj he).symm) (usesItem_of_mem_pieces hf)
    · rintro (rfl | hu)
      · have ⟨m, hm, href⟩ := hg.root
        cases hn.symm.trans hm
        exact href
      · have ⟨_, _, hp, _, hsymbol, hd⟩ := exists_denotes_of_usesItem hg hr hu
        cases hd.unique hg.symbols (.nonterminal hn hs)
        have ⟨m, hm, href⟩ := hg.known hp hsymbol
        cases hn.symm.trans hm
        exact href
  case defined =>
    intro id n hn hs
    rw [← hr.hasHead hn hs, hg.rules.defined]
    simp [hn]

end Grammar
end LineGrammar
