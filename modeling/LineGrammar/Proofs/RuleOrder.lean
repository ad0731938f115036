import LineGrammar.Proofs.Census

/-!
The order of the rules. Apart from the helpers, which come in where they are first used, a grammar has its
rules in the order in which their heads are first written.
-/

namespace LineGrammar

namespace Rules

variable {rules : Rules} {head : NonterminalId} {production : Production}

theorem map_head_declare : (rules.declare head).map Rule.head =
    if rules.hasHead head then rules.map Rule.head else rules.map Rule.head ++ [head] := by
  unfold declare
  split <;> simp

theorem map_head_add_of_hasHead (h : rules.hasHead head) :
    (rules.add head production).map Rule.head = rules.map Rule.head := by
  rw [map_head_add, map_head_declare, if_pos h]

end Rules

namespace SymbolTable

variable {table new : SymbolTable} {id : NonterminalId} {n : Nonterminal} {name : String}

def writtenName? (table : SymbolTable) (id : NonterminalId) : Option String :=
  table.nonterminals[id]?.bind fun n => if n.synthetic then none else some n.name

theorem writtenName?_of_getElem? (hn : table.nonterminals[id]? = some n) :
    table.writtenName? id = if n.synthetic then none else some n.name := by
  simp [writtenName?, hn]

theorem writtenName?_eq_some_iff : table.writtenName? id = some name ↔
    ∃ n, table.nonterminals[id]? = some n ∧ n.synthetic = false ∧ n.name = name := by
  simp [writtenName?, Option.bind_eq_some_iff]

theorem Denotes.writtenName? (h : table.Denotes (.nonterminal name) (.nonterminal id)) :
    table.writtenName? id = some name := by
  cases h with | nonterminal hn hs =>
  exact writtenName?_eq_some_iff.mpr ⟨_, hn, hs, rfl⟩

theorem Grows.writtenName? (h : table.Grows new) (hlt : id < table.nonterminals.length) :
    new.writtenName? id = table.writtenName? id := by
  have hn := List.getElem?_eq_getElem hlt
  have ⟨n', hn', hg⟩ := h.nonterminals hn
  rw [writtenName?_of_getElem? hn, writtenName?_of_getElem? hn', hg.synthetic, hg.name]

end SymbolTable

def Rules.writtenNames (rules : Rules) (table : SymbolTable) : List String :=
  (rules.map Rule.head).filterMap table.writtenName?

namespace Rules

variable {rules : Rules} {table new : SymbolTable}

theorem Fits.lt_length (h : rules.Fits table) {id : NonterminalId} (hid : rules.hasHead id) :
    id < table.nonterminals.length := by
  have ⟨_, hn, _⟩ := h.defined.mp hid
  exact lt_length_of_getElem? hn

theorem Fits.writtenNames (h : rules.Fits table) (hg : table.Grows new) :
    rules.writtenNames new = rules.writtenNames table := by
  refine List.filterMap_congr fun id hm => hg.writtenName? (h.lt_length ?_)
  simpa using hm

end Rules

namespace Loader

variable {a b : Loader} {piece : Piece} {done pieces : List Piece}

def InOrder (done : List Piece) (loader : Loader) : Prop :=
  loader.rules.writtenNames loader.symbols = (done.filterMap Piece.head?).eraseDups

theorem InOrder.of_eq (h : InOrder done a) (hs : a.Sound) (hp : piece.head? = none)
    (hg : a.symbols.Grows b.symbols) (hr : b.rules.map Rule.head = a.rules.map Rule.head) :
    InOrder (done ++ [piece]) b := by
  rw [InOrder, Rules.writtenNames, hr, ← Rules.writtenNames, hs.rules.writtenNames hg, h]
  simp [hp]

theorem InOrder.declare {id : NonterminalId} {name : String} (h : InOrder done a) (hs : a.Sound)
    (hs' : b.symbols.Sound) (hg : a.symbols.Grows b.symbols) (hr : b.rules = a.rules.declare id)
    (hname : b.symbols.writtenName? id = some name) : InOrder (done ++ [.head name]) b := by
  have hold : (a.rules.map Rule.head).filterMap b.symbols.writtenName? =
      (done.filterMap Piece.head?).eraseDups := by
    rw [← Rules.writtenNames, hs.rules.writtenNames hg, h]
  have hhead : a.rules.hasHead id ↔ name ∈ done.filterMap Piece.head? := by
    rw [← List.mem_eraseDups, ← hold, List.mem_filterMap]
    constructor
    case mp => exact fun hid => ⟨id, by simpa using hid, hname⟩
    case mpr =>
      intro ⟨i, hi, he⟩
      obtain ⟨m, hm, _, he⟩ := SymbolTable.writtenName?_eq_some_iff.mp he
      obtain ⟨n, hn, _, he'⟩ := SymbolTable.writtenName?_eq_some_iff.mp hname
      cases hs'.id_eq hm hn (he.trans he'.symm)
      simpa using hi
  have hdone : (done ++ [Piece.head name]).filterMap Piece.head? =
      done.filterMap Piece.head? ++ [name] := by
    simp [Piece.head?]
  rw [InOrder, hr, Rules.writtenNames, Rules.map_head_declare, hdone, eraseDups_append_singleton]
  by_cases hid : a.rules.hasHead id
  case pos => rw [if_pos hid, if_pos (List.contains_iff_mem.mpr (hhead.mp hid)), hold]
  case neg =>
    have hnot := mt (fun hc => hhead.mpr (List.contains_iff_mem.mp hc)) hid
    rw [if_neg hid, if_neg hnot, List.filterMap_append, hold]
    simp [hname]

theorem InOrder.openRule {name : String} (h : InOrder done a) (hs : a.Sound)
    (hi : isIdentifier name.toList) :
    InOrder (done ++ [.head name])
      ((a.internNonterminal name).2.openRule (a.internNonterminal name).1 name) := by
  have hopen := grows_openRule (a.internNonterminal name).2 (a.internNonterminal name).1 name
  have hd := (SymbolTable.internNonterminal_denotes hs.symbols hi a.location).mono hopen
  exact h.declare hs ((Step.head hi).sound hs).symbols (SymbolTable.grows_internNonterminal.trans hopen)
    rules_openRule hd.writtenName?

theorem Step.inOrder (hs : a.Sound) (h : a.Step piece b) (ho : InOrder done a) :
    InOrder (done ++ [piece]) b := by
  cases h
  case line         => exact ho.of_eq hs rfl (.refl _) rfl
  case shared       => exact ho.of_eq hs rfl (.refl _) rfl
  case terminal t _ => exact ho.of_eq hs rfl (SymbolTable.grows_internTerminal t) rfl
  case nonterminal =>
    exact ho.of_eq hs rfl
      (SymbolTable.grows_internNonterminal.trans SymbolTable.grows_reference) rfl
  case alternative head _ symbols hc _ _ =>
    refine ho.of_eq hs rfl (symbols_addProduction head symbols ▸ .refl _) ?_
    unfold addProduction
    split
    case isTrue  => rfl
    case isFalse => exact Rules.map_head_add_of_hasHead (hs.current hc).right
  case helper item repetition base hi hd hk hf =>
    -- The helper's rule is a new one at the end, but its head has no written name.
    have hg := SymbolTable.grows_insertHelper hf a.location
    have hnew : ¬a.rules.hasHead a.symbols.nonterminals.length := fun h =>
      Nat.lt_irrefl _ (hs.rules.lt_length h)
    have hname : (a.symbols.insertHelper (item.name.push repetition.mark) a.location).2.writtenName?
        a.symbols.nonterminals.length = none := by
      simp [SymbolTable.insertHelper, hf, SymbolTable.writtenName?, Nonterminal.helper]
    rw [addHelper_eq hs hf, InOrder, Rules.writtenNames,
      Rules.map_head_add_of_hasHead (Rules.hasHead_add.mpr (.inr rfl)), Rules.map_head_add,
      Rules.map_head_declare, if_neg hnew, List.filterMap_append, ← Rules.writtenNames,
      hs.rules.writtenNames hg, ho]
    have hp : (Piece.repetition item repetition).head? = none := rfl
    simp [hname, hp]
  case head name hi => exact ho.openRule hs hi

theorem Steps.inOrder (hs : a.Sound) (h : a.Steps pieces b) (ho : InOrder done a) :
    InOrder (done ++ pieces) b :=
  h.induction (P := InOrder) hs ho fun hs hstep ho => hstep.inOrder hs ho

end Loader

theorem filterMap_head?_pieces (number : Nat) (lines : List Line) :
    (pieces number lines).filterMap Piece.head? = headNames lines := by
  induction lines generalizing number
  case nil => rfl
  case cons line rest ih =>
    have htexts : (line.texts.flatMap alternativePieces).filterMap Piece.head? = [] := by
      simp only [List.filterMap_eq_nil_iff, List.mem_flatMap]
      exact fun piece ⟨_, _, hp⟩ => Loader.head?_of_mem_alternativePieces piece hp
    have hline : (line.pieces number).filterMap Piece.head? = line.head?.toList := by
      rw [Line.pieces, List.filterMap_cons_none rfl, List.filterMap_append, htexts]
      cases line.head? <;> rfl
    rw [pieces, List.filterMap_append, hline, ih, headNames_cons]

theorem Grammar.writtenNames_of_ofLines {file : Option String} {lines : List (Option (List Char))}
    {g : Grammar} (h : ofLines file lines = .ok g) :
    g.rules.writtenNames g.symbols = (headNames (linesOf lines)).eraseDups := by
  have ⟨loader, hsteps, hfinish⟩ := exists_steps_of_ofLines h
  obtain ⟨root, _, rfl⟩ := Loader.finish_eq_ok_iff.mp hfinish
  have hstart : Loader.InOrder [] (Loader.start file) := rfl
  have horder := hsteps.inOrder (Loader.sound_start file) hstart
  rwa [List.nil_append, Loader.InOrder, filterMap_head?_pieces] at horder

end LineGrammar
