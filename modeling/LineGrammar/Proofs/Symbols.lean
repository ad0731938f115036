import LineGrammar.Proofs.Words
import LineGrammar.SymbolTable

/-!
What the operations on a symbol table do to it: a table only ever grows, its names stay distinct, and
a number once given out keeps standing for the same name.
-/

namespace LineGrammar

structure Nonterminal.Grows (old new : Nonterminal) : Prop where
  name       : new.name = old.name
  synthetic  : new.synthetic = old.synthetic
  referenced : old.referenced → new.referenced
  defined    : old.defined → new.defined
  location   : old.defined → new.location = old.location

namespace Nonterminal

variable {n : Nonterminal}

theorem Grows.refl (n : Nonterminal) : n.Grows n :=
  ⟨rfl, rfl, id, id, fun _ => rfl⟩

theorem Grows.trans {a b c : Nonterminal} (h₁ : a.Grows b) (h₂ : b.Grows c) : a.Grows c where
  name         := h₂.name.trans h₁.name
  synthetic    := h₂.synthetic.trans h₁.synthetic
  referenced h := h₂.referenced (h₁.referenced h)
  defined h    := h₂.defined (h₁.defined h)
  location h   := (h₂.location (h₁.defined h)).trans (h₁.location h)

theorem grows_define (location : Location) : n.Grows (n.define location) := by
  unfold define
  split
  case isTrue    => exact .refl n
  case isFalse h => constructor <;> simp [h]

theorem grows_reference : n.Grows n.reference := by
  constructor <;> simp [reference]

@[simp]
theorem define_defined (location : Location) : (n.define location).defined = true := by
  unfold define
  split <;> simp_all

-- A nonterminal that is written down has an identifier for its name, a helper the written form of a
-- word with a mark. No text is both.
structure WellFormed (n : Nonterminal) : Prop where
  identifier : n.synthetic = false → isIdentifier n.name.toList
  repeated   : n.synthetic = true →
    ∃ item repetition, item.WellFormed ∧ n.name.toList = Word.text ⟨item, some repetition⟩

theorem WellFormed.of_grows {new : Nonterminal} (h : n.WellFormed) (hg : n.Grows new) :
    new.WellFormed where
  identifier hs := hg.name ▸ h.identifier (hg.synthetic ▸ hs)
  repeated hs   := hg.name ▸ h.repeated (hg.synthetic ▸ hs)

theorem WellFormed.synthetic_iff (h : n.WellFormed) :
    n.synthetic = true ↔ ∃ repetition : Repetition, repetition.mark ∈ n.name.toList := by
  constructor
  case mp =>
    intro hs
    have ⟨item, repetition, _, hn⟩ := h.repeated hs
    exact ⟨repetition, by simp [hn, Word.text]⟩
  case mpr =>
    rintro ⟨repetition, hm⟩
    by_contra hs
    have hi := h.identifier (Bool.eq_false_iff.mpr hs)
    exact mark_not_mem_of_isIdentifier hi repetition hm

theorem WellFormed.synthetic_iff_getLast? (h : n.WellFormed) :
    n.synthetic = true ↔ ∃ repetition : Repetition, n.name.toList.getLast? = some repetition.mark := by
  constructor
  case mp =>
    intro hs
    obtain ⟨item, repetition, _, hn⟩ := h.repeated hs
    exact ⟨repetition, by simp [hn, Word.text]⟩
  case mpr =>
    rintro ⟨repetition, hl⟩
    exact h.synthetic_iff.mpr ⟨repetition, List.mem_of_getLast? hl⟩

theorem WellFormed.synthetic_eq_false (h : n.WellFormed) (hi : isIdentifier n.name.toList) :
    n.synthetic = false := by
  by_contra hs
  have ⟨repetition, hm⟩ := h.synthetic_iff.mp (Bool.not_eq_false _ ▸ hs)
  exact mark_not_mem_of_isIdentifier hi repetition hm

end Nonterminal

namespace SymbolTable

variable {table new : SymbolTable} {name : String} {location : Location} {id : NonterminalId}

theorem isSynthetic_of_getElem? {n : Nonterminal} (h : table.nonterminals[id]? = some n) :
    table.isSynthetic id = n.synthetic := by
  simp [isSynthetic, h]

theorem nonterminalName_of_getElem? {n : Nonterminal} (h : table.nonterminals[id]? = some n) :
    table.nonterminalName id = n.name := by
  simp [nonterminalName, h]

structure Grows (old new : SymbolTable) : Prop where
  terminals    : ∀ {id : TerminalId} {t}, old.terminals[id]? = some t → new.terminals[id]? = some t
  nonterminals : ∀ {id : NonterminalId} {n}, old.nonterminals[id]? = some n →
    ∃ n', new.nonterminals[id]? = some n' ∧ n.Grows n'

namespace Grows

variable {old : SymbolTable}

theorem refl (table : SymbolTable) : table.Grows table :=
  ⟨id, fun h => ⟨_, h, .refl _⟩⟩

theorem trans {a b c : SymbolTable} (h₁ : a.Grows b) (h₂ : b.Grows c) : a.Grows c where
  terminals h := h₂.terminals (h₁.terminals h)
  nonterminals h := by
    have ⟨m, hm, hg⟩ := h₁.nonterminals h
    have ⟨n, hn, hg'⟩ := h₂.nonterminals hm
    exact ⟨n, hn, hg.trans hg'⟩

theorem isSynthetic (h : old.Grows new) (hs : old.isSynthetic id = true) :
    new.isSynthetic id = true := by
  cases hn : old.nonterminals[id]?
  case none => simp [SymbolTable.isSynthetic, hn] at hs
  case some n =>
    have ⟨n', hn', hg⟩ := h.nonterminals hn
    rw [isSynthetic_of_getElem? hn', hg.synthetic, ← isSynthetic_of_getElem? hn, hs]

theorem isSynthetic_eq_false (h : old.Grows new) (hs : new.isSynthetic id = false) :
    old.isSynthetic id = false := by
  by_contra ho
  simp [h.isSynthetic (Bool.not_eq_false _ ▸ ho)] at hs

theorem nonterminalName (h : old.Grows new) (hlt : id < old.nonterminals.length) :
    new.nonterminalName id = old.nonterminalName id := by
  have ⟨n', hn', hg⟩ := h.nonterminals (List.getElem?_eq_getElem hlt)
  rw [nonterminalName_of_getElem? hn', hg.name, nonterminalName_of_getElem? (List.getElem?_eq_getElem hlt)]

end Grows

theorem grows_modify {f : Nonterminal → Nonterminal} (hf : ∀ n : Nonterminal, n.Grows (f n)) :
    table.Grows { table with nonterminals := table.nonterminals.modify id f } where
  terminals h := h
  nonterminals {i n} h := by
    simp only [List.getElem?_modify, h, Option.map_eq_map, Option.map_some]
    split
    · exact ⟨_, rfl, hf n⟩
    · exact ⟨_, rfl, .refl n⟩

theorem grows_define : table.Grows (table.define id location) :=
  grows_modify fun _ => Nonterminal.grows_define location

theorem grows_reference : table.Grows (table.reference id) :=
  grows_modify fun _ => Nonterminal.grows_reference

theorem grows_append (n : Nonterminal) :
    table.Grows { table with nonterminals := table.nonterminals ++ [n] } where
  terminals h := h
  nonterminals {i m} h := by
    have hlt := lt_length_of_getElem? h
    exact ⟨m, by simp [List.getElem?_append_left hlt, h], .refl m⟩

theorem grows_internNonterminal : table.Grows (table.internNonterminal name location).2 := by
  unfold internNonterminal
  split
  · exact .refl table
  · exact grows_append _

theorem grows_insertHelper (h : table.nonterminalNamed? name = none) (location : Location) :
    table.Grows (table.insertHelper name location).2 := by
  simp only [insertHelper, h]
  exact grows_append _

theorem grows_internTerminal (t : Terminal) : table.Grows (table.internTerminal t).2 := by
  unfold internTerminal
  split
  · exact .refl table
  · refine ⟨fun {i t'} h => ?_, fun h => ⟨_, h, .refl _⟩⟩
    have hlt := lt_length_of_getElem? h
    simp [List.getElem?_append_left hlt, h]

theorem nonterminals_internTerminal (t : Terminal) :
    (table.internTerminal t).2.nonterminals = table.nonterminals := by
  unfold internTerminal
  split <;> rfl

structure Sound (table : SymbolTable) : Prop where
  terminal            : ∀ t ∈ table.terminals, (Item.terminal t).WellFormed
  nonterminal         : ∀ n ∈ table.nonterminals, n.WellFormed
  terminals_nodup     : (table.terminals.map Terminal.name).Nodup
  nonterminals_nodup  : (table.nonterminals.map Nonterminal.name).Nodup

namespace Sound

theorem empty : SymbolTable.empty.Sound := by
  constructor <;> simp [SymbolTable.empty]

theorem nonterminalNamed?_eq_some_iff (h : table.Sound) : table.nonterminalNamed? name = some id ↔
    ∃ n, table.nonterminals[id]? = some n ∧ n.name = name :=
  findIdx?_eq_some_iff_of_nodup h.nonterminals_nodup

theorem terminalNamed?_eq_some_iff (h : table.Sound) : table.terminalNamed? name = some id ↔
    ∃ t, table.terminals[id]? = some t ∧ t.name = name :=
  findIdx?_eq_some_iff_of_nodup h.terminals_nodup

theorem id_eq (h : table.Sound) {i j : NonterminalId} {m n : Nonterminal}
    (hm : table.nonterminals[i]? = some m) (hn : table.nonterminals[j]? = some n)
    (he : m.name = n.name) : i = j :=
  index_eq_of_nodup h.nonterminals_nodup hm hn he

theorem nodup_map_nonterminalName (h : table.Sound) {ids : List NonterminalId} (hn : ids.Nodup)
    (hlt : ∀ id ∈ ids, id < table.nonterminals.length) : (ids.map table.nonterminalName).Nodup := by
  refine List.Nodup.map_on (fun i hi j hj he => ?_) hn
  have hm := List.getElem?_eq_getElem (hlt i hi)
  have hn := List.getElem?_eq_getElem (hlt j hj)
  rw [nonterminalName_of_getElem? hm, nonterminalName_of_getElem? hn] at he
  exact h.id_eq hm hn he

theorem of_grows (h : table.Sound) (hg : table.Grows new) (ht : new.terminals = table.terminals)
    (hl : new.nonterminals.length = table.nonterminals.length) : new.Sound where
  terminal t hm := h.terminal t (ht ▸ hm)
  nonterminal n hm := by
    obtain ⟨id, hlt, rfl⟩ := List.mem_iff_getElem.mp hm
    have ⟨n, hn, hg⟩ := hg.nonterminals (List.getElem?_eq_getElem (hl ▸ hlt))
    cases (List.getElem?_eq_getElem hlt).symm.trans hn
    exact (h.nonterminal _ (List.getElem_mem (hl ▸ hlt))).of_grows hg
  terminals_nodup := ht ▸ h.terminals_nodup
  nonterminals_nodup := by
    have : new.nonterminals.map Nonterminal.name = table.nonterminals.map Nonterminal.name := by
      apply List.ext_getElem
      · simpa using hl
      · intro id hnew hold
        simp only [List.length_map] at hnew hold
        have ⟨n, hn, hg⟩ := hg.nonterminals (List.getElem?_eq_getElem hold)
        cases (List.getElem?_eq_getElem hnew).symm.trans hn
        simpa using hg.name
    exact this ▸ h.nonterminals_nodup

theorem define (h : table.Sound) : (table.define id location).Sound :=
  h.of_grows grows_define rfl (by simp [SymbolTable.define])

theorem reference (h : table.Sound) : (table.reference id).Sound :=
  h.of_grows grows_reference rfl (by simp [SymbolTable.reference])

theorem append (h : table.Sound) {n : Nonterminal} (hn : n.WellFormed)
    (hf : table.nonterminalNamed? n.name = none) :
    ({ table with nonterminals := table.nonterminals ++ [n] } : SymbolTable).Sound where
  terminal := h.terminal
  nonterminal m hm := by
    cases List.mem_append.mp hm
    case inl hm => exact h.nonterminal m hm
    case inr hm => exact List.mem_singleton.mp hm ▸ hn
  terminals_nodup := h.terminals_nodup
  nonterminals_nodup := nodup_map_append h.nonterminals_nodup (nonterminalNamed?_eq_none_iff.mp hf)

theorem internNonterminal (h : table.Sound) (hi : isIdentifier name.toList) :
    (table.internNonterminal name location).2.Sound := by
  unfold SymbolTable.internNonterminal
  split
  case h_1 => exact h
  case h_2 hf => exact h.append ⟨fun _ => hi, by simp [Nonterminal.mentioned]⟩ hf

theorem insertHelper (h : table.Sound) {item : Item} {repetition : Repetition}
    (hi : item.WellFormed) (hn : name.toList = Word.text ⟨item, some repetition⟩)
    (hf : table.nonterminalNamed? name = none) : (table.insertHelper name location).2.Sound := by
  simp only [SymbolTable.insertHelper, hf]
  exact h.append ⟨by simp [Nonterminal.helper], fun _ => ⟨item, repetition, hi, hn⟩⟩ hf

theorem internTerminal (h : table.Sound) {t : Terminal} (ht : (Item.terminal t).WellFormed) :
    (table.internTerminal t).2.Sound := by
  unfold SymbolTable.internTerminal
  split
  case h_1 => exact h
  case h_2 hf =>
    refine ⟨fun t' hm => ?_, h.nonterminal, ?_, h.nonterminals_nodup⟩
    · cases List.mem_append.mp hm
      case inl hm => exact h.terminal t' hm
      case inr hm => exact List.mem_singleton.mp hm ▸ ht
    · exact nodup_map_append h.terminals_nodup (terminalNamed?_eq_none_iff.mp hf)

end Sound

inductive Denotes (table : SymbolTable) : Item → Symbol → Prop
  | terminal {id : TerminalId} {t : Terminal} (entry : table.terminals[id]? = some t) :
    Denotes table (.terminal t) (.terminal id)
  | nonterminal {id : NonterminalId} {n : Nonterminal} (entry : table.nonterminals[id]? = some n)
      (written : n.synthetic = false) :
    Denotes table (.nonterminal n.name) (.nonterminal id)

inductive Spells (table : SymbolTable) : Word → Symbol → Prop
  | plain {item : Item} {symbol : Symbol} (item_denotes : table.Denotes item symbol) :
    Spells table ⟨item, none⟩ symbol
  | repeated {item : Item} {repetition : Repetition} {id : NonterminalId} {n : Nonterminal}
      (entry : table.nonterminals[id]? = some n) (helper : n.synthetic = true)
      (name : n.name.toList = Word.text ⟨item, some repetition⟩) :
    Spells table ⟨item, some repetition⟩ (.nonterminal id)

variable {item : Item} {word : Word} {symbol : Symbol}

theorem Denotes.mono (h : table.Denotes item symbol) (hg : table.Grows new) :
    new.Denotes item symbol := by
  cases h
  case terminal h => exact .terminal (hg.terminals h)
  case nonterminal h hs =>
    have ⟨n', hn', hg⟩ := hg.nonterminals h
    exact hg.name ▸ .nonterminal hn' (hg.synthetic.trans hs)

theorem Spells.mono (h : table.Spells word symbol) (hg : table.Grows new) :
    new.Spells word symbol := by
  cases h
  case plain h => exact .plain (h.mono hg)
  case repeated h hs hn =>
    have ⟨n', hn', hg⟩ := hg.nonterminals h
    exact .repeated hn' (hg.synthetic.trans hs) (hg.name ▸ hn)

theorem Denotes.symbolName (h : table.Denotes item symbol) : table.symbolName symbol = item.name := by
  cases h
  case terminal h      => simp [SymbolTable.symbolName, h, Item.name]
  case nonterminal h _ => simp [SymbolTable.symbolName, nonterminalName_of_getElem? h, Item.name]

theorem Spells.symbolName (h : table.Spells word symbol) :
    table.symbolName symbol = String.ofList word.text := by
  cases h
  case plain hd         => simp [hd.symbolName, Word.text]
  case repeated hn _ ht => simp [SymbolTable.symbolName, nonterminalName_of_getElem? hn, ← ht]

theorem Denotes.unique (h : table.Sound) {other : Symbol} (h₁ : table.Denotes item symbol)
    (h₂ : table.Denotes item other) : symbol = other := by
  cases h₁
  case terminal h₁ =>
    cases h₂ with | terminal h₂ =>
    have hi := h.terminalNamed?_eq_some_iff.mpr ⟨_, h₁, rfl⟩
    have hj := h.terminalNamed?_eq_some_iff.mpr ⟨_, h₂, rfl⟩
    rw [Option.some.inj (hi.symm.trans hj)]
  case nonterminal h₁ _ =>
    generalize hi : Item.nonterminal _ = item at h₂
    cases h₂ with
    | terminal => cases hi
    | nonterminal h₂ _ =>
      injection hi with hi
      rw [h.id_eq h₁ h₂ hi]

theorem internTerminal_denotes (h : table.Sound) {t : Terminal} (ht : (Item.terminal t).WellFormed) :
    (table.internTerminal t).2.Denotes (.terminal t) (.terminal (table.internTerminal t).1) := by
  unfold internTerminal
  split
  case h_1 id hi =>
    have ⟨t', ht', hn⟩ := h.terminalNamed?_eq_some_iff.mp hi
    have hw := h.terminal t' (List.mem_of_getElem? ht')
    cases Item.name_injective hw ht (by simpa [Item.name] using hn)
    exact .terminal ht'
  case h_2 => exact .terminal (by simp)

theorem internNonterminal_denotes (h : table.Sound) (hi : isIdentifier name.toList)
    (location : Location) :
    (table.internNonterminal name location).2.Denotes (.nonterminal name)
      (.nonterminal (table.internNonterminal name location).1) := by
  unfold internNonterminal
  split
  case h_1 id hf =>
    obtain ⟨n, hn, rfl⟩ := h.nonterminalNamed?_eq_some_iff.mp hf
    exact .nonterminal hn ((h.nonterminal n (List.mem_of_getElem? hn)).synthetic_eq_false hi)
  case h_2 =>
    exact .nonterminal (n := .mentioned name location) (by simp) rfl

theorem insertHelper_spells {repetition : Repetition}
    (hn : name.toList = Word.text ⟨item, some repetition⟩)
    (hf : table.nonterminalNamed? name = none) (location : Location) :
    (table.insertHelper name location).2.Spells ⟨item, some repetition⟩
      (.nonterminal (table.insertHelper name location).1) := by
  simp only [insertHelper, hf]
  exact .repeated (n := .helper name location) (by simp) rfl hn

end SymbolTable
end LineGrammar
