import LineGrammar.Proofs.Symbols

/-!
A symbol table under any use, not only that of a loader. Whatever an empty table is asked and in whatever
order, the names and the numbers of a kind stay one to one, and no entry loses what it has been given.
-/

namespace LineGrammar

structure Nonterminal.Keeps (old new : Nonterminal) : Prop where
  name       : new.name = old.name
  referenced : old.referenced → new.referenced
  defined    : old.defined → new.defined
  synthetic  : old.synthetic → new.synthetic

namespace Nonterminal

variable {n : Nonterminal}

theorem Keeps.refl (n : Nonterminal) : n.Keeps n :=
  ⟨rfl, id, id, id⟩

theorem Keeps.trans {a b c : Nonterminal} (h₁ : a.Keeps b) (h₂ : b.Keeps c) : a.Keeps c where
  name         := h₂.name.trans h₁.name
  referenced h := h₂.referenced (h₁.referenced h)
  defined h    := h₂.defined (h₁.defined h)
  synthetic h  := h₂.synthetic (h₁.synthetic h)

theorem Grows.keeps {new : Nonterminal} (h : n.Grows new) : n.Keeps new :=
  ⟨h.name, h.referenced, h.defined, fun hs => h.synthetic.trans hs⟩

theorem keeps_helper (location : Location) : n.Keeps (.helper n.name location) :=
  ⟨rfl, fun _ => rfl, fun _ => rfl, fun _ => rfl⟩

end Nonterminal

structure Tally (given : List (String × Nat)) (names : List String) : Prop where
  firsts  : names = (given.map Prod.fst).eraseDups
  numbers : ∀ name id, (name, id) ∈ given → names[id]? = some name

structure Numbering (given : List (String × Nat)) (names : List String) (found? : String → Option Nat) :
    Prop where
  count  : names.length = (given.map Prod.fst).eraseDups.length
  number : ∀ id, id < names.length ↔ ∃ name, (name, id) ∈ given
  find   : ∀ name id, found? name = some id ↔ (name, id) ∈ given
  name   : ∀ name id, (name, id) ∈ given → names[id]? = some name
  unique : ∀ {i j : Nat} {name : String}, names[i]? = some name → names[j]? = some name → i = j

namespace Tally

variable {given : List (String × Nat)} {names : List String} {name : String} {id : Nat}

theorem empty : Tally [] [] :=
  ⟨rfl, by simp⟩

theorem nodup (h : Tally given names) : names.Nodup :=
  h.firsts ▸ nodup_eraseDups _

theorem mem_names_iff (h : Tally given names) : name ∈ names ↔ name ∈ given.map Prod.fst := by
  rw [h.firsts, List.mem_eraseDups]

theorem unique (h : Tally given names) {i j : Nat} (hi : names[i]? = some name)
    (hj : names[j]? = some name) : i = j :=
  (List.getElem?_inj (lt_length_of_getElem? hi) h.nodup).mp (hi.trans hj.symm)

theorem mem_iff (h : Tally given names) : (name, id) ∈ given ↔ names[id]? = some name := by
  constructor
  case mp => exact h.numbers name id
  case mpr =>
    intro hid
    obtain ⟨⟨_, other⟩, hm, rfl⟩ := List.mem_map.mp (h.mem_names_iff.mp (List.mem_of_getElem? hid))
    exact h.unique (h.numbers _ other hm) hid ▸ hm

theorem known (h : Tally given names) (hid : names[id]? = some name) :
    Tally (given ++ [(name, id)]) names where
  firsts := by
    have hm : name ∈ given.map Prod.fst := h.mem_names_iff.mp (List.mem_of_getElem? hid)
    rw [List.map_append, List.map_singleton, eraseDups_append_singleton, if_pos (by simpa using hm), ← h.firsts]
  numbers other i hm := by
    cases List.mem_append.mp hm
    case inl hm => exact h.numbers other i hm
    case inr hm =>
      cases List.mem_singleton.mp hm
      exact hid

theorem fresh (h : Tally given names) (hn : name ∉ names) :
    Tally (given ++ [(name, names.length)]) (names ++ [name]) where
  firsts := by
    have hm : name ∉ given.map Prod.fst := mt h.mem_names_iff.mpr hn
    rw [List.map_append, List.map_singleton, eraseDups_append_singleton, if_neg (by simpa using hm), ← h.firsts]
  numbers other i hm := by
    cases List.mem_append.mp hm
    case inl hm =>
      have hi := h.numbers other i hm
      rw [List.getElem?_append_left (lt_length_of_getElem? hi), hi]
    case inr hm =>
      cases List.mem_singleton.mp hm
      simp

theorem numbering (h : Tally given names) {found? : String → Option Nat}
    (hf : ∀ name id, found? name = some id ↔ names[id]? = some name) : Numbering given names found? where
  count       := congrArg List.length h.firsts
  find name i := (hf name i).trans h.mem_iff.symm
  name        := h.numbers
  unique      := h.unique
  number i := by
    simp only [h.mem_iff]
    constructor
    · exact fun hlt => ⟨_, List.getElem?_eq_getElem hlt⟩
    · exact fun ⟨_, hi⟩ => lt_length_of_getElem? hi

end Tally

def FirstGiven (given : List (Terminal × TerminalId)) (terminals : List Terminal) : Prop :=
  ∀ (id : TerminalId) t, terminals[id]? = some t →
    given.find? (fun earlier => earlier.1.name == t.name) = some (t, id)

namespace FirstGiven

variable {given : List (Terminal × TerminalId)} {terminals : List Terminal} {t : Terminal}

theorem known (h : FirstGiven given terminals) (later : Terminal × TerminalId) :
    FirstGiven (given ++ [later]) terminals := by
  intro id t ht
  rw [List.find?_append, h id t ht, Option.some_or]

theorem fresh (h : FirstGiven given terminals) (hn : ∀ earlier ∈ given, earlier.1.name ≠ t.name) :
    FirstGiven (given ++ [(t, terminals.length)]) (terminals ++ [t]) := by
  intro (id : Nat) other ht
  by_cases hlt : id < terminals.length
  case pos =>
    rw [List.getElem?_append_left hlt] at ht
    exact h.known _ id other ht
  case neg =>
    rw [List.getElem?_append_right (Nat.not_lt.mp hlt), List.getElem?_singleton] at ht
    split at ht <;> cases ht
    have hid : id = terminals.length := by omega
    have hnone : given.find? (fun earlier => earlier.1.name == t.name) = none := by simpa using hn
    simp [List.find?_append, hnone, hid]

end FirstGiven

namespace SymbolTable

inductive Call
  | internTerminal (name : String)
  | internLiteral (quote : Quote) (text : String)
  | internNonterminal (name : String) (location : Location)
  | insertHelper (name : String) (location : Location)
  | define (id : NonterminalId) (location : Location)
  | reference (id : NonterminalId)
  deriving DecidableEq, Repr

structure History where
  table : SymbolTable
  terminals : List (Terminal × TerminalId)
  nonterminals : List (String × NonterminalId)
  deriving DecidableEq, Repr

namespace History

def start : History :=
  ⟨.empty, [], []⟩

def giveTerminal (history : History) (terminal : Terminal) : History :=
  let answer := history.table.internTerminal terminal
  { history with table := answer.2, terminals := history.terminals ++ [(terminal, answer.1)] }

def giveNonterminal (history : History) (name : String) (answer : NonterminalId × SymbolTable) : History :=
  { history with table := answer.2, nonterminals := history.nonterminals ++ [(name, answer.1)] }

end History

namespace Call

def next (history : History) : Call → History
  | internTerminal name              => history.giveTerminal (.named name)
  | internLiteral quote text         => history.giveTerminal (.literal quote text)
  | internNonterminal name location  =>
    history.giveNonterminal name (history.table.internNonterminal name location)
  | insertHelper name location       =>
    history.giveNonterminal name (history.table.insertHelper name location)
  | define id location               => { history with table := history.table.define id location }
  | reference id                     => { history with table := history.table.reference id }

def id? : Call → Option NonterminalId
  | define id _ | reference id => some id
  | _                          => none

-- A number that needs an entry has to have come back earlier.
def Allowed (call : Call) (history : History) : Prop :=
  ∀ id ∈ call.id?, id ∈ history.nonterminals.map Prod.snd

instance (call : Call) (history : History) : Decidable (call.Allowed history) :=
  inferInstanceAs (Decidable (∀ id ∈ call.id?, id ∈ history.nonterminals.map Prod.snd))

def effect (call : Call) (id : NonterminalId) (n : Nonterminal) : Nonterminal :=
  match call with
  | insertHelper name location => if name = n.name then .helper name location else n
  | define i location          => if i = id then n.define location else n
  | reference i                => if i = id then n.reference else n
  | _                          => n

variable {call : Call} {id : NonterminalId} {n : Nonterminal}

theorem keeps_effect (call : Call) (id : NonterminalId) (n : Nonterminal) : n.Keeps (call.effect id n) := by
  unfold effect
  split
  case h_1 =>
    split
    case isTrue h  => exact h ▸ Nonterminal.keeps_helper _
    case isFalse   => exact .refl n
  case h_2 =>
    split
    case isTrue    => exact (Nonterminal.grows_define _).keeps
    case isFalse   => exact .refl n
  case h_3 =>
    split
    case isTrue    => exact Nonterminal.grows_reference.keeps
    case isFalse   => exact .refl n
  case h_4 => exact .refl n

-- Only the first rule head and a helper of the same name move an entry.
theorem location_effect : (call.effect id n).location = n.location ∨
    (n.defined = false ∧ call = .define id (call.effect id n).location) ∨
    call = .insertHelper n.name (call.effect id n).location := by
  cases call
  case insertHelper name location =>
    by_cases h : name = n.name <;> simp [effect, h, Nonterminal.helper]
  case define i location =>
    by_cases h : i = id <;> cases hd : n.defined <;> simp [effect, h, hd, Nonterminal.define]
  case reference i =>
    by_cases h : i = id <;> simp [effect, h, Nonterminal.reference]
  all_goals exact .inl rfl

structure Changes (call : Call) (old new : SymbolTable) : Prop where
  terminal    : ∀ (id : TerminalId) t, old.terminals[id]? = some t → new.terminals[id]? = some t
  nonterminal : ∀ (id : NonterminalId) n, old.nonterminals[id]? = some n →
    ∃ m, new.nonterminals[id]? = some m ∧ n.Keeps m ∧
      (m.location = n.location ∨ (n.defined = false ∧ call = .define id m.location) ∨
        call = .insertHelper n.name m.location)

end Call

structure Extends (old new : SymbolTable) : Prop where
  terminal    : ∀ (id : TerminalId) t, old.terminals[id]? = some t → new.terminals[id]? = some t
  nonterminal : ∀ (id : NonterminalId) n, old.nonterminals[id]? = some n →
    ∃ m, new.nonterminals[id]? = some m ∧ n.Keeps m

theorem Extends.refl (table : SymbolTable) : table.Extends table :=
  ⟨fun _ _ h => h, fun _ n h => ⟨n, h, .refl n⟩⟩

theorem Extends.trans {a b c : SymbolTable} (h₁ : a.Extends b) (h₂ : b.Extends c) : a.Extends c where
  terminal id t h := h₂.terminal id t (h₁.terminal id t h)
  nonterminal id n h := by
    have ⟨m, hm, hk⟩ := h₁.nonterminal id n h
    have ⟨k, hk', hk''⟩ := h₂.nonterminal id m hm
    exact ⟨k, hk', hk.trans hk''⟩

theorem Call.Changes.extends {call : Call} {old new : SymbolTable} (h : call.Changes old new) :
    old.Extends new where
  terminal := h.terminal
  nonterminal id n hn := by
    have ⟨m, hm, hk, _⟩ := h.nonterminal id n hn
    exact ⟨m, hm, hk⟩

-- What has been given and the table agree. This is what every call keeps.
structure History.Sound (history : History) : Prop where
  terminals    : Tally (history.terminals.map fun given => (given.1.name, given.2))
    (history.table.terminals.map Terminal.name)
  nonterminals : Tally history.nonterminals (history.table.nonterminals.map Nonterminal.name)
  first        : FirstGiven history.terminals history.table.terminals

namespace History

variable {history a b : History} {calls : List Call} {name : String} {id : Nat}
variable {t other : Terminal} {n : Nonterminal}

theorem sound_start : start.Sound :=
  ⟨.empty, .empty, by simp [FirstGiven, start, SymbolTable.empty]⟩

theorem Sound.terminalNamed?_eq_some_iff (h : history.Sound) :
    history.table.terminalNamed? name = some id ↔
      (history.table.terminals.map Terminal.name)[id]? = some name := by
  rw [terminalNamed?, findIdx?_eq_some_iff_of_nodup h.terminals.nodup, List.getElem?_map,
    Option.map_eq_some_iff]

theorem Sound.nonterminalNamed?_eq_some_iff (h : history.Sound) :
    history.table.nonterminalNamed? name = some id ↔
      (history.table.nonterminals.map Nonterminal.name)[id]? = some name := by
  rw [nonterminalNamed?, findIdx?_eq_some_iff_of_nodup h.nonterminals.nodup, List.getElem?_map,
    Option.map_eq_some_iff]

theorem Sound.giveTerminal (h : history.Sound) (t : Terminal) : (history.giveTerminal t).Sound := by
  cases hf : history.table.terminalNamed? t.name
  case some id =>
    have hgive : history.giveTerminal t = { history with terminals := history.terminals ++ [(t, id)] } := by
      simp [History.giveTerminal, internTerminal, hf]
    rw [hgive]
    refine ⟨?_, h.nonterminals, h.first.known _⟩
    simpa using h.terminals.known (h.terminalNamed?_eq_some_iff.mp hf)
  case none =>
    have hgive : history.giveTerminal t = { history with
        table := { history.table with terminals := history.table.terminals ++ [t] }
        terminals := history.terminals ++ [(t, history.table.terminals.length)] } := by
      simp [History.giveTerminal, internTerminal, hf]
    have hnew : t.name ∉ history.table.terminals.map Terminal.name := by
      simpa using terminalNamed?_eq_none_iff.mp hf
    have hgiven : ∀ earlier ∈ history.terminals, earlier.1.name ≠ t.name := by
      simpa [h.terminals.mem_names_iff] using hnew
    rw [hgive]
    refine ⟨?_, h.nonterminals, h.first.fresh hgiven⟩
    simpa using h.terminals.fresh hnew

theorem Sound.giveNonterminal (h : history.Sound) {answer : NonterminalId × SymbolTable}
    (ht : answer.2.terminals = history.table.terminals)
    (hknown : ∀ id, history.table.nonterminalNamed? name = some id → answer.1 = id ∧
      answer.2.nonterminals.map Nonterminal.name = history.table.nonterminals.map Nonterminal.name)
    (hfresh : history.table.nonterminalNamed? name = none →
      answer.1 = history.table.nonterminals.length ∧ answer.2.nonterminals.map Nonterminal.name =
        history.table.nonterminals.map Nonterminal.name ++ [name]) :
    (history.giveNonterminal name answer).Sound := by
  refine ⟨?terminals, ?nonterminals, ?first⟩
  case terminals => simpa [History.giveNonterminal, ht] using h.terminals
  case first     => simpa [History.giveNonterminal, ht] using h.first
  case nonterminals =>
    simp only [History.giveNonterminal]
    cases hf : history.table.nonterminalNamed? name
    case some id =>
      have ⟨hid, hnames⟩ := hknown id hf
      rw [hid, hnames]
      exact h.nonterminals.known (h.nonterminalNamed?_eq_some_iff.mp hf)
    case none =>
      have ⟨hid, hnames⟩ := hfresh hf
      have hnew : name ∉ history.table.nonterminals.map Nonterminal.name := by
        simpa using nonterminalNamed?_eq_none_iff.mp hf
      rw [hid, hnames]
      simpa using h.nonterminals.fresh hnew

theorem Sound.next (h : history.Sound) (call : Call) : (call.next history).Sound := by
  cases call
  case internTerminal name        => exact h.giveTerminal _
  case internLiteral quote text   => exact h.giveTerminal _
  case internNonterminal name location =>
    refine h.giveNonterminal ?_ (fun id hf => ?_) fun hf => ?_
    · unfold internNonterminal
      split <;> rfl
    all_goals simp [internNonterminal, hf, Nonterminal.mentioned]
  case insertHelper name location =>
    refine h.giveNonterminal ?_ (fun id hf => ?_) fun hf => ?_
    · unfold insertHelper
      split <;> rfl
    · obtain ⟨hlt, hname⟩ := List.getElem?_eq_some_iff.mp (h.nonterminalNamed?_eq_some_iff.mp hf)
      have hset : (history.table.nonterminals.map Nonterminal.name).set id name =
          history.table.nonterminals.map Nonterminal.name := hname ▸ List.set_getElem_self hlt
      simp [insertHelper, hf, List.map_set, Nonterminal.helper, hset]
    · simp [insertHelper, hf, Nonterminal.helper]
  case define id location         => exact ⟨h.terminals, by simpa [Call.next] using h.nonterminals, h.first⟩
  case reference id               => exact ⟨h.terminals, by simpa [Call.next] using h.nonterminals, h.first⟩

theorem getElem?_terminals_next (h : history.table.terminals[id]? = some t) (call : Call) :
    (call.next history).table.terminals[id]? = some t := by
  cases call
  case internTerminal name             => exact (grows_internTerminal _).terminals h
  case internLiteral quote text        => exact (grows_internTerminal _).terminals h
  case internNonterminal name location => exact grows_internNonterminal.terminals h
  case insertHelper name location =>
    simp only [Call.next, giveNonterminal, insertHelper]
    split <;> exact h
  case define    => exact h
  case reference => exact h

-- A helper takes the place of the entry that has its name, which is not more than one.
theorem Sound.getElem?_insertHelper (h : history.Sound) (hn : history.table.nonterminals[id]? = some n)
    (name : String) (location : Location) :
    (history.table.insertHelper name location).2.nonterminals[id]? =
      some (if name = n.name then .helper name location else n) := by
  unfold insertHelper
  split
  case h_1 i hf =>
    have hold := h.nonterminalNamed?_eq_some_iff.mp hf
    have hname : (history.table.nonterminals.map Nonterminal.name)[id]? = some n.name := by simp [hn]
    by_cases hi : i = id
    case pos =>
      subst hi
      obtain rfl : name = n.name := Option.some.inj (hold.symm.trans hname)
      simp [lt_length_of_getElem? hn]
    case neg =>
      have hne : name ≠ n.name := fun he => hi (h.nonterminals.unique hold (he ▸ hname))
      rw [List.getElem?_set_ne hi, hn, if_neg hne]
  case h_2 hf =>
    have hne : n.name ≠ name := nonterminalNamed?_eq_none_iff.mp hf n (List.mem_of_getElem? hn)
    rw [List.getElem?_append_left (lt_length_of_getElem? hn), hn, if_neg hne.symm]

theorem Sound.getElem?_nonterminals_next (h : history.Sound)
    (hn : history.table.nonterminals[id]? = some n) (call : Call) :
    (call.next history).table.nonterminals[id]? = some (call.effect id n) := by
  cases call
  case internTerminal name             => exact (nonterminals_internTerminal _).symm ▸ hn
  case internLiteral quote text        => exact (nonterminals_internTerminal _).symm ▸ hn
  case internNonterminal name location =>
    simp only [Call.next, History.giveNonterminal, internNonterminal]
    split
    case h_1 => exact hn
    case h_2 => exact (List.getElem?_append_left (lt_length_of_getElem? hn)).trans hn
  case insertHelper name location      => exact h.getElem?_insertHelper hn name location
  case define i location =>
    by_cases hi : i = id <;> simp [Call.next, SymbolTable.define, Call.effect, hn, hi]
  case reference i =>
    by_cases hi : i = id <;> simp [Call.next, SymbolTable.reference, Call.effect, hn, hi]

theorem Sound.changes_next (h : history.Sound) (call : Call) :
    call.Changes history.table (call.next history).table where
  terminal _ _ ht    := getElem?_terminals_next ht call
  nonterminal _ _ hn := ⟨_, h.getElem?_nonterminals_next hn call, call.keeps_effect .., call.location_effect⟩

theorem Sound.terminalNamed?_of_extends (ha : a.Sound) (hb : b.Sound) (he : a.table.Extends b.table)
    (hf : a.table.terminalNamed? name = some id) : b.table.terminalNamed? name = some id := by
  rw [terminalNamed?_eq_some_iff hb]
  rw [terminalNamed?_eq_some_iff ha, List.getElem?_map, Option.map_eq_some_iff] at hf
  obtain ⟨t, ht, rfl⟩ := hf
  rw [List.getElem?_map, he.terminal id t ht, Option.map_some]

theorem Sound.nonterminalNamed?_of_extends (ha : a.Sound) (hb : b.Sound) (he : a.table.Extends b.table)
    (hf : a.table.nonterminalNamed? name = some id) : b.table.nonterminalNamed? name = some id := by
  rw [nonterminalNamed?_eq_some_iff hb]
  rw [nonterminalNamed?_eq_some_iff ha, List.getElem?_map, Option.map_eq_some_iff] at hf
  obtain ⟨n, hn, rfl⟩ := hf
  obtain ⟨m, hm, hk⟩ := he.nonterminal id n hn
  rw [List.getElem?_map, hm, Option.map_some, hk.name]

def run? (history : History) : List Call → Option History
  | [] => some history
  | call :: rest => if call.Allowed history then (call.next history).run? rest else none

theorem Sound.run? (ha : a.Sound) (h : a.run? calls = some b) : b.Sound ∧ a.table.Extends b.table := by
  induction calls generalizing a
  case nil =>
    cases h
    exact ⟨ha, .refl _⟩
  case cons call rest ih =>
    rw [History.run?] at h
    split at h
    case isFalse => cases h
    case isTrue =>
      obtain ⟨hb, he⟩ := ih (ha.next call) h
      exact ⟨hb, (ha.changes_next call).extends.trans he⟩

end History

structure History.Numbered (history : History) : Prop where
  terminals    : Numbering (history.terminals.map fun given => (given.1.name, given.2))
    (history.table.terminals.map Terminal.name) history.table.terminalNamed?
  nonterminals : Numbering history.nonterminals (history.table.nonterminals.map Nonterminal.name)
    history.table.nonterminalNamed?
  first        : FirstGiven history.terminals history.table.terminals

theorem History.Sound.numbered {history : History} (h : history.Sound) : history.Numbered where
  terminals    := h.terminals.numbering fun _ _ => h.terminalNamed?_eq_some_iff
  nonterminals := h.nonterminals.numbering fun _ _ => h.nonterminalNamed?_eq_some_iff
  first        := h.first

-- Whatever calls an empty table has had, it numbers all names, the next call finds the entry that it
-- needs and keeps all others, and nothing that has come back is ever revoked.
theorem stable_of_calls {calls : List Call} {history : History} (h : History.start.run? calls = some history) :
    history.Numbered ∧
      (∀ call : Call, call.Allowed history → (∀ id ∈ call.id?, id < history.table.nonterminals.length) ∧
        call.Changes history.table (call.next history).table) ∧
      ∀ more later, history.run? more = some later → history.table.Extends later.table ∧
        (∀ name id, history.table.terminalNamed? name = some id →
          later.table.terminalNamed? name = some id) ∧
        ∀ name id, history.table.nonterminalNamed? name = some id →
          later.table.nonterminalNamed? name = some id := by
  have ⟨hs, _⟩ := History.sound_start.run? h
  refine ⟨hs.numbered, fun call ha => ⟨fun id hid => ?_, hs.changes_next call⟩, fun more later hl => ?_⟩
  · obtain ⟨⟨name, _⟩, hm, rfl⟩ := List.mem_map.mp (ha id hid)
    simpa using (hs.numbered.nonterminals.number _).mpr ⟨name, hm⟩
  · have ⟨hlater, he⟩ := hs.run? hl
    exact ⟨he, fun _ _ => hs.terminalNamed?_of_extends hlater he,
      fun _ _ => hs.nonterminalNamed?_of_extends hlater he⟩

-- A named terminal takes its name from the literal that is written so, and a helper the entry of a
-- nonterminal that is not yet defined.
theorem stable_of_mixed_calls :
    let calls : List Call := [.internTerminal "'+'", .internLiteral .single "+", .internLiteral .double "+",
      .internNonterminal "A" ⟨none, 1⟩, .internNonterminal "B" ⟨none, 2⟩, .define 0 ⟨none, 3⟩,
      .define 0 ⟨none, 4⟩, .insertHelper "B" ⟨none, 5⟩, .define 1 ⟨none, 6⟩, .reference 0]
    ∃ history, History.start.run? calls = some history ∧
      history.table = ⟨[.named "'+'", .literal .double "+"],
        [⟨"A", ⟨none, 3⟩, true, true, false⟩, .helper "B" ⟨none, 5⟩]⟩ ∧
      history.Numbered := by
  intro calls
  obtain ⟨history, hrun, htable⟩ : ∃ history, History.start.run? calls = some history ∧
      history.table = ⟨[.named "'+'", .literal .double "+"],
        [⟨"A", ⟨none, 3⟩, true, true, false⟩, .helper "B" ⟨none, 5⟩]⟩ :=
    ⟨_, rfl, by decide +kernel⟩
  have ⟨hnumbered, _⟩ := stable_of_calls hrun
  exact ⟨history, hrun, htable, hnumbered⟩

end SymbolTable
end LineGrammar
