import LineGrammar.Proofs.Derivation
import LineGrammar.Proofs.Rules
import Mathlib

/-!
The languages of a compiled grammar. They are the least ones that contain what its productions say.
-/

namespace LineGrammar

namespace SymbolTable

variable {table : SymbolTable} {string : List Terminal} {u v : List TerminalId}

def Transcribes (table : SymbolTable) (ids : List TerminalId) (string : List Terminal) : Prop :=
  ids.map (table.terminals[·]?) = string.map some

theorem transcribes_nil_iff : table.Transcribes [] string ↔ string = [] := by
  rw [Transcribes, List.map_nil, eq_comm, List.map_eq_nil_iff]

theorem transcribes_append_iff :
    table.Transcribes (u ++ v) string ↔
      ∃ x y, x ++ y = string ∧ table.Transcribes u x ∧ table.Transcribes v y := by
  rw [Transcribes, List.map_append, List.append_eq_map_iff]
  constructor
  · rintro ⟨x, y, rfl, hx, hy⟩
    exact ⟨x, y, rfl, hx.symm, hy.symm⟩
  · rintro ⟨x, y, rfl, hx, hy⟩
    exact ⟨x, y, rfl, hx.symm, hy.symm⟩

theorem transcribes_singleton_iff {id : TerminalId} :
    table.Transcribes [id] string ↔ ∃ t, table.terminals[id]? = some t ∧ string = [t] := by
  rw [Transcribes, List.map_singleton, eq_comm, List.map_eq_singleton_iff]
  constructor
  · rintro ⟨t, rfl, ht⟩
    exact ⟨t, ht.symm, rfl⟩
  · rintro ⟨t, ht, rfl⟩
    exact ⟨t, rfl, ht.symm⟩

theorem Sound.transcribes_injective (h : table.Sound) (hu : table.Transcribes u string)
    (hv : table.Transcribes v string) : u = v := by
  have he : u.map (table.terminals[·]?) = v.map (table.terminals[·]?) := hu.trans hv.symm
  apply List.ext_getElem
  · simpa using congrArg List.length he
  · intro i hi hj
    have hlen : u.length = string.length := by simpa using congrArg List.length hu
    have hlt : i < string.length := hlen ▸ hi
    have hui : table.terminals[u[i]]? = some string[i] := by
      have := congrArg (·[i]?) hu
      simpa [hi, hlt] using this
    have hvi : table.terminals[v[i]]? = some string[i] := by
      have := congrArg (·[i]?) hv
      simpa [hj, hlt] using this
    exact index_eq_of_nodup h.terminals_nodup hui hvi rfl

end SymbolTable

namespace Grammar

variable {g : Grammar} {a b form : List Symbol} {id : NonterminalId}

def formLanguage (g : Grammar) (form : List Symbol) : Language Terminal :=
  {string | ∃ ids, g.symbols.Transcribes ids string ∧ g.Yields form ids}

theorem formLanguage_nil : g.formLanguage [] = 1 := by
  apply Language.ext
  intro string
  rw [Language.mem_one]
  constructor
  case mp =>
    intro ⟨ids, ht, hy⟩
    cases yields_nil_iff.mp hy
    exact SymbolTable.transcribes_nil_iff.mp ht
  case mpr =>
    rintro rfl
    exact ⟨[], rfl, .nil⟩

theorem formLanguage_append : g.formLanguage (a ++ b) = g.formLanguage a * g.formLanguage b := by
  apply Language.ext
  intro string
  rw [Language.mem_mul]
  constructor
  case mp =>
    intro ⟨ids, ht, hy⟩
    obtain ⟨u, v, rfl, hu, hv⟩ := yields_append_iff.mp hy
    obtain ⟨x, y, rfl, hx, hy⟩ := SymbolTable.transcribes_append_iff.mp ht
    exact ⟨x, ⟨u, hx, hu⟩, y, ⟨v, hy, hv⟩, rfl⟩
  case mpr =>
    rintro ⟨x, ⟨u, hx, hu⟩, y, ⟨v, hy, hv⟩, rfl⟩
    exact ⟨u ++ v, SymbolTable.transcribes_append_iff.mpr ⟨x, y, rfl, hx, hy⟩, hu.append hv⟩

theorem formLanguage_eq_prod : g.formLanguage form = (form.map (g.formLanguage [·])).prod := by
  induction form
  case nil => exact formLanguage_nil
  case cons symbol rest ih =>
    rw [← List.singleton_append, formLanguage_append, ih, List.map_append, List.prod_append,
      List.map_singleton, List.prod_singleton]

theorem formLanguage_terminal {id : TerminalId} {t : Terminal}
    (ht : g.symbols.terminals[id]? = some t) : g.formLanguage [.terminal id] = {[t]} := by
  apply Language.ext
  intro string
  constructor
  case mp =>
    intro ⟨ids, hs, hy⟩
    cases yields_terminal_iff.mp hy
    obtain ⟨t, ht', rfl⟩ := SymbolTable.transcribes_singleton_iff.mp hs
    cases ht.symm.trans ht'
    rfl
  case mpr =>
    rintro rfl
    exact ⟨[id], SymbolTable.transcribes_singleton_iff.mpr ⟨t, ht, rfl⟩, .terminal .nil⟩

theorem formLanguage_le_of_mem {production : Production} (hp : production ∈ g.productionsOf id) :
    g.formLanguage production.symbols ≤ g.formLanguage [.nonterminal id] := by
  intro string ⟨ids, ht, hy⟩
  exact ⟨ids, ht, yields_nonterminal_iff.mpr ⟨production, hp, hy⟩⟩

theorem formLanguage_le {meaning : Symbol → Language Terminal}
    (ht : ∀ (id : TerminalId) t, g.symbols.terminals[id]? = some t → [t] ∈ meaning (.terminal id))
    (hp : ∀ id, ∀ production ∈ g.productionsOf id,
      (production.symbols.map meaning).prod ≤ meaning (.nonterminal id)) :
    g.formLanguage form ≤ (form.map meaning).prod := by
  intro string ⟨ids, hs, hy⟩
  induction hy generalizing string
  case nil => exact SymbolTable.transcribes_nil_iff.mp hs
  case terminal id rest ids _ ih =>
    rw [← List.singleton_append] at hs
    obtain ⟨x, y, rfl, hx, hy⟩ := SymbolTable.transcribes_append_iff.mp hs
    obtain ⟨t, hid, rfl⟩ := SymbolTable.transcribes_singleton_iff.mp hx
    exact Language.append_mem_mul (ht id t hid) (ih hy)
  case nonterminal mem _ _ ihp ihr =>
    obtain ⟨x, y, rfl, hx, hy⟩ := SymbolTable.transcribes_append_iff.mp hs
    exact Language.append_mem_mul (hp _ _ mem (ihp hx)) (ihr hy)

structure Generates (g : Grammar) (id : NonterminalId) (L : Language Terminal) : Prop where
  derives : ∀ ids, g.Derives [.nonterminal id] (ids.map .terminal) ↔
    ∃ string ∈ L, g.symbols.Transcribes ids string
  written : ∀ string ∈ L, ∃ ids, g.symbols.Transcribes ids string

theorem Yields.exists_transcribes (hg : g.Sound) {ids : List TerminalId} (hy : g.Yields form ids)
    (hk : ∀ id, .terminal id ∈ form → g.symbols.Knows (.terminal id)) :
    ∃ string, g.symbols.Transcribes ids string := by
  induction hy
  case nil => exact ⟨[], rfl⟩
  case terminal id _ _ _ ih =>
    have ⟨string, hs⟩ := ih fun i hm => hk i (List.mem_cons_of_mem _ hm)
    have ht := List.getElem?_eq_getElem (hk id List.mem_cons_self)
    exact ⟨_, SymbolTable.transcribes_append_iff.mpr ⟨_, string, rfl,
      SymbolTable.transcribes_singleton_iff.mpr ⟨_, ht, rfl⟩, hs⟩⟩
  case nonterminal mem _ _ ihp ihr =>
    have ⟨x, hx⟩ := ihp fun i hm => hg.known mem hm
    have ⟨y, hy⟩ := ihr fun i hm => hk i (List.mem_cons_of_mem _ hm)
    exact ⟨x ++ y, SymbolTable.transcribes_append_iff.mpr ⟨x, y, rfl, hx, hy⟩⟩

theorem generates_formLanguage (hg : g.Sound) (id : NonterminalId) :
    g.Generates id (g.formLanguage [.nonterminal id]) where
  derives ids := by
    rw [derives_iff_yields]
    constructor
    case mp =>
      intro hy
      have ⟨string, hs⟩ := hy.exists_transcribes hg (by simp)
      exact ⟨string, ⟨ids, hs, hy⟩, hs⟩
    case mpr =>
      rintro ⟨string, ⟨ids', hs', hy⟩, hs⟩
      exact hg.symbols.transcribes_injective hs hs' ▸ hy
  written := fun _ ⟨ids, hs, _⟩ => ⟨ids, hs⟩

end Grammar
end LineGrammar
