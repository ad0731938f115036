import LineGrammar.Proofs.Productivity
import LineGrammar.Proofs.Steps
import Mathlib.Data.List.Sort

/-!
What the check of derivability reports. It passes a grammar if each nonterminal derives a string of
terminals, and otherwise names those that derive none.
-/

namespace LineGrammar.Grammar

variable {g : Grammar} {id : NonterminalId} {n : Nonterminal} {ids : List NonterminalId}

-- The string may be empty.
def DerivesString (g : Grammar) (id : NonterminalId) : Prop :=
  ∃ string : List TerminalId, g.Derives [.nonterminal id] (string.map .terminal)

structure IsBarren (g : Grammar) (ids : List NonterminalId) : Prop where
  mem     : ∀ id, id ∈ ids ↔ id < g.nonterminalCount ∧ ¬g.DerivesString id
  ordered : ids.Pairwise (· < ·)

theorem derivesString_iff : g.DerivesString id ↔ g.Productive id := by
  simp only [DerivesString, Productive, derives_iff_yields]

theorem isBarren_underivable (h : g.Sound) : g.IsBarren g.underivable where
  mem _   := (mem_underivable_iff h).trans (and_congr_right' (not_congr derivesString_iff.symm))
  ordered := pairwise_underivable

theorem IsBarren.unique {ids' : List NonterminalId} (h : g.IsBarren ids) (h' : g.IsBarren ids') :
    ids = ids' :=
  h.ordered.eq_of_mem_iff h'.ordered fun id => (h.mem id).trans (h'.mem id).symm

theorem IsBarren.nodup_names (h : g.IsBarren ids) (hg : g.Sound) :
    (ids.map g.symbols.nonterminalName).Nodup :=
  hg.symbols.nodup_map_nonterminalName (h.ordered.imp Nat.ne_of_lt) fun id hm =>
    ((h.mem id).mp hm).left

theorem IsBarren.mem_of_productionsOf_eq_nil (h : g.IsBarren ids) (hlt : id < g.nonterminalCount)
    (hp : g.productionsOf id = []) : id ∈ ids := by
  refine (h.mem id).mpr ⟨hlt, fun hd => ?_⟩
  have ⟨production, mem, _⟩ := productive_iff.mp (derivesString_iff.mp hd)
  simp [hp] at mem

theorem Sound.productionsOf_eq_nil_of_undefined (h : g.Sound)
    (hn : g.symbols.nonterminals[id]? = some n) (hd : n.defined = false) : g.productionsOf id = [] := by
  refine Rules.productionsOf_eq_nil fun hhead => ?_
  have ⟨m, hm, hdef⟩ := h.rules.defined.mp hhead
  cases hn.symm.trans hm
  simp [hd] at hdef

variable {file : Option String} {lines : List (Option (List Char))}

theorem checkDerivability_exact (h : ofLines file lines = .ok g) :
    g.IsBarren (g.settle ⟨[], g.nonterminalIds⟩).remaining ∧
      (g.checkDerivability = .ok () ↔ ∀ id < g.nonterminalCount, g.DerivesString id) ∧
      (∀ error, g.checkDerivability = .error error ↔ ∃ ids, g.IsBarren ids ∧ ids ≠ [] ∧
        error = ⟨⟨file, 0⟩, .nonDerivable (ids.map g.symbols.nonterminalName)⟩) ∧
      (∀ ids, g.IsBarren ids → (ids.map g.symbols.nonterminalName).Nodup ∧
        ∀ (id : NonterminalId) (n : Nonterminal), g.symbols.nonterminals[id]? = some n →
          n.defined = false ∨ g.productionsOf id = [] → id ∈ ids) := by
  have hg := sound_of_ofLines h
  refine ⟨isBarren_underivable hg, ?ok, ?error, ?names⟩
  case ok => simp only [checkDerivability_eq_ok_iff hg, derivesString_iff]
  case error =>
    intro error
    rw [checkDerivability_eq_error_iff, file_of_ofLines h]
    constructor
    · exact fun ⟨hne, he⟩ => ⟨g.underivable, isBarren_underivable hg, hne, he⟩
    · rintro ⟨ids, hids, hne, he⟩
      obtain rfl := hids.unique (isBarren_underivable hg)
      exact ⟨hne, he⟩
  case names =>
    intro ids hids
    refine ⟨hids.nodup_names hg, fun id n hn hor => ?_⟩
    have hlt : id < g.nonterminalCount := lt_length_of_getElem? hn
    cases hor
    case inl hd => exact hids.mem_of_productionsOf_eq_nil hlt (hg.productionsOf_eq_nil_of_undefined hn hd)
    case inr hp => exact hids.mem_of_productionsOf_eq_nil hlt hp

-- `B` and `C` only derive each other or what has no rule, `E` has a rule without productions, and
-- what needs one of them is stuck too.
theorem isBarren_of_stuck_rules :
    ∃ g, ofLines none (["S → A b | D K", "A → A a", "D → x B | E", "B → C+", "C → B | Missing", "E",
        "K → S | 0", "| k"].map (some ·.toList)) = .ok g ∧
      (∃ ids, g.IsBarren ids ∧
        ids.map g.symbols.nonterminalName = ["S", "A", "D", "B", "E", "C", "C+", "Missing"]) ∧
      ∃ id, g.symbols.nonterminalNamed? "K" = some id ∧ g.DerivesString id := by
  obtain ⟨g, hg, hcheck, hK, hfound⟩ : ∃ g,
      ofLines none (["S → A b | D K", "A → A a", "D → x B | E", "B → C+", "C → B | Missing", "E",
        "K → S | 0", "| k"].map (some ·.toList)) = .ok g ∧
      g.checkDerivability =
        .error ⟨⟨none, 0⟩, .nonDerivable ["S", "A", "D", "B", "E", "C", "C+", "Missing"]⟩ ∧
      g.symbols.nonterminals[3]?.map Nonterminal.name = some "K" ∧
      g.symbols.nonterminalNamed? "K" = some 3 :=
    exists_of_ofLines (by decide +kernel)
  have ⟨_, _, herror, _⟩ := checkDerivability_exact hg
  obtain ⟨ids, hids, _, he⟩ := (herror _).mp hcheck
  injection he with _ he
  injection he with hnames
  refine ⟨g, hg, ⟨ids, hids, hnames.symm⟩, 3, hfound, ?_⟩
  by_contra hd
  obtain ⟨n, hn, hname⟩ := Option.map_eq_some_iff.mp hK
  have hm : 3 ∈ ids := (hids.mem 3).mpr ⟨lt_length_of_getElem? hn, hd⟩
  have hm := List.mem_map_of_mem (f := g.symbols.nonterminalName) hm
  simp [← hnames, SymbolTable.nonterminalName_of_getElem? hn, hname] at hm

end LineGrammar.Grammar
