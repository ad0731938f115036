import LineGrammar.Proofs.Reachability
import LineGrammar.Proofs.Steps
import Mathlib.Data.List.Sort

/-!
What the check of reachability reports. It passes a grammar if references lead from the root to each
nonterminal, and otherwise names those to which none lead.
-/

namespace LineGrammar.Grammar

variable {g : Grammar} {id other : NonterminalId} {ids : List NonterminalId}

def Refers (g : Grammar) (id other : NonterminalId) : Prop :=
  ∃ production ∈ g.productionsOf id, .nonterminal other ∈ production.symbols

def InReach (g : Grammar) : NonterminalId → Prop :=
  Relation.ReflTransGen g.Refers g.root

structure IsStranded (g : Grammar) (ids : List NonterminalId) : Prop where
  mem     : ∀ id, id ∈ ids ↔ id < g.nonterminalCount ∧ ¬g.InReach id
  ordered : ids.Pairwise (· < ·)

theorem inReach_iff_reachable : g.InReach id ↔ g.Reachable id := by
  have hrefers : g.Refers = fun id other => other ∈ g.occurrences id := by
    funext id other
    exact propext mem_occurrences_iff.symm
  rw [InReach, Reachable, hrefers]

theorem isStranded_unreached (h : g.Sound) : g.IsStranded g.unreached where
  mem _   := (mem_unreached_iff h).trans (and_congr_right' (not_congr inReach_iff_reachable.symm))
  ordered := List.pairwise_lt_range.filter _

theorem IsStranded.unique {ids' : List NonterminalId} (h : g.IsStranded ids) (h' : g.IsStranded ids') :
    ids = ids' :=
  h.ordered.eq_of_mem_iff h'.ordered fun id => (h.mem id).trans (h'.mem id).symm

theorem IsStranded.nodup_names (h : g.IsStranded ids) (hg : g.Sound) :
    (ids.map g.symbols.nonterminalName).Nodup :=
  hg.symbols.nodup_map_nonterminalName (h.ordered.imp Nat.ne_of_lt) fun id hm =>
    ((h.mem id).mp hm).left

def Secluded (g : Grammar) (group : NonterminalId → Prop) : Prop :=
  ∀ id other, g.Refers id other → group other → group id

-- References among the members of a group do not bring them into reach.
theorem Secluded.not_inReach {group : NonterminalId → Prop} (h : g.Secluded group) (hroot : ¬group g.root)
    (hm : group id) : ¬g.InReach id := by
  intro hr
  induction hr
  case refl            => exact hroot hm
  case tail hrefers ih => exact ih (h _ _ hrefers hm)

variable {file : Option String} {lines : List (Option (List Char))}

theorem checkReachability_exact (h : ofLines file lines = .ok g) :
    (∀ id, (g.walk g.walkStart).Marks id ↔ g.InReach id) ∧
      (g.checkReachability = .ok () ↔ ∀ id < g.nonterminalCount, g.InReach id) ∧
      (∀ error, g.checkReachability = .error error ↔ ∃ ids, g.IsStranded ids ∧ ids ≠ [] ∧
        error = ⟨⟨file, 0⟩, .unreachable (ids.map g.symbols.nonterminalName)⟩) ∧
      (∀ ids, g.IsStranded ids → (ids.map g.symbols.nonterminalName).Nodup ∧
        ∀ group, g.Secluded group → ¬group g.root → ∀ id < g.nonterminalCount, group id → id ∈ ids) := by
  have hg := sound_of_ofLines h
  refine ⟨fun id => ?marks, ?ok, ?error, ?names⟩
  case marks => exact (marks_walk_iff hg).trans inReach_iff_reachable.symm
  case ok    => simp only [checkReachability_eq_ok_iff hg, inReach_iff_reachable]
  case error =>
    intro error
    rw [checkReachability_eq_error_iff, file_of_ofLines h]
    constructor
    · exact fun ⟨hne, he⟩ => ⟨g.unreached, isStranded_unreached hg, hne, he⟩
    · rintro ⟨ids, hids, hne, he⟩
      obtain rfl := hids.unique (isStranded_unreached hg)
      exact ⟨hne, he⟩
  case names =>
    intro ids hids
    refine ⟨hids.nodup_names hg, fun group hgroup hroot id hlt hm => ?_⟩
    exact (hids.mem id).mpr ⟨hlt, hgroup.not_inReach hroot hm⟩

-- `B` and `C` only refer to each other and `D` refers to itself, so they are out of reach with all that
-- is used by them alone. The helper of `A` and the missing nonterminal are not.
theorem isStranded_of_cycles :
    ∃ g, ofLines none (["S → A* x", "A → a Missing", "B → C b", "C → B | D b", "D → D d* | Lost x"].map
        (some ·.toList)) = .ok g ∧
      (∃ ids, g.IsStranded ids ∧
        ids.map g.symbols.nonterminalName = ["B", "C", "D", "d*", "Lost"]) ∧
      ∃ id, g.symbols.nonterminalNamed? "A*" = some id ∧ g.InReach id := by
  obtain ⟨g, hg, hcheck, hfound, hmarks⟩ : ∃ g,
      ofLines none (["S → A* x", "A → a Missing", "B → C b", "C → B | D b", "D → D d* | Lost x"].map
        (some ·.toList)) = .ok g ∧
      g.checkReachability = .error ⟨⟨none, 0⟩, .unreachable ["B", "C", "D", "d*", "Lost"]⟩ ∧
      g.symbols.nonterminalNamed? "A*" = some 2 ∧ (g.walk g.walkStart).marked[2]? = some true :=
    exists_of_ofLines (by decide +kernel)
  have ⟨hiff, _, herror, _⟩ := checkReachability_exact hg
  obtain ⟨ids, hids, _, he⟩ := (herror _).mp hcheck
  injection he with _ he
  injection he with hnames
  exact ⟨g, hg, ⟨ids, hids, hnames.symm⟩, 2, hfound, (hiff 2).mp hmarks⟩

end LineGrammar.Grammar
