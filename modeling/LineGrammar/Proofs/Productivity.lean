import LineGrammar.Check.Derivability
import LineGrammar.Proofs.Derivation
import LineGrammar.Proofs.Rules

/-!
The check of derivability is exact: what it leaves open are the nonterminals from which no string of
terminals can be derived.
-/

namespace LineGrammar.Grammar

variable {g : Grammar} {id : NonterminalId} {form : List Symbol} {known : List NonterminalId}

def Productive (g : Grammar) (id : NonterminalId) : Prop :=
  ∃ string, g.Yields [.nonterminal id] string

theorem exists_yields_iff :
    (∃ string, g.Yields form string) ↔ ∀ id, .nonterminal id ∈ form → g.Productive id := by
  induction form
  case nil => simpa using ⟨[], Yields.nil⟩
  case cons symbol rest ih =>
    constructor
    case mp =>
      intro ⟨_, h⟩ id hm
      obtain ⟨u, v, rfl, hu, hv⟩ := yields_cons_iff.mp h
      cases List.mem_cons.mp hm
      case inl he => exact ⟨u, he ▸ hu⟩
      case inr hm => exact ih.mp ⟨v, hv⟩ id hm
    case mpr =>
      intro h
      have ⟨v, hv⟩ := ih.mpr fun id hm => h id (List.mem_cons_of_mem _ hm)
      cases symbol
      case terminal id => exact ⟨id :: v, .terminal hv⟩
      case nonterminal id =>
        have ⟨u, hu⟩ := h id List.mem_cons_self
        exact ⟨u ++ v, hu.append hv⟩

theorem productive_iff :
    g.Productive id ↔
      ∃ production ∈ g.productionsOf id,
        ∀ other, .nonterminal other ∈ production.symbols → g.Productive other := by
  simp only [← exists_yields_iff]
  constructor
  · intro ⟨string, h⟩
    have ⟨production, mem, h⟩ := yields_nonterminal_iff.mp h
    exact ⟨production, mem, string, h⟩
  · intro ⟨production, mem, string, h⟩
    exact ⟨string, yields_nonterminal_iff.mpr ⟨production, mem, h⟩⟩

theorem derivesBy_iff {production : Production} :
    derivesBy known production ↔ ∀ id, .nonterminal id ∈ production.symbols → id ∈ known := by
  rw [derivesBy, List.all_eq_true]
  constructor
  case mp =>
    intro h id hm
    simpa using h _ hm
  case mpr =>
    intro h symbol hm
    cases symbol
    case terminal       => rfl
    case nonterminal id => simpa using h id hm

theorem hasDerivingProduction_iff :
    g.hasDerivingProduction known id ↔
      ∃ production ∈ g.productionsOf id,
        ∀ other, .nonterminal other ∈ production.symbols → other ∈ known := by
  simp [hasDerivingProduction, derivesBy_iff]

-- The invariant of the sweeps. Nothing is known too early and no nonterminal is lost, whatever order
-- the open ones are in.
structure Settles (g : Grammar) (agenda : Agenda) : Prop where
  known : ∀ id ∈ agenda.known, g.Productive id
  split : ∀ id, id < g.nonterminalCount ↔ id ∈ agenda.known ∨ id ∈ agenda.remaining

theorem productive_of_mem_sweepFrom {remaining : List NonterminalId}
    (h : ∀ id ∈ known, g.Productive id) :
    ∀ id ∈ (g.sweepFrom known remaining).known, g.Productive id := by
  induction remaining generalizing known
  case nil => exact h
  case cons id rest ih =>
    rw [sweepFrom]
    split
    case isTrue hd =>
      obtain ⟨production, mem, hs⟩ := hasDerivingProduction_iff.mp hd
      have hid : g.Productive id :=
        productive_iff.mpr ⟨production, mem, fun other hm => h other (hs other hm)⟩
      exact ih (List.forall_mem_cons.mpr ⟨hid, h⟩)
    case isFalse => exact ih h

theorem perm_sweepFrom (known remaining : List NonterminalId) :
    ((g.sweepFrom known remaining).known ++ (g.sweepFrom known remaining).remaining).Perm
      (known ++ remaining) := by
  induction remaining generalizing known
  case nil => exact .refl _
  case cons id rest ih =>
    rw [sweepFrom]
    split
    case isTrue  => exact (ih (id :: known)).trans List.perm_middle.symm
    case isFalse => exact List.perm_middle.trans (((ih known).cons id).trans List.perm_middle.symm)

theorem mem_sweepFrom_iff {remaining : List NonterminalId} :
    (id ∈ (g.sweepFrom known remaining).known ∨ id ∈ (g.sweepFrom known remaining).remaining) ↔
      id ∈ known ∨ id ∈ remaining := by
  rw [← List.mem_append, (perm_sweepFrom known remaining).mem_iff, List.mem_append]

theorem Settles.sweep {agenda : Agenda} (h : g.Settles agenda) : g.Settles (g.sweep agenda) where
  known := productive_of_mem_sweepFrom h.known
  split id := (h.split id).trans mem_sweepFrom_iff.symm

-- A sweep that has moved nothing has found nothing to move.
theorem sweepFrom_stalled {remaining : List NonterminalId}
    (h : (g.sweepFrom known remaining).remaining.length = remaining.length) :
    (g.sweepFrom known remaining).known = known ∧
      ∀ id ∈ (g.sweepFrom known remaining).remaining, ¬g.hasDerivingProduction known id := by
  induction remaining
  case nil => simp [sweepFrom]
  case cons first rest ih =>
    rw [sweepFrom] at h ⊢
    split at h
    case isTrue =>
      have := g.sweepFrom_remaining_length_le (first :: known) rest
      simp only [List.length_cons] at h
      omega
    case isFalse hd =>
      obtain ⟨hk, hr⟩ := ih (by simpa using h)
      rw [if_neg hd]
      exact ⟨hk, List.forall_mem_cons.mpr ⟨hd, hr⟩⟩

-- The last sweep leaves nothing behind that could still be moved.
theorem closed_sweep {agenda : Agenda}
    (h : (g.sweep agenda).remaining = [] ∨
      (g.sweep agenda).remaining.length = agenda.remaining.length) :
    ∀ id ∈ (g.sweep agenda).remaining, ¬g.hasDerivingProduction (g.sweep agenda).known id := by
  cases h
  case inl hnil => simp [hnil]
  case inr hlen =>
    have ⟨hk, hr⟩ := sweepFrom_stalled hlen
    rw [sweep, hk]
    exact hr

theorem settle_spec {agenda : Agenda} (h : g.Settles agenda) :
    g.Settles (g.settle agenda) ∧
      ∀ id ∈ (g.settle agenda).remaining, ¬g.hasDerivingProduction (g.settle agenda).known id := by
  induction agenda using settle.induct g
  case case1 agenda swept hstop =>
    rw [settle, if_pos hstop]
    exact ⟨h.sweep, closed_sweep hstop⟩
  case case2 agenda swept hgo ih =>
    rw [settle, if_neg hgo]
    exact ih h.sweep

theorem Settles.mem_known {agenda : Agenda} (h : g.Settles agenda) (hg : g.Sound)
    (hr : ∀ id ∈ agenda.remaining, ¬g.hasDerivingProduction agenda.known id)
    {string : List TerminalId} (hy : g.Yields form string) :
    ∀ id, .nonterminal id ∈ form → id ∈ agenda.known := by
  induction hy
  case nil => simp
  case terminal ih => simpa using ih
  case nonterminal head production _ _ _ mem _ _ hs ht =>
    have hd := hasDerivingProduction_iff.mpr ⟨production, mem, hs⟩
    -- If it were open, it would have a production of which all nonterminals are known.
    have hhead : head ∈ agenda.known := by
      cases (h.split head).mp (hg.lt_nonterminalCount mem)
      case inl hk => exact hk
      case inr ho => exact absurd hd (hr head ho)
    intro id hm
    cases List.mem_cons.mp hm
    case inl he => cases he; exact hhead
    case inr hm => exact ht id hm

theorem Settles.mem_known_iff {agenda : Agenda} (h : g.Settles agenda) (hg : g.Sound)
    (hr : ∀ id ∈ agenda.remaining, ¬g.hasDerivingProduction agenda.known id) :
    id ∈ agenda.known ↔ g.Productive id where
  mp  := h.known id
  mpr := fun ⟨_, hy⟩ => h.mem_known hg hr hy id List.mem_cons_self

theorem settles_start (g : Grammar) : g.Settles ⟨[], g.nonterminalIds⟩ :=
  ⟨by simp, by simp [nonterminalIds]⟩

theorem mem_underivable_iff (h : g.Sound) :
    id ∈ g.underivable ↔ id < g.nonterminalCount ∧ ¬g.Productive id := by
  have ⟨hs, hr⟩ := settle_spec (settles_start g)
  constructor
  case mp =>
    intro hid
    refine ⟨(hs.split id).mpr (.inr hid), fun hp => hr id hid ?_⟩
    have ⟨production, mem, hall⟩ := productive_iff.mp hp
    refine hasDerivingProduction_iff.mpr ⟨production, mem, fun other hm => ?_⟩
    exact (hs.mem_known_iff h hr).mpr (hall other hm)
  case mpr =>
    intro ⟨hlt, hp⟩
    cases (hs.split id).mp hlt
    case inl hk => exact absurd (hs.known id hk) hp
    case inr ho => exact ho

theorem sublist_sweepFrom (known remaining : List NonterminalId) :
    (g.sweepFrom known remaining).remaining.Sublist remaining := by
  induction remaining generalizing known
  case nil => exact .refl []
  case cons id rest ih =>
    rw [sweepFrom]
    split
    case isTrue  => exact (ih (id :: known)).cons id
    case isFalse => exact (ih known).cons_cons id

theorem sublist_settle (agenda : Agenda) :
    (g.settle agenda).remaining.Sublist agenda.remaining := by
  induction agenda using settle.induct g
  case case1 agenda swept hstop =>
    rw [settle, if_pos hstop]
    exact sublist_sweepFrom _ _
  case case2 agenda swept hgo ih =>
    rw [settle, if_neg hgo]
    exact ih.trans (sublist_sweepFrom _ _)

theorem pairwise_underivable : g.underivable.Pairwise (· < ·) :=
  List.pairwise_lt_range.sublist (sublist_settle _)

theorem checkDerivability_eq_ok_iff_nil : g.checkDerivability = .ok () ↔ g.underivable = [] := by
  unfold checkDerivability
  split <;> simp_all

theorem checkDerivability_eq_error_iff {error : GrammarError} :
    g.checkDerivability = .error error ↔ g.underivable ≠ [] ∧
      error = ⟨⟨g.file, 0⟩, .nonDerivable (g.underivable.map g.symbols.nonterminalName)⟩ := by
  unfold checkDerivability
  split
  case isTrue h => simp [List.isEmpty_iff.mp h]
  case isFalse h =>
    rw [List.isEmpty_iff] at h
    simp only [Except.error.injEq, eq_comm (b := error), ne_eq, h, not_false_eq_true, true_and]

theorem checkDerivability_eq_ok_iff (h : g.Sound) :
    g.checkDerivability = .ok () ↔ ∀ id < g.nonterminalCount, g.Productive id := by
  rw [checkDerivability_eq_ok_iff_nil, List.eq_nil_iff_forall_not_mem]
  simp only [mem_underivable_iff h, not_and, not_not]

end LineGrammar.Grammar
