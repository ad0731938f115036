import LineGrammar.Proofs.Derivability
import LineGrammar.Proofs.Trees
import Mathlib.Data.Nat.Find

/-!
How the sweeps of the check of derivability proceed. There are no more of them than there are nonterminals,
and after some number of sweeps at least those nonterminals are known that have a derivation tree of that
height. In which order the sweeps look at what is open makes no difference in the end.
-/

namespace LineGrammar

def Agenda.IsFinal (old new : Agenda) : Prop :=
  new.remaining = [] ∨ new.remaining.length = old.remaining.length

structure EndsWith (agendas : Nat → Agenda) (last : Nat) : Prop where
  final : (agendas last).IsFinal (agendas (last + 1))
  least : ∀ k < last, ¬(agendas k).IsFinal (agendas (k + 1))

instance (old new : Agenda) : Decidable (old.IsFinal new) :=
  inferInstanceAs (Decidable (_ ∨ _))

instance (agendas : Nat → Agenda) (last : Nat) : Decidable (EndsWith agendas last) :=
  decidable_of_iff ((agendas last).IsFinal (agendas (last + 1)) ∧
    ∀ k < last, ¬(agendas k).IsFinal (agendas (k + 1))) ⟨fun h => ⟨h.1, h.2⟩, fun h => ⟨h.1, h.2⟩⟩

namespace Grammar

-- The agenda after a number of sweeps, which may go on after the last one.
def agendaAfter (g : Grammar) : Nat → Agenda
  | 0          => ⟨[], g.nonterminalIds⟩
  | sweeps + 1 => g.sweep (g.agendaAfter sweeps)

def midSweep (g : Grammar) (known front back : List NonterminalId) : Agenda :=
  ⟨(g.sweepFrom known front).known, (g.sweepFrom known front).remaining ++ back⟩

structure Splits (g : Grammar) (agenda : Agenda) : Prop where
  perm    : (agenda.known ++ agenda.remaining).Perm g.nonterminalIds
  ordered : agenda.remaining.Pairwise (· < ·)

-- Sweeps before each of which what is open may be put into another order. What they find in the end
-- does not depend on it.
structure SweepsThrough (g : Grammar) (agendas : Nat → Agenda) : Prop where
  start : agendas 0 = ⟨[], g.nonterminalIds⟩
  next  : ∀ k, ∃ order : List NonterminalId, order.Perm (agendas k).remaining ∧
    agendas (k + 1) = g.sweep ⟨(agendas k).known, order⟩

-- There are at most as many sweeps as nonterminals, and at each of their moments all nonterminals are known or
-- open. What a sweep looks at is moved out by what is known by then, so it may also find nonterminals whose
-- trees are all higher than the number of the sweeps, but none that has no tree.
structure SettlesByHeight (g : Grammar) : Prop where
  ends       : ∃ last, EndsWith g.agendaAfter last ∧ last + 1 ≤ max g.nonterminalCount 1 ∧
    g.settle ⟨[], g.nonterminalIds⟩ = g.agendaAfter (last + 1)
  splits     : ∀ sweeps front back, (g.agendaAfter sweeps).remaining = front ++ back →
    g.Splits (g.midSweep (g.agendaAfter sweeps).known front back)
  looks      : ∀ sweeps front id back, (g.agendaAfter sweeps).remaining = front ++ id :: back →
    (id ∈ (g.agendaAfter (sweeps + 1)).known ↔
      g.hasDerivingProduction (g.midSweep (g.agendaAfter sweeps).known front (id :: back)).known id)
  ranked     : ∀ sweeps id (tree : g.Tree id), tree.height ≤ sweeps → id ∈ (g.agendaAfter sweeps).known
  productive : ∀ sweeps, ∀ id ∈ (g.agendaAfter sweeps).known,
    ∃ tree : g.Tree id, g.Derives [.nonterminal id] (tree.frontier.map .terminal)
  anyOrder   : ∀ agendas, g.SweepsThrough agendas →
    ∃ last, EndsWith agendas last ∧ last + 1 ≤ max g.nonterminalCount 1 ∧
      ∀ id, id ∈ (agendas (last + 1)).known ↔ id ∈ (g.settle ⟨[], g.nonterminalIds⟩).known

variable {g : Grammar} {agenda : Agenda} {agendas : Nat → Agenda} {id : NonterminalId} {k last : Nat}
variable {known known' remaining front back : List NonterminalId}

theorem exists_tree_of_productive (h : g.Productive id) :
    ∃ tree : g.Tree id, g.Derives [.nonterminal id] (tree.frontier.map .terminal) := by
  obtain ⟨string, hd⟩ := derivesString_iff.mpr h
  obtain ⟨tree, rfl⟩ := derives_iff_exists_forest.mp hd
  exact ⟨tree, hd⟩

theorem hasDerivingProduction_mono (h : known ⊆ known') (hd : g.hasDerivingProduction known id) :
    g.hasDerivingProduction known' id := by
  have ⟨production, mem, hs⟩ := hasDerivingProduction_iff.mp hd
  exact hasDerivingProduction_iff.mpr ⟨production, mem, fun other hm => h (hs other hm)⟩

theorem subset_known_sweepFrom (known remaining : List NonterminalId) :
    known ⊆ (g.sweepFrom known remaining).known := by
  induction remaining generalizing known
  case nil => exact List.Subset.refl known
  case cons id rest ih =>
    rw [sweepFrom]
    split
    case isTrue  => exact List.Subset.trans (List.subset_cons_self id known) (ih (id :: known))
    case isFalse => exact ih known

theorem mem_known_sweepFrom (hm : id ∈ remaining) (hd : g.hasDerivingProduction known id) :
    id ∈ (g.sweepFrom known remaining).known := by
  induction remaining generalizing known
  case nil => cases hm
  case cons first rest ih =>
    rw [sweepFrom]
    cases List.mem_cons.mp hm
    case inl he =>
      subst he
      rw [if_pos hd]
      exact subset_known_sweepFrom (id :: known) rest List.mem_cons_self
    case inr hm =>
      split
      case isTrue  => exact ih hm (hasDerivingProduction_mono (List.subset_cons_self first known) hd)
      case isFalse => exact ih hm hd

theorem sweepFrom_append (known front back : List NonterminalId) :
    g.sweepFrom known (front ++ back) =
      ⟨(g.sweepFrom (g.sweepFrom known front).known back).known,
        (g.sweepFrom known front).remaining ++
          (g.sweepFrom (g.sweepFrom known front).known back).remaining⟩ := by
  induction front generalizing known
  case nil => rfl
  case cons id rest ih =>
    rw [List.cons_append, sweepFrom, sweepFrom]
    split
    case isTrue => exact ih (id :: known)
    case isFalse =>
      rw [ih known]
      rfl

theorem midSweep_remaining (agenda : Agenda) :
    g.midSweep agenda.known agenda.remaining [] = g.sweep agenda := by
  rw [midSweep, List.append_nil]
  rfl

namespace Splits

theorem start (g : Grammar) : g.Splits ⟨[], g.nonterminalIds⟩ where
  perm    := .refl _
  ordered := List.pairwise_lt_range

theorem midSweep (h : g.Splits agenda) (he : agenda.remaining = front ++ back) :
    g.Splits (g.midSweep agenda.known front back) where
  perm := by
    have hfront := (perm_sweepFrom (g := g) agenda.known front).append_right back
    rw [List.append_assoc, List.append_assoc, ← he] at hfront
    exact hfront.trans h.perm
  ordered := (he ▸ h.ordered).sublist ((sublist_sweepFrom _ _).append_right back)

theorem sweep (h : g.Splits agenda) : g.Splits (g.sweep agenda) :=
  midSweep_remaining agenda ▸ h.midSweep (List.append_nil _).symm

theorem not_mem_known (h : g.Splits agenda) (hm : id ∈ agenda.remaining) : id ∉ agenda.known := by
  have hnodup : (agenda.known ++ agenda.remaining).Nodup := h.perm.nodup_iff.mpr List.nodup_range
  exact fun hk => List.disjoint_of_nodup_append hnodup hk hm

end Splits

theorem splits_agendaAfter (g : Grammar) (sweeps : Nat) : g.Splits (g.agendaAfter sweeps) := by
  induction sweeps
  case zero      => exact .start g
  case succ _ ih => exact ih.sweep

-- What a sweep looks at is moved out if it can be found by what is known at that moment.
theorem Splits.mem_known_sweep_iff (h : g.Splits agenda) (he : agenda.remaining = front ++ id :: back) :
    id ∈ (g.sweep agenda).known ↔
      g.hasDerivingProduction (g.midSweep agenda.known front (id :: back)).known id := by
  have happ : g.sweep agenda = _ := he ▸ sweepFrom_append agenda.known front (id :: back)
  change _ ↔ g.hasDerivingProduction (g.sweepFrom agenda.known front).known id
  constructor
  case mpr =>
    intro hd
    rw [happ]
    exact mem_known_sweepFrom List.mem_cons_self hd
  case mp =>
    intro hk
    by_contra hd
    refine h.sweep.not_mem_known ?_ hk
    rw [happ, sweepFrom, if_neg hd]
    exact List.mem_append_right _ List.mem_cons_self

theorem sweepsThrough_agendaAfter (g : Grammar) : g.SweepsThrough g.agendaAfter where
  start  := rfl
  next _ := ⟨_, .refl _, rfl⟩

namespace SweepsThrough

theorem settles (h : g.SweepsThrough agendas) (k : Nat) : g.Settles (agendas k) := by
  induction k
  case zero => exact h.start ▸ settles_start g
  case succ k ih =>
    obtain ⟨order, hp, he⟩ := h.next k
    have hs : g.Settles ⟨(agendas k).known, order⟩ :=
      ⟨ih.known, fun id => (ih.split id).trans (or_congr_right hp.mem_iff.symm)⟩
    exact he ▸ hs.sweep

theorem length_le (h : g.SweepsThrough agendas) (k : Nat) :
    (agendas (k + 1)).remaining.length ≤ (agendas k).remaining.length := by
  obtain ⟨order, hp, he⟩ := h.next k
  rw [he, ← hp.length_eq]
  exact g.sweepFrom_remaining_length_le _ _

-- Each sweep that is not the last one moves something out.
theorem length_add_le (h : g.SweepsThrough agendas)
    (hgo : ∀ j < k, ¬(agendas j).IsFinal (agendas (j + 1))) :
    (agendas k).remaining.length + k ≤ g.nonterminalCount := by
  induction k
  case zero => simp [h.start, nonterminalIds]
  case succ k ih =>
    have hbefore := ih fun j hj => hgo j (Nat.lt_succ_of_lt hj)
    have hle := h.length_le k
    have hne := (not_or.mp (hgo k k.lt_succ_self)).right
    omega

theorem exists_isFinal (h : g.SweepsThrough agendas) :
    ∃ k < max g.nonterminalCount 1, (agendas k).IsFinal (agendas (k + 1)) := by
  by_contra hno
  simp only [not_exists, not_and] at hno
  have hle := h.length_add_le hno
  have hne := (not_or.mp (hno (max g.nonterminalCount 1 - 1) (by omega))).left
  rw [Nat.sub_add_cancel (Nat.le_max_right _ 1), ← List.length_eq_zero_iff] at hne
  omega

theorem exists_endsWith (h : g.SweepsThrough agendas) :
    ∃ last, EndsWith agendas last ∧ last + 1 ≤ max g.nonterminalCount 1 := by
  classical
  have hex := h.exists_isFinal
  have ⟨hlt, hfinal⟩ := Nat.find_spec hex
  exact ⟨Nat.find hex, ⟨hfinal, fun k hk hf => Nat.find_min hex hk ⟨hk.trans hlt, hf⟩⟩, hlt⟩

theorem mem_known_succ (h : g.SweepsThrough agendas) (hlt : id < g.nonterminalCount)
    (hd : g.hasDerivingProduction (agendas k).known id) : id ∈ (agendas (k + 1)).known := by
  obtain ⟨order, hp, he⟩ := h.next k
  rw [he]
  cases ((h.settles k).split id).mp hlt
  case inl hk => exact subset_known_sweepFrom _ _ hk
  case inr ho => exact mem_known_sweepFrom (hp.mem_iff.mpr ho) hd

theorem mem_known_of_height_le (h : g.SweepsThrough agendas) (hg : g.Sound) {form : List Symbol}
    (forest : g.Forest form) (hk : forest.height ≤ k) :
    ∀ id, .nonterminal id ∈ form → id ∈ (agendas k).known := by
  induction forest generalizing k
  case nil         => simp
  case terminal ih => simpa using ih hk
  case nonterminal mem _ _ hchildren htail =>
    have ⟨hlow, hrest⟩ := Nat.max_le.mp hk
    intro id hm
    cases List.mem_cons.mp hm
    case inr hm => exact htail hrest id hm
    case inl he =>
      -- The subtrees are lower than the tree, so what is in them is found a sweep earlier.
      cases he
      obtain ⟨k, rfl⟩ := Nat.exists_eq_succ_of_ne_zero (Nat.ne_zero_of_lt hlow)
      have hd := hasDerivingProduction_iff.mpr ⟨_, mem, hchildren (Nat.le_of_succ_le_succ hlow)⟩
      exact h.mem_known_succ (hg.lt_nonterminalCount mem) hd

theorem mem_known_iff (h : g.SweepsThrough agendas) (hg : g.Sound) (hlast : EndsWith agendas last) :
    id ∈ (agendas (last + 1)).known ↔ g.Productive id := by
  refine (h.settles (last + 1)).mem_known_iff hg ?_
  have hfinal := hlast.final
  obtain ⟨order, hp, he⟩ := h.next last
  rw [he] at hfinal ⊢
  exact closed_sweep (hfinal.imp_right fun hlen => hlen.trans hp.length_eq.symm)

end SweepsThrough

theorem settle_of_isFinal (h : agenda.IsFinal (g.sweep agenda)) : g.settle agenda = g.sweep agenda := by
  rw [settle]
  exact if_pos h

theorem settle_of_not_isFinal (h : ¬agenda.IsFinal (g.sweep agenda)) :
    g.settle agenda = g.settle (g.sweep agenda) := by
  rw [settle]
  exact if_neg h

theorem settle_eq_of_endsWith (h : EndsWith agendas last)
    (hnext : ∀ k, agendas (k + 1) = g.sweep (agendas k)) :
    g.settle (agendas 0) = agendas (last + 1) := by
  induction last generalizing agendas
  case zero =>
    have hfinal := h.final
    rw [hnext] at hfinal ⊢
    exact settle_of_isFinal hfinal
  case succ last ih =>
    have hgo := h.least 0 last.succ_pos
    have hlater : EndsWith (fun k => agendas (k + 1)) last :=
      ⟨h.final, fun k hk => h.least (k + 1) (Nat.succ_lt_succ hk)⟩
    rw [hnext] at hgo
    rw [settle_of_not_isFinal hgo, ← hnext]
    exact ih hlater fun k => hnext (k + 1)

theorem exists_settle_eq (g : Grammar) :
    ∃ last, EndsWith g.agendaAfter last ∧ last + 1 ≤ max g.nonterminalCount 1 ∧
      g.settle ⟨[], g.nonterminalIds⟩ = g.agendaAfter (last + 1) := by
  have ⟨last, hlast, hle⟩ := (sweepsThrough_agendaAfter g).exists_endsWith
  exact ⟨last, hlast, hle, settle_eq_of_endsWith hlast fun _ => rfl⟩

theorem mem_known_settle_iff (hg : g.Sound) :
    id ∈ (g.settle ⟨[], g.nonterminalIds⟩).known ↔ g.Productive id := by
  have ⟨hs, hr⟩ := settle_spec (settles_start g)
  exact hs.mem_known_iff hg hr

variable {file : Option String} {lines : List (Option (List Char))}

theorem settlesByHeight_of_ofLines (h : ofLines file lines = .ok g) : g.SettlesByHeight where
  ends                  := exists_settle_eq g
  splits sweeps _ _ he  := (splits_agendaAfter g sweeps).midSweep he
  looks sweeps _ _ _ he := (splits_agendaAfter g sweeps).mem_known_sweep_iff he
  ranked _ id tree hk   :=
    (sweepsThrough_agendaAfter g).mem_known_of_height_le (sound_of_ofLines h) tree hk id List.mem_cons_self
  productive sweeps id hm :=
    exists_tree_of_productive (((sweepsThrough_agendaAfter g).settles sweeps).known id hm)
  anyOrder agendas hrun := by
    have hg := sound_of_ofLines h
    have ⟨last, hlast, hle⟩ := hrun.exists_endsWith
    refine ⟨last, hlast, hle, fun id => ?_⟩
    rw [hrun.mem_known_iff hg hlast, mem_known_settle_iff hg]

-- The first sweep finds `C` and then, by it, also `D`, whose trees are all higher. `B` and `A` take one
-- more sweep each.
theorem settlesByHeight_of_chain :
    ∃ g, ofLines none (["A → B", "B → C", "C → 'end' | A", "D → C | D a"].map (some ·.toList)) = .ok g ∧
      g.SettlesByHeight ∧ EndsWith g.agendaAfter 2 ∧
      ∃ id, g.symbols.nonterminalNamed? "D" = some id ∧ id ∈ (g.agendaAfter 1).known ∧
        ∀ tree : g.Tree id, 1 < tree.height := by
  obtain ⟨g, hg, hends, hfound, hknown, hsymbols⟩ : ∃ g,
      ofLines none (["A → B", "B → C", "C → 'end' | A", "D → C | D a"].map (some ·.toList)) = .ok g ∧
      EndsWith g.agendaAfter 2 ∧ g.symbols.nonterminalNamed? "D" = some 3 ∧
      3 ∈ (g.agendaAfter 1).known ∧ ∀ production ∈ g.productionsOf 3, production.nonterminals ≠ [] :=
    exists_of_ofLines (by decide +kernel)
  exact ⟨g, hg, settlesByHeight_of_ofLines hg, hends, 3, hfound, hknown, Forest.one_lt_height hsymbols⟩

end Grammar
end LineGrammar
