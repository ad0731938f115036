import LineGrammar.Proofs.OutOfReach
import Mathlib.Data.Set.Card

/-!
How the walk of the check of reachability proceeds. It puts no nonterminal on the stack twice, so it takes
off as many of them as there are in reach, whatever cycles their productions make.
-/

namespace LineGrammar

theorem Walk.stack_visit (walk : Walk) (id : NonterminalId) :
    (walk.visit id).stack = if walk.marked[id]? = some false then id :: walk.stack else walk.stack := by
  unfold visit
  split
  case isTrue  => rfl
  case isFalse => rfl

namespace Grammar

-- The moments of the walk: what has been taken off the stack so far, the marks and the stack, and which
-- occurrences in the productions of the last one that has been taken are still ahead.
inductive Walking (g : Grammar) : List NonterminalId → Walk → List NonterminalId → Prop
  | start : Walking g [] g.walkStart []
  | take {taken rest : List NonterminalId} {marked : List Bool} {id : NonterminalId}
      (walking : Walking g taken ⟨marked, id :: rest⟩ []) :
    Walking g (taken ++ [id]) ⟨marked, rest⟩ (g.occurrences id)
  | visit {taken ahead : List NonterminalId} {walk : Walk} {id : NonterminalId}
      (walking : Walking g taken walk (id :: ahead)) : Walking g taken (walk.visit id) ahead

-- The invariant of the walk. A nonterminal is marked when it is put on the stack, so the marked ones
-- are those on the stack and those that have been taken off it, and as no list of them has a
-- duplicate, none comes back. What one that has been taken refers to is marked, unless its occurrences
-- are still being visited.
structure Frontier (g : Grammar) (taken : List NonterminalId) (walk : Walk) (ahead : List NonterminalId) :
    Prop where
  length  : walk.marked.length = g.nonterminalCount
  marks   : ∀ id, walk.Marks id ↔ id ∈ taken ++ walk.stack
  nodup   : (taken ++ walk.stack).Nodup
  closed  : ∀ id ∈ taken, ∀ other ∈ g.occurrences id,
    walk.Marks other ∨ (taken.getLast? = some id ∧ other ∈ ahead)
  pending : walk.pending + taken.length = g.nonterminalCount

variable {g : Grammar} {taken rest ahead ids : List NonterminalId} {walk : Walk} {id : NonterminalId}
variable {marked : List Bool}

namespace Frontier

theorem start (h : g.Sound) : g.Frontier [] g.walkStart [] where
  length  := by simp [walkStart]
  marks _ := by
    rw [marks_walkStart_iff h]
    simp [walkStart]
  nodup   := List.nodup_singleton g.root
  closed  := by simp
  pending := by
    have hlt : g.root < g.nonterminalCount := h.root.lt_length
    simpa [Walk.pending, walkStart, List.count_set, hlt] using
      Nat.sub_add_cancel (Nat.zero_lt_of_lt hlt)

theorem take (h : g.Frontier taken ⟨marked, id :: rest⟩ []) :
    g.Frontier (taken ++ [id]) ⟨marked, rest⟩ (g.occurrences id) where
  length  := h.length
  marks i := (h.marks i).trans (by simp)
  nodup   := by simpa using h.nodup
  closed i hm other ho := by
    cases List.mem_append.mp hm
    case inl hm =>
      cases h.closed i hm other ho
      case inl hmarks => exact .inl hmarks
      case inr hahead => cases hahead.right
    case inr hm =>
      obtain rfl := List.mem_singleton.mp hm
      exact .inr ⟨List.getLast?_concat, ho⟩
  pending := by
    have hpending := h.pending
    simp only [Walk.pending, List.length_cons, List.length_append, List.length_nil] at hpending ⊢
    omega

theorem not_mem_of_unmarked (h : g.Frontier taken walk ahead) (hf : walk.marked[id]? = some false) :
    id ∉ taken ++ walk.stack := by
  intro hm
  have hmarks : walk.marked[id]? = some true := (h.marks id).mpr hm
  simp [hf] at hmarks

theorem visit (hg : g.Sound) (h : g.Frontier taken walk (id :: ahead)) :
    g.Frontier taken (walk.visit id) ahead := by
  have hv := Walk.visits_visit walk id
  have hmono : ∀ i, walk.Marks i → (walk.visit id).Marks i := fun i hm => (hv.marks i).mpr (.inl hm)
  constructor
  case length => exact hv.length.trans h.length
  case marks =>
    intro i
    have hi := h.marks i
    have hnew := hmono i
    rw [List.mem_append] at hi
    rw [List.mem_append, hv.stack]
    tauto
  case nodup =>
    rw [Walk.stack_visit]
    split
    case isFalse => exact h.nodup
    case isTrue hf =>
      -- Only what has no mark is put on the stack, and neither the stack nor what was taken has that.
      exact List.perm_middle.nodup_iff.mpr (List.nodup_cons.mpr ⟨h.not_mem_of_unmarked hf, h.nodup⟩)
  case closed =>
    intro i hm other ho
    obtain hmarks | ⟨hlast, hahead⟩ := h.closed i hm other ho
    case inl => exact .inl (hmono other hmarks)
    case inr =>
      cases List.mem_cons.mp hahead
      case inr hahead => exact .inr ⟨hlast, hahead⟩
      case inl he =>
        have hlt : other < walk.marked.length := h.length ▸ (hg.knows_of_mem_occurrences ho).lt_length
        exact .inl ((hv.marks other).mpr (.inr ⟨List.mem_singleton.mpr he, hlt⟩))
  case pending => exact (congrArg (· + taken.length) (walk.pending_visit id)).trans h.pending

end Frontier

-- Taking and visiting keep the frontier, so all moments have it.
theorem Walking.frontier (hg : g.Sound) (h : g.Walking taken walk ahead) : g.Frontier taken walk ahead := by
  induction h
  case start    => exact .start hg
  case take ih  => exact ih.take
  case visit ih => exact ih.visit hg

theorem Walking.visits (h : g.Walking taken walk ids) : g.Walking taken (ids.foldl Walk.visit walk) [] := by
  induction ids generalizing walk
  case nil          => exact h
  case cons rest ih => exact ih h.visit

theorem Walking.exists_walk (h : g.Walking taken walk []) : ∃ later, g.Walking later (g.walk walk) [] := by
  induction walk using Grammar.walk.induct g generalizing taken
  case case1 marked =>
    rw [Grammar.walk]
    exact ⟨taken, h⟩
  case case2 marked id rest ih =>
    rw [Grammar.walk]
    exact ih h.take.visits

theorem Walking.walk_eq (h : g.Walking taken walk ahead) :
    g.walk (ahead.foldl Walk.visit walk) = g.walk g.walkStart := by
  induction h
  case start        => rfl
  case take ih      => rwa [List.foldl_nil, Grammar.walk] at ih
  case visit ih     => exact ih

theorem walk_of_stack_eq_nil (h : walk.stack = []) : g.walk walk = walk := by
  cases walk with | mk marked stack =>
  obtain rfl : stack = [] := h
  rw [Grammar.walk]

-- At a moment of the walk, what is marked is on the stack or has been expanded, unless it is the one that is
-- being expanded, and what has been taken off the stack is not on it any more, nor will it be put there.
structure Orderly (g : Grammar) (taken : List NonterminalId) (walk : Walk) (ahead : List NonterminalId) :
    Prop where
  nodup  : walk.stack.Nodup
  marked : ∀ id ∈ walk.stack, walk.Marks id
  closed : ∀ id, walk.Marks id → id ∉ walk.stack → taken.getLast? ≠ some id ∨ ahead = [] →
    ∀ other, g.Refers id other → walk.Marks other
  gone   : taken.Nodup ∧ ∀ id ∈ taken, id ∉ walk.stack
  pushed : ∀ id, (walk.visit id).stack ≠ walk.stack → id ∉ taken ∧ id ∉ walk.stack

structure VisitsOnce (g : Grammar) : Prop where
  orderly : ∀ taken walk ahead, g.Walking taken walk ahead → g.Orderly taken walk ahead
  ends    : (g.walk g.walkStart).stack = [] ∧ ∃ taken, g.Walking taken (g.walk g.walkStart) []
  turns   : ∀ taken walk, g.Walking taken walk [] → walk.stack = [] → walk = g.walk g.walkStart ∧
    (∀ id, id ∈ taken ↔ g.InReach id) ∧ taken.length = {id | g.InReach id}.ncard

theorem Frontier.orderly (h : g.Frontier taken walk ahead) : g.Orderly taken walk ahead where
  nodup        := (List.nodup_append.mp h.nodup).right.left
  marked id hm := (h.marks id).mpr (List.mem_append_right taken hm)
  gone         := ⟨(List.nodup_append.mp h.nodup).left, fun _ ht hs => List.disjoint_of_nodup_append h.nodup ht hs⟩
  closed id hm hstack hdone other hr := by
    have htaken := (List.mem_append.mp ((h.marks id).mp hm)).resolve_right hstack
    obtain hmarks | ⟨hlast, hahead⟩ := h.closed id htaken other (mem_occurrences_iff.mpr hr)
    case inl => exact hmarks
    case inr =>
      cases hdone
      case inl hne  => exact absurd hlast hne
      case inr hnil => simp [hnil] at hahead
  pushed id hne := by
    rw [Walk.stack_visit] at hne
    split at hne
    case isFalse   => exact absurd rfl hne
    case isTrue hf => exact not_or.mp fun hm => h.not_mem_of_unmarked hf (List.mem_append.mpr hm)

theorem Walking.turns (hg : g.Sound) (h : g.Walking taken walk []) (hnil : walk.stack = []) :
    walk = g.walk g.walkStart ∧ (∀ id, id ∈ taken ↔ g.InReach id) ∧
      taken.length = {id | g.InReach id}.ncard := by
  have hf := h.frontier hg
  have hwalk : walk = g.walk g.walkStart := (walk_of_stack_eq_nil hnil).symm.trans h.walk_eq
  have hmem : ∀ id, id ∈ taken ↔ g.InReach id := by
    intro id
    rw [inReach_iff_reachable, ← marks_walk_iff hg, ← hwalk, hf.marks, hnil, List.append_nil]
  have hset : {id | g.InReach id} = (taken.toFinset : Set NonterminalId) := by
    ext id
    simp [hmem]
  refine ⟨hwalk, hmem, ?_⟩
  rw [hset, Set.ncard_coe_finset, List.toFinset_card_of_nodup (List.nodup_append.mp hf.nodup).left]

variable {file : Option String} {lines : List (Option (List Char))}

theorem visitsOnce_of_ofLines (h : ofLines file lines = .ok g) : g.VisitsOnce := by
  have hg := sound_of_ofLines h
  refine ⟨fun _ _ _ hw => (hw.frontier hg).orderly, ?ends, fun _ _ hw hnil => hw.turns hg hnil⟩
  case ends => exact ⟨(walk_spec hg (tracks_walkStart hg)).right, Walking.start.exists_walk⟩

-- All nonterminals that are in reach refer to each other, some of them more than once in one production. The
-- walk takes four turns and leaves `C` and `D` out.
theorem visitsOnce_of_cycles :
    ∃ g, ofLines none (["S → A A S B | B A", "A → a S A* | 0", "B → B b | S a", "C → A D", "D → C C"].map
        (some ·.toList)) = .ok g ∧
      g.VisitsOnce ∧ g.nonterminalCount = 6 ∧
      ∃ taken, g.Walking taken (g.walk g.walkStart) [] ∧ taken.length = 4 := by
  obtain ⟨g, hg, hcount, hpending⟩ : ∃ g,
      ofLines none (["S → A A S B | B A", "A → a S A* | 0", "B → B b | S a", "C → A D", "D → C C"].map
        (some ·.toList)) = .ok g ∧
      g.nonterminalCount = 6 ∧ (g.walk g.walkStart).pending = 2 :=
    exists_of_ofLines (by decide +kernel)
  have hv := visitsOnce_of_ofLines hg
  obtain ⟨_, taken, hw⟩ := hv.ends
  have hlength := (hw.frontier (sound_of_ofLines hg)).pending
  rw [hpending, hcount] at hlength
  exact ⟨g, hg, hv, hcount, taken, hw, by omega⟩

end Grammar
end LineGrammar
