import LineGrammar.Check.Reachability
import LineGrammar.Proofs.Derivation
import LineGrammar.Proofs.Rules

/-!
The check of reachability is exact: what the walk leaves unmarked are the nonterminals that occur in no
form derived from the root.
-/

namespace LineGrammar

namespace Walk

variable {walk : Walk} {id : NonterminalId}

def Marks (walk : Walk) (id : NonterminalId) : Prop :=
  walk.marked[id]? = some true

structure Visits (old new : Walk) (ids : List NonterminalId) : Prop where
  length : new.marked.length = old.marked.length
  marks  : ∀ id, new.Marks id ↔ old.Marks id ∨ (id ∈ ids ∧ id < old.marked.length)
  stack  : ∀ id, id ∈ new.stack ↔ id ∈ old.stack ∨ (new.Marks id ∧ ¬old.Marks id)

theorem visits_visit (walk : Walk) (id : NonterminalId) : walk.Visits (walk.visit id) [id] := by
  unfold visit
  split
  case isTrue h =>
    have ⟨hlt, hid⟩ := List.getElem?_eq_some_iff.mp h
    refine ⟨by simp, fun (other : Nat) => ?_, fun (other : Nat) => ?_⟩
    all_goals by_cases ho : id = other
    case pos => subst ho; simp [Marks, hlt]
    case neg => simp [Marks, List.getElem?_set_ne ho, Ne.symm ho]
    case pos => subst ho; simp [Marks, hlt, hid]
    case neg => simp [Marks, List.getElem?_set_ne ho, Ne.symm ho]
  case isFalse h =>
    refine ⟨rfl, fun (other : Nat) => ?_, by simp⟩
    simp only [List.mem_singleton, iff_self_or]
    rintro ⟨rfl, hlt⟩
    simpa [Marks, List.getElem?_eq_getElem hlt] using h

theorem visits_foldl (walk : Walk) (ids : List NonterminalId) :
    walk.Visits (ids.foldl visit walk) ids := by
  induction ids generalizing walk
  case nil => exact ⟨rfl, by simp, by simp⟩
  case cons id rest ih =>
    have hv := visits_visit walk id
    have hr := ih (walk.visit id)
    rw [List.foldl_cons]
    refine ⟨hr.length.trans hv.length, fun other => ?_, fun other => ?_⟩
    · rw [hr.marks, hv.marks, hv.length, List.mem_singleton, List.mem_cons, or_assoc, or_and_right]
    · rw [hr.stack, hv.stack, hr.marks, hv.marks]
      tauto

end Walk

namespace Grammar

variable {g : Grammar} {id other : NonterminalId}

theorem mem_occurrences_iff :
    other ∈ g.occurrences id ↔
      ∃ production ∈ g.productionsOf id, .nonterminal other ∈ production.symbols := by
  simp only [occurrences, List.mem_flatMap, Production.mem_nonterminals_iff]

theorem Sound.knows_of_mem_occurrences (h : g.Sound) (hm : other ∈ g.occurrences id) :
    g.symbols.Knows (.nonterminal other) := by
  have ⟨production, mem, hs⟩ := mem_occurrences_iff.mp hm
  exact h.known mem hs

def Reachable (g : Grammar) : NonterminalId → Prop :=
  Relation.ReflTransGen (fun id other => other ∈ g.occurrences id) g.root

theorem Sound.knows_of_reachable (h : g.Sound) (hr : g.Reachable id) :
    g.symbols.Knows (.nonterminal id) := by
  cases hr
  case refl       => exact h.root
  case tail _ hm  => exact h.knows_of_mem_occurrences hm

-- The invariant of the walk as far as marks go. When the stack is empty, `closed` leaves no reference
-- from a marked nonterminal to one that is not.
structure Tracks (g : Grammar) (walk : Walk) : Prop where
  length    : walk.marked.length = g.nonterminalCount
  root      : walk.Marks g.root
  reachable : ∀ id, walk.Marks id → g.Reachable id
  stack     : ∀ id ∈ walk.stack, walk.Marks id
  closed    : ∀ id, walk.Marks id → id ∈ walk.stack ∨ ∀ other ∈ g.occurrences id, walk.Marks other

theorem marks_walkStart_iff (h : g.Sound) : g.walkStart.Marks id ↔ id = g.root := by
  have hlt : g.root < g.nonterminalCount := h.root.lt_length
  by_cases hi : g.root = id
  case pos => subst hi; simp [Walk.Marks, walkStart, hlt]
  case neg =>
    simp [Walk.Marks, walkStart, List.getElem?_set_ne hi, List.getElem?_replicate, Ne.symm hi]

theorem tracks_walkStart (h : g.Sound) : g.Tracks g.walkStart := by
  have hmarks : ∀ id, g.walkStart.Marks id ↔ id = g.root := fun id => marks_walkStart_iff h
  refine ⟨by simp [walkStart], (hmarks _).mpr rfl, fun id hm => ?_, fun id hm => ?_, fun id hm => ?_⟩
  · exact (hmarks id).mp hm ▸ Relation.ReflTransGen.refl
  · exact (hmarks id).mpr (by simpa [walkStart] using hm)
  · exact .inl (by simpa [walkStart] using (hmarks id).mp hm)

theorem Tracks.expand (h : g.Sound) {marked : List Bool} {rest : List NonterminalId}
    (ht : g.Tracks ⟨marked, id :: rest⟩) : g.Tracks (g.expand marked id rest) := by
  have hv : Walk.Visits ⟨marked, rest⟩ (g.expand marked id rest) (g.occurrences id) :=
    Walk.visits_foldl ..
  have hmono : ∀ i, Walk.Marks ⟨marked, id :: rest⟩ i → (g.expand marked id rest).Marks i :=
    fun i hm => (hv.marks i).mpr (.inl hm)
  have hnew : ∀ other ∈ g.occurrences id, (g.expand marked id rest).Marks other := by
    intro other hm
    refine (hv.marks other).mpr (.inr ⟨hm, ?_⟩)
    exact ht.length ▸ (h.knows_of_mem_occurrences hm).lt_length
  constructor
  case length => exact hv.length.trans ht.length
  case root   => exact hmono _ ht.root
  case reachable =>
    intro i hm
    cases (hv.marks i).mp hm
    case inl hm => exact ht.reachable i hm
    case inr hm => exact (ht.reachable id (ht.stack id List.mem_cons_self)).tail hm.left
  case stack =>
    intro i hm
    cases (hv.stack i).mp hm
    case inl hm => exact hmono i (ht.stack i (List.mem_cons_of_mem _ hm))
    case inr hm => exact hm.left
  case closed =>
    intro i hm
    by_cases hold : Walk.Marks ⟨marked, rest⟩ i
    case neg => exact .inl ((hv.stack i).mpr (.inr ⟨hm, hold⟩))
    case pos =>
      cases ht.closed i hold
      case inr hall => exact .inr fun other ho => hmono other (hall other ho)
      case inl hs =>
        cases List.mem_cons.mp hs
        case inl he => exact .inr (he ▸ hnew)
        case inr hr => exact .inl ((hv.stack i).mpr (.inl hr))

theorem walk_spec (h : g.Sound) {walk : Walk} (ht : g.Tracks walk) :
    g.Tracks (g.walk walk) ∧ (g.walk walk).stack = [] := by
  induction walk using Grammar.walk.induct g
  case case1 marked =>
    rw [Grammar.walk]
    exact ⟨ht, rfl⟩
  case case2 marked id rest ih =>
    rw [Grammar.walk]
    exact ih (ht.expand h)

theorem marks_walk_iff (h : g.Sound) : (g.walk g.walkStart).Marks id ↔ g.Reachable id := by
  have ⟨ht, hnil⟩ := walk_spec h (tracks_walkStart h)
  constructor
  case mp => exact ht.reachable id
  case mpr =>
    intro hr
    induction hr
    case refl => exact ht.root
    case tail hm ih =>
      cases ht.closed _ ih
      case inl hs   => simp [hnil] at hs
      case inr hall => exact hall _ hm

theorem mem_unreached_iff (h : g.Sound) :
    id ∈ g.unreached ↔ id < g.nonterminalCount ∧ ¬g.Reachable id := by
  rw [← marks_walk_iff h]
  simp [unreached, nonterminalIds, Walk.Marks]

theorem checkReachability_eq_ok_iff_nil : g.checkReachability = .ok () ↔ g.unreached = [] := by
  unfold checkReachability
  split <;> simp_all

theorem checkReachability_eq_error_iff {error : GrammarError} :
    g.checkReachability = .error error ↔ g.unreached ≠ [] ∧
      error = ⟨⟨g.file, 0⟩, .unreachable (g.unreached.map g.symbols.nonterminalName)⟩ := by
  unfold checkReachability
  split
  case isTrue h => simp [List.isEmpty_iff.mp h]
  case isFalse h =>
    rw [List.isEmpty_iff] at h
    simp only [Except.error.injEq, eq_comm (b := error), ne_eq, h, not_false_eq_true, true_and]

theorem checkReachability_eq_ok_iff (h : g.Sound) :
    g.checkReachability = .ok () ↔ ∀ id < g.nonterminalCount, g.Reachable id := by
  rw [checkReachability_eq_ok_iff_nil, List.eq_nil_iff_forall_not_mem]
  simp only [mem_unreached_iff h, not_and, not_not]

theorem Derives.reachable {form : List Symbol} (hd : g.Derives [.nonterminal g.root] form) :
    ∀ id, .nonterminal id ∈ form → g.Reachable id := by
  induction hd
  case refl =>
    intro id hm
    cases List.mem_singleton.mp hm
    exact .refl
  case tail hs ih =>
    cases hs with | replace before after mem =>
    intro id hm
    simp only [List.mem_append, or_assoc] at hm
    obtain hm | hm | hm := hm
    · exact ih id (List.mem_append_left _ hm)
    · have := ih _ (List.mem_append_right before List.mem_cons_self)
      exact this.tail (mem_occurrences_iff.mpr ⟨_, mem, hm⟩)
    · exact ih id (List.mem_append_right _ (List.mem_cons_of_mem _ hm))

theorem reachable_iff :
    g.Reachable id ↔ ∃ a b, g.Derives [.nonterminal g.root] (a ++ .nonterminal id :: b) := by
  constructor
  case mp =>
    intro hr
    induction hr
    case refl => exact ⟨[], [], .refl _⟩
    case tail hm ih =>
      have ⟨a, b, hd⟩ := ih
      have ⟨production, mem, hs⟩ := mem_occurrences_iff.mp hm
      have ⟨c, d, he⟩ := List.append_of_mem hs
      refine ⟨a ++ c, d ++ b, hd.tail ?_⟩
      simpa [he] using Step.replace a b mem
  case mpr =>
    intro ⟨a, b, hd⟩
    exact hd.reachable id (by simp)

end Grammar
end LineGrammar
