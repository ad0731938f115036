import LineGrammar.Proofs.Endings

/-!
The numbers of productions. One counter numbers the productions of all rules as they are added, those of
helpers in between, and what is left out takes no number. So at any time the numbers are those below the
counter, and each tells one production from all others.
-/

namespace LineGrammar

namespace Rules

variable {rules : Rules} {head : NonterminalId} {production a b : Production} {next : Nat}

def size : Rules → Nat
  | []           => 0
  | rule :: rest => rule.productions.length + size rest

def entry? (rules : Rules) (i j : Nat) : Option Production :=
  rules[i]?.bind (·.productions[j]?)

structure Numbered (rules : Rules) (next : Nat) : Prop where
  heads   : (rules.map Rule.head).Nodup
  numbers : (rules.productions.map Production.id).Perm (List.range next)
  ordered : ∀ rule ∈ rules, (rule.productions.map Production.id).Pairwise (· < ·)

theorem length_productions (rules : Rules) : rules.productions.length = rules.size := by
  induction rules
  case nil => rfl
  case cons rule rest ih =>
    rw [size, ← ih, productions, List.flatMap_cons, List.length_append]
    rfl

theorem productions_declare : (rules.declare head).productions = rules.productions := by
  unfold declare
  split
  case isTrue  => rfl
  case isFalse => simp [productions]

theorem productions_cons {rule : Rule} {rest : Rules} :
    productions (rule :: rest) = rule.productions ++ rest.productions :=
  rfl

theorem productions_map_perm (h : (rules.map Rule.head).Nodup) (hd : rules.hasHead head)
    (production : Production) :
    (productions (rules.map fun rule =>
        if rule.head = head then { rule with productions := rule.productions ++ [production] }
        else rule)).Perm (rules.productions ++ [production]) := by
  induction rules
  case nil => simp at hd
  case cons first rest ih =>
    rw [List.map_cons, List.nodup_cons] at h
    rw [List.map_cons, productions_cons, productions_cons, List.append_assoc]
    by_cases he : first.head = head
    case pos =>
      have hrest : ∀ rule ∈ rest, (if rule.head = head
          then { rule with productions := rule.productions ++ [production] } else rule) = rule := by
        intro rule hm
        have : rule.head ≠ head := fun hr => h.left (List.mem_map.mpr ⟨rule, hm, hr.trans he.symm⟩)
        rw [if_neg this]
      rw [if_pos he, List.map_congr_left hrest, List.map_id', List.append_assoc]
      exact List.perm_append_comm.append_left _
    case neg =>
      have hd : hasHead rest head := by simpa [he] using hd
      rw [if_neg he]
      exact (ih h.right hd).append_left _

theorem productions_add_perm (h : (rules.map Rule.head).Nodup) :
    (rules.add head production).productions.Perm (rules.productions ++ [production]) := by
  have hd : (rules.declare head).hasHead head := hasHead_declare.mpr (.inr rfl)
  have hperm := productions_map_perm (nodup_declare h) hd production
  rwa [productions_declare] at hperm

namespace Numbered

theorem empty : Numbered [] 0 := by
  constructor <;> simp [productions]

theorem declare (h : rules.Numbered next) : (rules.declare head).Numbered next where
  heads   := nodup_declare h.heads
  numbers := by
    rw [productions_declare]
    exact h.numbers
  ordered rule hm := by
    unfold Rules.declare at hm
    split at hm
    case isTrue => exact h.ordered rule hm
    case isFalse =>
      cases List.mem_append.mp hm
      case inl hm => exact h.ordered rule hm
      case inr hm => simp [List.mem_singleton.mp hm]

theorem lt_of_mem (h : rules.Numbered next) (hm : production ∈ rules.productions) : production.id < next :=
  List.mem_range.mp (h.numbers.mem_iff.mp (List.mem_map_of_mem hm))

theorem add (h : rules.Numbered next) (hid : production.id = next) :
    (rules.add head production).Numbered (next + 1) where
  heads   := map_head_add ▸ nodup_declare h.heads
  numbers := by
    rw [List.range_succ, ← hid]
    refine ((productions_add_perm h.heads).map _).trans ?_
    rw [List.map_append, List.map_singleton]
    exact (hid ▸ h.numbers).append_right _
  ordered rule hm := by
    have hdeclared : (rules.declare head).Numbered next := h.declare
    obtain ⟨old, ho, rfl⟩ := List.mem_map.mp hm
    have hold := hdeclared.ordered old ho
    split
    case isFalse => exact hold
    case isTrue =>
      rw [List.map_append, List.map_singleton, List.pairwise_append]
      refine ⟨hold, List.pairwise_singleton .., fun i hi j hj => ?_⟩
      obtain ⟨earlier, hm, rfl⟩ := List.mem_map.mp hi
      rw [List.mem_singleton.mp hj, hid]
      exact hdeclared.lt_of_mem (List.mem_flatMap.mpr ⟨old, ho, hm⟩)

theorem nodup (h : rules.Numbered next) : (rules.productions.map Production.id).Nodup :=
  h.numbers.nodup_iff.mpr List.nodup_range

theorem length (h : rules.Numbered next) : rules.productions.length = next := by
  simpa using h.numbers.length_eq

-- Two productions of one number stand at the same place of the same rule.
theorem isSame_iff (h : rules.Numbered next) {i j i' j' : Nat} (ha : rules.entry? i j = some a)
    (hb : rules.entry? i' j' = some b) : a.isSame b ↔ i = i' ∧ j = j' := by
  obtain ⟨rule, hr, ha⟩ := Option.bind_eq_some_iff.mp ha
  obtain ⟨rule', hr', hb⟩ := Option.bind_eq_some_iff.mp hb
  constructor
  case mp =>
    intro he
    have he : a.id = b.id := by simpa [Production.isSame] using he
    exact indices_eq_of_nodup_flatMap h.nodup hr hr' ha hb he
  case mpr =>
    rintro ⟨rfl, rfl⟩
    cases hr.symm.trans hr'
    cases ha.symm.trans hb
    simp [Production.isSame]

end Numbered
end Rules

namespace Loader

variable {a b loader : Loader} {piece : Piece} {file : Option String}

def Numbered (loader : Loader) : Prop :=
  loader.rules.Numbered loader.nextProduction

theorem Numbered.addProduction (h : loader.Numbered) (head : NonterminalId) (symbols : List Symbol) :
    (loader.addProduction head symbols).Numbered := by
  unfold Loader.addProduction
  split
  case isTrue  => exact h
  case isFalse => exact Rules.Numbered.add h rfl

theorem Numbered.addHelper (h : loader.Numbered) (name : String) (base : Symbol) (repetition : Repetition) :
    (loader.addHelper name base repetition).2.Numbered := by
  have hn : (Loader.note { loader with symbols := (loader.symbols.insertHelper name loader.location).2 }
      (.repetition name loader.line)).Numbered := h
  exact (hn.addProduction _ _).addProduction _ _

theorem Numbered.openRule (h : loader.Numbered) (id : NonterminalId) (name : String) :
    (loader.openRule id name).Numbered := by
  rw [openRule_eq]
  exact Rules.Numbered.declare h

theorem Step.numbered (h : a.Step piece b) (ha : a.Numbered) : b.Numbered := by
  cases h
  case head name _ =>
    have hm : (a.internNonterminal name).2.Numbered := ha
    exact hm.openRule _ _
  case helper      => exact ha.addHelper _ _ _
  case alternative => exact ha.addProduction _ _
  all_goals exact ha

theorem Passed.numbered (h : Passed file loader) : loader.Numbered := by
  induction h
  case start         => exact Rules.Numbered.empty
  case step hstep ih => exact hstep.numbered ih

end Loader

namespace Grammar

variable {g : Grammar} {next : Nat}

-- The numbers of the productions are those below their count, and what is counted as one production by
-- its number is one, whatever its symbols are.
structure Numbered (g : Grammar) : Prop where
  rules    : g.rules.Numbered g.productionCount
  size     : g.productionCount = g.rules.size
  same     : ∀ {i j i' j' : Nat} {a b : Production}, g.rules.entry? i j = some a →
    g.rules.entry? i' j' = some b → (a.isSame b ↔ i = i' ∧ j = j')
  distinct : g.distinctProductionCount = g.productionCount
  pairs    : g.samePairCount = g.productionCount

theorem distinctProductionCount_eq (h : (g.productions.map Production.id).Nodup) :
    g.distinctProductionCount = g.productionCount := by
  rw [distinctProductionCount, eraseDups_of_nodup h, List.length_map, productionCount]

theorem countP_isSame (h : (g.productions.map Production.id).Nodup) {production : Production}
    (hm : production ∈ g.productions) : g.productions.countP production.isSame = 1 := by
  have hcount := List.count_eq_one_of_mem h (List.mem_map_of_mem hm)
  rw [List.count, List.countP_map] at hcount
  rw [← hcount]
  refine List.countP_congr fun other _ => ?_
  simp only [Production.isSame, Function.comp_apply, beq_iff_eq]
  exact eq_comm

theorem samePairCount_eq (h : (g.productions.map Production.id).Nodup) :
    g.samePairCount = g.productionCount := by
  have hfold : ∀ (l : List Production) count, (∀ production ∈ l, production ∈ g.productions) →
      l.foldl (fun count p => count + g.productions.countP p.isSame) count = count + l.length := by
    intro l
    induction l
    case nil => simp
    case cons production rest ih =>
      intro count hl
      rw [List.forall_mem_cons] at hl
      rw [List.foldl_cons, ih _ hl.right, countP_isSame h hl.left, List.length_cons]
      omega
  simpa [samePairCount, productionCount] using hfold g.productions 0 fun _ hm => hm

theorem numbered_of_rules (h : g.rules.Numbered next) : g.Numbered ∧ g.productionCount = next := by
  have hcount : g.productionCount = next := h.length
  have hnodup : (g.productions.map Production.id).Nodup := h.nodup
  exact ⟨⟨hcount ▸ h, g.rules.length_productions, h.isSame_iff, distinctProductionCount_eq hnodup,
    samePairCount_eq hnodup⟩, hcount⟩

-- At any time of a reading the counter is the next number, and it ends as the count of the grammar.
theorem numbered_of_reading (file : Option String) :
    (∀ loader, Loader.Passed file loader → loader.rules.Numbered loader.nextProduction) ∧
      (∀ lines, Loader.Passed file ((Loader.start file).after (Loader.readLines 1 lines))) ∧
      ∀ lines g, ofLines file lines = .ok g → g.Numbered ∧
        ∃ last, Loader.run file lines = .ok () last ∧ last.finish = .ok g ∧
          g.productionCount = last.nextProduction := by
  refine ⟨fun loader h => h.numbered, Loader.passed_after_readLines file, fun lines g h => ?_⟩
  obtain ⟨last, hrun, hfinish⟩ := exists_run_of_ofLines h
  have hnumbered : last.rules.Numbered last.nextProduction := (Loader.passed_of_run hrun).numbered
  obtain ⟨root, _, hg⟩ := Loader.finish_eq_ok_iff.mp hfinish
  have hrules : g.rules.Numbered last.nextProduction := hg ▸ hnumbered
  obtain ⟨hnumbers, hcount⟩ := numbered_of_rules hrules
  exact ⟨hnumbers, last, hrun, hfinish, hcount⟩

-- The helper `x*` takes the first two numbers, and the second `0` takes none. The second and the fourth
-- production of `A` have the same symbols, but they are two.
theorem numbered_of_repeated_alternatives :
    ∃ g, ofLines none (["A → b x* | b | 0 | 0", "| b | B", "B → 0 | b", "A → b"].map (some ·.toList)) =
        .ok g ∧ g.Numbered ∧
      g.rules.map (fun rule => rule.productions.map Production.id) =
        [[2, 3, 4, 5, 6, 9], [0, 1], [7, 8]] ∧
      ∃ a b, g.rules.entry? 0 1 = some a ∧ g.rules.entry? 0 3 = some b ∧ a.symbols = b.symbols ∧
        ¬a.isSame b := by
  obtain ⟨g, hg, hids, ha, hb⟩ : ∃ g,
      ofLines none (["A → b x* | b | 0 | 0", "| b | B", "B → 0 | b", "A → b"].map (some ·.toList)) =
        .ok g ∧
      g.rules.map (fun rule => rule.productions.map Production.id) =
        [[2, 3, 4, 5, 6, 9], [0, 1], [7, 8]] ∧
      g.rules.entry? 0 1 = some ⟨3, [.terminal 0], ⟨none, 1⟩⟩ ∧
      g.rules.entry? 0 3 = some ⟨5, [.terminal 0], ⟨none, 2⟩⟩ :=
    exists_of_ofLines (by decide +kernel)
  have ⟨_, _, hreads⟩ := numbered_of_reading none
  have ⟨hnumbered, _⟩ := hreads _ g hg
  exact ⟨g, hg, hnumbered, hids, _, _, ha, hb, rfl, by simp [hnumbered.same ha hb]⟩

end Grammar
end LineGrammar
