import LineGrammar.Proofs.Productivity
import LineGrammar.Proofs.Reachability
import LineGrammar.Proofs.Reading
import LineGrammar.Validation

/-!
Validation decides whether a grammar is reduced. A grammar that has been read passes all four checks
exactly if each of its nonterminals takes part in a derivation of a string of terminals from the root.
-/

namespace LineGrammar.Grammar

variable {g : Grammar} {id : NonterminalId}

def Useful (g : Grammar) (id : NonterminalId) : Prop :=
  ∃ (a b : List Symbol) (string : List TerminalId),
    g.Derives [.nonterminal g.root] (a ++ .nonterminal id :: b) ∧
      g.Derives (a ++ .nonterminal id :: b) (string.map .terminal)

def Reduced (g : Grammar) : Prop :=
  ∀ id < g.nonterminalCount, g.Useful id

theorem Useful.reachable (h : g.Useful id) : g.Reachable id := by
  have ⟨a, b, _, hd, _⟩ := h
  exact reachable_iff.mpr ⟨a, b, hd⟩

theorem Useful.productive (h : g.Useful id) : g.Productive id := by
  have ⟨a, b, string, _, hd⟩ := h
  exact exists_yields_iff.mp ⟨string, derives_iff_yields.mp hd⟩ id (by simp)

theorem reduced_iff (h : g.Sound) :
    g.Reduced ↔
      (∀ id < g.nonterminalCount, g.Productive id) ∧ ∀ id < g.nonterminalCount, g.Reachable id := by
  constructor
  case mp =>
    intro hu
    exact ⟨fun id hlt => (hu id hlt).productive, fun id hlt => (hu id hlt).reachable⟩
  case mpr =>
    intro ⟨hp, hr⟩ id hlt
    have ⟨a, b, hd⟩ := reachable_iff.mp (hr id hlt)
    -- The neighbours in the form are reachable too, so they are in the table and derive their part.
    have hall : ∀ other, .nonterminal other ∈ a ++ .nonterminal id :: b → g.Productive other :=
      fun other hm => hp other (h.knows_of_reachable (hd.reachable other hm)).lt_length
    have ⟨string, hy⟩ := exists_yields_iff.mpr hall
    exact ⟨a, b, string, hd, hy.derives⟩

theorem validate_eq_ok_iff :
    g.validate = .ok () ↔
      g.checkReferences = .ok () ∧ g.checkRuleLists = .ok () ∧
        g.checkDerivability = .ok () ∧ g.checkReachability = .ok () := by
  rw [validate, forM_eq_ok_iff]
  simp [Check.all, Check.run]

theorem checkReferences_eq_ok_iff :
    g.checkReferences = .ok () ↔ ∀ n ∈ g.symbols.nonterminals, n.referenced = true := by
  have hnone : g.checkReferences = .ok () ↔ g.firstUnreferenced? = none := by
    unfold checkReferences
    split <;> simp_all
  simp [hnone, firstUnreferenced?]

theorem checkRuleLists_eq_ok_iff :
    g.checkRuleLists = .ok () ↔
      ∀ (id : NonterminalId) n, g.symbols.nonterminals[id]? = some n →
        n.defined = true ∧ g.productionsOf id ≠ [] := by
  have hnone : g.checkRuleLists = .ok () ↔ g.firstRuleFault? = none := by
    unfold checkRuleLists
    split <;> simp_all
  have hfault : ∀ id n, g.ruleFault? id n = none ↔ n.defined = true ∧ g.productionsOf id ≠ [] := by
    intro id n
    unfold ruleFault?
    cases n.defined <;> simp
  simp only [hnone, firstRuleFault?, List.findSome?_eq_none_iff, Option.map_eq_none_iff, Prod.forall,
    List.mk_mem_zipIdx_iff_getElem?, hfault]
  exact forall_comm

-- Whatever occurs in a production is referenced, so a nonterminal that is not is unreachable.
theorem checkReferences_of_reachable (h : g.Sound)
    (hr : ∀ id < g.nonterminalCount, g.Reachable id) : g.checkReferences = .ok () := by
  rw [checkReferences_eq_ok_iff]
  intro n hm
  have ⟨id, hlt, hn⟩ := List.getElem_of_mem hm
  have ⟨m, hid, href⟩ := h.knows_of_reachable (hr id hlt)
  cases hn ▸ (List.getElem?_eq_getElem hlt).symm.trans hid
  exact href

-- A nonterminal without productions derives nothing, and one with productions is defined.
theorem checkRuleLists_of_productive (h : g.Sound)
    (hp : ∀ id < g.nonterminalCount, g.Productive id) : g.checkRuleLists = .ok () := by
  rw [checkRuleLists_eq_ok_iff]
  intro id n hn
  have ⟨production, mem, _⟩ := productive_iff.mp (hp id (lt_length_of_getElem? hn))
  have hne : g.productionsOf id ≠ [] := List.ne_nil_of_mem mem
  have hd : g.rules.hasHead id := by
    by_contra hno
    exact hne (Rules.productionsOf_eq_nil hno)
  have ⟨m, hm, hdef⟩ := h.rules.defined.mp hd
  cases hn.symm.trans hm
  exact ⟨hdef, hne⟩

variable {file : Option String} {lines : List (Option (List Char))}

theorem validate_eq_ok_iff_reduced (h : ofLines file lines = .ok g) :
    (g.validate = .ok () ↔ g.Reduced) ∧
      (g.checkDerivability = .ok () → g.checkReachability = .ok () →
        g.checkReferences = .ok () ∧ g.checkRuleLists = .ok ()) := by
  have hg := sound_of_ofLines h
  have hfirst : g.checkDerivability = .ok () → g.checkReachability = .ok () →
      g.checkReferences = .ok () ∧ g.checkRuleLists = .ok () := fun hd hr =>
    ⟨checkReferences_of_reachable hg ((checkReachability_eq_ok_iff hg).mp hr),
      checkRuleLists_of_productive hg ((checkDerivability_eq_ok_iff hg).mp hd)⟩
  refine ⟨?_, hfirst⟩
  rw [reduced_iff hg, ← checkDerivability_eq_ok_iff hg, ← checkReachability_eq_ok_iff hg,
    validate_eq_ok_iff]
  constructor
  · exact fun ⟨_, _, hd, hr⟩ => ⟨hd, hr⟩
  · exact fun ⟨hd, hr⟩ => ⟨(hfirst hd hr).left, (hfirst hd hr).right, hd, hr⟩

theorem reduced_of_mutual_repetition :
    ∃ g, ofLines none (["S → A* b | 0", "A → a S"].map (some ·.toList)) = .ok g ∧
      g.validate = .ok () ∧ g.Reduced ∧
      g.checkReferences = .ok () ∧ g.checkRuleLists = .ok () := by
  obtain ⟨g, hg, hc⟩ : ∃ g, ofLines none (["S → A* b | 0", "A → a S"].map (some ·.toList)) = .ok g ∧
      g.validate = .ok () ∧ g.checkDerivability = .ok () ∧ g.checkReachability = .ok () :=
    exists_of_ofLines (by decide +kernel)
  have ⟨hiff, hfirst⟩ := validate_eq_ok_iff_reduced hg
  exact ⟨g, hg, hc.left, hiff.mp hc.left, hfirst hc.right.left hc.right.right⟩

end LineGrammar.Grammar
