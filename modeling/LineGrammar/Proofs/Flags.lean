import LineGrammar.Check.References
import LineGrammar.Proofs.Census

/-!
The flags of a nonterminal say what the rules and its name say, so the two checks that go by the flags
find the nonterminals that occur nowhere, and those for which the source has no head or no alternative.
-/

namespace LineGrammar

-- A helper needs no head.
inductive LeftOut (lines : List Line) (n : Nonterminal) : Fault → Prop
  | head (written : n.synthetic = false) (headless : n.name ∉ headNames lines) :
    LeftOut lines n (.undefinedNonterminal n.name)
  | alternatives (headed : n.name ∈ headNames lines)
      (empty : alternativesOf n.name (clausesFrom none lines) = []) :
    LeftOut lines n (.noProductions n.name)

namespace Grammar

variable {g : Grammar} {id : NonterminalId} {n : Nonterminal} {fault : Fault}

def Occurs (g : Grammar) (id : NonterminalId) : Prop :=
  ∃ production ∈ g.productions, .nonterminal id ∈ production.symbols

-- The root counts as referenced without being mentioned, and a helper is known by its name, as no
-- other name ends in a mark.
structure Truthful (g : Grammar) : Prop where
  referenced : ∀ {id : NonterminalId} {n}, g.symbols.nonterminals[id]? = some n →
    (n.referenced = true ↔ id = g.root ∨ g.Occurs id)
  defined    : ∀ {id : NonterminalId} {n}, g.symbols.nonterminals[id]? = some n →
    (n.defined = true ↔ g.rules.hasHead id)
  synthetic  : ∀ {id : NonterminalId} {n}, g.symbols.nonterminals[id]? = some n →
    (n.synthetic = true ↔
      ∃ repetition : Repetition, n.name.toList.getLast? = some repetition.mark)

theorem occurs_iff (hg : g.Sound) :
    g.Occurs id ↔ ∃ head, ∃ production ∈ g.productionsOf head, .nonterminal id ∈ production.symbols := by
  have hmem : ∀ production, production ∈ g.productions ↔ ∃ head, production ∈ g.productionsOf head :=
    fun _ => Rules.mem_productions_iff hg.rules.heads_nodup
  simp only [Occurs, hmem]
  constructor
  · exact fun ⟨production, ⟨head, hp⟩, hs⟩ => ⟨head, production, hp, hs⟩
  · exact fun ⟨head, production, hp, hs⟩ => ⟨production, ⟨head, hp⟩, hs⟩

section

variable {file : Option String} {lines : List (Option (List Char))}

-- What the source mentions ends up in a production, and the root needs no mention.
theorem referenced_iff (h : ofLines file lines = .ok g)
    (hn : g.symbols.nonterminals[id]? = some n) :
    n.referenced = true ↔ id = g.root ∨ g.Occurs id := by
  have ⟨hg, hr⟩ := sound_and_records_of_ofLines h
  have hc := census_of_ofLines h
  rw [occurs_iff hg]
  constructor
  case mp =>
    intro href
    cases hs : n.synthetic
    case false =>
      refine ((hc.referenced hn hs).mp href).imp_right fun hu => ?_
      have ⟨head, production, hp, symbol, hm, hd⟩ := exists_denotes_of_usesItem hg hr hu
      cases hd.unique hg.symbols (.nonterminal hn hs)
      exact ⟨head, production, hp, hm⟩
    case true =>
      have ⟨_, item, repetition, _, hi, ht, _⟩ := hg.rules.helpers hn hs
      have hu := (hc.helper item repetition hi).mp ⟨n, List.mem_of_getElem? hn, hs, ht⟩
      have ⟨head, production, hp, symbol, hm, hx⟩ := exists_spells_of_usesWord hr hu
      cases hx with | repeated hk _ ht' =>
      cases hg.symbols.id_eq hk hn (String.toList_injective (ht'.trans ht.symm))
      exact .inr ⟨head, production, hp, hm⟩
  case mpr =>
    intro hor
    have ⟨m, hm, href⟩ : g.symbols.Knows (.nonterminal id) := by
      obtain rfl | ⟨head, production, hp, hm⟩ := hor
      · exact hg.root
      · exact hg.known hp hm
    cases hn.symm.trans hm
    exact href

theorem truthful_of_ofLines (h : ofLines file lines = .ok g) : g.Truthful where
  referenced hn := referenced_iff h hn
  defined hn    := by simp [(sound_of_ofLines h).rules.defined, hn]
  synthetic hn  :=
    ((sound_of_ofLines h).symbols.nonterminal _ (List.mem_of_getElem? hn)).synthetic_iff_getLast?

-- A rule without productions has no alternatives either, as no first one is ever left out.
theorem productionsOf_eq_nil_iff {heads : List String} {clauses : List Clause}
    (hr : g.Records heads clauses) (hn : g.symbols.nonterminals[id]? = some n)
    (hs : n.synthetic = false) : g.productionsOf id = [] ↔ alternativesOf n.name clauses = [] := by
  have hlen := (hr.productions hn hs).length_eq
  rw [← keepFirst_eq_nil_iff (p := isEpsilonText), ← List.length_eq_zero_iff,
    ← List.length_eq_zero_iff, hlen]
  rfl

theorem ruleFault?_eq_some_iff (h : ofLines file lines = .ok g)
    (hn : g.symbols.nonterminals[id]? = some n) :
    g.ruleFault? id n = some fault ↔ LeftOut (linesOf lines) n fault := by
  have ⟨hg, hr⟩ := sound_and_records_of_ofLines h
  cases hs : n.synthetic
  case true =>
    have hdef := hg.defined_of_synthetic hn hs
    have ⟨_, _, _, _, _, _, _, hx⟩ := hg.rules.helpers hn hs
    have ⟨production, hp, _⟩ := hx.exists_base_mem
    have hne : g.productionsOf id ≠ [] := List.ne_nil_of_mem hp
    constructor
    · simp [ruleFault?, hdef, hne]
    · rintro (⟨hw, _⟩ | ⟨hhead, _⟩)
      · simp [hs] at hw
      · have ⟨i, m, hm, hw, he⟩ := hr.entered n.name hhead
        cases hg.symbols.id_eq hm hn he
        cases hn.symm.trans hm
        simp [hs] at hw
  case false =>
    have hd := (census_of_ofLines h).defined hn hs
    have hnil := productionsOf_eq_nil_iff hr hn hs
    constructor
    case mp =>
      intro hf
      unfold ruleFault? at hf
      split at hf
      case isTrue hno =>
        cases hf
        exact .head hs (mt hd.mpr (by simpa using hno))
      case isFalse hyes =>
        split at hf
        case isTrue he =>
          cases hf
          exact .alternatives (hd.mp (by simpa using hyes)) (hnil.mp (List.isEmpty_iff.mp he))
        case isFalse => cases hf
    case mpr =>
      rintro (⟨_, hno⟩ | ⟨hhead, he⟩)
      · simp [ruleFault?, mt hd.mp hno]
      · simp [ruleFault?, hd.mpr hhead, hnil.mpr he]

end

theorem checkReferences_eq_error_iff {error : GrammarError} :
    g.checkReferences = .error error ↔
      ∃ id n, IsFirst g.symbols.nonterminals (fun _ m => m.referenced = false) id n ∧
        error = ⟨n.location, .unreferenced n.name⟩ := by
  have hsome : ∀ n, g.firstUnreferenced? = some n ↔
      ∃ id, IsFirst g.symbols.nonterminals (fun _ m => m.referenced = false) id n := by
    intro n
    simp [firstUnreferenced?, find?_eq_some_iff_isFirst]
  unfold checkReferences
  split
  case h_1 n hf =>
    constructor
    case mp =>
      intro he
      cases he
      have ⟨id, hid⟩ := (hsome n).mp hf
      exact ⟨id, n, hid, rfl⟩
    case mpr =>
      rintro ⟨id, m, hid, rfl⟩
      cases hf.symm.trans ((hsome m).mpr ⟨id, hid⟩)
      rfl
  case h_2 hf =>
    simp only [reduceCtorEq, false_iff]
    rintro ⟨id, m, hid, -⟩
    cases hf.symm.trans ((hsome m).mpr ⟨id, hid⟩)

theorem checkRuleLists_eq_error_iff {error : GrammarError} :
    g.checkRuleLists = .error error ↔
      ∃ id n fault, IsFirst g.symbols.nonterminals (fun i m => (g.ruleFault? i m).isSome) id n ∧
        g.ruleFault? id n = some fault ∧ error = ⟨n.location, fault⟩ := by
  have hiff : g.checkRuleLists = .error error ↔ g.firstRuleFault? = some error := by
    unfold checkRuleLists
    split <;> simp_all
  rw [hiff, firstRuleFault?, findSome?_zipIdx_eq_some_iff]
  simp only [Option.isSome_map, Option.map_eq_some_iff, eq_comm (a := error)]
  constructor
  · exact fun ⟨id, n, hid, fault, hf, he⟩ => ⟨id, n, fault, hid, hf, he⟩
  · exact fun ⟨id, n, fault, hid, hf, he⟩ => ⟨id, n, hid, fault, hf, he⟩

variable {file : Option String} {lines : List (Option (List Char))}

-- The first check fails where a nonterminal other than the root occurs in no production, the second
-- where the source leaves something out. Each reports the one with the smallest number.
theorem truthful_and_reports_of_ofLines (h : ofLines file lines = .ok g) :
    g.Truthful ∧
      ((∃ error, g.checkReferences = .error error) ↔
        ∃ (id : NonterminalId) (n : Nonterminal), g.symbols.nonterminals[id]? = some n ∧
          id ≠ g.root ∧ ¬g.Occurs id) ∧
      (∀ error, g.checkReferences = .error error ↔
        ∃ id n, IsFirst g.symbols.nonterminals (fun id _ => id ≠ g.root ∧ ¬g.Occurs id) id n ∧
          error = ⟨n.location, .unreferenced n.name⟩) ∧
      ((∃ error, g.checkRuleLists = .error error) ↔
        ∃ (id : NonterminalId) (n : Nonterminal), g.symbols.nonterminals[id]? = some n ∧
          ∃ fault, LeftOut (linesOf lines) n fault) ∧
      (∀ error, g.checkRuleLists = .error error ↔
        ∃ id n fault,
          IsFirst g.symbols.nonterminals (fun _ n => ∃ fault, LeftOut (linesOf lines) n fault) id n ∧
            LeftOut (linesOf lines) n fault ∧ error = ⟨n.location, fault⟩) := by
  have hunreferenced : ∀ (id : NonterminalId) (n : Nonterminal), g.symbols.nonterminals[id]? = some n →
      (n.referenced = false ↔ id ≠ g.root ∧ ¬g.Occurs id) := by
    intro id n hn
    rw [← not_or, ← referenced_iff h hn, Bool.not_eq_true]
  have hleftOut : ∀ (id : NonterminalId) (n : Nonterminal), g.symbols.nonterminals[id]? = some n →
      ((g.ruleFault? id n).isSome ↔ ∃ fault, LeftOut (linesOf lines) n fault) := by
    intro id n hn
    simp only [Option.isSome_iff_exists, ruleFault?_eq_some_iff h hn]
  have hreferences : ∀ error, g.checkReferences = .error error ↔
      ∃ id n, IsFirst g.symbols.nonterminals (fun id _ => id ≠ g.root ∧ ¬g.Occurs id) id n ∧
        error = ⟨n.location, .unreferenced n.name⟩ := by
    intro error
    simp only [checkReferences_eq_error_iff, isFirst_congr hunreferenced]
  have hruleLists : ∀ error, g.checkRuleLists = .error error ↔
      ∃ id n fault,
        IsFirst g.symbols.nonterminals (fun _ n => ∃ fault, LeftOut (linesOf lines) n fault) id n ∧
          LeftOut (linesOf lines) n fault ∧ error = ⟨n.location, fault⟩ := by
    intro error
    simp only [checkRuleLists_eq_error_iff, isFirst_congr hleftOut]
    constructor
    · exact fun ⟨id, n, fault, hid, hf, he⟩ =>
        ⟨id, n, fault, hid, (ruleFault?_eq_some_iff h hid.getElem?).mp hf, he⟩
    · exact fun ⟨id, n, fault, hid, hf, he⟩ =>
        ⟨id, n, fault, hid, (ruleFault?_eq_some_iff h hid.getElem?).mpr hf, he⟩
  refine ⟨truthful_of_ofLines h, ?_, hreferences, ?_, hruleLists⟩
  · rw [← exists_isFirst_iff]
    simp only [hreferences]
    exact ⟨fun ⟨_, id, n, hid, _⟩ => ⟨id, n, hid⟩, fun ⟨id, n, hid⟩ => ⟨_, id, n, hid, rfl⟩⟩
  · rw [← exists_isFirst_iff (P := fun _ n => ∃ fault, LeftOut (linesOf lines) n fault)]
    simp only [hruleLists]
    constructor
    · exact fun ⟨_, id, n, _, hid, _⟩ => ⟨id, n, hid⟩
    · intro ⟨id, n, hid⟩
      have ⟨fault, hf⟩ := hid.holds
      exact ⟨_, id, n, fault, hid, hf, rfl⟩

theorem reports_of_idle_and_empty_rules :
    ∃ g, ofLines none (["S → A* b | E D", "A → a", "C → c", "E"].map (some ·.toList)) = .ok g ∧
      (∃ id n, IsFirst g.symbols.nonterminals (fun id _ => id ≠ g.root ∧ ¬g.Occurs id) id n ∧
        n.name = "C" ∧ n.referenced = false) ∧
      ∃ id n, IsFirst g.symbols.nonterminals (fun _ n => ∃ fault, LeftOut (linesOf
          (["S → A* b | E D", "A → a", "C → c", "E"].map (some ·.toList))) n fault) id n ∧
        n.name = "E" := by
  obtain ⟨g, hg, hc, hE⟩ : ∃ g,
      ofLines none (["S → A* b | E D", "A → a", "C → c", "E"].map (some ·.toList)) = .ok g ∧
      g.checkReferences = .error ⟨⟨none, 3⟩, .unreferenced "C"⟩ ∧
      g.checkRuleLists = .error ⟨⟨none, 4⟩, .noProductions "E"⟩ :=
    exists_of_ofLines (by decide +kernel)
  have ⟨htruthful, _, hreferences, _, hruleLists⟩ := truthful_and_reports_of_ofLines hg
  have ⟨id, n, hid, he⟩ := (hreferences _).mp hc
  have ⟨i, m, fault, hi, hf, he'⟩ := (hruleLists _).mp hE
  injection he with _ hn
  injection hn with hn
  injection he' with _ hm
  subst hm
  refine ⟨g, hg, ⟨id, n, hid, hn.symm, ?_⟩, i, m, hi, ?_⟩
  · have ⟨hr, ho⟩ := hid.holds
    have := mt (htruthful.referenced hid.getElem?).mp (not_or.mpr ⟨hr, ho⟩)
    simpa using this
  · generalize hfault : Fault.noProductions "E" = fault at hf
    cases hf <;> simp_all

end Grammar
end LineGrammar
