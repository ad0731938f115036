import LineGrammar.Proofs.Correspondence
import LineGrammar.Validation

/-!
Sources with the same heads and clauses in different orders. Their grammars have the same symbols and the
same alternatives, and each check finds the same fault with them, though all numbers may differ.
-/

namespace LineGrammar

theorem Repetition.forall₂_expansion {α β : Type} {R : α → β → Prop} {helper base : α}
    {helper' base' : β} (hh : R helper helper') (hb : R base base') (repetition : Repetition) :
    List.Forall₂ (List.Forall₂ R) (repetition.expansion helper base)
      (repetition.expansion helper' base') := by
  cases repetition <;> simp [expansion, hh, hb]

theorem UsesWord.mono {clauses clauses' : List Clause} {word : Word}
    (hsub : ∀ clause ∈ clauses, clause ∈ clauses') (h : UsesWord clauses word) :
    UsesWord clauses' word :=
  h.imp fun clause ⟨hm, hu⟩ => ⟨hsub clause hm, hu⟩

theorem UsesItem.mono {clauses clauses' : List Clause} {item : Item}
    (hsub : ∀ clause ∈ clauses, clause ∈ clauses') (h : UsesItem clauses item) :
    UsesItem clauses' item :=
  h.imp fun _ ⟨hu, he⟩ => ⟨hu.mono hsub, he⟩

def Nonterminal.flags (n : Nonterminal) : String × Bool × Bool × Bool :=
  (n.name, n.referenced, n.defined, n.synthetic)

-- The lines have the same heads, of which the first is the same, and under each the same alternatives,
-- no matter in which order and how often.
structure SameClauses (lines lines' : List Line) : Prop where
  root    : (headNames lines).head? = (headNames lines').head?
  heads   : ∀ name, name ∈ headNames lines ↔ name ∈ headNames lines'
  clauses : ∀ clause, clause ∈ clausesFrom none lines ↔ clause ∈ clausesFrom none lines'

namespace SameClauses

variable {lines lines' : List Line}

theorem symm (h : SameClauses lines lines') : SameClauses lines' lines :=
  ⟨h.root.symm, fun name => (h.heads name).symm, fun clause => (h.clauses clause).symm⟩

theorem usesItem_iff (h : SameClauses lines lines') (item : Item) :
    UsesItem (clausesFrom none lines) item ↔ UsesItem (clausesFrom none lines') item :=
  ⟨.mono fun clause => (h.clauses clause).mp, .mono fun clause => (h.clauses clause).mpr⟩

end SameClauses

structure Reorders (lines lines' : List Line) : Prop where
  root    : (headNames lines).head? = (headNames lines').head?
  heads   : (headNames lines).Perm (headNames lines')
  clauses : (clausesFrom none lines).Perm (clausesFrom none lines')

namespace Reorders

variable {lines lines' : List Line}

theorem symm (h : Reorders lines lines') : Reorders lines' lines :=
  ⟨h.root.symm, h.heads.symm, h.clauses.symm⟩

theorem sameClauses (h : Reorders lines lines') : SameClauses lines lines' :=
  ⟨h.root, fun _ => h.heads.mem_iff, fun _ => h.clauses.mem_iff⟩

end Reorders

namespace Grammar

variable {g g' : Grammar} {id id' : NonterminalId} {n n' : Nonterminal}

theorem synthetic_eq_of_name_eq (hg : g.Sound) (hg' : g'.Sound)
    (hn : n ∈ g.symbols.nonterminals) (hn' : n' ∈ g'.symbols.nonterminals) (he : n.name = n'.name) :
    n.synthetic = n'.synthetic := by
  rw [Bool.eq_iff_iff, (hg.symbols.nonterminal n hn).synthetic_iff,
    (hg'.symbols.nonterminal n' hn').synthetic_iff, he]

-- The numbers of nonterminals and their locations depend on the order of the blocks, so the grammars
-- are compared by names. The last two checks name all nonterminals that fail, and those are the same
-- as well.
structure Matches (g g' : Grammar) : Prop where
  rootName     : g.rootName = g'.rootName
  terminals    : ∀ t, t ∈ g.symbols.terminals ↔ t ∈ g'.symbols.terminals
  nonterminals : ∀ flags, flags ∈ g.symbols.nonterminals.map Nonterminal.flags ↔
    flags ∈ g'.symbols.nonterminals.map Nonterminal.flags
  alternatives : ∀ name, (g.alternativesNamed name).Perm (g'.alternativesNamed name)
  checks       : ∀ check : Check, check.run g = .ok () ↔ check.run g' = .ok ()
  nonDerivable : ∀ {location names}, g.checkDerivability = .error ⟨location, .nonDerivable names⟩ →
    ∃ location' names', g'.checkDerivability = .error ⟨location', .nonDerivable names'⟩ ∧
      ∀ name, name ∈ names ↔ name ∈ names'
  unreachable  : ∀ {location names}, g.checkReachability = .error ⟨location, .unreachable names⟩ →
    ∃ location' names', g'.checkReachability = .error ⟨location', .unreachable names'⟩ ∧
      ∀ name, name ∈ names ↔ name ∈ names'

theorem simulates_of_subset (hg : g.Sound) (hg' : g'.Sound) {heads heads' : List String}
    {clauses clauses' : List Clause} (hr : g.Records heads clauses) (hr' : g'.Records heads' clauses')
    (hsub : ∀ clause ∈ clauses, clause ∈ clauses') : g.Simulates g' := by
  intro id id' hc production hp
  have hself := hc
  cases hc with | nonterminal hn hn' he =>
  have hsyn := synthetic_eq_of_name_eq hg hg' (List.mem_of_getElem? hn) (List.mem_of_getElem? hn') he
  cases hs : Nonterminal.synthetic _
  case false =>
    have ⟨texts, ht, words, hw, hf⟩ := exists_left_of_forall₂ (hr.productions hn hs) hp
    have hclause := hsub _ (mem_alternativesOf.mp ((mem_keepFirst isEpsilonText_iff).mp ht))
    have ht' := (mem_keepFirst isEpsilonText_iff).mpr (mem_alternativesOf.mpr (he ▸ hclause))
    have ⟨production', hp', words', hw', hf'⟩ :=
      exists_right_of_forall₂ (hr'.productions hn' (hsyn ▸ hs)) ht'
    cases hw.symm.trans hw'
    exact ⟨production', hp', forall₂_trans hf.flip hf' fun _ _ _ => .of_spells⟩
  case true =>
    have ⟨_, item, repetition, base, hi, ht, hd, hx⟩ := hg.rules.helpers hn hs
    have ⟨_, item', repetition', base', hi', ht', hd', hx'⟩ := hg'.rules.helpers hn' (hsyn ▸ hs)
    cases Word.text_injective hi hi' (ht.symm.trans (he ▸ ht'))
    have hall := repetition.forall₂_expansion hself (.of_denotes hd hd')
    rw [← hx.map_symbols_eq, ← hx'.map_symbols_eq] at hall
    have ⟨symbols', hm', hf⟩ := exists_right_of_forall₂ hall (List.mem_map_of_mem hp)
    obtain ⟨production', hp', rfl⟩ := List.mem_map.mp hm'
    exact ⟨production', hp', hf⟩

section

variable {file file' : Option String} {lines lines' : List (Option (List Char))}

theorem rootName_eq (h : ofLines file lines = .ok g) (h' : ofLines file' lines' = .ok g')
    (hr : SameClauses (linesOf lines) (linesOf lines')) : g.rootName = g'.rootName := by
  have hroot := (sound_and_records_of_ofLines h).right.root
  have hroot' := (sound_and_records_of_ofLines h').right.root
  rw [hr.root, hroot', Option.some.injEq] at hroot
  exact hroot.symm

theorem eq_root_iff (hg : g.Sound) (hn : g.symbols.nonterminals[id]? = some n) :
    id = g.root ↔ n.name = g.rootName := by
  have ⟨m, hm, _⟩ := hg.root
  rw [rootName, SymbolTable.nonterminalName_of_getElem? hm]
  constructor
  · rintro rfl
    cases hn.symm.trans hm
    rfl
  · exact hg.symbols.id_eq hn hm

theorem exists_flags_eq (h : ofLines file lines = .ok g) (h' : ofLines file' lines' = .ok g')
    (hr : SameClauses (linesOf lines) (linesOf lines')) (hn : g.symbols.nonterminals[id]? = some n) :
    ∃ n' ∈ g'.symbols.nonterminals, n'.flags = n.flags := by
  have hg := sound_of_ofLines h
  have hg' := sound_of_ofLines h'
  have hc := census_of_ofLines h
  have hc' := census_of_ofLines h'
  have hm := List.mem_of_getElem? hn
  cases hs : n.synthetic
  case false =>
    have hwritten := (hc.written n.name).mp ⟨n, hm, hs, rfl⟩
    rw [hr.heads, hr.usesItem_iff] at hwritten
    have ⟨n', hm', hs', he⟩ := (hc'.written n.name).mpr hwritten
    have ⟨id', hn'⟩ := List.mem_iff_getElem?.mp hm'
    have href : n'.referenced = n.referenced := by
      rw [Bool.eq_iff_iff, hc'.referenced hn' hs', hc.referenced hn hs, eq_root_iff hg' hn',
        eq_root_iff hg hn, he, hr.usesItem_iff, rootName_eq h h' hr]
    have hdef : n'.defined = n.defined := by
      rw [Bool.eq_iff_iff, hc'.defined hn' hs', hc.defined hn hs, he, hr.heads]
    exact ⟨n', hm', by simp [Nonterminal.flags, he, href, hdef, hs, hs']⟩
  case true =>
    -- A helper is known by its name, and it has all its flags from the start.
    have ⟨href, item, repetition, _, hi, ht, _⟩ := hg.rules.helpers hn hs
    have hword := ((hc.helper item repetition hi).mp ⟨n, hm, hs, ht⟩).mono fun clause =>
      (hr.clauses clause).mp
    have ⟨n', hm', hs', ht'⟩ := (hc'.helper item repetition hi).mpr hword
    have ⟨id', hn'⟩ := List.mem_iff_getElem?.mp hm'
    have href' := (hg'.rules.helpers hn' hs').left
    have he : n'.name = n.name := String.toList_injective (ht'.trans ht.symm)
    exact ⟨n', hm', by simp [Nonterminal.flags, he, href, href', hg.defined_of_synthetic hn hs,
      hg'.defined_of_synthetic hn' hs', hs, hs']⟩

theorem exists_namesake (h : ofLines file lines = .ok g) (h' : ofLines file' lines' = .ok g')
    (hr : SameClauses (linesOf lines) (linesOf lines')) (hm : n ∈ g.symbols.nonterminals) :
    ∃ n' ∈ g'.symbols.nonterminals, n'.name = n.name ∧ n'.synthetic = n.synthetic := by
  have ⟨id, hn⟩ := List.mem_iff_getElem?.mp hm
  have ⟨n', hm', he⟩ := exists_flags_eq h h' hr hn
  simp only [Nonterminal.flags, Prod.mk.injEq] at he
  exact ⟨n', hm', he.left, he.right.right.right⟩

theorem namesIn_of_sameClauses (h : ofLines file lines = .ok g) (h' : ofLines file' lines' = .ok g')
    (hr : SameClauses (linesOf lines) (linesOf lines')) : g.NamesIn g' := by
  intro n hm
  have ⟨n', hm', he, _⟩ := exists_namesake h h' hr hm
  exact ⟨n', hm', he⟩

theorem simulates_of_sameClauses (h : ofLines file lines = .ok g) (h' : ofLines file' lines' = .ok g')
    (hr : SameClauses (linesOf lines) (linesOf lines')) : g.Simulates g' := by
  have ⟨hg, hrec⟩ := sound_and_records_of_ofLines h
  have ⟨hg', hrec'⟩ := sound_and_records_of_ofLines h'
  exact simulates_of_subset hg hg' hrec hrec' fun clause => (hr.clauses clause).mp

theorem mem_map_underivable_iff (h : ofLines file lines = .ok g) (h' : ofLines file' lines' = .ok g')
    (hr : SameClauses (linesOf lines) (linesOf lines')) {name : String} :
    name ∈ g.underivable.map g.symbols.nonterminalName ↔
      name ∈ g'.underivable.map g'.symbols.nonterminalName := by
  have hg := sound_of_ofLines h
  have hg' := sound_of_ofLines h'
  constructor
  · exact mem_map_underivable hg hg' (namesIn_of_sameClauses h h' hr) (simulates_of_sameClauses h' h hr.symm)
  · exact mem_map_underivable hg' hg (namesIn_of_sameClauses h' h hr.symm) (simulates_of_sameClauses h h' hr)

theorem corresponds_root (h : ofLines file lines = .ok g) (h' : ofLines file' lines' = .ok g')
    (hr : SameClauses (linesOf lines) (linesOf lines')) :
    g.Corresponds g' (.nonterminal g.root) (.nonterminal g'.root) := by
  have ⟨n, hn, _⟩ := (sound_of_ofLines h).root
  have ⟨n', hn', _⟩ := (sound_of_ofLines h').root
  have he := rootName_eq h h' hr
  rw [rootName, rootName, SymbolTable.nonterminalName_of_getElem? hn,
    SymbolTable.nonterminalName_of_getElem? hn'] at he
  exact .nonterminal hn hn' he

theorem mem_map_unreached_iff (h : ofLines file lines = .ok g) (h' : ofLines file' lines' = .ok g')
    (hr : SameClauses (linesOf lines) (linesOf lines')) {name : String} :
    name ∈ g.unreached.map g.symbols.nonterminalName ↔
      name ∈ g'.unreached.map g'.symbols.nonterminalName := by
  have hg := sound_of_ofLines h
  have hg' := sound_of_ofLines h'
  have hroot := corresponds_root h h' hr
  constructor
  · exact mem_map_unreached hg hg' (namesIn_of_sameClauses h h' hr) (simulates_of_sameClauses h' h hr.symm)
      hroot.symm
  · exact mem_map_unreached hg' hg (namesIn_of_sameClauses h' h hr.symm) (simulates_of_sameClauses h h' hr)
      hroot

theorem alternativesNamed_perm (h : ofLines file lines = .ok g) (h' : ofLines file' lines' = .ok g')
    (hr : Reorders (linesOf lines) (linesOf lines')) (name : String) :
    (g.alternativesNamed name).Perm (g'.alternativesNamed name) := by
  have ⟨hg, hrec⟩ := sound_and_records_of_ofLines h
  have ⟨hg', hrec'⟩ := sound_and_records_of_ofLines h'
  by_cases hname : ∃ n ∈ g.symbols.nonterminals, n.name = name
  case neg =>
    have hname' : ∀ n' ∈ g'.symbols.nonterminals, n'.name ≠ name := by
      intro n' hm' he'
      have ⟨n, hm, he⟩ := namesIn_of_sameClauses h' h hr.symm.sameClauses n' hm'
      exact hname ⟨n, hm, he.trans he'⟩
    rw [alternativesNamed_of_not_mem (by simpa using hname), alternativesNamed_of_not_mem hname']
  case pos =>
    obtain ⟨n, hm, rfl⟩ := hname
    have ⟨n', hm', he, hsyn⟩ := exists_namesake h h' hr.sameClauses hm
    have ⟨id, hn⟩ := List.mem_iff_getElem?.mp hm
    have ⟨id', hn'⟩ := List.mem_iff_getElem?.mp hm'
    cases hs : n.synthetic
    case false =>
      rw [alternativesNamed_of_written hg hrec hn hs, ← he,
        alternativesNamed_of_written hg' hrec' hn' (hsyn.trans hs)]
      have hperm : (alternativesOf n'.name (clausesFrom none (linesOf lines))).Perm
          (alternativesOf n'.name (clausesFrom none (linesOf lines'))) :=
        (hr.clauses.filter _).map _
      exact (keepFirst_perm isEpsilonText_iff hperm).map _
    case true =>
      rw [alternativesNamed_eq_of_synthetic hg hg' hn hn' he hs (hsyn.trans hs)]

theorem checkReferences_of_reorders (h : ofLines file lines = .ok g)
    (h' : ofLines file' lines' = .ok g') (hr : Reorders (linesOf lines) (linesOf lines'))
    (hok : g.checkReferences = .ok ()) : g'.checkReferences = .ok () := by
  rw [checkReferences_eq_ok_iff] at hok ⊢
  intro n' hm'
  have ⟨id', hn'⟩ := List.mem_iff_getElem?.mp hm'
  have ⟨n, hm, he⟩ := exists_flags_eq h' h hr.sameClauses.symm hn'
  simp only [Nonterminal.flags, Prod.mk.injEq] at he
  exact he.right.left ▸ hok n hm

theorem checkRuleLists_of_reorders (h : ofLines file lines = .ok g)
    (h' : ofLines file' lines' = .ok g') (hr : Reorders (linesOf lines) (linesOf lines'))
    (hok : g.checkRuleLists = .ok ()) : g'.checkRuleLists = .ok () := by
  rw [checkRuleLists_eq_ok_iff] at hok ⊢
  intro id' n' hn'
  have ⟨n, hm, he⟩ := exists_flags_eq h' h hr.sameClauses.symm hn'
  have ⟨id, hn⟩ := List.mem_iff_getElem?.mp hm
  simp only [Nonterminal.flags, Prod.mk.injEq] at he
  have ⟨hdef, hne⟩ := hok id n hn
  refine ⟨he.right.right.left ▸ hdef, fun hnil => hne ?_⟩
  have hperm := alternativesNamed_perm h h' hr n.name
  rw [alternativesNamed_of_getElem? (sound_of_ofLines h) hn, he.left,
    alternativesNamed_of_getElem? (sound_of_ofLines h') hn', hnil] at hperm
  simpa using hperm.eq_nil

theorem run_eq_ok_of_reorders (h : ofLines file lines = .ok g) (h' : ofLines file' lines' = .ok g')
    (hr : Reorders (linesOf lines) (linesOf lines')) (check : Check) (hok : check.run g = .ok ()) :
    check.run g' = .ok () := by
  cases check
  case references => exact checkReferences_of_reorders h h' hr hok
  case ruleLists  => exact checkRuleLists_of_reorders h h' hr hok
  case derivability =>
    have hnil := eq_nil_iff_of_mem_map_iff fun _ => mem_map_underivable_iff h h' hr.sameClauses
    exact checkDerivability_eq_ok_iff_nil.mpr (hnil.mp (checkDerivability_eq_ok_iff_nil.mp hok))
  case reachability =>
    have hnil := eq_nil_iff_of_mem_map_iff fun _ => mem_map_unreached_iff h h' hr.sameClauses
    exact checkReachability_eq_ok_iff_nil.mpr (hnil.mp (checkReachability_eq_ok_iff_nil.mp hok))

theorem matches_of_reorders (h : ofLines file lines = .ok g) (h' : ofLines file' lines' = .ok g')
    (hr : Reorders (linesOf lines) (linesOf lines')) : g.Matches g' := by
  constructor
  case rootName     => exact rootName_eq h h' hr.sameClauses
  case alternatives => exact alternativesNamed_perm h h' hr
  case terminals =>
    intro t
    rw [(census_of_ofLines h).terminal, (census_of_ofLines h').terminal, hr.sameClauses.usesItem_iff]
  case nonterminals =>
    intro flags
    simp only [List.mem_map]
    constructor
    · rintro ⟨n, hm, rfl⟩
      have ⟨id, hn⟩ := List.mem_iff_getElem?.mp hm
      exact exists_flags_eq h h' hr.sameClauses hn
    · rintro ⟨n, hm, rfl⟩
      have ⟨id, hn⟩ := List.mem_iff_getElem?.mp hm
      exact exists_flags_eq h' h hr.sameClauses.symm hn
  case checks =>
    exact fun check => ⟨run_eq_ok_of_reorders h h' hr check, run_eq_ok_of_reorders h' h hr.symm check⟩
  case nonDerivable =>
    intro location names he
    have ⟨hne, he⟩ := checkDerivability_eq_error_iff.mp he
    injection he with _ hnames
    injection hnames with hnames
    have hnil := eq_nil_iff_of_mem_map_iff fun _ => mem_map_underivable_iff h h' hr.sameClauses
    exact ⟨_, _, checkDerivability_eq_error_iff.mpr ⟨mt hnil.mpr hne, rfl⟩,
      fun name => hnames ▸ mem_map_underivable_iff h h' hr.sameClauses⟩
  case unreachable =>
    intro location names he
    have ⟨hne, he⟩ := checkReachability_eq_error_iff.mp he
    injection he with _ hnames
    injection hnames with hnames
    have hnil := eq_nil_iff_of_mem_map_iff fun _ => mem_map_unreached_iff h h' hr.sameClauses
    exact ⟨_, _, checkReachability_eq_error_iff.mpr ⟨mt hnil.mpr hne, rfl⟩,
      fun name => hnames ▸ mem_map_unreached_iff h h' hr.sameClauses⟩

end
end Grammar
end LineGrammar
