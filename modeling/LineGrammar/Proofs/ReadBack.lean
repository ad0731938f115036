import LineGrammar.Proofs.Blocks
import LineGrammar.Proofs.Display
import LineGrammar.Proofs.Gathering
import LineGrammar.Proofs.RuleOrder

/-!
Reading back what is displayed. The lines of the helpers may be left out, as reading the others makes the
helpers anew. The grammar that is read has the same names and the same lines; only its helpers may come in
other places.
-/

namespace LineGrammar.Grammar

variable {g g' : Grammar} {file file' : Option String} {lines lines' : List (Option (List Char))}
variable {name line : String} {rule : Rule}

theorem isIdentifier_of_mem_headNames (h : ofLines file lines = .ok g)
    (hm : name ∈ headNames (linesOf lines)) : isIdentifier name.toList := by
  have ⟨hg, hr⟩ := sound_and_records_of_ofLines h
  obtain ⟨id, n, hn, hs, rfl⟩ := hr.entered name hm
  exact (hg.symbols.nonterminal n (List.mem_of_getElem? hn)).identifier hs

theorem isRow_of_mem_keepFirst (h : ofLines file lines = .ok g) {texts : List (List Char)}
    (ht : texts ∈ keepFirst isEpsilonText (alternativesOf name (clausesFrom none (linesOf lines)))) :
    IsRow texts := by
  rw [mem_keepFirst isEpsilonText_iff, mem_alternativesOf] at ht
  exact ⟨((sound_and_records_of_ofLines h).right.headed _ ht).right, isLexeme_of_mem_clauses ht⟩

theorem lineNamed_of_mem_headNames (h : ofLines file lines = .ok g)
    (hm : name ∈ headNames (linesOf lines)) :
    g.lineNamed name = String.ofList (ruleLine name.toList
      (keepFirst isEpsilonText (alternativesOf name (clausesFrom none (linesOf lines))))) := by
  have ⟨hg, hr⟩ := sound_and_records_of_ofLines h
  obtain ⟨id, n, hn, hs, rfl⟩ := hr.entered name hm
  rw [lineNamed, alternativesNamed_of_written hg hr hn hs, List.map_map, List.map_congr_left, List.map_id]
  exact fun texts ht => displayTexts_alternativeNames (isRow_of_mem_keepFirst h ht).ne_nil

theorem map_lineNamed_writtenName? (hg : g.Sound) (hr : rule ∈ g.rules) :
    (g.symbols.writtenName? rule.head).map g.lineNamed =
      if g.symbols.isSynthetic rule.head then none else some (g.ruleText rule) := by
  have ⟨n, hn⟩ := hg.exists_of_mem_rules hr
  rw [SymbolTable.writtenName?_of_getElem? hn, SymbolTable.isSynthetic_of_getElem? hn,
    ruleText_eq_lineNamed hg hr hn]
  cases n.synthetic <;> rfl

theorem writtenLines_of_ofLines (h : ofLines file lines = .ok g) :
    g.writtenLines = (headNames (linesOf lines)).eraseDups.map g.lineNamed := by
  rw [← writtenNames_of_ofLines h, Rules.writtenNames, List.map_filterMap, List.filterMap_map,
    writtenLines, ← List.filterMap_eq_map', List.filterMap_filter]
  refine List.filterMap_congr fun rule hr => ?_
  rw [Function.comp_apply, map_lineNamed_writtenName? (sound_of_ofLines h) hr]
  cases g.symbols.isSynthetic rule.head <;> rfl

theorem linesOf_writtenLines (h : ofLines file lines = .ok g) :
    linesOf (g.writtenLines.map (some ·.toList)) = gathered (linesOf lines) := by
  have hmap : g.writtenLines.map (some ·.toList) = (g.writtenLines.map String.toList).map some := by
    simp
  rw [hmap, linesOf_map_some, writtenLines_of_ofLines h, List.map_map, List.map_map, gathered, linesFor]
  refine List.map_congr_left fun name hm => ?_
  rw [List.mem_eraseDups] at hm
  rw [Function.comp_apply, Function.comp_apply, lineNamed_of_mem_headNames h hm, String.toList_ofList]
  exact Line.ofText_ruleLine (isIdentifier_of_mem_headNames h hm) fun _ => isRow_of_mem_keepFirst h

theorem exists_ofLines_writtenLines (h : ofLines file lines = .ok g) (file' : Option String) :
    ∃ g', ofLines file' (g.writtenLines.map (some ·.toList)) = .ok g' := by
  have hroot := (sound_and_records_of_ofLines h).right.root
  rw [exists_ofLines_iff_firstFault?, linesOf_writtenLines h, headNames_gathered]
  refine ⟨by simp, ?_, fun hnil => ?_⟩
  · exact firstFault?_gathered (fun _ => isIdentifier_of_mem_headNames h) (firstFault?_of_ofLines h)
  · rw [← head?_eraseDups, hnil] at hroot
    cases hroot

-- The grammar that is read from the written lines of another one is the same, except for locations, for
-- numbers and for the places of the helpers.
structure ReadsBackAs (g g' : Grammar) : Prop where
  rootName     : g'.rootName = g.rootName
  terminals    : ∀ name, name ∈ g'.symbols.terminals.map Terminal.name ↔
    name ∈ g.symbols.terminals.map Terminal.name
  nonterminals : ∀ name, name ∈ g'.symbols.nonterminals.map Nonterminal.name ↔
    name ∈ g.symbols.nonterminals.map Nonterminal.name
  written      : g'.writtenLines = g.writtenLines
  helpers      : ∀ line, line ∈ g'.helperLines ↔ line ∈ g.helperLines
  display      : (∀ n ∈ g.symbols.nonterminals, n.synthetic = false) → g'.display = g.display

section

variable (h : ofLines file lines = .ok g) (h' : ofLines file' lines' = .ok g')
variable (hl : linesOf lines' = gathered (linesOf lines))

include h hl in
theorem sameClauses_of_gathered : SameClauses (linesOf lines) (linesOf lines') := by
  have hr := (sound_and_records_of_ofLines h).right
  exact hl ▸ sameClauses_gathered fun clause hc => (hr.headed clause hc).left

include h h' hl

theorem alternativesNamed_eq_of_gathered {n : Nonterminal} (hm : n ∈ g.symbols.nonterminals) :
    g'.alternativesNamed n.name = g.alternativesNamed n.name := by
  have ⟨hg, hr⟩ := sound_and_records_of_ofLines h
  have ⟨hg', hr'⟩ := sound_and_records_of_ofLines h'
  have hsame := sameClauses_of_gathered h hl
  have ⟨n', hm', he, hsyn⟩ := exists_namesake h h' hsame hm
  have ⟨id, hn⟩ := List.mem_iff_getElem?.mp hm
  have ⟨id', hn'⟩ := List.mem_iff_getElem?.mp hm'
  cases hs : n.synthetic
  case true => exact alternativesNamed_eq_of_synthetic hg hg' hn hn' he hs (hsyn.trans hs)
  case false =>
    rw [alternativesNamed_of_written hg hr hn hs, ← he,
      alternativesNamed_of_written hg' hr' hn' (hsyn.trans hs), hl]
    by_cases hhead : n'.name ∈ headNames (linesOf lines)
    case pos => rw [alternativesOf_gathered hhead, keepFirst_keepFirst]
    case neg =>
      rw [alternativesOf_eq_nil, alternativesOf_eq_nil]
      · exact fun clause hc hh => hhead (hh ▸ (hr.headed clause hc).left)
      · exact fun clause hc hh => hhead (hh ▸ (mem_clausesFrom_gathered.mp hc).left)

theorem lineNamed_eq_of_gathered {n : Nonterminal} (hm : n ∈ g.symbols.nonterminals) :
    g'.lineNamed n.name = g.lineNamed n.name := by
  rw [lineNamed, alternativesNamed_eq_of_gathered h h' hl hm, lineNamed]

theorem writtenLines_eq_of_gathered : g'.writtenLines = g.writtenLines := by
  have hr := (sound_and_records_of_ofLines h).right
  rw [writtenLines_of_ofLines h', writtenLines_of_ofLines h, hl, headNames_gathered,
    eraseDups_of_nodup (nodup_eraseDups _)]
  refine List.map_congr_left fun name hm => ?_
  obtain ⟨id, n, hn, _, rfl⟩ := hr.entered name (List.mem_eraseDups.mp hm)
  exact lineNamed_eq_of_gathered h h' hl (List.mem_of_getElem? hn)

theorem mem_helperLines_iff_of_gathered : line ∈ g'.helperLines ↔ line ∈ g.helperLines := by
  have hsame := sameClauses_of_gathered h hl
  rw [mem_helperLines_iff (sound_of_ofLines h'), mem_helperLines_iff (sound_of_ofLines h)]
  constructor
  case mp =>
    rintro ⟨n', hm', hs, rfl⟩
    have ⟨n, hm, he, hsyn⟩ := exists_namesake h' h hsame.symm hm'
    exact ⟨n, hm, hsyn.trans hs, by rw [← he, lineNamed_eq_of_gathered h h' hl hm]⟩
  case mpr =>
    rintro ⟨n, hm, hs, rfl⟩
    have ⟨n', hm', he, hsyn⟩ := exists_namesake h h' hsame hm
    exact ⟨n', hm', hsyn.trans hs, by rw [he, lineNamed_eq_of_gathered h h' hl hm]⟩

theorem display_eq_of_gathered (hw : ∀ n ∈ g.symbols.nonterminals, n.synthetic = false) :
    g'.display = g.display := by
  have hw' : ∀ n' ∈ g'.symbols.nonterminals, n'.synthetic = false := by
    intro n' hm'
    have ⟨n, hm, _, hsyn⟩ := exists_namesake h' h (sameClauses_of_gathered h hl).symm hm'
    exact hsyn.symm.trans (hw n hm)
  rw [display_eq, display_eq, ← writtenLines_of_no_helper hw, ← writtenLines_of_no_helper hw',
    writtenLines_eq_of_gathered h h' hl]

theorem readsBackAs_of_gathered : g.ReadsBackAs g' := by
  have hsame := sameClauses_of_gathered h hl
  constructor
  case rootName => exact (rootName_eq h h' hsame).symm
  case terminals =>
    intro name
    simp only [List.mem_map, (census_of_ofLines h).terminal, (census_of_ofLines h').terminal,
      hsame.usesItem_iff]
  case nonterminals =>
    intro name
    simp only [List.mem_map]
    constructor
    · rintro ⟨n', hm', rfl⟩
      exact namesIn_of_sameClauses h' h hsame.symm n' hm'
    · rintro ⟨n, hm, rfl⟩
      exact namesIn_of_sameClauses h h' hsame n hm
  case written => exact writtenLines_eq_of_gathered h h' hl
  case helpers => exact fun _ => mem_helperLines_iff_of_gathered h h' hl
  case display => exact display_eq_of_gathered h h' hl

end

-- What is displayed has one line for each rule. The lines of the rules that are written down can be read
-- by themselves.
theorem readsBackAs_of_ofBytes {source : List UInt8} (h : ofBytes file source = .ok g)
    (file' : Option String) :
    (textLines g.display.toList = g.rules.map fun rule => (g.ruleText rule).toList) ∧
      ∃ g', ofBytes file' (encode (linesText g.writtenLines)) = .ok g' ∧ g.ReadsBackAs g' := by
  refine ⟨textLines_display h, ?_⟩
  rw [ofBytes, sourceLines_writtenLines h]
  have ⟨g', h'⟩ := exists_ofLines_writtenLines h file'
  exact ⟨g', h', readsBackAs_of_gathered h h' (linesOf_writtenLines h)⟩

-- The root has the name of a terminal, a literal is an arrow and one a bar, one alternative is empty, one
-- rule has none at all, and the helper of `start` comes in another place when it is made anew.
theorem readsBackAs_of_arrows_and_bars :
    ∃ g g',
      ofBytes none (encode (linesText
        ["start → B start | \"→\"* B", "B -> \"|\" \"->\" | 0", "C", "|", "B → 0 | start?"])) = .ok g ∧
      g.helperLines = ["\"→\"* → \"→\"* \"→\" | 0", "start? → start | 0"] ∧
      ofBytes none (encode (linesText
        ["start → B start | \"→\"* B", "B → \"|\" \"->\" | 0 | start?", "C → "])) = .ok g' ∧
      g.ReadsBackAs g' := by
  obtain ⟨g, hg, hhelpers, hwritten⟩ : ∃ g,
      ofBytes none (encode (linesText
        ["start → B start | \"→\"* B", "B -> \"|\" \"->\" | 0", "C", "|", "B → 0 | start?"])) = .ok g ∧
      g.helperLines = ["\"→\"* → \"→\"* \"→\" | 0", "start? → start | 0"] ∧
      g.writtenLines = ["start → B start | \"→\"* B", "B → \"|\" \"->\" | 0 | start?", "C → "] :=
    exists_of_ofLines (by decide +kernel)
  have ⟨_, g', hg', hback⟩ := readsBackAs_of_ofBytes hg none
  exact ⟨g, g', hg, hhelpers, hwritten ▸ hg', hback⟩

end LineGrammar.Grammar
