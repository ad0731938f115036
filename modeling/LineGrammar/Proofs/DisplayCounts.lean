import LineGrammar.Load
import LineGrammar.Proofs.Display
import LineGrammar.Proofs.Reduced

/-!
Counting what is displayed. Of a grammar that has passed the checks, the displayed lines are as many as the
nonterminals, and the alternatives in them are as many as the productions.
-/

namespace LineGrammar

def displayedAlternatives (line : List Char) : List (List (List Char)) :=
  (((words line).drop 2).splitOn ['|']).filter (!·.isEmpty)

def displayedLineCount (text : String) : Nat :=
  (textLines text.toList).length

def displayedAlternativeCount (text : String) : Nat :=
  ((textLines text.toList).flatMap displayedAlternatives).length

section

variable {name : List Char} {alternatives : List (List (List Char))}

theorem words_ruleLine (hn : IsLexeme name) (ha : ∀ texts ∈ alternatives, IsRow texts) :
    words (ruleLine name alternatives) = name :: ['→'] :: [['|']].intercalate alternatives := by
  have hname : words name = [name] := words_singleton hn.ne_nil fun c hc => (hn.unbroken c hc).left
  have harrow : words ['→'] = [['→']] := by decide
  have hline : ruleLine name alternatives =
      name ++ ' ' :: (['→'] ++ ' ' :: [' ', '|', ' '].intercalate (alternatives.map [' '].intercalate)) := by
    simp [ruleLine]
  rw [hline, words_append_blank (by decide), words_append_blank (by decide), hname, harrow,
    words_intercalate_bar ha]
  rfl

theorem displayedAlternatives_ruleLine (hn : IsLexeme name) (ha : ∀ texts ∈ alternatives, IsRow texts) :
    displayedAlternatives (ruleLine name alternatives) = alternatives := by
  have hwords := words_intercalate_bar ha
  rw [displayedAlternatives, words_ruleLine hn ha, List.drop_succ_cons, List.drop_succ_cons, List.drop_zero,
    ← hwords]
  exact Line.splitAlternatives_of_words ha hwords

example : displayedAlternatives "'→'+ → '|' b | 0".toList = [["'|'".toList, ['b']], [['0']]] := by
  decide +kernel

end

namespace Grammar

variable {g : Grammar} {file : Option String} {lines : List (Option (List Char))} {rule : Rule}

structure CountsDisplay (g : Grammar) : Prop where
  lines        : displayedLineCount g.display = g.nonterminalCount
  alternatives : displayedAlternativeCount g.display = g.productionCount

theorem displayedAlternatives_ruleText (h : ofLines file lines = .ok g) (hr : rule ∈ g.rules) :
    displayedAlternatives (g.ruleText rule).toList = rule.productions.map fun production =>
      displayTexts (production.symbols.map g.symbols.symbolName) := by
  have hg := sound_of_ofLines h
  have ⟨n, hn⟩ := hg.exists_of_mem_rules hr
  have hproductions : g.productionsOf rule.head = rule.productions :=
    Rules.productionsOf_of_mem hg.rules.heads_nodup hr
  have hrows := isRow_of_mem_alternativesNamed h hn
  rw [ruleText_eq_lineNamed hg hr hn, lineNamed, String.toList_ofList,
    displayedAlternatives_ruleLine (isLexeme_of_mem_nonterminals h (List.mem_of_getElem? hn)) hrows,
    alternativesNamed_of_getElem? hg hn, List.map_map, hproductions]
  rfl

theorem displayedAlternativeCount_display (h : ofLines file lines = .ok g) :
    displayedAlternativeCount g.display = g.productionCount := by
  have hlines : ((g.rules.map fun rule => (g.ruleText rule).toList).flatMap displayedAlternatives) =
      g.rules.flatMap fun rule => rule.productions.map fun production =>
        displayTexts (production.symbols.map g.symbols.symbolName) := by
    rw [List.flatMap_map]
    exact List.flatMap_congr fun rule hr => displayedAlternatives_ruleText h hr
  rw [displayedAlternativeCount, textLines_display h, hlines, ← List.map_flatMap, List.length_map]
  rfl

theorem length_rules (hg : g.Sound) (hc : g.checkRuleLists = .ok ()) :
    g.rules.length = g.nonterminalCount := by
  have hmem : ∀ id, id ∈ g.rules.map Rule.head ↔ id ∈ g.nonterminalIds := by
    intro id
    have hhead : id ∈ g.rules.map Rule.head ↔ g.rules.hasHead id := by simp
    rw [hhead, hg.rules.defined, nonterminalIds, List.mem_range]
    constructor
    case mp =>
      rintro ⟨n, hn, _⟩
      exact lt_length_of_getElem? hn
    case mpr =>
      intro hlt
      have hn := List.getElem?_eq_getElem hlt
      exact ⟨_, hn, (checkRuleLists_eq_ok_iff.mp hc id _ hn).left⟩
  have hperm := (List.perm_ext_iff_of_nodup hg.rules.heads_nodup List.nodup_range).mpr hmem
  simpa [nonterminalIds] using hperm.length_eq

theorem countsDisplay_of_load {source : List UInt8} (h : load file source = .ok g) : g.CountsDisplay := by
  obtain ⟨hread, hvalid⟩ := load_eq_ok_iff.mp h
  have hc := (validate_eq_ok_iff.mp hvalid).right.left
  refine ⟨?lines, displayedAlternativeCount_display hread⟩
  rw [displayedLineCount, textLines_display hread, List.length_map, length_rules (sound_of_ofLines hread) hc]

end Grammar
end LineGrammar
