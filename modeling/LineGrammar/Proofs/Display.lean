import LineGrammar.Proofs.Encoding
import LineGrammar.Proofs.RuleLine

/-!
The text in which a grammar is displayed. It has one line for each rule, those of the rules that are written
down and those of the helpers.
-/

namespace LineGrammar

def linesText (lines : List String) : String :=
  String.join (lines.map (· ++ "\n"))

theorem textLines_linesText {lines : List String}
    (h : ∀ line ∈ lines, '\n' ∉ line.toList ∧ '\r' ∉ line.toList) :
    textLines (linesText lines).toList = lines.map String.toList := by
  have he : (linesText lines).toList = (lines.map String.toList).flatMap (· ++ ['\n']) := by
    simp [linesText, List.flatMap_map]
  rw [textLines, he, linesBy_flatMap_append] <;> simp_all

section

variable {name : List Char} {item : Item} {names : List String}

theorem ne_nil_and_ne_bar_of_isIdentifier (h : isIdentifier name) (rest : List Char) :
    name ++ rest ≠ [] ∧ name ++ rest ≠ ['|'] := by
  obtain ⟨first, others, rfl, hfirst⟩ := exists_first_of_isIdentifier h
  refine ⟨by simp, fun he => ?_⟩
  obtain rfl : first = '|' := (List.cons.inj he).left
  exact absurd hfirst (by decide)

theorem ne_nil_and_ne_bar_of_wellFormed (h : item.WellFormed) (rest : List Char) :
    item.name.toList ++ rest ≠ [] ∧ item.name.toList ++ rest ≠ ['|'] := by
  match item, h with
  | .nonterminal name, h       => exact ne_nil_and_ne_bar_of_isIdentifier h.left rest
  | .terminal (.named name), h => exact ne_nil_and_ne_bar_of_isIdentifier h.left rest
  | .terminal (.literal quote inner), _ =>
    cases quote <;> simp [Item.name, Terminal.name, Quote.char]

theorem isRow_displayTexts (h : ∀ name ∈ names, IsLexeme name.toList) : IsRow (displayTexts names) := by
  unfold displayTexts
  split
  case isTrue =>
    refine ⟨by simp, fun text hm => ?_⟩
    rw [List.mem_singleton.mp hm]
    exact ⟨by simp, by simp only [Unbroken, List.forall_mem_singleton]; decide, by decide⟩
  case isFalse hne => exact ⟨by simpa using hne, by simpa using h⟩

end

namespace Grammar

variable {g : Grammar} {file : Option String} {lines : List (Option (List Char))}
variable {line : String} {rule : Rule} {symbol : Symbol} {id : NonterminalId} {n : Nonterminal}

theorem display_eq (g : Grammar) : g.display = linesText (g.rules.map g.ruleText) := by
  simp [display, linesText, Function.comp_def]

def writtenLines (g : Grammar) : List String :=
  (g.rules.filter fun rule => !g.symbols.isSynthetic rule.head).map g.ruleText

def helperLines (g : Grammar) : List String :=
  (g.rules.filter fun rule => g.symbols.isSynthetic rule.head).map g.ruleText

theorem writtenLines_of_no_helper (hw : ∀ n ∈ g.symbols.nonterminals, n.synthetic = false) :
    g.writtenLines = g.rules.map g.ruleText := by
  have hwritten : ∀ id, g.symbols.isSynthetic id = false := by
    intro id
    cases hn : g.symbols.nonterminals[id]?
    case none   => simp [SymbolTable.isSynthetic, hn]
    case some n => rw [SymbolTable.isSynthetic_of_getElem? hn, hw n (List.mem_of_getElem? hn)]
  simp [writtenLines, hwritten]

theorem isLexeme_of_mem_nonterminals (h : ofLines file lines = .ok g) (hn : n ∈ g.symbols.nonterminals) :
    IsLexeme n.name.toList := by
  have hw := (sound_of_ofLines h).symbols.nonterminal n hn
  have hname : n.name.toList ≠ [] ∧ n.name.toList ≠ ['|'] := by
    cases hs : n.synthetic
    case false => simpa using ne_nil_and_ne_bar_of_isIdentifier (hw.identifier hs) []
    case true =>
      obtain ⟨item, repetition, hi, he⟩ := hw.repeated hs
      rw [he]
      exact ne_nil_and_ne_bar_of_wellFormed hi _
  exact ⟨hname.left, unbroken_of_mem_nonterminals h hn, hname.right⟩

theorem isLexeme_of_mem_terminals (h : ofLines file lines = .ok g) {t : Terminal}
    (ht : t ∈ g.symbols.terminals) : IsLexeme t.name.toList := by
  have hwell := (sound_of_ofLines h).symbols.terminal t ht
  have hname := ne_nil_and_ne_bar_of_wellFormed hwell []
  rw [List.append_nil] at hname
  exact ⟨hname.left, unbroken_of_mem_terminals h ht, hname.right⟩

theorem isLexeme_symbolName (h : ofLines file lines = .ok g) (hk : g.symbols.Knows symbol) :
    IsLexeme (g.symbols.symbolName symbol).toList := by
  match symbol, hk with
  | .terminal id, hk =>
    have ht := List.getElem?_eq_getElem hk
    simpa [SymbolTable.symbolName, ht] using isLexeme_of_mem_terminals h (List.mem_of_getElem? ht)
  | .nonterminal id, ⟨n, hn, _⟩ =>
    rw [SymbolTable.symbolName, SymbolTable.nonterminalName_of_getElem? hn]
    exact isLexeme_of_mem_nonterminals h (List.mem_of_getElem? hn)

theorem isRow_of_mem_alternativesNamed (h : ofLines file lines = .ok g)
    (hn : g.symbols.nonterminals[id]? = some n) :
    ∀ texts ∈ (g.alternativesNamed n.name).map displayTexts, IsRow texts := by
  have hg := sound_of_ofLines h
  rw [alternativesNamed_of_getElem? hg hn]
  intro texts ht
  obtain ⟨names, hm, rfl⟩ := List.mem_map.mp ht
  obtain ⟨production, hp, rfl⟩ := List.mem_map.mp hm
  refine isRow_displayTexts fun name hname => ?_
  obtain ⟨symbol, hs, rfl⟩ := List.mem_map.mp hname
  exact isLexeme_symbolName h (hg.known hp hs)

theorem eq_space_of_mem_ruleText (h : ofLines file lines = .ok g) (hr : rule ∈ g.rules) {c : Char}
    (hc : c ∈ (g.ruleText rule).toList) (hb : isBlank c) : c = ' ' := by
  have hg := sound_of_ofLines h
  have ⟨n, hn⟩ := hg.exists_of_mem_rules hr
  rw [ruleText_eq_lineNamed hg hr hn, lineNamed, String.toList_ofList] at hc
  have hname := unbroken_of_mem_nonterminals h (List.mem_of_getElem? hn)
  have hrows := fun texts ht text hm =>
    ((isRow_of_mem_alternativesNamed h hn texts ht).lexemes text hm).unbroken
  exact (ne_hash_and_eq_space_of_mem_ruleLine hname hrows hc).right hb

theorem no_break_in_ruleText (h : ofLines file lines = .ok g) (hr : rule ∈ g.rules) :
    '\n' ∉ (g.ruleText rule).toList ∧ '\r' ∉ (g.ruleText rule).toList := by
  constructor
  · exact fun hc => absurd (eq_space_of_mem_ruleText h hr hc (by decide)) (by decide)
  · exact fun hc => absurd (eq_space_of_mem_ruleText h hr hc (by decide)) (by decide)

theorem textLines_display (h : ofLines file lines = .ok g) :
    textLines g.display.toList = g.rules.map fun rule => (g.ruleText rule).toList := by
  rw [display_eq, textLines_linesText, List.map_map]
  · rfl
  · intro line hm
    obtain ⟨rule, hr, rfl⟩ := List.mem_map.mp hm
    exact no_break_in_ruleText h hr

theorem sourceLines_writtenLines (h : ofLines file lines = .ok g) :
    sourceLines (encode (linesText g.writtenLines)) = g.writtenLines.map (some ·.toList) := by
  rw [sourceLines_encode, textLines_linesText, List.map_map]
  · rfl
  · intro line hm
    obtain ⟨rule, hr, rfl⟩ := List.mem_map.mp hm
    exact no_break_in_ruleText h (List.mem_of_mem_filter hr)

theorem mem_helperLines_iff (hg : g.Sound) : line ∈ g.helperLines ↔
    ∃ n ∈ g.symbols.nonterminals, n.synthetic = true ∧ line = g.lineNamed n.name := by
  simp only [helperLines, List.mem_map, List.mem_filter]
  constructor
  case mp =>
    rintro ⟨rule, ⟨hr, hs⟩, rfl⟩
    have ⟨n, hn⟩ := hg.exists_of_mem_rules hr
    rw [SymbolTable.isSynthetic_of_getElem? hn] at hs
    exact ⟨n, List.mem_of_getElem? hn, hs, ruleText_eq_lineNamed hg hr hn⟩
  case mpr =>
    rintro ⟨n, hm, hs, rfl⟩
    have ⟨id, hn⟩ := List.mem_iff_getElem?.mp hm
    obtain ⟨rule, hr, rfl⟩ := Rules.hasHead_iff.mp (hg.hasHead_of_synthetic hn hs)
    exact ⟨rule, ⟨hr, (SymbolTable.isSynthetic_of_getElem? hn).trans hs⟩, ruleText_eq_lineNamed hg hr hn⟩

end Grammar
end LineGrammar
