import LineGrammar.Proofs.Content
import LineGrammar.Proofs.Correspondence

/-!
The line that displays a rule. It is read as the head and the alternatives that it was made of, whatever
arrows and bars there are in the literals.
-/

namespace LineGrammar

def headLine (name right : List Char) : List Char :=
  name ++ [' ', '→', ' '] ++ right

def ruleLine (name : List Char) (alternatives : List (List (List Char))) : List Char :=
  name ++ [' ', '→', ' '] ++ [' ', '|', ' '].intercalate (alternatives.map [' '].intercalate)

structure IsRow (texts : List (List Char)) : Prop where
  ne_nil  : texts ≠ []
  lexemes : ∀ text ∈ texts, IsLexeme text

section

variable {name right : List Char} {texts : List (List Char)} {alternatives : List (List (List Char))}
variable {c : Char}

theorem words_intercalate (h : ∀ text ∈ texts, IsLexeme text) :
    words ([' '].intercalate texts) = texts := by
  induction texts
  case nil => exact words_nil
  case cons text rest ih =>
    rw [List.forall_mem_cons] at h
    have htext := words_singleton h.left.ne_nil fun c hc => (h.left.unbroken c hc).left
    cases rest
    case nil => simpa using htext
    case cons =>
      rw [List.intercalate_cons_cons, List.append_assoc, List.singleton_append,
        words_append_blank (by decide), htext, ih h.right, List.singleton_append]

theorem words_append_bar (before after : List Char) :
    words (before ++ [' ', '|', ' '] ++ after) = words before ++ [['|']] ++ words after := by
  have hblank : isBlank ' ' := by decide
  have hbar : words ['|'] = [['|']] := by decide
  have he : before ++ [' ', '|', ' '] ++ after = before ++ ' ' :: (['|'] ++ ' ' :: after) := by simp
  rw [he, words_append_blank hblank, words_append_blank hblank, hbar, List.append_assoc]

theorem words_intercalate_bar (h : ∀ texts ∈ alternatives, IsRow texts) :
    words ([' ', '|', ' '].intercalate (alternatives.map [' '].intercalate)) =
      [['|']].intercalate alternatives := by
  induction alternatives
  case nil => exact words_nil
  case cons texts rest ih =>
    rw [List.forall_mem_cons] at h
    have htexts := words_intercalate h.left.lexemes
    cases rest
    case nil => simpa using htexts
    case cons =>
      rw [List.map_cons, List.intercalate_cons_of_ne_nil (by simp),
        List.intercalate_cons_of_ne_nil (by simp), words_append_bar, htexts, ih h.right]

theorem Line.splitAlternatives_of_words (h : ∀ texts ∈ alternatives, IsRow texts)
    (hw : words right = [['|']].intercalate alternatives) :
    splitAlternatives right = alternatives := by
  rw [splitAlternatives_eq_iff]
  by_cases hn : alternatives = []
  case pos => exact ⟨[[]], by simp, by simp, by simp [hw, hn], by simp [hn]⟩
  case neg =>
    -- No word of an alternative is a bar, so the alternatives are the pieces.
    refine ⟨alternatives, hn, fun texts ht hm => ((h texts ht).lexemes _ hm).ne_bar rfl, hw, Eq.symm ?_⟩
    exact List.filter_eq_self.mpr fun texts ht => by simpa using (h texts ht).ne_nil

theorem mem_ruleLine (h : c ∈ ruleLine name alternatives) :
    c ∈ [' ', '→', '|'] ∨ c ∈ name ∨ ∃ texts ∈ alternatives, ∃ text ∈ texts, c ∈ text := by
  have harrow : [' ', '→', ' '] ⊆ [' ', '→', '|'] := by simp
  have hbar : [' ', '|', ' '] ⊆ [' ', '→', '|'] := by simp
  have hspace : [' '] ⊆ [' ', '→', '|'] := by simp
  rw [ruleLine, List.mem_append, List.mem_append] at h
  obtain (h | h) | h := h
  · exact .inr (.inl h)
  · exact .inl (harrow h)
  · obtain h | ⟨part, hp, h⟩ := mem_or_exists_of_mem_intercalate h
    · exact .inl (hbar h)
    · obtain ⟨texts, ht, rfl⟩ := List.mem_map.mp hp
      obtain h | ⟨text, hm, h⟩ := mem_or_exists_of_mem_intercalate h
      · exact .inl (hspace h)
      · exact .inr (.inr ⟨texts, ht, text, hm, h⟩)

-- Nothing in a line starts a comment, and spaces are all the white space there is.
theorem ne_hash_and_eq_space_of_mem_ruleLine (hn : Unbroken name)
    (ha : ∀ texts ∈ alternatives, ∀ text ∈ texts, Unbroken text) (h : c ∈ ruleLine name alternatives) :
    c ≠ '#' ∧ (isBlank c → c = ' ') := by
  have hunbroken : ∀ {text}, Unbroken text → c ∈ text → c ≠ '#' ∧ (isBlank c → c = ' ') := by
    intro text hu hc
    exact ⟨(hu c hc).right, fun hb => absurd hc (hu.not_mem_of_isBlank hb)⟩
  obtain h | h | ⟨texts, ht, text, hm, h⟩ := mem_ruleLine h
  · simp only [List.mem_cons, List.not_mem_nil, or_false] at h
    obtain rfl | rfl | rfl := h
    all_goals exact ⟨by decide, by decide⟩
  · exact hunbroken hn h
  · exact hunbroken (ha texts ht text hm) h

theorem exists_first_of_isIdentifier (hn : isIdentifier name) :
    ∃ first rest, name = first :: rest ∧ continuesIdentifier first := by
  cases name
  case nil             => simp [isIdentifier] at hn
  case cons first rest => exact ⟨first, rest, rfl, continuesIdentifier_of_mem hn List.mem_cons_self⟩

namespace Line

theorem trim_append_space (hn : isIdentifier name) : trim (name ++ [' ']) = name := by
  have hu := unbroken_of_isIdentifier hn
  obtain ⟨first, rest, rfl, hfirst⟩ := exists_first_of_isIdentifier hn
  have hlast := List.getLast?_eq_some_getLast (List.cons_ne_nil first rest)
  have hend : trimEnd [' '] = [] := by decide
  rw [trim_append rfl (isBlank_eq_false_of_continuesIdentifier hfirst) hlast
    (hu _ (List.getLast_mem _)).left, hend, List.append_nil]

-- An identifier has no arrow in it, so the first arrow is the one that follows the name.
theorem firstAt_arrow_headLine (hn : isIdentifier name) (right : List Char) :
    FirstAt arrow (headLine name right) (name ++ [' ']) (' ' :: right) := by
  have hfirst : '→' ∉ name ++ [' '] := by
    intro hm
    obtain hm | hm := List.mem_append.mp hm
    · exact absurd (continuesIdentifier_of_mem hn hm) (by decide +kernel)
    · simp at hm
  have hline : headLine name right = name ++ [' '] ++ ['→'] ++ ' ' :: right := by simp [headLine]
  exact hline ▸ firstAt_cons hfirst

theorem head?_trimStart_ne_bar (hn : isIdentifier name) (rest : List Char) :
    (trimStart (name ++ rest)).head? ≠ some '|' := by
  obtain ⟨first, others, rfl, hfirst⟩ := exists_first_of_isIdentifier hn
  have hblank := isBlank_eq_false_of_continuesIdentifier hfirst
  rw [trimStart, List.cons_append, List.dropWhile_cons_of_neg (by simp [hblank])]
  rintro ⟨⟩
  exact absurd hfirst (by decide)

theorem ofText_headLine (hn : isIdentifier name) (hr : '#' ∉ right) :
    ofText (headLine name right) = rule name (splitAlternatives right) := by
  have hcomment : '#' ∉ headLine name right := by
    intro hm
    obtain (hm | hm) | hm := (List.mem_append.mp hm).imp_left List.mem_append.mp
    · exact (unbroken_of_isIdentifier hn _ hm).right rfl
    · simp at hm
    · exact hr hm
  rw [ofText_of_mark (takeWhile_ne_hash hcomment) .arrow (firstAt_arrow_headLine hn right)
    (head?_trimStart_ne_bar hn _), trim_append_space hn, splitAlternatives, words_cons_blank (by decide),
    splitAlternatives]

theorem ofText_ruleLine (hn : isIdentifier name) (ha : ∀ texts ∈ alternatives, IsRow texts) :
    ofText (ruleLine name alternatives) = rule name alternatives := by
  have hu := fun texts ht text hm => ((ha texts ht).lexemes text hm).unbroken
  have hhash : '#' ∉ ruleLine name alternatives := fun hm =>
    (ne_hash_and_eq_space_of_mem_ruleLine (unbroken_of_isIdentifier hn) hu hm).left rfl
  have hright := ofText_headLine hn fun hm => hhash (List.mem_append_right _ hm)
  rwa [splitAlternatives_of_words ha (words_intercalate_bar ha)] at hright

end Line
end

def displayTexts (names : List String) : List (List Char) :=
  if names.isEmpty then [['0']] else names.map String.toList

theorem displayTexts_alternativeNames {texts : List (List Char)} (h : texts ≠ []) :
    displayTexts (alternativeNames texts) = texts := by
  unfold alternativeNames
  split
  case isTrue he => exact ((isEpsilonText_iff texts).mp he).symm
  case isFalse   => simp [displayTexts, h, Function.comp_def]

namespace Grammar

variable {g : Grammar} {rule : Rule}

theorem toList_productionText (g : Grammar) (production : Production) :
    (g.productionText production).toList =
      [' '].intercalate (displayTexts (production.symbols.map g.symbols.symbolName)) := by
  unfold productionText displayTexts
  rw [Production.isEpsilon, List.isEmpty_map]
  split
  · rfl
  · exact String.toList_intercalate

def lineNamed (g : Grammar) (name : String) : String :=
  String.ofList (ruleLine name.toList ((g.alternativesNamed name).map displayTexts))

theorem ruleText_eq_lineNamed (hg : g.Sound) (hr : rule ∈ g.rules) {n : Nonterminal}
    (hn : g.symbols.nonterminals[rule.head]? = some n) : g.ruleText rule = g.lineNamed n.name := by
  have hproductions : g.productionsOf rule.head = rule.productions :=
    Rules.productionsOf_of_mem hg.rules.heads_nodup hr
  rw [lineNamed, alternativesNamed_of_getElem? hg hn, hproductions, ruleText,
    SymbolTable.nonterminalName_of_getElem? hn]
  apply String.toList_injective
  simp [ruleLine, toList_productionText, Function.comp_def]

end Grammar
end LineGrammar
