import LineGrammar.Proofs.Census
import LineGrammar.Proofs.Recogniser

/-!
What the words of a source are made of. There is neither white space nor a number sign in them, and the
names of a grammar are made of such words.
-/

namespace LineGrammar

namespace Ranges

variable {ranges others : Ranges} {code : Nat} {c : Char}

def Apart (ranges others : Ranges) : Prop :=
  ∀ range ∈ ranges, ∀ other ∈ others, range.2 < other.1 ∨ other.2 < range.1

instance : Decidable (Apart ranges others) :=
  inferInstanceAs (Decidable (∀ range ∈ ranges, ∀ other ∈ others, range.2 < other.1 ∨ other.2 < range.1))

theorem exists_of_coversCode (h : ranges.coversCode code) :
    ∃ range ∈ ranges, range.1 ≤ code ∧ code ≤ range.2 := by
  induction ranges
  case nil => simp [coversCode] at h
  case cons range rest ih =>
    rw [coversCode] at h
    split at h
    case isTrue => cases h
    case isFalse hfirst =>
      rw [Bool.or_eq_true, decide_eq_true_eq] at h
      cases h
      case inl hlast => exact ⟨range, List.mem_cons_self, Nat.not_lt.mp hfirst, hlast⟩
      case inr hrest =>
        have ⟨other, hm, hb⟩ := ih hrest
        exact ⟨other, List.mem_cons_of_mem _ hm, hb⟩

theorem Apart.covers_eq_false (h : ranges.Apart others) (hc : others.covers c) :
    ranges.covers c = false := by
  by_contra hr
  have ⟨range, hm, hfirst, hlast⟩ := exists_of_coversCode (Bool.not_eq_false _ ▸ hr)
  have ⟨other, hm', hfirst', hlast'⟩ := exists_of_coversCode hc
  have := h range hm other hm'
  omega

end Ranges

theorem apart_blank_alphabetic : blank.Apart alphabetic := by
  decide +kernel

theorem apart_blank_numeral : blank.Apart numeral := by
  decide +kernel

theorem isBlank_eq_false_of_continuesIdentifier {c : Char} (h : continuesIdentifier c) :
    isBlank c = false := by
  simp only [continuesIdentifier, Bool.or_eq_true, beq_iff_eq] at h
  obtain (h | h) | rfl := h
  · exact apart_blank_alphabetic.covers_eq_false h
  · exact apart_blank_numeral.covers_eq_false h
  · decide

def Unbroken (text : List Char) : Prop :=
  ∀ c ∈ text, isBlank c = false ∧ c ≠ '#'

structure IsLexeme (text : List Char) : Prop where
  ne_nil   : text ≠ []
  unbroken : Unbroken text
  ne_bar   : text ≠ ['|']

section

variable {text right before after : List Char} {c : Char}

theorem Unbroken.mono (h : Unbroken text) (hsub : ∀ c ∈ before, c ∈ text) : Unbroken before :=
  fun c hc => h c (hsub c hc)

theorem Unbroken.not_mem_of_isBlank (h : Unbroken text) (hc : isBlank c) : c ∉ text := by
  intro hm
  simp [(h c hm).left] at hc

theorem unbroken_of_isIdentifier (h : isIdentifier text) : Unbroken text := by
  intro c hc
  have hcontinues := continuesIdentifier_of_mem h hc
  refine ⟨isBlank_eq_false_of_continuesIdentifier hcontinues, ?_⟩
  rintro rfl
  exact absurd hcontinues (by decide)

theorem mem_of_mem_trim (h : c ∈ trim text) : c ∈ text := by
  simp only [trim, trimEnd, trimStart, List.mem_reverse] at h
  have h := (List.dropWhile_suffix _).subset h
  rw [List.mem_reverse] at h
  exact (List.dropWhile_suffix _).subset h

namespace Line

theorem hash_not_mem_stripComment : '#' ∉ stripComment text := by
  intro h
  have := List.all_eq_true.mp List.all_takeWhile '#' (mem_of_mem_trim h)
  simp at this

theorem HeadParts.mem_of_mem_right {content name : List Char} (h : HeadParts content name right)
    (hc : c ∈ right) : c ∈ content := by
  cases h
  case arrow first        => simp [first.text_eq, hc]
  case asciiArrow _ first => simp [first.text_eq, hc]
  case bare               => simp at hc

theorem HasRight.mem_stripComment (h : HasRight text right) (hc : c ∈ right) :
    c ∈ stripComment text := by
  cases h
  case inl h =>
    rw [IsContinuation] at h
    exact h ▸ List.mem_cons_of_mem _ hc
  case inr h =>
    obtain ⟨_, _, hp⟩ := h
    exact hp.mem_of_mem_right hc

end Line

theorem isLexeme_of_mem_words {word : List Char} (hh : '#' ∉ text) (h : word ∈ words text)
    (hb : word ≠ ['|']) : IsLexeme word := by
  have ⟨hsplit, hne⟩ := List.mem_filter.mp h
  have hall := mem_and_of_mem_splitOnP hsplit
  refine ⟨by simpa using hne, fun c hc => ⟨(hall c hc).right, ?_⟩, hb⟩
  rintro rfl
  exact hh (hall '#' hc).left

theorem Line.isLexeme_of_mem_texts {texts : List (List Char)} (h : texts ∈ (ofText text).texts) :
    ∀ word ∈ texts, IsLexeme word := by
  intro word hw
  have ⟨right, hright, ⟨hbar, before, after, he, _, _⟩, _⟩ := mem_texts_ofText_iff.mp h
  have hhash : '#' ∉ right := fun hh => hash_not_mem_stripComment (hright.mem_stripComment hh)
  exact isLexeme_of_mem_words hhash (by simp [he, hw]) (fun he => hbar (he ▸ hw))

theorem exists_ofText_of_mem_linesOf {lines : List (Option (List Char))} {line : Line}
    (h : line ∈ linesOf lines) : ∃ text, line = Line.ofText text := by
  have ⟨source, _, hs⟩ := List.mem_filterMap.mp h
  have ⟨text, _, he⟩ := Option.map_eq_some_iff.mp hs
  exact ⟨text, he.symm⟩

end

section

variable {lines : List (Option (List Char))} {clause : Clause} {word : Word}

theorem isLexeme_of_mem_clauses (h : clause ∈ clausesFrom none (linesOf lines)) :
    ∀ text ∈ clause.texts, IsLexeme text := by
  have ⟨line, hm, ht⟩ := exists_line_of_mem_clausesFrom h
  obtain ⟨text, rfl⟩ := exists_ofText_of_mem_linesOf hm
  exact Line.isLexeme_of_mem_texts ht

theorem unbroken_of_usesWord (h : UsesWord (clausesFrom none (linesOf lines)) word) :
    Unbroken word.text := by
  have ⟨clause, hc, words, hw, hm⟩ := h
  have ⟨_, ht⟩ := (mem_iff_of_alternativeOfTexts hw).mp hm
  exact (isLexeme_of_mem_clauses hc _ ht).unbroken

theorem unbroken_of_usesItem {item : Item} (h : UsesItem (clausesFrom none (linesOf lines)) item) :
    Unbroken item.name.toList := by
  obtain ⟨word, hu, rfl⟩ := h
  exact (unbroken_of_usesWord hu).mono fun c hc => List.mem_append_left _ hc

namespace Grammar

variable {g : Grammar} {file : Option String}

theorem unbroken_of_mem_terminals (h : ofLines file lines = .ok g) {t : Terminal}
    (ht : t ∈ g.symbols.terminals) : Unbroken t.name.toList :=
  unbroken_of_usesItem (((census_of_ofLines h).terminal t).mp ht)

theorem unbroken_of_mem_nonterminals (h : ofLines file lines = .ok g) {n : Nonterminal}
    (hn : n ∈ g.symbols.nonterminals) : Unbroken n.name.toList := by
  have hw := (sound_of_ofLines h).symbols.nonterminal n hn
  cases hs : n.synthetic
  case false => exact unbroken_of_isIdentifier (hw.identifier hs)
  case true =>
    have ⟨item, repetition, hi, he⟩ := hw.repeated hs
    rw [he]
    exact unbroken_of_usesWord (((census_of_ofLines h).helper item repetition hi).mp ⟨n, hn, hs, he⟩)

end Grammar
end
end LineGrammar
