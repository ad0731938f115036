import LineGrammar.Proofs.Reading
import LineGrammar.Proofs.Writing

/-!
The reader accepts exactly the sources that are written as they should be. Whether a line is accepted
depends on its own text and on the rule head before it, and on nothing else that has been read.
-/

namespace LineGrammar

namespace Line

variable {text right run : List Char} {active : Option String}

theorem mem_splitAlternatives_iff {right : List Char} {run : List (List Char)} :
    run ∈ splitAlternatives right ↔ IsRun ['|'] (words right) run ∧ run ≠ [] := by
  simp [splitAlternatives, mem_splitOn_iff]

theorem blank_or_continuation_or_head (text : List Char) :
    stripComment text = [] ∨ (∃ right, IsContinuation text right) ∨ IsHead text := by
  cases h : stripComment text
  case nil => exact .inl rfl
  case cons c rest =>
    by_cases hc : c = '|'
    case pos =>
      subst hc
      exact .inr (.inl ⟨rest, h⟩)
    case neg => exact .inr (.inr ⟨by simp [h], by simp [h, hc]⟩)

theorem IsContinuation.not_isHead (h : IsContinuation text right) : ¬IsHead text := by
  intro ⟨_, hb⟩
  rw [IsContinuation] at h
  simp [h] at hb

theorem exists_headParts (content : List Char) : ∃ name right, HeadParts content name right :=
  ⟨_, _, headParts_iff.mpr ⟨rfl, rfl⟩⟩

theorem HeadParts.unique {content name right name' right' : List Char}
    (h : HeadParts content name right) (h' : HeadParts content name' right') :
    name = name' ∧ right = right' := by
  obtain ⟨rfl, rfl⟩ := headParts_iff.mp h
  exact headParts_iff.mp h'

theorem head?_ofText_eq_some_iff {name : String} :
    (ofText text).head? = some name ↔
      IsHead text ∧ ∃ right, HeadParts (stripComment text) name.toList right := by
  obtain h | ⟨right, h⟩ | h := blank_or_continuation_or_head text
  · simp [ofText_of_blank h, head?, IsHead, h]
  · simp [ofText_of_isContinuation h, head?, h.not_isHead]
  · obtain ⟨head, right, hp⟩ := exists_headParts (stripComment text)
    simp only [ofText_of_isHead h hp, head?, h, true_and, Option.some.injEq]
    constructor
    · rintro rfl
      exact ⟨right, by simpa using hp⟩
    · rintro ⟨right', hp'⟩
      rw [(hp.unique hp').left, String.ofList_toList]

theorem head?_ofText_eq_none_iff : (ofText text).head? = none ↔ ¬IsHead text := by
  rw [Option.eq_none_iff_forall_ne_some]
  simp only [ne_eq, head?_ofText_eq_some_iff, not_and]
  constructor
  · intro h hh
    have ⟨name, right, hp⟩ := exists_headParts (stripComment text)
    exact h (String.ofList name) hh ⟨right, by simpa using hp⟩
  · exact fun hn _ hh => absurd hh hn

theorem mem_texts_ofText_iff {run : List (List Char)} :
    run ∈ (ofText text).texts ↔
      ∃ right, HasRight text right ∧ IsRun ['|'] (words right) run ∧ run ≠ [] := by
  obtain h | ⟨right, h⟩ | h := blank_or_continuation_or_head text
  · simp [ofText_of_blank h, texts, HasRight, IsContinuation, IsHead, h]
  · rw [ofText_of_isContinuation h, texts, mem_splitAlternatives_iff]
    constructor
    · exact fun hr => ⟨right, .inl h, hr⟩
    · rintro ⟨right', h' | h', hr⟩
      · cases h.symm.trans h'
        exact hr
      · exact absurd h'.left h.not_isHead
  · obtain ⟨name, right, hp⟩ := exists_headParts (stripComment text)
    rw [ofText_of_isHead h hp, texts, mem_splitAlternatives_iff]
    constructor
    · exact fun hr => ⟨right, .inr ⟨h, name, hp⟩, hr⟩
    · rintro ⟨right', h' | ⟨_, name', hp'⟩, hr⟩
      · exact absurd h h'.not_isHead
      · rwa [(hp.unique hp').right]

theorem mem_clauses_iff {line : Line} {clause : Clause} :
    clause ∈ line.clauses active ↔
      line.head?.or active = some clause.head ∧ clause.texts ∈ line.texts := by
  unfold clauses
  split
  case h_1 head h =>
    rw [h, Option.some.injEq, List.mem_map]
    constructor
    · rintro ⟨texts, hm, rfl⟩
      exact ⟨rfl, hm⟩
    · rintro ⟨rfl, hm⟩
      exact ⟨_, hm, rfl⟩
  case h_2 h => simp [h]

theorem fault?_ofText_eq_none_iff :
    (ofText text).fault? active = none ↔
      (∀ right, IsContinuation text right → active ≠ none) ∧
      (∀ name, (ofText text).head? = some name → isIdentifier name.toList) ∧
      ∀ clause ∈ (ofText text).clauses active, clause.fault? = none := by
  obtain h | ⟨right, h⟩ | h := blank_or_continuation_or_head text
  · have hc : ∀ right, ¬IsContinuation text right := by simp [IsContinuation, h]
    simp [ofText_of_blank h, fault?, hc, mem_clauses_iff, texts, head?]
  · have hc : (∀ right, IsContinuation text right → active ≠ none) ↔ active ≠ none :=
      ⟨fun hn => hn right h, fun hn _ _ => hn⟩
    rw [hc, ofText_of_isContinuation h]
    cases active <;> simp [fault?, head?]
  · have hc : ∀ right, ¬IsContinuation text right := fun _ hr => hr.not_isHead h
    obtain ⟨name, right, hp⟩ := exists_headParts (stripComment text)
    rw [ofText_of_isHead h hp]
    cases hi : isIdentifier name <;> simp [fault?, head?, hc, hi]

end Line

theorem firstFault?_eq_none_iff {active : Option String} {number : Nat} {lines : List Line} :
    firstFault? active number lines = none ↔
      ∀ before line after, lines = before ++ line :: after →
        line.fault? ((headNames before).getLast?.or active) = none := by
  induction lines generalizing active number
  case nil => simp [firstFault?]
  case cons first rest ih =>
    constructor
    case mp =>
      intro h before line after he
      rw [firstFault?] at h
      split at h
      case h_1 => cases h
      case h_2 hf =>
        cases before
        case nil =>
          obtain ⟨rfl, rfl⟩ := List.cons.inj he
          exact hf
        case cons head before =>
          obtain ⟨rfl, rfl⟩ := List.cons.inj he
          rw [getLast?_headNames_cons_or]
          exact ih.mp h before line after rfl
    case mpr =>
      intro h
      have hf : first.fault? active = none := h [] first rest rfl
      rw [firstFault?, hf]
      refine ih.mpr fun before line after he => ?_
      rw [← getLast?_headNames_cons_or]
      exact h (first :: before) line after (by simp [he])

variable {texts before : List (List Char)} {text name : List Char}

def ActiveHead (texts : List (List Char)) (name : List Char) : Prop :=
  ∃ before text after right, texts = before ++ text :: after ∧ Line.IsHead text ∧
    Line.HeadParts (Line.stripComment text) name right ∧ ∀ later ∈ after, ¬Line.IsHead later

theorem getLast?_headNames_eq_some_iff :
    (headNames (texts.map Line.ofText)).getLast? = some (String.ofList name) ↔
      ActiveHead texts name := by
  rw [headNames, List.filterMap_map, List.getLast?_filterMap, List.findSome?_eq_some_iff]
  simp only [Function.comp_apply, Line.head?_ofText_eq_some_iff, Line.head?_ofText_eq_none_iff,
    String.toList_ofList]
  constructor
  case mp =>
    rintro ⟨after, text, before, he, ⟨hh, right, hp⟩, hn⟩
    exact ⟨before.reverse, text, after.reverse, right, by simpa using congrArg List.reverse he, hh, hp,
      by simpa using hn⟩
  case mpr =>
    rintro ⟨before, text, after, right, rfl, hh, hp, hn⟩
    exact ⟨after.reverse, text, before.reverse, by simp, ⟨hh, right, hp⟩, by simpa using hn⟩

theorem headNames_ne_nil_iff :
    headNames (texts.map Line.ofText) ≠ [] ↔ ∃ text ∈ texts, Line.IsHead text := by
  simp [headNames, Line.head?_ofText_eq_none_iff]

theorem getLast?_headNames_ne_none_iff :
    (headNames (texts.map Line.ofText)).getLast? ≠ none ↔ ∃ text ∈ texts, Line.IsHead text := by
  rw [Ne, List.getLast?_eq_none_iff, ← headNames_ne_nil_iff]

theorem exists_activeHead (h : ∃ text ∈ texts, Line.IsHead text) : ∃ name, ActiveHead texts name := by
  have hne := headNames_ne_nil_iff.mpr h
  have hlast := List.getLast?_eq_some_getLast hne
  refine ⟨((headNames (texts.map Line.ofText)).getLast hne).toList, ?_⟩
  rwa [← getLast?_headNames_eq_some_iff, String.ofList_toList]

theorem getLast?_headNames_append :
    (headNames ((before ++ [text]).map Line.ofText)).getLast? =
      (Line.ofText text).head?.or (headNames (before.map Line.ofText)).getLast? := by
  have hnil : headNames [] = [] := rfl
  rw [List.map_append, headNames_append, List.map_singleton, headNames_cons, hnil, List.append_nil,
    getLast?_append_toList]

theorem firstFault?_ofText_eq_none_iff {number : Nat} :
    firstFault? none number (texts.map Line.ofText) = none ↔
      ∀ before text after, texts = before ++ text :: after →
        (Line.ofText text).fault? (headNames (before.map Line.ofText)).getLast? = none := by
  rw [firstFault?_eq_none_iff]
  constructor
  case mp =>
    rintro h before text after rfl
    simpa using h (before.map Line.ofText) (Line.ofText text) (after.map Line.ofText) (by simp)
  case mpr =>
    intro h before line after he
    obtain ⟨front, rest, rfl, rfl, hr⟩ := List.map_eq_append_iff.mp he
    obtain ⟨text, back, rfl, rfl, rfl⟩ := List.map_eq_cons_iff.mp hr
    simpa using h front text back rfl

-- How a source has to be written. A line is looked at by itself, except that a continuation needs some
-- rule head before it, and that no alternative is just the name in the last rule head.
structure Conforms (texts : List (List Char)) : Prop where
  some_head    : ∃ text ∈ texts, Line.IsHead text
  headed       : ∀ before text after, texts = before ++ text :: after →
    ∀ right, Line.IsContinuation text right → ∃ head ∈ before, Line.IsHead head
  head_name    : ∀ text ∈ texts, Line.IsHead text →
    ∃ name right, Line.HeadParts (Line.stripComment text) name right ∧ isIdentifier name
  alternatives : ∀ text ∈ texts, ∀ right, Line.HasRight text right →
    ∀ run, IsRun ['|'] (words right) run → run ≠ [] → IsAlternative run
  not_itself   : ∀ before text after, texts = before ++ text :: after →
    ∀ name, ActiveHead (before ++ [text]) name → NamesNonterminal name →
    ∀ right, Line.HasRight text right → ¬IsRun ['|'] (words right) [name]

theorem clauses_ofText_iff {active : Option String} :
    (∀ clause ∈ (Line.ofText text).clauses active, clause.fault? = none) ↔
      ∀ name, (Line.ofText text).head?.or active = some (String.ofList name) →
        ∀ right, Line.HasRight text right → ∀ run, IsRun ['|'] (words right) run → run ≠ [] →
          IsAlternative run ∧ ¬(NamesNonterminal name ∧ run = [name]) := by
  simp only [Line.mem_clauses_iff, Line.mem_texts_ofText_iff, Clause.fault?_eq_none_iff]
  constructor
  case mp =>
    intro h name ha right hr run hrun hne
    simpa using h ⟨String.ofList name, run⟩ ⟨ha, right, hr, hrun, hne⟩
  case mpr =>
    intro h clause ⟨ha, right, hr, hrun, hne⟩
    exact h clause.head.toList (by simpa using ha) right hr clause.texts hrun hne

theorem Conforms.fault? (h : Conforms texts) {after : List (List Char)}
    (he : texts = before ++ text :: after) :
    (Line.ofText text).fault? (headNames (before.map Line.ofText)).getLast? = none := by
  have hm : text ∈ texts := by simp [he]
  rw [Line.fault?_ofText_eq_none_iff, clauses_ofText_iff]
  refine ⟨fun right hc => ?_, fun name hname => ?_, fun name ha right hr run hrun hne => ?_⟩
  · exact getLast?_headNames_ne_none_iff.mpr (h.headed before text after he right hc)
  · have ⟨hh, right, hp⟩ := Line.head?_ofText_eq_some_iff.mp hname
    have ⟨name', right', hp', hi⟩ := h.head_name text hm hh
    exact (hp.unique hp').left ▸ hi
  · refine ⟨h.alternatives text hm right hr run hrun hne, ?_⟩
    rintro ⟨hn, rfl⟩
    rw [← getLast?_headNames_append, getLast?_headNames_eq_some_iff] at ha
    exact h.not_itself before text after he name ha hn right hr hrun

theorem conforms_of_no_fault (hh : headNames (texts.map Line.ofText) ≠ [])
    (hf : ∀ before text after, texts = before ++ text :: after →
      (Line.ofText text).fault? (headNames (before.map Line.ofText)).getLast? = none) :
    Conforms texts := by
  simp only [Line.fault?_ofText_eq_none_iff, clauses_ofText_iff, ← getLast?_headNames_append,
    getLast?_headNames_eq_some_iff] at hf
  constructor
  case some_head => exact headNames_ne_nil_iff.mp hh
  case headed =>
    intro before text after he right hc
    exact getLast?_headNames_ne_none_iff.mp ((hf before text after he).left right hc)
  case head_name =>
    intro text hm hhead
    have ⟨before, after, he⟩ := List.append_of_mem hm
    have ⟨name, right, hp⟩ := Line.exists_headParts (Line.stripComment text)
    refine ⟨name, right, hp, ?_⟩
    have := (hf before text after he).right.left (String.ofList name)
    simpa using this (Line.head?_ofText_eq_some_iff.mpr ⟨hhead, right, by simpa using hp⟩)
  case alternatives =>
    intro text hm right hr run hrun hne
    have ⟨before, after, he⟩ := List.append_of_mem hm
    have hhead : ∃ head ∈ before ++ [text], Line.IsHead head := by
      cases hr
      case inr hr => exact ⟨text, by simp, hr.left⟩
      case inl hc =>
        have ⟨head, hm, hh⟩ :=
          getLast?_headNames_ne_none_iff.mp ((hf before text after he).left right hc)
        exact ⟨head, List.mem_append_left _ hm, hh⟩
    have ⟨name, ha⟩ := exists_activeHead hhead
    exact ((hf before text after he).right.right name ha right hr run hrun hne).left
  case not_itself =>
    intro before text after he name ha hn right hr hrun
    have := (hf before text after he).right.right name ha right hr [name] hrun (by simp)
    exact this.right ⟨hn, rfl⟩

theorem conforms_iff :
    Conforms texts ↔
      firstFault? none 1 (texts.map Line.ofText) = none ∧ headNames (texts.map Line.ofText) ≠ [] := by
  rw [firstFault?_ofText_eq_none_iff]
  constructor
  case mp =>
    intro h
    exact ⟨fun before text after he => h.fault? he, headNames_ne_nil_iff.mpr h.some_head⟩
  case mpr => exact fun ⟨hf, hh⟩ => conforms_of_no_fault hh hf

variable {file : Option String}

theorem Grammar.exists_ofLines_iff :
    (∃ g, ofLines file (texts.map some) = .ok g) ↔ Conforms texts := by
  rw [conforms_iff]
  constructor
  case mp =>
    intro ⟨g, h⟩
    cases hf : firstFault? none 1 (texts.map Line.ofText)
    case some => simp [ofLines_of_fault hf] at h
    case none => exact ⟨rfl, fun hh => by simp [ofLines_of_no_heads hf hh] at h⟩
  case mpr =>
    intro ⟨hf, hh⟩
    have ⟨g, hg, _⟩ := exists_of_no_fault file hf hh
    exact ⟨g, hg⟩

end LineGrammar
