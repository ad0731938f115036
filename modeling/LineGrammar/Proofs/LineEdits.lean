import LineGrammar.Proofs.Content
import Mathlib.Logic.Relation

/-!
Edits that change how a line looks, and not what it says: white space at its ends, a comment, and the gaps
between the words of a right-hand side.
-/

namespace LineGrammar

structure IsGap (text : List Char) : Prop where
  ne_nil : text ≠ []
  blank  : ∀ c ∈ text, isBlank c

section

variable {text blanks gap : List Char} {c : Char}

theorem words_append_blanks (h : ∀ c ∈ blanks, isBlank c) (text : List Char) :
    words (blanks ++ text) = words text := by
  induction blanks
  case nil => rfl
  case cons c rest ih =>
    rw [List.forall_mem_cons] at h
    rw [List.cons_append, words_cons_blank h.left, ih h.right]

theorem IsGap.words_append (h : IsGap gap) (before after : List Char) :
    words (before ++ gap ++ after) = words before ++ words after := by
  obtain ⟨c, rest, rfl⟩ := List.exists_cons_of_ne_nil h.ne_nil
  have ⟨hc, hrest⟩ := List.forall_mem_cons.mp h.blank
  rw [List.append_assoc, List.cons_append, words_append_blank hc, words_append_blanks hrest]

end

theorem FirstAt.append {mark text before after : List Char} (h : FirstAt mark text before after)
    (rest : List Char) : FirstAt mark (text ++ rest) before (after ++ rest) where
  text_eq := by rw [h.text_eq, List.append_assoc]
  first b a he := by
    by_contra hlt
    rw [Nat.not_le] at hlt
    have hprefix : b ++ mark <+: text := by
      refine List.prefix_of_prefix_length_le ⟨a, he.symm⟩ (List.prefix_append text rest) ?_
      rw [h.text_eq]
      simp
      omega
    obtain ⟨tail, htail⟩ := hprefix
    exact absurd (h.first b tail htail.symm) (Nat.not_le.mpr hlt)

theorem IsGap.hash_not_mem_append {left gap : List Char} (h : IsGap gap) (hl : '#' ∉ left) :
    '#' ∉ left ++ gap := by
  intro hm
  cases List.mem_append.mp hm
  case inl hm => exact hl hm
  case inr hm => exact absurd (h.blank _ hm) (by decide)

namespace Line

variable {text text' mark left right before after blanks : List Char}

theorem ofText_eq_of_stripComment_eq (h : stripComment text' = stripComment text) :
    ofText text' = ofText text := by
  rw [ofText, ofText, h]

theorem hash_not_mem_of_blank (h : ∀ c ∈ blanks, isBlank c) : '#' ∉ blanks :=
  fun hm => absurd (h '#' hm) (by decide)

theorem stripComment_append_left (h : ∀ c ∈ blanks, isBlank c) (text : List Char) :
    stripComment (blanks ++ text) = stripComment text := by
  rw [stripComment, takeWhile_append_of_not_mem (hash_not_mem_of_blank h), trim_append_left h, stripComment]

theorem stripComment_append_right (h : ∀ c ∈ blanks, isBlank c) (text : List Char) :
    stripComment (text ++ blanks) = stripComment text := by
  by_cases hm : '#' ∈ text
  case pos => rw [stripComment, takeWhile_append_of_mem hm, stripComment]
  case neg =>
    rw [stripComment, takeWhile_append_of_not_mem hm, takeWhile_ne_hash (hash_not_mem_of_blank h),
      trim_append_right h, stripComment, takeWhile_ne_hash hm]

theorem stripComment_append_comment (text comment : List Char) :
    stripComment (text ++ '#' :: comment) = stripComment text := by
  by_cases hm : '#' ∈ text
  case pos => rw [stripComment, takeWhile_append_of_mem hm, stripComment]
  case neg => simp [stripComment, takeWhile_append_of_not_mem hm, takeWhile_ne_hash hm]

-- What follows the left part of a line is on a right-hand side. Behind a bar or an arrow it always is, and
-- behind a two-character arrow if no other arrow follows.
inductive EntersRight (left after : List Char) : Prop
  | bar {blanks inner : List Char} (left_eq : left = blanks ++ '|' :: inner)
    (blank : ∀ c ∈ blanks, isBlank c)
  | arrow (mem : '→' ∈ left)
  | asciiArrow (mem : asciiArrow <:+: left) (other : '→' ∉ after.takeWhile (· != '#'))

theorem splitAlternatives_respace {gap gap' : List Char} (h : IsGap gap) (h' : IsGap gap')
    (left right : List Char) :
    splitAlternatives (left ++ gap' ++ right) = splitAlternatives (left ++ gap ++ right) := by
  rw [splitAlternatives, h'.words_append, splitAlternatives, h.words_append]

section

variable {gap gap' : List Char}

theorem ofText_respace_of_bar (hhash : '#' ∉ left) (h : IsGap gap) (h' : IsGap gap')
    (hleft : left = blanks ++ '|' :: right) (hb : ∀ c ∈ blanks, isBlank c) :
    ofText (left ++ gap' ++ after) = ofText (left ++ gap ++ after) := by
  have hline : ∀ gap, IsGap gap → ofText (left ++ gap ++ after) =
      alternatives (splitAlternatives (right ++ gap ++ after.takeWhile (· != '#'))) := by
    intro gap h
    have hbody : (left ++ gap ++ after).takeWhile (· != '#') =
        blanks ++ '|' :: (right ++ gap ++ after.takeWhile (· != '#')) := by
      rw [takeWhile_append_of_not_mem (h.hash_not_mem_append hhash), hleft]
      simp
    exact ofText_of_bar hbody hb
  rw [hline gap h, hline gap' h', splitAlternatives_respace h h']

theorem ofText_respace_of_mark (hhash : '#' ∉ left) (h : IsGap gap) (h' : IsGap gap')
    (hfirst : FirstAt mark left before right)
    (hd : ∀ gap, IsGap gap → Divides (left ++ gap ++ after.takeWhile (· != '#')) mark) :
    ofText (left ++ gap' ++ after) = ofText (left ++ gap ++ after) := by
  by_cases hbar : (trimStart before).head? = some '|'
  case pos =>
    -- The mark stands in the right-hand side of a line that starts with a bar.
    obtain ⟨inner, hinner⟩ := List.head?_eq_some_iff.mp hbar
    have hbefore : before.takeWhile isBlank ++ trimStart before = before := List.takeWhile_append_dropWhile
    have hleft : left = before.takeWhile isBlank ++ '|' :: (inner ++ mark ++ right) := by
      rw [hfirst.text_eq]
      conv => lhs; rw [← hbefore, hinner]
      simp
    exact ofText_respace_of_bar hhash h h' hleft fun c hc => List.mem_takeWhile_imp hc
  case neg =>
    have hline : ∀ gap, IsGap gap → ofText (left ++ gap ++ after) =
        rule (trim before) (splitAlternatives (right ++ gap ++ after.takeWhile (· != '#'))) := by
      intro gap h
      have hbody := takeWhile_append_of_not_mem (h.hash_not_mem_append hhash) after
      have hf := hfirst.append (gap ++ after.takeWhile (· != '#'))
      rw [← List.append_assoc, ← List.append_assoc] at hf
      exact ofText_of_mark hbody (hd gap h) hf hbar
    rw [hline gap h, hline gap' h', splitAlternatives_respace h h']

theorem ofText_respace (hhash : '#' ∉ left) (hr : EntersRight left after) (h : IsGap gap) (h' : IsGap gap') :
    ofText (left ++ gap' ++ after) = ofText (left ++ gap ++ after) := by
  have harrow : '→' ∈ left → ofText (left ++ gap' ++ after) = ofText (left ++ gap ++ after) := by
    intro hm
    obtain ⟨before, right, hfirst⟩ := exists_firstAt (by simp [arrow]) (arrow_infix_iff.mpr hm)
    exact ofText_respace_of_mark hhash h h' hfirst fun _ _ => .arrow
  cases hr
  case bar hleft hb => exact ofText_respace_of_bar hhash h h' hleft hb
  case arrow hm => exact harrow hm
  case asciiArrow hm hother =>
    by_cases hl : '→' ∈ left
    case pos => exact harrow hl
    case neg =>
      obtain ⟨before, right, hfirst⟩ := exists_firstAt (by simp [asciiArrow]) hm
      refine ofText_respace_of_mark hhash h h' hfirst fun gap hgap => .asciiArrow ?_
      intro hmem
      obtain (hmem | hmem) | hmem := (List.mem_append.mp hmem).imp_left List.mem_append.mp
      · exact hl hmem
      · exact absurd (hgap.blank _ hmem) (by decide)
      · exact hother hmem

end

-- The edits of one line. A gap is only changed on the right-hand side: a name may have white space in it,
-- and then it is reported with it.
inductive Edit : List Char → List Char → Prop
  | indent {blanks : List Char} (text : List Char) (blank : ∀ c ∈ blanks, isBlank c) :
    Edit text (blanks ++ text)
  | trail {blanks : List Char} (text : List Char) (blank : ∀ c ∈ blanks, isBlank c) :
    Edit text (text ++ blanks)
  | comment (text comment : List Char) : Edit text (text ++ '#' :: comment)
  | respace {left gap gap' after : List Char} (no_comment : '#' ∉ left) (right : EntersRight left after)
      (is_gap : IsGap gap) (is_gap' : IsGap gap') :
    Edit (left ++ gap ++ after) (left ++ gap' ++ after)

-- A line is its content with white space before it, and with white space and perhaps a comment after it.
theorem exists_eq_append_stripComment (text : List Char) : ∃ lead tail,
    text = lead ++ stripComment text ++ tail ∧ (∀ c ∈ lead, isBlank c) ∧
      ∀ c ∈ tail.takeWhile (· != '#'), isBlank c := by
  by_cases hm : '#' ∈ text
  case neg =>
    obtain ⟨lead, tail, htext, hlead, htail⟩ := exists_eq_append_trim text
    rw [stripComment, takeWhile_ne_hash hm]
    exact ⟨lead, tail, htext, hlead, fun c hc => htail c ((List.takeWhile_subset _) hc)⟩
  case pos =>
    obtain ⟨body, comment, rfl, hbody⟩ := List.eq_append_cons_of_mem hm
    obtain ⟨lead, tail, htext, hlead, htail⟩ := exists_eq_append_trim body
    have hcontent : stripComment (body ++ '#' :: comment) = trim body := by
      rw [stripComment_append_comment, stripComment, takeWhile_ne_hash hbody]
    refine ⟨lead, tail ++ '#' :: comment, ?_, hlead, fun c hc => ?_⟩
    · rw [hcontent, ← List.append_assoc, ← htext]
    · rw [takeWhile_append_of_not_mem (hash_not_mem_of_blank htail)] at hc
      exact htail c (by simpa using hc)

theorem exists_edit_of_hasRight {a gap b : List Char} (h : HasRight text (a ++ gap ++ b)) (hg : IsGap gap) :
    ∃ left after, text = left ++ gap ++ after ∧ a <:+ left ∧ b <+: after ∧
      ∀ gap', IsGap gap' → Edit text (left ++ gap' ++ after) := by
  obtain ⟨lead, tail, htext, hlead, htail⟩ := exists_eq_append_stripComment text
  -- What remains for each form of a line is what stands before its right-hand side.
  have hright : ∀ front, stripComment text = front ++ (a ++ gap ++ b) →
      EntersRight (lead ++ front ++ a) (b ++ tail) →
      ∃ left after, text = left ++ gap ++ after ∧ a <:+ left ∧ b <+: after ∧
        ∀ gap', IsGap gap' → Edit text (left ++ gap' ++ after) := by
    intro front hfront henters
    have hsplit : text = lead ++ front ++ a ++ gap ++ (b ++ tail) := by
      rw [htext, hfront]
      simp only [List.append_assoc]
    have hhash : '#' ∉ lead ++ front ++ a := by
      intro hm
      obtain (hm | hm) | hm := (List.mem_append.mp hm).imp_left List.mem_append.mp
      · exact hash_not_mem_of_blank hlead hm
      · exact hash_not_mem_stripComment (hfront ▸ List.mem_append_left _ hm)
      · have hcontent : '#' ∈ stripComment text := by simp [hfront, hm]
        exact hash_not_mem_stripComment hcontent
    refine ⟨lead ++ front ++ a, b ++ tail, hsplit, List.suffix_append .., List.prefix_append ..,
      fun gap' hg' => ?_⟩
    have hedit : Edit (lead ++ front ++ a ++ gap ++ (b ++ tail))
        (lead ++ front ++ a ++ gap' ++ (b ++ tail)) :=
      .respace hhash henters hg hg'
    rwa [← hsplit] at hedit
  obtain hbar | ⟨_, name, hparts⟩ := h
  case inl =>
    have hleft : lead ++ ['|'] ++ a = lead ++ '|' :: a := by simp
    exact hright ['|'] hbar (.bar hleft hlead)
  case inr =>
    generalize hr : a ++ gap ++ b = right at hparts
    cases hparts
    case arrow before hfirst =>
      refine hright (before ++ arrow) (hr ▸ hfirst.text_eq) (.arrow ?_)
      simp [arrow]
    case asciiArrow before hother hfirst =>
      refine hright (before ++ asciiArrow) (hr ▸ hfirst.text_eq) (.asciiArrow ?_ ?_)
      · exact ⟨lead ++ before, a, by simp only [List.append_assoc]⟩
      · have hcontent : ∀ c ∈ b, c ∈ stripComment text := fun c hc => by simp [hfirst.text_eq, ← hr, hc]
        rw [takeWhile_append_of_not_mem fun hm => hash_not_mem_stripComment (hcontent _ hm)]
        intro hm
        cases List.mem_append.mp hm
        case inl hm => exact hother (arrow_infix_iff.mpr (hcontent _ hm))
        case inr hm => exact absurd (htail _ hm) (by decide)
    case bare => simp [hg.ne_nil] at hr

theorem Edit.ofText_eq (h : Edit text text') : ofText text' = ofText text := by
  cases h
  case indent hb               => exact ofText_eq_of_stripComment_eq (stripComment_append_left hb _)
  case trail hb                => exact ofText_eq_of_stripComment_eq (stripComment_append_right hb _)
  case comment                 => exact ofText_eq_of_stripComment_eq (stripComment_append_comment ..)
  case respace hhash hr hg hg' => exact ofText_respace hhash hr hg hg'

theorem ofText_eq_of_edits (h : Relation.EqvGen Edit text text') : ofText text' = ofText text := by
  induction h
  case rel he            => exact he.ofText_eq
  case refl              => rfl
  case symm ih           => exact ih.symm
  case trans _ _ ih₁ ih₂ => exact ih₂.trans ih₁

inductive IsIdle : List Char → Prop
  | blank {blanks : List Char} (blank : ∀ c ∈ blanks, isBlank c) : IsIdle blanks
  | comment {blanks : List Char} (comment : List Char) (blank : ∀ c ∈ blanks, isBlank c) :
    IsIdle (blanks ++ '#' :: comment)

theorem IsIdle.ofText_eq (h : IsIdle text) : ofText text = Line.blank := by
  have hnil : stripComment [] = [] := rfl
  have hblank : ∀ blanks : List Char, (∀ c ∈ blanks, isBlank c) → stripComment blanks = [] := by
    intro blanks hb
    rw [← List.append_nil blanks, stripComment_append_left hb, hnil]
  cases h
  case blank hb           => exact ofText_of_blank (hblank _ hb)
  case comment comment hb => exact ofText_of_blank ((stripComment_append_comment ..).trans (hblank _ hb))

end Line
end LineGrammar
