import LineGrammar.Proofs.Recogniser

/-!
What is wrong with a word, an alternative or a line, said without reading it. Of several faults the one
that counts is the first one, except that a 0 among other words comes before anything else that is wrong
with its alternative.
-/

namespace LineGrammar

inductive Unmarked : List Char → List Char → Prop
  | marked (base : List Char) (repetition : Repetition) : Unmarked (base ++ [repetition.mark]) base
  | bare {text : List Char} (unmarked : ∀ repetition : Repetition,
      text.getLast? ≠ some repetition.mark) : Unmarked text text

-- What is wrong with a text that is no word. It was meant as a literal if it starts with a quote.
inductive WordFault (text : List Char) : Fault → Prop
  | unmatchedQuote {base : List Char} {quote : Quote} (malformed : ¬IsWord text)
      (unmarked : Unmarked text base) (quoted : base.head? = some quote.char) :
    WordFault text (.unmatchedQuote (String.ofList base))
  | invalidIdentifier {base : List Char} (malformed : ¬IsWord text) (unmarked : Unmarked text base)
      (unquoted : ∀ quote : Quote, base.head? ≠ some quote.char) :
    WordFault text (.invalidIdentifier (String.ofList base))

inductive AlternativeFault (head : List Char) (texts : List (List Char)) : Fault → Prop
  | epsilonNotAlone (zero : ['0'] ∈ texts) (other : texts ≠ [['0']]) :
    AlternativeFault head texts .epsilonNotAlone
  | word {before after : List (List Char)} {text : List Char} {fault : Fault} (nonzero : ['0'] ∉ texts)
      (texts_eq : texts = before ++ text :: after) (first : ∀ earlier ∈ before, IsWord earlier)
      (malformed : WordFault text fault) : AlternativeFault head texts fault
  | derivesItself (nonterminal : NamesNonterminal head) (texts_eq : texts = [head]) :
    AlternativeFault head texts (.derivesItself (String.ofList head))

inductive RightFault (head right : List Char) (fault : Fault) : Prop
  | intro {run : List (List Char)} {front back : List (List (List Char))}
    (runs_eq : Line.splitAlternatives right = front ++ run :: back)
    (faulty : AlternativeFault head run fault)
    (first : ∀ earlier ∈ front, ∀ other, ¬AlternativeFault head earlier other)

inductive LineFault (before : List (List Char)) (text : List Char) : Fault → Prop
  | missingNonterminal {right : List Char} (continuation : Line.IsContinuation text right)
      (headless : ∀ earlier ∈ before, ¬Line.IsHead earlier) :
    LineFault before text .missingNonterminal
  | invalidNonterminalName {name right : List Char} (head : Line.IsHead text)
      (parts : Line.HeadParts (Line.stripComment text) name right) (invalid : ¬isIdentifier name) :
    LineFault before text (.invalidNonterminalName (String.ofList name))
  | right {head right : List Char} {fault : Fault} (named : Line.IsHead text → isIdentifier head)
      (active : ActiveHead (before ++ [text]) head) (written : Line.HasRight text right)
      (faulty : RightFault head right fault) : LineFault before text fault

section

variable {text base head : List Char} {texts : List (List Char)} {fault : Fault}

theorem unmarked_iff : Unmarked text base ↔ (Word.splitMark text).1 = base := by
  constructor
  case mp =>
    intro h
    cases h
    case marked repetition => rw [Word.splitMark_append_mark]
    case bare h            => rw [Word.splitMark_eq_none_iff.mpr ⟨rfl, h⟩]
  case mpr =>
    rintro rfl
    cases hs : Word.splitMark text with | mk base mark =>
    cases mark
    case none =>
      obtain ⟨rfl, h⟩ := Word.splitMark_eq_none_iff.mp hs
      exact .bare h
    case some repetition =>
      obtain rfl := Word.splitMark_eq_some_iff.mp hs
      exact .marked base repetition

theorem Word.ofText_eq_error_iff :
    Word.ofText text = .error fault ↔ Item.ofText (Word.splitMark text).1 = .error fault := by
  unfold Word.ofText
  split
  case h_1 base repetition hs =>
    rw [hs]
    cases Item.ofText base <;> simp [bind, Except.bind, pure, Except.pure]

theorem Item.fault_of_ofText (h : Item.ofText base = .error fault) :
    (∃ quote : Quote, base.head? = some quote.char ∧ fault = .unmatchedQuote (String.ofList base)) ∨
      (∀ quote : Quote, base.head? ≠ some quote.char) ∧
        fault = .invalidIdentifier (String.ofList base) := by
  unfold Item.ofText at h
  split at h
  case h_1 =>
    cases h
    exact .inr ⟨by simp, rfl⟩
  case h_2 c rest =>
    cases hq : Quote.ofChar? c
    case some quote =>
      simp only [hq, Option.isSome_some, ↓reduceIte] at h
      split at h <;> cases h
      exact .inl ⟨quote, by simp [Quote.ofChar?_eq_some_iff.mp hq], rfl⟩
    case none =>
      have hne : ∀ quote : Quote, (c :: rest).head? ≠ some quote.char := by
        rintro quote he
        obtain rfl : c = quote.char := by simpa using he
        simp at hq
      simp only [hq, Option.isSome_none, Bool.false_eq_true, ↓reduceIte] at h
      split at h
      case isTrue  => split at h <;> cases h
      case isFalse =>
        cases h
        exact .inr ⟨hne, rfl⟩

theorem wordFault_iff : WordFault text fault ↔ Word.ofText text = .error fault := by
  have hword : ¬IsWord text ↔ ∃ other, Word.ofText text = .error other := by
    rw [isWord_iff]
    cases Word.ofText text <;> simp
  constructor
  case mp =>
    intro h
    have hmalformed : ¬IsWord text := by
      cases h <;> assumption
    obtain ⟨other, ho⟩ := hword.mp hmalformed
    rw [ho]
    obtain hcases := Item.fault_of_ofText (Word.ofText_eq_error_iff.mp ho)
    cases h
    case unmatchedQuote base quote _ hu hq =>
      obtain rfl := unmarked_iff.mp hu
      obtain ⟨_, _, rfl⟩ | ⟨hne, _⟩ := hcases
      · rfl
      · exact absurd hq (hne quote)
    case invalidIdentifier base _ hu hne =>
      obtain rfl := unmarked_iff.mp hu
      obtain ⟨quote, hq, _⟩ | ⟨_, rfl⟩ := hcases
      · exact absurd hq (hne quote)
      · rfl
  case mpr =>
    intro h
    have hmalformed := hword.mpr ⟨fault, h⟩
    obtain ⟨quote, hq, rfl⟩ | ⟨hne, rfl⟩ := Item.fault_of_ofText (Word.ofText_eq_error_iff.mp h)
    · exact .unmatchedQuote hmalformed (unmarked_iff.mpr rfl) hq
    · exact .invalidIdentifier hmalformed (unmarked_iff.mpr rfl) hne

theorem mapM_ofText_eq_error_iff : texts.mapM Word.ofText = .error fault ↔
    ∃ before text after, texts = before ++ text :: after ∧ (∀ earlier ∈ before, IsWord earlier) ∧
      WordFault text fault := by
  simp only [mapM_eq_error_iff, isWord_iff, wordFault_iff]

-- Whether a 0 stands among other words is looked at before any of the words is read.
theorem alternativeOfTexts_eq_error_iff : alternativeOfTexts texts = .error fault ↔
    (['0'] ∈ texts ∧ texts ≠ [['0']] ∧ fault = .epsilonNotAlone) ∨
      (['0'] ∉ texts ∧ ∃ before text after, texts = before ++ text :: after ∧
        (∀ earlier ∈ before, IsWord earlier) ∧ WordFault text fault) := by
  rw [← mapM_ofText_eq_error_iff]
  unfold alternativeOfTexts
  by_cases hz : ['0'] ∈ texts
  case neg => simp [hz]
  case pos =>
    have hlength : texts.length = 1 ↔ texts = [['0']] := length_eq_one_iff_of_mem hz
    by_cases hl : texts = [['0']] <;> simp [hz, hlength, hl, eq_comm]

theorem alternativeFault_iff : AlternativeFault head texts fault ↔
    alternativeOfTexts texts = .error fault ∨
      NamesNonterminal head ∧ texts = [head] ∧ fault = .derivesItself (String.ofList head) := by
  rw [alternativeOfTexts_eq_error_iff]
  constructor
  case mp =>
    intro h
    cases h
    case epsilonNotAlone hz hne => exact .inl (.inl ⟨hz, hne, rfl⟩)
    case word hz he hb ht       => exact .inl (.inr ⟨hz, _, _, _, he, hb, ht⟩)
    case derivesItself hn he    => exact .inr ⟨hn, he, rfl⟩
  case mpr =>
    rintro ((⟨hz, hne, rfl⟩ | ⟨hz, before, text, after, he, hb, ht⟩) | ⟨hn, he, rfl⟩)
    · exact .epsilonNotAlone hz hne
    · exact .word hz he hb ht
    · exact .derivesItself hn he

-- The head alone is read without fault, so it is only wrong for deriving itself.
theorem exists_alternativeOfTexts_of_namesNonterminal (h : NamesNonterminal head) :
    ∃ words, alternativeOfTexts [head] = .ok words := by
  rw [← isAlternative_iff]
  refine .inr ⟨fun hz => ?_, fun text hm => ?_⟩
  · rw [← List.mem_singleton.mp hz] at h
    exact absurd h.left (by decide)
  · rw [List.mem_singleton.mp hm]
    exact ⟨head, .inl h.left, .inl rfl⟩

theorem Clause.fault?_eq_some_iff :
    (Clause.mk (String.ofList head) texts).fault? = some fault ↔ AlternativeFault head texts fault := by
  rw [alternativeFault_iff]
  cases hw : alternativeOfTexts texts
  case error other =>
    have hself : ¬(NamesNonterminal head ∧ texts = [head] ∧ fault = .derivesItself (String.ofList head)) := by
      rintro ⟨hn, rfl, -⟩
      obtain ⟨words, hok⟩ := exists_alternativeOfTexts_of_namesNonterminal hn
      cases hw.symm.trans hok
    simp [Clause.fault?, Clause.words, hw, hself]
  case ok words =>
    have hself : words = [⟨.nonterminal (String.ofList head), none⟩] ↔
        NamesNonterminal head ∧ texts = [head] := by
      rw [eq_head_iff hw, String.toList_ofList]
    by_cases he : words = [⟨.nonterminal (String.ofList head), none⟩]
    case pos =>
      obtain ⟨hn, ht⟩ := hself.mp he
      have hfault : (Clause.mk (String.ofList head) texts).fault? =
          some (.derivesItself (String.ofList head)) := by
        simp [Clause.fault?, Clause.words, hw, he]
      rw [hfault]
      simp [hn, ht, eq_comm]
    case neg =>
      have hno : ¬(NamesNonterminal head ∧ texts = [head] ∧ fault = .derivesItself (String.ofList head)) := by
        rintro ⟨hn, ht, -⟩
        exact he (hself.mpr ⟨hn, ht⟩)
      simp [Clause.fault?, Clause.words, hw, he, hno]

theorem Clause.fault?_eq_none_iff_forall :
    (Clause.mk (String.ofList head) texts).fault? = none ↔ ∀ fault, ¬AlternativeFault head texts fault := by
  simp only [← Clause.fault?_eq_some_iff, Option.eq_none_iff_forall_ne_some, ne_eq]

end

section

variable {before : List (List Char)} {text head right : List Char} {fault : Fault}

theorem rightFault_iff : RightFault head right fault ↔
    ((Line.splitAlternatives right).map (Clause.mk (String.ofList head))).findSome? Clause.fault? =
      some fault := by
  simp only [List.findSome?_map, List.findSome?_eq_some_iff, Function.comp_apply,
    Clause.fault?_eq_some_iff, Clause.fault?_eq_none_iff_forall]
  constructor
  · rintro ⟨he, hf, hfirst⟩
    exact ⟨_, _, _, he, hf, hfirst⟩
  · rintro ⟨front, run, back, he, hf, hfirst⟩
    exact ⟨he, hf, hfirst⟩

theorem texts_of_hasRight (h : Line.HasRight text right) :
    (Line.ofText text).texts = Line.splitAlternatives right := by
  obtain hc | ⟨hh, name, hp⟩ := h
  · rw [Line.ofText_of_isContinuation hc, Line.texts]
  · rw [Line.ofText_of_isHead hh hp, Line.texts]

theorem rightFault_iff_of_activeHead (hr : Line.HasRight text right)
    (ha : ActiveHead (before ++ [text]) head) : RightFault head right fault ↔
      ((Line.ofText text).clauses (headNames (before.map Line.ofText)).getLast?).findSome?
        Clause.fault? = some fault := by
  rw [← getLast?_headNames_eq_some_iff, getLast?_headNames_append] at ha
  rw [rightFault_iff, Line.clauses, ha, texts_of_hasRight hr]

theorem activeHead_of_isHead (h : Line.IsHead text)
    (hp : Line.HeadParts (Line.stripComment text) head right) : ActiveHead (before ++ [text]) head :=
  ⟨before, text, [], right, rfl, h, hp, by simp⟩

theorem ActiveHead.unique {texts : List (List Char)} {other : List Char} (h : ActiveHead texts head)
    (h' : ActiveHead texts other) : head = other := by
  rw [← getLast?_headNames_eq_some_iff] at h h'
  exact String.ofList_injective (Option.some.inj (h.symm.trans h'))

-- Where there is a rule to add to, a line is at fault exactly if its right-hand side is.
theorem lineFault_iff_rightFault (hr : Line.HasRight text right) (ha : ActiveHead (before ++ [text]) head)
    (hi : Line.IsHead text → isIdentifier head) :
    LineFault before text fault ↔ RightFault head right fault := by
  constructor
  case mp =>
    rintro (⟨hc, hno⟩ | ⟨hh, hp, hname⟩ | ⟨_, ha', hr', hf⟩)
    · obtain ⟨front, earlier, back, _, he, hh, _⟩ := ha
      have hm : earlier ∈ before ++ [text] := by simp [he]
      obtain hm | hm := List.mem_append.mp hm
      · exact absurd hh (hno earlier hm)
      · exact absurd (List.mem_singleton.mp hm ▸ hh) hc.not_isHead
    · exact absurd ((activeHead_of_isHead hh hp).unique ha ▸ hi hh) hname
    · exact (rightFault_iff_of_activeHead hr ha).mpr ((rightFault_iff_of_activeHead hr' ha').mp hf)
  case mpr => exact .right hi ha hr

theorem lineFault_iff_of_isContinuation (h : Line.IsContinuation text right) : LineFault before text fault ↔
    (Line.ofText text).fault? (headNames (before.map Line.ofText)).getLast? = some fault := by
  have hhead : (headNames ((before ++ [text]).map Line.ofText)).getLast? =
      (headNames (before.map Line.ofText)).getLast? := by
    rw [getLast?_headNames_append, Line.ofText_of_isContinuation h]
    rfl
  cases hlast : (headNames (before.map Line.ofText)).getLast?
  case none =>
    -- Without a rule head before it the line has nothing to add to, whatever is on its right.
    rw [Line.ofText_of_isContinuation h, Line.fault?, Option.some.injEq]
    constructor
    case mp =>
      rintro (_ | ⟨hh, _⟩ | ⟨_, ha, _⟩)
      · rfl
      · exact absurd hh h.not_isHead
      · rw [← getLast?_headNames_eq_some_iff, hhead, hlast] at ha
        cases ha
    case mpr =>
      rintro rfl
      refine .missingNonterminal h fun earlier hm hh => ?_
      exact getLast?_headNames_ne_none_iff.mpr ⟨earlier, hm, hh⟩ hlast
  case some name =>
    have ha : ActiveHead (before ++ [text]) name.toList := by
      rw [← getLast?_headNames_eq_some_iff, hhead, hlast, String.ofList_toList]
    rw [lineFault_iff_rightFault (.inl h) ha fun hh => absurd hh h.not_isHead,
      rightFault_iff_of_activeHead (.inl h) ha, hlast, Line.ofText_of_isContinuation h]
    rfl

theorem lineFault_iff_of_isHead (h : Line.IsHead text) : LineFault before text fault ↔
    (Line.ofText text).fault? (headNames (before.map Line.ofText)).getLast? = some fault := by
  obtain ⟨name, right, hp⟩ := Line.exists_headParts (Line.stripComment text)
  have ha : ActiveHead (before ++ [text]) name := activeHead_of_isHead h hp
  have hr : Line.HasRight text right := .inr ⟨h, name, hp⟩
  by_cases hi : isIdentifier name
  case pos =>
    rw [lineFault_iff_rightFault hr ha fun _ => hi, rightFault_iff_of_activeHead hr ha,
      Line.ofText_of_isHead h hp]
    simp [Line.fault?, hi]
  case neg =>
    have hfault : ∀ active, (Line.ofText text).fault? active =
        some (.invalidNonterminalName (String.ofList name)) := by
      intro active
      rw [Line.ofText_of_isHead h hp]
      simp [Line.fault?, hi]
    rw [hfault, Option.some.injEq]
    constructor
    case mp =>
      rintro (⟨hc, _⟩ | ⟨_, hp', _⟩ | ⟨hnamed, ha', _⟩)
      · exact absurd h hc.not_isHead
      · rw [(hp'.unique hp).left]
      · exact absurd (hnamed h) (ha'.unique ha ▸ hi)
    case mpr =>
      rintro rfl
      exact .invalidNonterminalName h hp hi

theorem lineFault_iff : LineFault before text fault ↔
    (Line.ofText text).fault? (headNames (before.map Line.ofText)).getLast? = some fault := by
  obtain h | ⟨right, h⟩ | h := Line.blank_or_continuation_or_head text
  case inl =>
    rw [Line.ofText_of_blank h]
    simp only [Line.fault?, reduceCtorEq, iff_false]
    rintro (⟨hc, _⟩ | ⟨hh, _⟩ | ⟨_, _, hc | ⟨hh, _⟩, _⟩)
    all_goals simp_all [Line.IsContinuation, Line.IsHead]
  case inr.inl => exact lineFault_iff_of_isContinuation h
  case inr.inr => exact lineFault_iff_of_isHead h

theorem AlternativeFault.isSyntaxFault {texts : List (List Char)} (h : AlternativeFault head texts fault) :
    fault.isSyntaxFault := by
  cases h
  case word ht => cases ht <;> rfl
  all_goals rfl

theorem LineFault.isSyntaxFault (h : LineFault before text fault) : fault.isSyntaxFault := by
  cases h
  case right hf =>
    obtain ⟨_, ha, _⟩ := hf
    exact ha.isSyntaxFault
  all_goals rfl

theorem LineFault.ne_emptyGrammar (h : LineFault before text fault) : fault ≠ .emptyGrammar := by
  rintro rfl
  cases h.isSyntaxFault

end
end LineGrammar
