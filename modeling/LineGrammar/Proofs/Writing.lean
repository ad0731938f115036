import LineGrammar.Proofs.Clauses

/-!
How a source is written: what makes a line the head of a rule or a continuation of one, where a head
ends, and what may stand in an alternative. The lines, words and alternatives that are read are those
that are written so.
-/

namespace LineGrammar

structure FirstAt (mark text before after : List Char) : Prop where
  text_eq : text = before ++ mark ++ after
  first   : ∀ b a, text = b ++ mark ++ a → before.length ≤ b.length

theorem FirstAt.unique {mark text before after b a : List Char} (h : FirstAt mark text before after)
    (h' : FirstAt mark text b a) : before = b ∧ after = a := by
  have hlen : before.length = b.length :=
    Nat.le_antisymm (h.first b a h'.text_eq) (h'.first before after h.text_eq)
  have he : before ++ (mark ++ after) = b ++ (mark ++ a) := by
    rw [← List.append_assoc, ← List.append_assoc, ← h.text_eq, ← h'.text_eq]
  have ⟨hb, ha⟩ := List.append_inj he hlen
  exact ⟨hb, List.append_cancel_left ha⟩

namespace Line

section

variable {mark text before after : List Char}

theorem cutAt?_eq_none_iff (hm : mark ≠ []) : cutAt? mark text = none ↔ ¬mark <:+: text := by
  induction text
  case nil => simpa [cutAt?] using hm
  case cons c rest ih =>
    rw [cutAt?, List.infix_cons_iff, not_or, ← ih]
    by_cases hp : mark.isPrefixOf (c :: rest)
    case pos => simpa [hp] using fun hn => absurd (List.isPrefixOf_iff_prefix.mp hp) hn
    case neg => simpa [hp] using fun _ hn => hp (List.isPrefixOf_iff_prefix.mpr hn)

theorem firstAt_of_cutAt? (h : cutAt? mark text = some (before, after)) :
    FirstAt mark text before after := by
  induction text generalizing before
  case nil => simp [cutAt?] at h
  case cons c rest ih =>
    rw [cutAt?] at h
    split at h
    case isTrue hp =>
      have ⟨tail, ht⟩ := List.isPrefixOf_iff_prefix.mp hp
      cases h
      exact ⟨by simp [← ht], by simp⟩
    case isFalse hp =>
      have ⟨⟨front, tail⟩, hc, he⟩ := Option.map_eq_some_iff.mp h
      cases he
      have ⟨ht, hf⟩ := ih hc
      refine ⟨by simp [ht], fun b a hb => ?_⟩
      cases b
      case nil => exact absurd (List.isPrefixOf_iff_prefix.mpr ⟨a, hb.symm⟩) hp
      case cons d b =>
        simp only [List.cons_append, List.cons.injEq] at hb
        exact Nat.succ_le_succ (hf b a hb.right)

theorem cutAt?_eq_some_iff (hm : mark ≠ []) :
    cutAt? mark text = some (before, after) ↔ FirstAt mark text before after := by
  constructor
  case mp => exact firstAt_of_cutAt?
  case mpr =>
    intro h
    cases hc : cutAt? mark text
    case none => exact absurd ⟨before, after, h.text_eq.symm⟩ ((cutAt?_eq_none_iff hm).mp hc)
    case some parts =>
      obtain ⟨rfl, rfl⟩ := h.unique (firstAt_of_cutAt? hc)
      rfl

end

-- The name of a rule head ends at the first arrow. Only where there is none does a two-character one
-- count, and where there is neither the name is all of the line.
inductive HeadParts (content : List Char) : List Char → List Char → Prop
  | arrow {before right : List Char} (first : FirstAt arrow content before right) :
    HeadParts content (trim before) right
  | asciiArrow {before right : List Char} (other : ¬arrow <:+: content)
      (first : FirstAt asciiArrow content before right) :
    HeadParts content (trim before) right
  | bare (other : ¬arrow <:+: content) (ascii : ¬asciiArrow <:+: content) :
    HeadParts content (trim content) []

theorem headParts_iff {content name right : List Char} :
    HeadParts content name right ↔
      (splitHead content).1 = name ∧ (splitHead content).2.getD [] = right := by
  have ha : arrow ≠ [] := by simp [arrow]
  have haa : asciiArrow ≠ [] := by simp [asciiArrow]
  constructor
  case mp =>
    intro h
    unfold splitHead
    cases h
    case arrow first => simp [(cutAt?_eq_some_iff ha).mpr first]
    case asciiArrow other first =>
      simp [(cutAt?_eq_none_iff ha).mpr other, (cutAt?_eq_some_iff haa).mpr first]
    case bare other ascii =>
      simp [(cutAt?_eq_none_iff ha).mpr other, (cutAt?_eq_none_iff haa).mpr ascii]
  case mpr =>
    rintro ⟨rfl, rfl⟩
    unfold splitHead
    cases h : cutAt? arrow content
    case some parts => exact .arrow (firstAt_of_cutAt? h)
    case none =>
      have other := (cutAt?_eq_none_iff ha).mp h
      cases h' : cutAt? asciiArrow content
      case some parts => exact .asciiArrow other (firstAt_of_cutAt? h')
      case none       => exact .bare other ((cutAt?_eq_none_iff haa).mp h')

def IsContinuation (text right : List Char) : Prop :=
  stripComment text = '|' :: right

def IsHead (text : List Char) : Prop :=
  stripComment text ≠ [] ∧ (stripComment text).head? ≠ some '|'

def HasRight (text right : List Char) : Prop :=
  IsContinuation text right ∨ (IsHead text ∧ ∃ name, HeadParts (stripComment text) name right)

section

variable {text name right : List Char}

theorem ofText_of_isContinuation (h : IsContinuation text right) :
    ofText text = alternatives (splitAlternatives right) := by
  rw [IsContinuation] at h
  simp [ofText, h]

theorem ofText_of_isHead (h : IsHead text) (hp : HeadParts (stripComment text) name right) :
    ofText text = rule name (splitAlternatives right) := by
  have ⟨hn, hb⟩ := h
  obtain ⟨rfl, rfl⟩ := headParts_iff.mp hp
  unfold ofText
  split
  case h_1 he      => exact absurd he hn
  case h_2 he      => simp [he] at hb
  case h_3 he      => rw [he]

theorem ofText_of_blank (h : stripComment text = []) : ofText text = blank := by
  simp [ofText, h]

end

end Line

def IsBase (text : List Char) : Prop :=
  isIdentifier text ∨ ∃ (quote : Quote) (inner : List Char), text = quote.char :: inner ++ [quote.char]

def IsWord (text : List Char) : Prop :=
  ∃ base, IsBase base ∧ (text = base ∨ ∃ repetition : Repetition, text = base ++ [repetition.mark])

def IsAlternative (texts : List (List Char)) : Prop :=
  texts = [['0']] ∨ (['0'] ∉ texts ∧ ∀ text ∈ texts, IsWord text)

def NamesNonterminal (text : List Char) : Prop :=
  isIdentifier text ∧ text.head?.any isUppercase = true

section

variable {text : List Char} {texts : List (List Char)}

theorem isBase_iff : IsBase text ↔ ∃ item : Item, item.WellFormed ∧ text = item.name.toList := by
  constructor
  case mp =>
    rintro (hi | ⟨quote, inner, rfl⟩)
    · cases hu : text.head?.any isUppercase
      case false =>
        exact ⟨.terminal (.named (String.ofList text)), by simpa [Item.WellFormed] using ⟨hi, hu⟩,
          by simp [Item.name, Terminal.name]⟩
      case true =>
        exact ⟨.nonterminal (String.ofList text), by simpa [Item.WellFormed] using ⟨hi, hu⟩,
          by simp [Item.name]⟩
    · exact ⟨.terminal (.literal quote (String.ofList inner)), trivial,
        by simp [Item.name, Terminal.name]⟩
  case mpr =>
    rintro ⟨item, hw, rfl⟩
    cases item
    case nonterminal name => exact .inl hw.left
    case terminal terminal =>
      cases terminal
      case named name          => exact .inl hw.left
      case literal quote inner =>
        exact .inr ⟨quote, inner.toList, by simp [Item.name, Terminal.name]⟩

theorem isWord_iff : IsWord text ↔ ∃ word, Word.ofText text = .ok word := by
  simp only [Word.ofText_eq_ok_iff]
  constructor
  case mp =>
    rintro ⟨base, hb, ht⟩
    obtain ⟨item, hw, rfl⟩ := isBase_iff.mp hb
    obtain rfl | ⟨repetition, rfl⟩ := ht
    · exact ⟨⟨item, none⟩, hw, by simp [Word.text]⟩
    · exact ⟨⟨item, some repetition⟩, hw, by simp [Word.text]⟩
  case mpr =>
    rintro ⟨⟨item, repetition⟩, hw, rfl⟩
    refine ⟨item.name.toList, isBase_iff.mpr ⟨item, hw, rfl⟩, ?_⟩
    cases repetition
    case none            => exact .inl (by simp [Word.text])
    case some repetition => exact .inr ⟨repetition, by simp [Word.text]⟩

theorem isAlternative_iff :
    IsAlternative texts ↔ ∃ words, alternativeOfTexts texts = .ok words := by
  simp only [alternativeOfTexts_eq_ok_iff, exists_or, exists_and_left, exists_eq, and_true,
    exists_forall₂_iff, ← isWord_iff]
  rfl

end

theorem eq_head_iff {texts : List (List Char)} {words : List Word} {head : String}
    (hw : alternativeOfTexts texts = .ok words) :
    words = [⟨.nonterminal head, none⟩] ↔ NamesNonterminal head.toList ∧ texts = [head.toList] := by
  constructor
  case mp =>
    rintro rfl
    cases alternativeOfTexts_eq_ok_iff.mp hw
    case inl h => cases h.right
    case inr h =>
      cases h.right with | cons ht hnil =>
      cases hnil
      obtain ⟨hi, rfl⟩ := Word.ofText_eq_ok_iff.mp ht
      exact ⟨hi, by simp [Word.text, Item.name]⟩
  case mpr =>
    rintro ⟨hn, rfl⟩
    have ht : Word.ofText head.toList = .ok ⟨.nonterminal head, none⟩ :=
      Word.ofText_eq_ok_iff.mpr ⟨hn, by simp [Word.text, Item.name]⟩
    cases alternativeOfTexts_eq_ok_iff.mp hw
    case inl h =>
      rw [List.singleton_inj.mp h.left] at hn
      exact absurd hn.left (by decide)
    case inr h =>
      cases h.right with | cons ht' hnil =>
      cases hnil
      cases ht.symm.trans ht'
      rfl

theorem Clause.fault?_eq_none_iff {clause : Clause} :
    clause.fault? = none ↔
      IsAlternative clause.texts ∧
        ¬(NamesNonterminal clause.head.toList ∧ clause.texts = [clause.head.toList]) := by
  rw [isAlternative_iff]
  cases hw : alternativeOfTexts clause.texts
  case error => simp [fault?, words, hw]
  case ok words =>
    rw [← eq_head_iff hw]
    by_cases he : words = [⟨.nonterminal clause.head, none⟩] <;> simp [fault?, Clause.words, hw, he]

end LineGrammar
