import LineGrammar.Proofs.Lists
import LineGrammar.Word

/-!
Reading a word is the inverse of writing it. A text is read as a word exactly if it is the written
form of that word, so different words have different written forms.
-/

namespace LineGrammar

theorem Repetition.not_continuesIdentifier_mark (repetition : Repetition) :
    continuesIdentifier repetition.mark = false := by
  cases repetition <;> decide

theorem Quote.not_continuesIdentifier_char (quote : Quote) : continuesIdentifier quote.char = false := by
  cases quote <;> decide

theorem Quote.not_startsIdentifier_char (quote : Quote) : startsIdentifier quote.char = false := by
  cases quote <;> decide

theorem Quote.ofMark?_char (quote : Quote) : Repetition.ofMark? quote.char = none := by
  cases quote <;> decide

theorem continuesIdentifier_of_startsIdentifier {c : Char} (h : startsIdentifier c) :
    continuesIdentifier c := by
  simp only [startsIdentifier, Bool.or_eq_true] at h
  cases h <;> simp [continuesIdentifier, *]

section

variable {text : List Char}

theorem continuesIdentifier_of_mem (h : isIdentifier text) {c : Char} (hc : c ∈ text) :
    continuesIdentifier c := by
  match text, h with
  | first :: rest, h =>
    simp only [isIdentifier, Bool.and_eq_true, List.all_eq_true] at h
    cases hc
    case head     => exact continuesIdentifier_of_startsIdentifier h.left
    case tail hc  => exact h.right c hc

theorem not_mem_of_isIdentifier (h : isIdentifier text) {c : Char} (hc : continuesIdentifier c = false) :
    c ∉ text := by
  intro hm
  simp [continuesIdentifier_of_mem h hm] at hc

theorem mark_not_mem_of_isIdentifier (h : isIdentifier text) (repetition : Repetition) :
    repetition.mark ∉ text :=
  not_mem_of_isIdentifier h repetition.not_continuesIdentifier_mark

theorem quote_not_mem_of_isIdentifier (h : isIdentifier text) (quote : Quote) : quote.char ∉ text :=
  not_mem_of_isIdentifier h quote.not_continuesIdentifier_char

theorem not_isIdentifier_quote_cons {quote : Quote} : isIdentifier (quote.char :: text) = false := by
  simp [isIdentifier, quote.not_startsIdentifier_char]

end

namespace Item

def WellFormed : Item → Prop
  | terminal (.literal _ _) => True
  | terminal (.named name)  => isIdentifier name.toList ∧ name.toList.head?.any isUppercase = false
  | nonterminal name        => isIdentifier name.toList ∧ name.toList.head?.any isUppercase = true

variable {text : List Char} {item : Item}

theorem ofText_name (h : item.WellFormed) : ofText item.name.toList = .ok item := by
  match item, h with
  | terminal (.literal quote inner), _ =>
    have := Terminal.ofQuoted?_eq_some_iff.mpr ⟨quote, inner, rfl, rfl⟩
    simp only [Terminal.name, String.toList_ofList, List.cons_append] at this
    simp [ofText, name, Terminal.name, this]
  | terminal (.named name), ⟨hi, hu⟩ | nonterminal name, ⟨hi, hu⟩ =>
    cases hn : name.toList
    case nil => simp [hn, isIdentifier] at hi
    case cons c rest =>
      have hq : Quote.ofChar? c = none := by
        cases hq : Quote.ofChar? c
        case none => rfl
        case some quote =>
          simp [hn, Quote.ofChar?_eq_some_iff.mp hq, not_isIdentifier_quote_cons] at hi
      have ht : String.ofList (c :: rest) = name := by rw [← hn, String.ofList_toList]
      simp only [hn, List.head?_cons, Option.any_some] at hi hu
      simp [ofText, Item.name, Terminal.name, hn, hi, hu, hq, ht]

theorem wellFormed_of_ofText (h : ofText text = .ok item) :
    item.WellFormed ∧ text = item.name.toList := by
  unfold ofText at h
  split at h
  case h_1 => simp at h
  case h_2 c rest =>
    split at h
    case isTrue hq =>
      split at h
      case h_1 t ht =>
        obtain ⟨quote, inner, rfl, hn⟩ := Terminal.ofQuoted?_eq_some_iff.mp ht
        cases h
        exact ⟨trivial, hn⟩
      case h_2 => simp at h
    case isFalse =>
      split at h
      case isFalse => simp at h
      case isTrue hi =>
        split at h <;> cases h
        all_goals simp_all [WellFormed, name, Terminal.name]

theorem ofText_eq_ok_iff : ofText text = .ok item ↔ item.WellFormed ∧ text = item.name.toList where
  mp  := wellFormed_of_ofText
  mpr := fun ⟨h, ht⟩ => ht ▸ ofText_name h

theorem name_injective {a b : Item} (ha : a.WellFormed) (hb : b.WellFormed) (h : a.name = b.name) :
    a = b := by
  have := h ▸ ofText_name ha
  simpa [ofText_name hb] using this.symm

theorem getLast?_name_ne_mark (h : item.WellFormed) (repetition : Repetition) :
    item.name.toList.getLast? ≠ some repetition.mark := by
  intro hl
  match item, h with
  | terminal (.literal quote inner), _ =>
    have := quote.ofMark?_char
    simp only [name, Terminal.name, String.toList_ofList, List.getLast?_append,
      List.getLast?_singleton] at hl
    simp_all
  | terminal (.named name), h | nonterminal name, h =>
    exact mark_not_mem_of_isIdentifier h.left repetition (List.mem_of_getLast? hl)

end Item

namespace Word

variable {text : List Char} {word : Word}

theorem splitMark_append_mark (base : List Char) (repetition : Repetition) :
    splitMark (base ++ [repetition.mark]) = (base, some repetition) := by
  simp [splitMark]

theorem splitMark_eq_none_iff {base : List Char} :
    splitMark text = (base, none) ↔
      base = text ∧ ∀ repetition : Repetition, text.getLast? ≠ some repetition.mark := by
  unfold splitMark
  split
  case h_1 repetition h =>
    have ⟨c, hl, hc⟩ := Option.bind_eq_some_iff.mp h
    have := Repetition.ofMark?_eq_some_iff.mp hc
    simp only [Prod.mk.injEq, reduceCtorEq, and_false, false_iff, not_and]
    exact fun _ hn => hn repetition (this ▸ hl)
  case h_2 h =>
    simp only [Prod.mk.injEq, and_true, iff_self_and, eq_comm (a := base)]
    intro _ repetition hl
    simp [hl] at h

theorem splitMark_eq_some_iff {base : List Char} {repetition : Repetition} :
    splitMark text = (base, some repetition) ↔ text = base ++ [repetition.mark] where
  mp h := by
    unfold splitMark at h
    split at h
    case h_1 _ hr =>
      cases h
      have ⟨c, hl, hc⟩ := Option.bind_eq_some_iff.mp hr
      cases Repetition.ofMark?_eq_some_iff.mp hc
      obtain ⟨base, rfl⟩ := List.getLast?_eq_some_iff.mp hl
      simp
    case h_2 => simp at h
  mpr h := h ▸ splitMark_append_mark base repetition

theorem splitMark_text (h : word.item.WellFormed) :
    splitMark word.text = (word.item.name.toList, word.repetition) := by
  match word, h with
  | ⟨item, none⟩, h =>
    exact splitMark_eq_none_iff.mpr ⟨by simp [text], by simpa [text] using item.getLast?_name_ne_mark h⟩
  | ⟨item, some repetition⟩, _ => exact splitMark_append_mark _ repetition

theorem ofText_eq_ok_iff : ofText text = .ok word ↔ word.item.WellFormed ∧ text = word.text where
  mp h := by
    unfold ofText at h
    split at h
    case h_1 base repetition hs =>
    cases hi : Item.ofText base
    case error => simp [hi, bind, Except.bind] at h
    case ok item =>
      simp only [hi, bind, Except.bind, pure, Except.pure, Except.ok.injEq] at h
      subst h
      obtain ⟨hw, rfl⟩ := Item.ofText_eq_ok_iff.mp hi
      refine ⟨hw, ?_⟩
      cases repetition
      case none   => simpa [Word.text] using (splitMark_eq_none_iff.mp hs).left.symm
      case some r => simpa [Word.text] using splitMark_eq_some_iff.mp hs
  mpr h := by
    obtain ⟨hw, rfl⟩ := h
    have hi : Item.ofText word.item.name.toList = .ok word.item := Item.ofText_eq_ok_iff.mpr ⟨hw, rfl⟩
    simp [ofText, splitMark_text hw, hi, bind, Except.bind, pure, Except.pure]

theorem text_injective {a b : Word} (ha : a.item.WellFormed) (hb : b.item.WellFormed)
    (h : a.text = b.text) : a = b := by
  have := h ▸ ofText_eq_ok_iff.mpr ⟨ha, rfl⟩
  simpa [ofText_eq_ok_iff.mpr ⟨hb, rfl⟩] using this.symm

theorem ofText_append_mark_eq_ok_iff {base : List Char} {repetition : Repetition} :
    ofText (base ++ [repetition.mark]) = .ok word ↔
      ∃ item, item.WellFormed ∧ base = item.name.toList ∧ word = ⟨item, some repetition⟩ := by
  rw [ofText_eq_ok_iff]
  constructor
  case mp =>
    intro ⟨hi, ht⟩
    have hs := splitMark_text hi
    rw [← ht, splitMark_append_mark, Prod.mk.injEq] at hs
    exact ⟨word.item, hi, hs.left, by rw [hs.right]⟩
  case mpr =>
    rintro ⟨item, hi, rfl, rfl⟩
    exact ⟨hi, rfl⟩

end Word

theorem mapM_ofText_eq_ok_iff {texts : List (List Char)} {words : List Word} :
    texts.mapM Word.ofText = .ok words ↔
      List.Forall₂ (fun text word => Word.ofText text = .ok word) texts words := by
  induction texts generalizing words
  case nil => cases words <;> simp [pure, Except.pure]
  case cons text rest ih =>
    rw [List.mapM_cons]
    cases ht : Word.ofText text
    case error => cases words <;> simp [bind, Except.bind, ht]
    case ok word =>
      cases hr : rest.mapM Word.ofText <;> cases words <;>
        simp [bind, Except.bind, pure, Except.pure, ht, hr, ← ih]

theorem alternativeOfTexts_eq_ok_iff {texts : List (List Char)} {words : List Word} :
    alternativeOfTexts texts = .ok words ↔
      (texts = [['0']] ∧ words = []) ∨
      (['0'] ∉ texts ∧ List.Forall₂ (fun text word => Word.ofText text = .ok word) texts words) := by
  unfold alternativeOfTexts
  by_cases hc : ['0'] ∈ texts
  case pos =>
    have := length_eq_one_iff_of_mem hc
    by_cases hl : texts.length = 1 <;> simp_all [eq_comm]
  case neg =>
    have : texts ≠ [['0']] := by
      rintro rfl
      simp at hc
    simp [hc, this, mapM_ofText_eq_ok_iff]

-- No word is lost, so only the lone 0 is read as no words at all.
theorem eq_nil_iff_of_alternativeOfTexts {texts : List (List Char)} {words : List Word}
    (h : alternativeOfTexts texts = .ok words) (hn : texts ≠ []) : words = [] ↔ texts = [['0']] := by
  cases alternativeOfTexts_eq_ok_iff.mp h
  case inl h => simp [h]
  case inr h =>
    have ⟨hz, hf⟩ := h
    cases hf
    case nil => exact absurd rfl hn
    case cons =>
      simp only [List.mem_cons, not_or] at hz
      simp [Ne.symm hz.left]

theorem wellFormed_of_alternativeOfTexts {texts : List (List Char)} {words : List Word}
    (h : alternativeOfTexts texts = .ok words) : ∀ word ∈ words, word.item.WellFormed := by
  cases alternativeOfTexts_eq_ok_iff.mp h
  case inl h => simp [h]
  case inr h =>
    intro word hm
    have ⟨text, _, ht⟩ := exists_left_of_forall₂ h.right hm
    exact (Word.ofText_eq_ok_iff.mp ht).left

theorem mem_iff_of_alternativeOfTexts {texts : List (List Char)} {words : List Word} {word : Word}
    (h : alternativeOfTexts texts = .ok words) :
    word ∈ words ↔ word.item.WellFormed ∧ word.text ∈ texts := by
  constructor
  case mp =>
    intro hm
    refine ⟨wellFormed_of_alternativeOfTexts h word hm, ?_⟩
    cases alternativeOfTexts_eq_ok_iff.mp h
    case inl h => simp [h] at hm
    case inr h =>
      have ⟨text, ht, hw⟩ := exists_left_of_forall₂ h.right hm
      exact (Word.ofText_eq_ok_iff.mp hw).right ▸ ht
  case mpr =>
    intro ⟨hw, ht⟩
    have hword : Word.ofText word.text = .ok word := Word.ofText_eq_ok_iff.mpr ⟨hw, rfl⟩
    cases alternativeOfTexts_eq_ok_iff.mp h
    case inl h =>
      rw [h.left, List.mem_singleton] at ht
      rw [ht] at hword
      cases hword
    case inr h =>
      have ⟨other, hm, ho⟩ := exists_right_of_forall₂ h.right ht
      cases hword.symm.trans ho
      exact hm

end LineGrammar
