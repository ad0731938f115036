import LineGrammar.Proofs.Faults

/-!
How words are spelled. A text is read as a word exactly if it spells the word, and no two texts spell the same
one. What is said about a text that spells none follows from where it would have been cut: whether what
stands before its mark starts with a quote.
-/

namespace LineGrammar

inductive Item.SpelledBy : Item → List Char → Prop
  | nonterminal {text : List Char} (identifier : isIdentifier text)
      (upper : text.head?.any isUppercase = true) : SpelledBy (.nonterminal (String.ofList text)) text
  | named {text : List Char} (identifier : isIdentifier text)
      (lower : text.head?.any isUppercase = false) : SpelledBy (.terminal (.named (String.ofList text))) text
  | literal (quote : Quote) (inner : List Char) :
    SpelledBy (.terminal (.literal quote (String.ofList inner))) (quote.char :: inner ++ [quote.char])

inductive Word.SpelledBy : Word → List Char → Prop
  | once {item : Item} {text : List Char} (item_spelled : item.SpelledBy text) : SpelledBy ⟨item, none⟩ text
  | repeated {item : Item} {text : List Char} (item_spelled : item.SpelledBy text)
      (repetition : Repetition) : SpelledBy ⟨item, some repetition⟩ (text ++ [repetition.mark])

-- What is said about a text that spells no item. With a quote at its start it was meant as a literal.
def Fault.ofBase (base : List Char) : Fault :=
  if (base.head?.bind Quote.ofChar?).isSome then .unmatchedQuote (String.ofList base)
  else .invalidIdentifier (String.ofList base)

structure ReadsSpelling (read : List Char → Except Fault Word) : Prop where
  ok_iff  : ∀ text word, read text = .ok word ↔ word.SpelledBy text
  written : ∀ text word, read text = .ok word → text = word.text
  unique  : ∀ text other word, read text = .ok word → read other = .ok word → text = other
  error   : ∀ text, (∀ word : Word, ¬word.SpelledBy text) →
    ∃ base, Unmarked text base ∧ read text = .error (.ofBase base)

section

variable {item : Item} {text base : List Char} {word : Word} {fault : Fault}

theorem Item.spelledBy_iff : item.SpelledBy text ↔ item.WellFormed ∧ text = item.name.toList := by
  constructor
  case mp =>
    rintro (⟨hi, hu⟩ | ⟨hi, hl⟩ | ⟨quote, inner⟩)
    · exact ⟨by simpa [WellFormed] using ⟨hi, hu⟩, by simp [name]⟩
    · exact ⟨by simpa [WellFormed] using ⟨hi, hl⟩, by simp [name, Terminal.name]⟩
    · exact ⟨trivial, by simp [name, Terminal.name]⟩
  case mpr =>
    rintro ⟨hw, rfl⟩
    cases item
    case nonterminal name => simpa [Item.name] using SpelledBy.nonterminal hw.left hw.right
    case terminal terminal =>
      cases terminal
      case named name          => simpa [Item.name, Terminal.name] using SpelledBy.named hw.left hw.right
      case literal quote inner =>
        simpa [Item.name, Terminal.name] using SpelledBy.literal quote inner.toList

theorem Word.spelledBy_iff : word.SpelledBy text ↔ word.item.WellFormed ∧ text = word.text := by
  constructor
  case mp =>
    rintro (hs | ⟨hs, repetition⟩)
    all_goals
      obtain ⟨hw, rfl⟩ := Item.spelledBy_iff.mp hs
      exact ⟨hw, by simp [Word.text]⟩
  case mpr =>
    obtain ⟨item, repetition⟩ := word
    rintro ⟨hw, rfl⟩
    have hs : item.SpelledBy item.name.toList := Item.spelledBy_iff.mpr ⟨hw, rfl⟩
    cases repetition
    case none            => simpa [Word.text] using SpelledBy.once hs
    case some repetition => simpa [Word.text] using SpelledBy.repeated hs repetition

theorem Word.ofText_eq_ok_iff_spelledBy : Word.ofText text = .ok word ↔ word.SpelledBy text := by
  rw [ofText_eq_ok_iff, spelledBy_iff]

theorem Fault.eq_ofBase (h : Item.ofText base = .error fault) : fault = .ofBase base := by
  obtain ⟨quote, hq, rfl⟩ | ⟨hne, rfl⟩ := Item.fault_of_ofText h
  case inl => simp [ofBase, hq]
  case inr =>
    have hunquoted : base.head?.bind Quote.ofChar? = none := by
      rw [Option.bind_eq_none_iff]
      intro c hc
      by_contra hquote
      obtain ⟨quote, hquote⟩ := Option.ne_none_iff_exists'.mp hquote
      exact hne quote (Quote.ofChar?_eq_some_iff.mp hquote ▸ hc)
    simp [ofBase, hunquoted]

theorem Unmarked.unique {other : List Char} (h : Unmarked text base) (h' : Unmarked text other) :
    base = other :=
  (unmarked_iff.mp h).symm.trans (unmarked_iff.mp h')

theorem Word.exists_error (h : ∀ word : Word, ¬word.SpelledBy text) :
    ∃ base, Unmarked text base ∧ Word.ofText text = .error (.ofBase base) := by
  cases hr : Word.ofText text
  case ok word     => exact absurd (ofText_eq_ok_iff_spelledBy.mp hr) (h word)
  case error fault =>
    have hbase := Word.ofText_eq_error_iff.mp hr
    exact ⟨_, unmarked_iff.mpr rfl, congrArg _ (Fault.eq_ofBase hbase)⟩

end

theorem ReadsSpelling.eq {read other : List Char → Except Fault Word} (h : ReadsSpelling read)
    (h' : ReadsSpelling other) : read = other := by
  funext text
  by_cases hs : ∃ word : Word, word.SpelledBy text
  case pos =>
    obtain ⟨word, hs⟩ := hs
    rw [(h.ok_iff text word).mpr hs, (h'.ok_iff text word).mpr hs]
  case neg =>
    rw [not_exists] at hs
    obtain ⟨base, hb, hr⟩ := h.error text hs
    obtain ⟨base', hb', hr'⟩ := h'.error text hs
    rw [hr, hr', hb.unique hb']

namespace Word

theorem readsSpelling_ofText :
    ReadsSpelling ofText ∧ ∀ read, ReadsSpelling read → read = ofText := by
  have hwritten : ∀ text word, ofText text = .ok word → text = word.text :=
    fun _ _ h => (ofText_eq_ok_iff.mp h).right
  have h : ReadsSpelling ofText := by
    refine ⟨fun _ _ => ofText_eq_ok_iff_spelledBy, hwritten, ?unique, fun _ => exists_error⟩
    intro text other word ht ho
    rw [hwritten text word ht, hwritten other word ho]
  exact ⟨h, fun read hr => hr.eq h⟩

-- Only the last of two marks is taken off.
example : Word.ofText ['a', '*', '+'] = .error (.invalidIdentifier "a*") := by decide +kernel

end Word
end LineGrammar
