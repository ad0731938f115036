import LineGrammar.Proofs.AlternativeLines
import LineGrammar.Proofs.Faithfulness
import LineGrammar.Proofs.Flags

/-!
The locations in a grammar. Each nonterminal and each production is located on a line that can be told from the
source alone, and an error that is about one nonterminal is reported there.
-/

namespace LineGrammar

def IsFirstLine (lines : List Line) (P : Line → Prop) (number : Nat) : Prop :=
  ∃ i line, IsFirst lines (fun _ => P) i line ∧ number = i + 1

namespace Line

def HasWord (line : Line) (text : List Char) : Prop :=
  ∃ texts ∈ line.texts, text ∈ texts

def Mentions (line : Line) (name : String) : Prop :=
  line.HasWord name.toList ∨ ∃ repetition : Repetition, line.HasWord (name.toList ++ [repetition.mark])

def Readable (line : Line) : Prop :=
  ∀ texts ∈ line.texts, ∃ words, alternativeOfTexts texts = .ok words

end Line

section

variable {p : Piece → Bool} {P : Line → Prop} {number : Nat} {lines : List Line} {line : Line}
variable {word : Word} {name : String} {item : Item} {repetition : Repetition}

theorem isFirstLine_of_firstLine? (hp : ∀ k, p (.line k) = false)
    (h : firstLine? p 0 (pieces 1 lines) = some number)
    (hP : ∀ line ∈ lines, (∃ piece ∈ line.pieces 0, p piece = true) ↔ P line) :
    IsFirstLine lines P number := by
  rw [firstLine?_pieces hp, Option.map_eq_some_iff] at h
  obtain ⟨i, hi, rfl⟩ := h
  obtain ⟨hlt, hfirst, hleast⟩ := List.findIdx?_eq_some_iff_getElem.mp hi
  rw [List.any_eq_true] at hfirst
  refine ⟨i, lines[i], ⟨List.getElem?_eq_getElem hlt, ?_, fun {j line} hj hl => ?_⟩, Nat.add_comm ..⟩
  · exact (hP _ (List.getElem_mem hlt)).mp hfirst
  · by_contra hji
    obtain ⟨_, rfl⟩ := List.getElem?_eq_some_iff.mp hj
    have hany := (hP _ (List.getElem_mem _)).mpr hl
    exact hleast j (Nat.lt_of_not_le hji) (List.any_eq_true.mpr hany)

theorem exists_mem_words_iff (hr : line.Readable) :
    (∃ texts ∈ line.texts, ∃ words, alternativeOfTexts texts = .ok words ∧ word ∈ words) ↔
      word.item.WellFormed ∧ line.HasWord word.text := by
  constructor
  case mp =>
    intro ⟨texts, ht, words, hw, hm⟩
    have ⟨hi, htext⟩ := (mem_iff_of_alternativeOfTexts hw).mp hm
    exact ⟨hi, texts, ht, htext⟩
  case mpr =>
    intro ⟨hi, texts, ht, htext⟩
    have ⟨words, hw⟩ := hr texts ht
    exact ⟨texts, ht, words, hw, (mem_iff_of_alternativeOfTexts hw).mpr ⟨hi, htext⟩⟩

theorem exists_mem_pieces_word_iff : (∃ piece ∈ word.pieces, piece.name? = some name) ↔
    word.item = .nonterminal name ∨
      ∃ repetition, word.repetition = some repetition ∧ word.item.name.push repetition.mark = name := by
  obtain ⟨item, repetition⟩ := word
  cases item <;> cases repetition <;> simp [Word.pieces, Piece.name?]

theorem exists_named_piece_iff (hr : line.Readable) :
    (∃ piece ∈ line.pieces 0, piece.name? = some name) ↔
      line.head? = some name ∨ ∃ word : Word, word.item.WellFormed ∧ line.HasWord word.text ∧
        ∃ piece ∈ word.pieces, piece.name? = some name := by
  constructor
  case mp =>
    rintro ⟨piece, hm, hp⟩
    obtain rfl | ⟨_, hl, rfl⟩ | ⟨texts, ht, hm⟩ := mem_linePieces hm
    · cases hp
    · exact .inl (Option.some.inj hp ▸ hl)
    · obtain ⟨words, hw, rfl | ⟨word, hmem, hm⟩⟩ := exists_words_of_mem_alternativePieces hm
      · cases hp
      · obtain ⟨hi, htext⟩ := (exists_mem_words_iff hr).mp ⟨texts, ht, words, hw, hmem⟩
        exact .inr ⟨word, hi, htext, piece, hm, hp⟩
  case mpr =>
    rintro (hl | ⟨word, hi, htext, piece, hm, hp⟩)
    · exact ⟨.head name, by simp [Line.pieces, hl], rfl⟩
    · obtain ⟨texts, ht, words, hw, hmem⟩ := (exists_mem_words_iff hr).mpr ⟨hi, htext⟩
      have hpieces : piece ∈ alternativePieces texts := by
        rw [alternativePieces, hw]
        exact List.mem_append_left _ (List.mem_flatMap.mpr ⟨word, hmem, hm⟩)
      refine ⟨piece, List.mem_cons_of_mem _ (List.mem_append_right _ ?_), hp⟩
      exact List.mem_flatMap.mpr ⟨texts, ht, hpieces⟩

theorem exists_head_piece_iff :
    (∃ piece ∈ line.pieces 0, piece.head? = some name) ↔ line.head? = some name := by
  constructor
  case mp =>
    intro ⟨piece, hm, hp⟩
    obtain rfl | ⟨_, hl, rfl⟩ | ⟨texts, _, ht⟩ := mem_linePieces hm
    · cases hp
    · exact Option.some.inj hp ▸ hl
    · cases (Loader.head?_of_mem_alternativePieces piece ht).symm.trans hp
  case mpr =>
    intro hl
    exact ⟨.head name, by simp [Line.pieces, hl], rfl⟩

-- An identifier is no helper's name, so it is a nonterminal's wherever it is mentioned.
theorem exists_written_piece_iff (hr : line.Readable) (hi : (Item.nonterminal name).WellFormed)
    (hl : line.head? ≠ some name) :
    (∃ piece ∈ line.pieces 0, piece.name? = some name) ↔ line.Mentions name := by
  rw [exists_named_piece_iff hr, or_iff_right hl]
  constructor
  case mp =>
    intro ⟨⟨item, mark⟩, _, ht, hp⟩
    obtain rfl | ⟨repetition, _, he⟩ := exists_mem_pieces_word_iff.mp hp
    · match mark with
      | none            => exact .inl (by simpa [Word.text, Item.name] using ht)
      | some repetition => exact .inr ⟨repetition, by simpa [Word.text, Item.name] using ht⟩
    · exact absurd (by simp [← he]) (mark_not_mem_of_isIdentifier hi.left repetition)
  case mpr =>
    rintro (ht | ⟨repetition, ht⟩)
    · exact ⟨⟨.nonterminal name, none⟩, hi, by simpa [Word.text, Item.name] using ht,
        exists_mem_pieces_word_iff.mpr (.inl rfl)⟩
    · exact ⟨⟨.nonterminal name, some repetition⟩, hi, by simpa [Word.text, Item.name] using ht,
        exists_mem_pieces_word_iff.mpr (.inl rfl)⟩

theorem exists_helper_piece_iff (hr : line.Readable) (hi : item.WellFormed)
    (hn : name.toList = Word.text ⟨item, some repetition⟩) (hl : line.head? ≠ some name) :
    (∃ piece ∈ line.pieces 0, piece.name? = some name) ↔ line.HasWord name.toList := by
  rw [exists_named_piece_iff hr, or_iff_right hl]
  constructor
  case mp =>
    intro ⟨word, hw, ht, hp⟩
    obtain he | ⟨other, hsome, rfl⟩ := exists_mem_pieces_word_iff.mp hp
    · have hno := mark_not_mem_of_isIdentifier (he ▸ hw : (Item.nonterminal name).WellFormed).left repetition
      exact absurd (by simp [hn, Word.text]) hno
    · simpa [Word.text, hsome] using ht
  case mpr =>
    intro ht
    refine ⟨⟨item, some repetition⟩, hi, hn ▸ ht, exists_mem_pieces_word_iff.mpr (.inr ⟨repetition, rfl, ?_⟩)⟩
    exact String.toList_injective (by simp [hn, Word.text])

end

namespace Grammar

variable {g : Grammar} {id : NonterminalId} {n : Nonterminal} {file : Option String}

-- Each entry and each production is located on the line that it comes from, and so are the errors about a
-- single nonterminal. What has a rule head is located there, be it mentioned before.
structure Sited (g : Grammar) (file : Option String) (lines : List Line) : Prop where
  headed      : ∀ n ∈ g.symbols.nonterminals, n.name ∈ headNames lines →
    ∃ number, IsFirstLine lines (·.head? = some n.name) number ∧ n.location = ⟨file, number⟩
  headless    : ∀ n ∈ g.symbols.nonterminals, n.synthetic = false → n.name ∉ headNames lines →
    ∃ number, IsFirstLine lines (·.Mentions n.name) number ∧ n.location = ⟨file, number⟩
  helper      : ∀ (id : NonterminalId) n, g.symbols.nonterminals[id]? = some n → n.synthetic = true →
    ∃ number, IsFirstLine lines (·.HasWord n.name.toList) number ∧ n.location = ⟨file, number⟩ ∧
      (g.productionsOf id).map Production.location = [⟨file, number⟩, ⟨file, number⟩]
  productions : ∀ (id : NonterminalId) n, g.symbols.nonterminals[id]? = some n → n.synthetic = false →
    List.Forall₂ (fun written production => g.symbols.Says written.1 production ∧
        production.location = ⟨file, written.2⟩)
      (keepFirst (isEpsilonText ·.1) (numberedAlternatives n.name lines)) (g.productionsOf id)
  references  : ∀ error, g.checkReferences = .error error →
    ∃ name number, IsFirstLine lines (·.head? = some name) number ∧
      error = ⟨⟨file, number⟩, .unreferenced name⟩
  ruleLists   : ∀ error, g.checkRuleLists = .error error →
    (∃ name number, name ∉ headNames lines ∧ IsFirstLine lines (·.Mentions name) number ∧
      error = ⟨⟨file, number⟩, .undefinedNonterminal name⟩) ∨
    ∃ name number, IsFirstLine lines (·.head? = some name) number ∧
      error = ⟨⟨file, number⟩, .noProductions name⟩

section

variable {lines : List (Option (List Char))}

theorem readable_of_ofLines (h : ofLines file lines = .ok g) : ∀ line ∈ linesOf lines, line.Readable := by
  intro line hl texts ht
  have ⟨_, hr⟩ := sound_and_records_of_ofLines h
  obtain ⟨clause, hc, rfl⟩ := exists_clause_of_mem_texts (firstFault?_of_ofLines h) hl ht
  have ⟨_, _, _, words, hw, _⟩ := exists_writes_of_mem_clauses hr hc
  exact ⟨words, hw⟩

theorem firstLine?_of_ofLines (h : ofLines file lines = .ok g) (hn : n ∈ g.symbols.nonterminals) :
    ∃ number, firstLine? n.isSite 0 (pieces 1 (linesOf lines)) = some number ∧
      n.location = ⟨file, number⟩ := by
  have ⟨loader, hsteps, hfinish⟩ := exists_steps_of_ofLines h
  obtain ⟨root, hroot, rfl⟩ := Loader.finish_eq_ok_iff.mp hfinish
  have hsited := hsteps.sited (Loader.sound_start file) (Loader.sited_start file)
  have ⟨hfile, hline⟩ := hsited.entry n hn
  have hlabel : n.location.file = file := hfile.trans hsteps.file
  exact ⟨n.location.line, hline, congrArg (Location.mk · n.location.line) hlabel⟩

theorem exists_isFirstLine_of_ofLines (h : ofLines file lines = .ok g) (hn : n ∈ g.symbols.nonterminals)
    {P : Line → Prop}
    (hP : ∀ line ∈ linesOf lines, (∃ piece ∈ line.pieces 0, n.isSite piece = true) ↔ P line) :
    ∃ number, IsFirstLine (linesOf lines) P number ∧ n.location = ⟨file, number⟩ := by
  have ⟨number, hsite, hlocation⟩ := firstLine?_of_ofLines h hn
  refine ⟨number, isFirstLine_of_firstLine? (fun k => ?_) hsite hP, hlocation⟩
  by_contra hk
  cases Nonterminal.name?_of_isSite (Bool.not_eq_false _ ▸ hk)

theorem site_of_headed (h : ofLines file lines = .ok g) (hn : n ∈ g.symbols.nonterminals)
    (hm : n.name ∈ headNames (linesOf lines)) :
    ∃ number, IsFirstLine (linesOf lines) (·.head? = some n.name) number ∧ n.location = ⟨file, number⟩ := by
  have ⟨hg, hr⟩ := sound_and_records_of_ofLines h
  have ⟨id, hid⟩ := List.mem_iff_getElem?.mp hn
  have hw := hr.isSynthetic_of_mem_heads hg.symbols hid hm
  rw [SymbolTable.isSynthetic_of_getElem? hid] at hw
  have hd := ((census_of_ofLines h).defined hid hw).mpr hm
  refine exists_isFirstLine_of_ofLines h hn fun line _ => ?_
  simp only [Nonterminal.isSite, hd, hw, Bool.not_false, Bool.and_self, ↓reduceIte, beq_iff_eq]
  exact exists_head_piece_iff

theorem head?_ne_of_not_mem {name : String} {lines : List Line} {line : Line} (h : name ∉ headNames lines)
    (hl : line ∈ lines) : line.head? ≠ some name :=
  fun he => h (List.mem_filterMap.mpr ⟨line, hl, he⟩)

theorem site_of_headless (h : ofLines file lines = .ok g) (hn : n ∈ g.symbols.nonterminals)
    (hw : n.synthetic = false) (hm : n.name ∉ headNames (linesOf lines)) :
    ∃ number, IsFirstLine (linesOf lines) (·.Mentions n.name) number ∧ n.location = ⟨file, number⟩ := by
  have hc := census_of_ofLines h
  have ⟨id, hid⟩ := List.mem_iff_getElem?.mp hn
  have hd : n.defined = false := Bool.eq_false_iff.mpr (mt (hc.defined hid hw).mp hm)
  have ⟨word, hu, hitem⟩ := ((hc.written n.name).mp ⟨n, hn, hw, rfl⟩).resolve_left hm
  have hi : (Item.nonterminal n.name).WellFormed := hitem ▸ hu.wellFormed
  refine exists_isFirstLine_of_ofLines h hn fun line hl => ?_
  simp only [Nonterminal.isSite, hd, Bool.false_and, Bool.false_eq_true, ↓reduceIte, beq_iff_eq]
  exact exists_written_piece_iff (readable_of_ofLines h line hl) hi (head?_ne_of_not_mem hm hl)

theorem site_of_helper (h : ofLines file lines = .ok g) (hn : n ∈ g.symbols.nonterminals)
    (hsyn : n.synthetic = true) :
    ∃ number, IsFirstLine (linesOf lines) (·.HasWord n.name.toList) number ∧ n.location = ⟨file, number⟩ := by
  have ⟨hg, hr⟩ := sound_and_records_of_ofLines h
  have ⟨id, hid⟩ := List.mem_iff_getElem?.mp hn
  have ⟨item, repetition, hi, ht⟩ := (hg.symbols.nonterminal n hn).repeated hsyn
  have hm : n.name ∉ headNames (linesOf lines) := by
    intro hm
    have hw := hr.isSynthetic_of_mem_heads hg.symbols hid hm
    simp [SymbolTable.isSynthetic_of_getElem? hid, hsyn] at hw
  refine exists_isFirstLine_of_ofLines h hn fun line hl => ?_
  simp only [Nonterminal.isSite, hsyn, Bool.not_true, Bool.and_false, Bool.false_eq_true, ↓reduceIte,
    beq_iff_eq]
  exact exists_helper_piece_iff (readable_of_ofLines h line hl) hi ht (head?_ne_of_not_mem hm hl)

theorem map_location_of_helper (h : ofLines file lines = .ok g) (hn : g.symbols.nonterminals[id]? = some n)
    (hsyn : n.synthetic = true) :
    (g.productionsOf id).map Production.location = [n.location, n.location] := by
  have ⟨loader, hsteps, hfinish⟩ := exists_steps_of_ofLines h
  obtain ⟨root, _, rfl⟩ := Loader.finish_eq_ok_iff.mp hfinish
  have hstart : (Loader.start file).HelpersSited := by
    intro id n hn
    simp [Loader.start, SymbolTable.empty] at hn
  exact hsteps.helpersSited (Loader.sound_start file) hstart hn hsyn

theorem productions_says_and_location (h : ofLines file lines = .ok g)
    (hn : g.symbols.nonterminals[id]? = some n) (hw : n.synthetic = false) :
    List.Forall₂ (fun written production => g.symbols.Says written.1 production ∧
        production.location = ⟨file, written.2⟩)
      (keepFirst (isEpsilonText ·.1) (numberedAlternatives n.name (linesOf lines))) (g.productionsOf id) := by
  have ⟨_, hr⟩ := sound_and_records_of_ofLines h
  have hsays := (hr.productions hn hw).imp fun _ _ hx => hx.says
  rw [← map_fst_keepFirst_numberedAlternatives, List.forall₂_map_left_iff] at hsays
  have ⟨loader, hrun, hfinish⟩ := exists_run_of_ofLines h
  obtain ⟨root, _, rfl⟩ := Loader.finish_eq_ok_iff.mp hfinish
  have hlocations := Loader.map_location_of_run hrun hn hw
  exact forall₂_and_of_map_eq hsays hlocations

-- Whatever no production mentions has a rule head, or it would not be in the table.
theorem site_of_checkReferences {error : GrammarError} (h : ofLines file lines = .ok g)
    (he : g.checkReferences = .error error) :
    ∃ name number, IsFirstLine (linesOf lines) (·.head? = some name) number ∧
      error = ⟨⟨file, number⟩, .unreferenced name⟩ := by
  have hg := sound_of_ofLines h
  have hc := census_of_ofLines h
  obtain ⟨id, n, hid, rfl⟩ := checkReferences_eq_error_iff.mp he
  have hn := List.mem_of_getElem? hid.getElem?
  have href := Bool.eq_false_iff.mp hid.holds
  have hw : n.synthetic = false := by
    by_contra hsyn
    exact href (hg.rules.helpers hid.getElem? (Bool.not_eq_false _ ▸ hsyn)).left
  have hunused := fun hu => href ((hc.referenced hid.getElem? hw).mpr (.inr hu))
  have hm := ((hc.written n.name).mp ⟨n, hn, hw, rfl⟩).resolve_right hunused
  have ⟨number, hfirst, hlocation⟩ := site_of_headed h hn hm
  exact ⟨n.name, number, hfirst, by rw [hlocation]⟩

theorem site_of_checkRuleLists {error : GrammarError} (h : ofLines file lines = .ok g)
    (he : g.checkRuleLists = .error error) :
    (∃ name number, name ∉ headNames (linesOf lines) ∧
        IsFirstLine (linesOf lines) (·.Mentions name) number ∧
        error = ⟨⟨file, number⟩, .undefinedNonterminal name⟩) ∨
      ∃ name number, IsFirstLine (linesOf lines) (·.head? = some name) number ∧
        error = ⟨⟨file, number⟩, .noProductions name⟩ := by
  obtain ⟨id, n, fault, hid, hf, rfl⟩ := checkRuleLists_eq_error_iff.mp he
  have hn := List.mem_of_getElem? hid.getElem?
  cases (ruleFault?_eq_some_iff h hid.getElem?).mp hf
  case head hw hm =>
    have ⟨number, hfirst, hlocation⟩ := site_of_headless h hn hw hm
    exact .inl ⟨n.name, number, hm, hfirst, by rw [hlocation]⟩
  case alternatives hm _ =>
    have ⟨number, hfirst, hlocation⟩ := site_of_headed h hn hm
    exact .inr ⟨n.name, number, hfirst, by rw [hlocation]⟩

theorem sited_of_ofLines (h : ofLines file lines = .ok g) : g.Sited file (linesOf lines) where
  headed n hn             := site_of_headed h hn
  headless n hn           := site_of_headless h hn
  productions id n hn     := productions_says_and_location h hn
  references error        := site_of_checkReferences h
  ruleLists error         := site_of_checkRuleLists h
  helper id n hn hsyn     := by
    have ⟨number, hfirst, hlocation⟩ := site_of_helper h (List.mem_of_getElem? hn) hsyn
    exact ⟨number, hfirst, hlocation, hlocation ▸ map_location_of_helper h hn hsyn⟩

-- `B` is mentioned before it has a head, `A` has a second one, and `C` has none. Of the two 0 for `B` the
-- first one counts.
theorem sited_of_late_and_repeated_heads :
    ∃ g, ofLines (some "g") (["A → B d+ | C*", "A → 0", "B → d+", "| 0 | A", "B → e | 0"].map
        (some ·.toList)) = .ok g ∧
      g.symbols.nonterminals.map (fun n => (n.name, n.location.line)) =
        [("A", 1), ("B", 3), ("d+", 1), ("C", 1), ("C*", 1)] ∧
      g.rules.map (fun rule => (rule.head, rule.productions.map (·.location.line))) =
        [(0, [1, 1, 2]), (2, [1, 1]), (4, [1, 1]), (1, [3, 4, 4, 5])] ∧
      g.checkRuleLists = .error ⟨⟨some "g", 1⟩, .undefinedNonterminal "C"⟩ ∧
      g.Sited (some "g") (linesOf (["A → B d+ | C*", "A → 0", "B → d+", "| 0 | A", "B → e | 0"].map
        (some ·.toList))) := by
  obtain ⟨g, hg, hc⟩ : ∃ g, ofLines (some "g") (["A → B d+ | C*", "A → 0", "B → d+", "| 0 | A",
      "B → e | 0"].map (some ·.toList)) = .ok g ∧
      g.symbols.nonterminals.map (fun n => (n.name, n.location.line)) =
        [("A", 1), ("B", 3), ("d+", 1), ("C", 1), ("C*", 1)] ∧
      g.rules.map (fun rule => (rule.head, rule.productions.map (·.location.line))) =
        [(0, [1, 1, 2]), (2, [1, 1]), (4, [1, 1]), (1, [3, 4, 4, 5])] ∧
      g.checkRuleLists = .error ⟨⟨some "g", 1⟩, .undefinedNonterminal "C"⟩ :=
    exists_of_ofLines (by decide +kernel)
  exact ⟨g, hg, hc.left, hc.right.left, hc.right.right, sited_of_ofLines hg⟩

end
end Grammar
end LineGrammar
