import LineGrammar.Proofs.Reordering

/-!
The blocks of a source, each of them a rule head with the lines that belong to it. The first block gives
the root; in which order the others stand does not matter.
-/

namespace LineGrammar

-- The first of the lines is a rule head, so what comes before them does not matter.
def Headed (lines : List Line) : Prop :=
  ∃ head texts rest, lines = .rule head texts :: rest

namespace Headed

variable {active : Option String} {number : Nat} {lines : List Line} {blocks : List (List Line)}

theorem headNames_ne_nil (h : Headed lines) : headNames lines ≠ [] := by
  obtain ⟨head, texts, rest, rfl⟩ := h
  simp [headNames, Line.head?]

theorem clausesFrom_eq (h : Headed lines) : clausesFrom active lines = clausesFrom none lines := by
  obtain ⟨head, texts, rest, rfl⟩ := h
  rfl

theorem firstFault?_eq_none_iff (h : Headed lines) :
    firstFault? active number lines = none ↔ firstFault? none 1 lines = none := by
  obtain ⟨head, texts, rest, rfl⟩ := h
  simp only [firstFault?, Line.head?, Option.some_or]
  have hfault : (Line.rule head texts).fault? active = (Line.rule head texts).fault? none := by
    simp [Line.fault?, Line.clauses, Line.head?]
  rw [hfault]
  cases (Line.rule head texts).fault? none
  case some => simp
  case none => exact firstFault?_eq_none_iff_of_number

theorem clausesFrom_flatten (h : ∀ block ∈ blocks, Headed block) :
    clausesFrom active blocks.flatten = blocks.flatMap (clausesFrom none) := by
  induction blocks generalizing active
  case nil => rfl
  case cons block rest ih =>
    rw [List.forall_mem_cons] at h
    rw [List.flatten_cons, clausesFrom_append, h.left.clausesFrom_eq, ih h.right, List.flatMap_cons]

theorem firstFault?_flatten_eq_none_iff (h : ∀ block ∈ blocks, Headed block) :
    firstFault? active number blocks.flatten = none ↔
      ∀ block ∈ blocks, firstFault? none 1 block = none := by
  induction blocks generalizing active number
  case nil => simp [firstFault?]
  case cons block rest ih =>
    rw [List.forall_mem_cons] at h
    rw [List.flatten_cons, firstFault?_append_eq_none_iff, h.left.firstFault?_eq_none_iff, ih h.right,
      List.forall_mem_cons]

end Headed

theorem headNames_flatten (blocks : List (List Line)) :
    headNames blocks.flatten = blocks.flatMap headNames := by
  induction blocks
  case nil => rfl
  case cons block rest ih => rw [List.flatten_cons, headNames_append, ih, List.flatMap_cons]

def startsRule (line : Option (List Char)) : Bool :=
  (line.bind fun text => (Line.ofText text).head?).isSome

-- The first rule head with the lines up to the second one, and all that stands before it.
def firstBlock (lines : List (Option (List Char))) : List (Option (List Char)) :=
  (cutBefore startsRule lines).1 ++ (cutBefore startsRule lines).2.headD []

def otherBlocks (lines : List (Option (List Char))) : List (List (Option (List Char))) :=
  (cutBefore startsRule lines).2.tail

section

variable {lines lines' : List (Option (List Char))} {block : List (Option (List Char))}

theorem eq_firstBlock_append (lines : List (Option (List Char))) :
    lines = firstBlock lines ++ (otherBlocks lines).flatten := by
  have he := append_flatten_cutBefore startsRule lines
  unfold firstBlock otherBlocks
  cases hparts : (cutBefore startsRule lines).2
  case nil       => simpa [hparts] using he.symm
  case cons first rest => simpa [hparts] using he.symm

theorem headed_of_mem_cutBefore (h : block ∈ (cutBefore startsRule lines).2) :
    Headed (linesOf block) := by
  obtain ⟨line, rest, rfl, hs, _⟩ := exists_of_mem_cutBefore h
  cases line
  case none => simp [startsRule] at hs
  case some text =>
    cases ht : Line.ofText text
    case rule head texts => exact ⟨head, texts, linesOf rest, by simp [linesOf, ht]⟩
    all_goals simp [startsRule, ht, Line.head?] at hs

theorem headed_of_mem_otherBlocks (h : block ∈ otherBlocks lines) : Headed (linesOf block) :=
  headed_of_mem_cutBefore (List.mem_of_mem_tail h)

theorem headNames_firstBlock_ne_nil (h : otherBlocks lines ≠ []) :
    headNames (linesOf (firstBlock lines)) ≠ [] := by
  unfold otherBlocks at h
  unfold firstBlock
  cases hparts : (cutBefore startsRule lines).2
  case nil => simp [hparts] at h
  case cons first rest =>
    have hfirst : Headed (linesOf first) := headed_of_mem_cutBefore (hparts ▸ List.mem_cons_self)
    rw [List.headD_cons, linesOf_append, headNames_append]
    exact List.append_ne_nil_of_right_ne_nil _ hfirst.headNames_ne_nil

theorem linesOf_eq_append (lines : List (Option (List Char))) :
    linesOf lines = linesOf (firstBlock lines) ++ ((otherBlocks lines).map linesOf).flatten := by
  rw [← linesOf_flatten, ← linesOf_append, ← eq_firstBlock_append]

theorem headed_of_mem_map_otherBlocks (lines : List (Option (List Char))) :
    ∀ block ∈ (otherBlocks lines).map linesOf, Headed block := by
  simpa using fun block => headed_of_mem_otherBlocks

theorem reorders_of_perm_otherBlocks (hfirst : firstBlock lines = firstBlock lines')
    (hothers : (otherBlocks lines).Perm (otherBlocks lines')) :
    Reorders (linesOf lines) (linesOf lines') := by
  have hblocks := hothers.map linesOf
  constructor
  case root =>
    by_cases hnil : otherBlocks lines = []
    case pos =>
      have hnil' : otherBlocks lines' = [] := (hnil ▸ hothers).nil_eq.symm
      rw [linesOf_eq_append lines, linesOf_eq_append lines', hfirst, hnil, hnil']
    case neg =>
      have hne := headNames_firstBlock_ne_nil hnil
      rw [linesOf_eq_append lines, linesOf_eq_append lines', ← hfirst, headNames_append,
        headNames_append, List.head?_append_of_ne_nil _ hne, List.head?_append_of_ne_nil _ hne]
  case heads =>
    rw [linesOf_eq_append lines, linesOf_eq_append lines', hfirst, headNames_append, headNames_append,
      headNames_flatten, headNames_flatten]
    exact (hblocks.flatMap_right _).append_left _
  case clauses =>
    rw [linesOf_eq_append lines, linesOf_eq_append lines', hfirst, clausesFrom_append,
      clausesFrom_append, Headed.clausesFrom_flatten (headed_of_mem_map_otherBlocks lines),
      Headed.clausesFrom_flatten (headed_of_mem_map_otherBlocks lines')]
    exact (hblocks.flatMap_right _).append_left _

theorem firstFault?_linesOf_eq_none_iff (lines : List (Option (List Char))) :
    firstFault? none 1 (linesOf lines) = none ↔
      firstFault? none 1 (linesOf (firstBlock lines)) = none ∧
        ∀ block ∈ otherBlocks lines, firstFault? none 1 (linesOf block) = none := by
  rw [linesOf_eq_append lines, firstFault?_append_eq_none_iff,
    Headed.firstFault?_flatten_eq_none_iff (headed_of_mem_map_otherBlocks lines)]
  simp

namespace Grammar

variable {file file' : Option String} {g g' : Grammar}

theorem exists_ofLines_iff_firstFault? :
    (∃ g, ofLines file lines = .ok g) ↔
      none ∉ lines ∧ firstFault? none 1 (linesOf lines) = none ∧ headNames (linesOf lines) ≠ [] := by
  constructor
  case mp =>
    intro ⟨g, h⟩
    have hroot := (sound_and_records_of_ofLines h).right.root
    refine ⟨exists_map_some_iff.mp (exists_texts_of_ofLines h), firstFault?_of_ofLines h, fun hnil => ?_⟩
    simp [hnil] at hroot
  case mpr =>
    intro ⟨htexts, hf, hh⟩
    obtain ⟨texts, rfl⟩ := exists_map_some_iff.mpr htexts
    rw [linesOf_map_some] at hf hh
    have ⟨g, hg, _⟩ := exists_of_no_fault file hf hh
    exact ⟨g, hg⟩

theorem exists_ofLines_of_perm_otherBlocks (hfirst : firstBlock lines = firstBlock lines')
    (hothers : (otherBlocks lines).Perm (otherBlocks lines'))
    (h : ∃ g, ofLines file lines = .ok g) : ∃ g', ofLines file lines' = .ok g' := by
  rw [exists_ofLines_iff_firstFault?] at h ⊢
  have ⟨htexts, hf, hh⟩ := h
  have hlines : lines.Perm lines' := by
    rw [eq_firstBlock_append lines, eq_firstBlock_append lines', hfirst]
    exact hothers.flatten.append_left _
  refine ⟨mt hlines.mem_iff.mpr htexts, ?_, fun hnil => hh ?_⟩
  · rw [firstFault?_linesOf_eq_none_iff] at hf ⊢
    exact ⟨hfirst ▸ hf.left, fun block hm => hf.right block (hothers.mem_iff.mpr hm)⟩
  · have hheads := (reorders_of_perm_otherBlocks hfirst hothers).heads
    exact (hnil ▸ hheads).eq_nil

theorem matches_of_perm_otherBlocks (hfirst : firstBlock lines = firstBlock lines')
    (hothers : (otherBlocks lines).Perm (otherBlocks lines')) :
    ((∃ g, ofLines file lines = .ok g) ↔ ∃ g', ofLines file lines' = .ok g') ∧
      ∀ g g', ofLines file lines = .ok g → ofLines file lines' = .ok g' → g.Matches g' := by
  refine ⟨⟨exists_ofLines_of_perm_otherBlocks hfirst hothers,
    exists_ofLines_of_perm_otherBlocks hfirst.symm hothers.symm⟩, fun g g' h h' => ?_⟩
  exact matches_of_reorders h h' (reorders_of_perm_otherBlocks hfirst hothers)

-- The two blocks for `A` change places. The nonterminals are numbered differently then, as the helper
-- is made later than `C`.
theorem matches_of_exchanged_blocks :
    ∃ g g',
      ofLines none (["S → A B", "A → 0 | b A*", "B → C", "A → 0 | c"].map (some ·.toList)) = .ok g ∧
      ofLines none (["S → A B", "A → 0 | c", "B → C", "A → 0 | b A*"].map (some ·.toList)) = .ok g' ∧
      g.symbols.nonterminalNamed? "A*" = some 3 ∧ g'.symbols.nonterminalNamed? "A*" = some 4 ∧
      g.Matches g' ∧
      ∃ location names, g'.checkDerivability = .error ⟨location, .nonDerivable names⟩ ∧
        ∀ name, name ∈ ["S", "B", "C"] ↔ name ∈ names := by
  obtain ⟨g, hg, hA, hcheck⟩ : ∃ g,
      ofLines none (["S → A B", "A → 0 | b A*", "B → C", "A → 0 | c"].map (some ·.toList)) = .ok g ∧
      g.symbols.nonterminalNamed? "A*" = some 3 ∧
      g.checkDerivability = .error ⟨⟨none, 0⟩, .nonDerivable ["S", "B", "C"]⟩ :=
    exists_of_ofLines (by decide +kernel)
  obtain ⟨g', hg', hA'⟩ : ∃ g',
      ofLines none (["S → A B", "A → 0 | c", "B → C", "A → 0 | b A*"].map (some ·.toList)) = .ok g' ∧
      g'.symbols.nonterminalNamed? "A*" = some 4 :=
    exists_of_ofLines (by decide +kernel)
  have hmatches := (matches_of_perm_otherBlocks (by decide +kernel) (by decide +kernel)).right g g' hg hg'
  exact ⟨g, g', hg, hg', hA, hA', hmatches, hmatches.nonDerivable hcheck⟩

end Grammar
end
end LineGrammar
