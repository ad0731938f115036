import LineGrammar.Proofs.LineEdits
import LineGrammar.Proofs.Renumbering

/-!
Sources that differ in their layout only. How lines end and what edits have been made to them changes nothing
of what is loaded, and lines that say nothing only change the numbers of the lines after them.
-/

namespace LineGrammar

inductive Ending
  | feed
  | returnFeed
  deriving DecidableEq, Repr

def Ending.text : Ending → List Char
  | feed       => ['\n']
  | returnFeed => ['\r', '\n']

structure Layout where
  ended : List (List Char × Ending)
  last : List Char
  no_feed : ∀ line ∈ ended.map Prod.fst ++ [last], '\n' ∉ line

namespace Layout

variable (layout : Layout)

def lines : List (List Char) :=
  layout.ended.map Prod.fst ++ [layout.last]

def text : List Char :=
  layout.ended.flatMap (fun (line, ending) => line ++ ending.text) ++ layout.last

def source : List UInt8 :=
  encode (String.ofList layout.text)

end Layout

theorem exists_layout (text : List Char) : ∃ layout : Layout, layout.text = text := by
  by_cases hm : '\n' ∈ text
  case neg => exact ⟨⟨[], text, by simpa using hm⟩, rfl⟩
  case pos =>
    obtain ⟨line, rest, rfl, hline⟩ := List.eq_append_cons_of_mem hm
    obtain ⟨layout, hrest⟩ := exists_layout rest
    have hno : ∀ other ∈ ((line, Ending.feed) :: layout.ended).map Prod.fst ++ [layout.last],
        '\n' ∉ other := by
      rw [List.map_cons, List.cons_append, List.forall_mem_cons]
      exact ⟨hline, layout.no_feed⟩
    refine ⟨⟨(line, .feed) :: layout.ended, layout.last, hno⟩, ?_⟩
    rw [← hrest]
    simp [Layout.text, Ending.text]
termination_by text.length
decreasing_by simp_all; omega

theorem Line.ofText_dropReturn (text : List Char) : ofText (dropReturn '\r' text) = ofText text := by
  by_cases hlast : text.getLast? = some '\r'
  case neg => rw [dropReturn_of_getLast?_ne hlast]
  case pos =>
    obtain ⟨front, rfl⟩ := List.getLast?_eq_some_iff.mp hlast
    have hblank : ∀ c ∈ ['\r'], isBlank c := List.forall_mem_singleton.mpr (by decide)
    rw [dropReturn_append_return]
    exact ofText_eq_of_stripComment_eq (stripComment_append_right hblank front).symm

theorem exists_textLines_of_ending {line : List Char} (h : '\n' ∉ line) (ending : Ending) (rest : List Char) :
    ∃ first, textLines (line ++ ending.text ++ rest) = first :: textLines rest ∧
      Line.ofText first = Line.ofText line := by
  cases ending
  case feed =>
    have htext : line ++ Ending.feed.text ++ rest = line ++ '\n' :: rest := by simp [Ending.text]
    rw [htext, textLines, linesBy_feed h]
    exact ⟨_, rfl, Line.ofText_dropReturn line⟩
  case returnFeed =>
    have htext : line ++ Ending.returnFeed.text ++ rest = line ++ ['\r'] ++ '\n' :: rest := by
      simp [Ending.text]
    have hno : '\n' ∉ line ++ ['\r'] := by simpa using h
    rw [htext, textLines, linesBy_feed hno, dropReturn_append_return]
    exact ⟨_, rfl, rfl⟩

-- The lines that are read are those of the layout, except that an empty one at the end is none.
theorem exists_lines_of_text {ended : List (List Char × Ending)} {last : List Char}
    (h : ∀ line ∈ ended.map Prod.fst ++ [last], '\n' ∉ line) :
    ∃ idle, (∀ text ∈ idle, Line.IsIdle text) ∧
      (textLines (ended.flatMap (fun (line, ending) => line ++ ending.text) ++ last) ++ idle).map
        Line.ofText = (ended.map Prod.fst ++ [last]).map Line.ofText := by
  induction ended
  case nil =>
    have hlast : '\n' ∉ last := h last (by simp)
    rw [List.flatMap_nil, List.nil_append, textLines, linesBy_of_not_mem hlast]
    cases last
    case nil  => exact ⟨[[]], by simpa using Line.IsIdle.blank (by simp), rfl⟩
    case cons => exact ⟨[], by simp, rfl⟩
  case cons line rest ih =>
    obtain ⟨line, ending⟩ := line
    rw [List.map_cons, List.cons_append, List.forall_mem_cons] at h
    obtain ⟨idle, hidle, hlines⟩ := ih h.right
    obtain ⟨first, hfirst, hofText⟩ := exists_textLines_of_ending h.left ending
      (rest.flatMap (fun (line, ending) => line ++ ending.text) ++ last)
    refine ⟨idle, hidle, ?_⟩
    rw [List.flatMap_cons, List.append_assoc, hfirst, List.cons_append, List.map_cons, hlines, hofText]
    rfl

section

variable {texts before idle after : List (List Char)} {number : Nat}

namespace Grammar

theorem activeLines_append (number : Nat) (before after : List (List Char)) :
    activeLines number (before ++ after) =
      activeLines number before ++ activeLines (number + before.length) after := by
  rw [activeLines, List.map_append, List.zipIdx_append, List.filter_append, List.length_map, activeLines,
    activeLines]

theorem activeLines_of_isIdle (number : Nat) (h : ∀ text ∈ texts, Line.IsIdle text) :
    activeLines number texts = [] := by
  rw [activeLines, List.zipIdx_map, List.filter_map, List.map_eq_nil_iff, List.filter_eq_nil_iff]
  intro row hrow
  have hidle := h row.1 (List.fst_mem_of_mem_zipIdx hrow)
  simp [hidle.ofText_eq]

theorem activeLines_add (number count : Nat) (texts : List (List Char)) :
    activeLines (number + count) texts = (activeLines number texts).map (Prod.map id (· + count)) := by
  rw [activeLines, Nat.add_comm, ← List.map_snd_add_zipIdx_eq_zipIdx, List.filter_map, activeLines]
  rfl

theorem le_and_lt_of_mem_activeLines {line : Line} {n : Nat} (h : (line, n) ∈ activeLines number texts) :
    number ≤ n ∧ n < number + texts.length := by
  have hm := List.mem_zipIdx (List.mem_filter.mp h).left
  simpa using And.intro hm.left hm.right.left

theorem activeLines_congr {texts' : List (List Char)} (h : texts'.map Line.ofText = texts.map Line.ofText) :
    activeLines number texts' = activeLines number texts := by
  rw [activeLines, activeLines, h]

theorem activeLines_textLines (layout : Layout) :
    activeLines 1 (textLines layout.text) = activeLines 1 layout.lines := by
  obtain ⟨idle, hidle, hlines⟩ := exists_lines_of_text layout.no_feed
  have hlines : activeLines 1 (textLines layout.text ++ idle) = activeLines 1 layout.lines :=
    activeLines_congr hlines
  rwa [activeLines_append, activeLines_of_isIdle _ hidle, List.append_nil] at hlines

end Grammar

def shiftDown (first count number : Nat) : Nat :=
  if number ≤ first then number else number + count

def shiftUp (first count number : Nat) : Nat :=
  if number ≤ first then number else number - count

theorem shiftUp_shiftDown (first count number : Nat) :
    shiftUp first count (shiftDown first count number) = number := by
  by_cases h : number ≤ first
  case pos => simp [shiftDown, shiftUp, h]
  case neg =>
    have hmoved : ¬number + count ≤ first := by omega
    simp [shiftDown, shiftUp, h, hmoved]

namespace Grammar

theorem activeLines_insert (h : ∀ text ∈ idle, Line.IsIdle text) (before after : List (List Char)) :
    activeLines 1 (before ++ idle ++ after) =
      (activeLines 1 (before ++ after)).map (Prod.map id (shiftDown before.length idle.length)) := by
  have hbefore : (activeLines 1 before).map (Prod.map id (shiftDown before.length idle.length)) =
      activeLines 1 before := by
    conv => rhs; rw [← List.map_id (activeLines 1 before)]
    refine List.map_congr_left fun ⟨line, n⟩ hm => ?_
    have ⟨_, hlt⟩ := le_and_lt_of_mem_activeLines hm
    have hle : n ≤ before.length := by omega
    simp [shiftDown, hle]
  have hafter : (activeLines (1 + before.length) after).map
        (Prod.map id (shiftDown before.length idle.length)) =
      activeLines (1 + before.length + idle.length) after := by
    rw [activeLines_add (1 + before.length)]
    refine List.map_congr_left fun ⟨line, n⟩ hm => ?_
    have ⟨hle, _⟩ := le_and_lt_of_mem_activeLines hm
    have hgt : ¬n ≤ before.length := by omega
    simp [shiftDown, hgt]
  rw [activeLines_append, activeLines_append, activeLines_of_isIdle _ h, List.append_nil,
    List.length_append, ← Nat.add_assoc, activeLines_append, List.map_append, hbefore, hafter]

theorem activeLines_delete (h : ∀ text ∈ idle, Line.IsIdle text) (before after : List (List Char)) :
    activeLines 1 (before ++ after) =
      (activeLines 1 (before ++ idle ++ after)).map (Prod.map id (shiftUp before.length idle.length)) := by
  have hback : Prod.map id (shiftUp before.length idle.length) ∘
      Prod.map id (shiftDown before.length idle.length) = (id : Line × Nat → Line × Nat) := by
    funext ⟨line, n⟩
    simp [shiftUp_shiftDown]
  rw [activeLines_insert h, List.map_map, hback, List.map_id]

variable {f : Nat → Nat} {a b : Layout}

-- What is loaded depends on the active lines, and their numbers are the only ones that it has.
theorem load_of_activeLines (file : Option String) (h0 : f 0 = 0)
    (h : activeLines 1 b.lines = (activeLines 1 a.lines).map (Prod.map id f)) :
    load file b.source = renumberAnswer f (load file a.source) := by
  have hload : ∀ layout : Layout, load file layout.source = (do
      let g ← ofLines file ((textLines layout.text).map some)
      g.validate
      return g) := by
    intro layout
    rw [load, ofBytes, Layout.source, sourceLines_encode, String.toList_ofList]
  rw [← activeLines_textLines, ← activeLines_textLines] at h
  rw [hload, hload, ofLines_of_activeLines h0 h, validated_renumber h0]

-- How a text is laid out does not matter for what is loaded, up to the numbers of lines. Every text
-- has a layout, and every gap between words of a right-hand side can be edited. Edits of single lines
-- keep the numbers, idle lines that come or go shift those behind them, and `moved` is what both are
-- cases of: the active lines are the same, at whatever places.
structure LayoutFree (file : Option String) : Prop where
  laidOut   : ∀ text, ∃ layout : Layout, layout.text = text
  respaced  : ∀ text before gap after : List Char, Line.HasRight text (before ++ gap ++ after) → IsGap gap →
    ∃ left right, text = left ++ gap ++ right ∧ before <:+ left ∧ after <+: right ∧
      ∀ gap', IsGap gap' → Line.Edit text (left ++ gap' ++ right)
  edited    : ∀ a b : Layout, List.Forall₂ (Relation.EqvGen Line.Edit) a.lines b.lines →
    load file b.source = load file a.source
  inserted  : ∀ (a b : Layout) (before idle after : List (List Char)), a.lines = before ++ after →
    b.lines = before ++ idle ++ after → (∀ text ∈ idle, Line.IsIdle text) →
      load file b.source = renumberAnswer (shiftDown before.length idle.length) (load file a.source)
  deleted   : ∀ (a b : Layout) (before idle after : List (List Char)), a.lines = before ++ idle ++ after →
    b.lines = before ++ after → (∀ text ∈ idle, Line.IsIdle text) →
      load file b.source = renumberAnswer (shiftUp before.length idle.length) (load file a.source)
  moved     : ∀ (a b : Layout) (f : Nat → Nat), f 0 = 0 →
    activeLines 1 b.lines = (activeLines 1 a.lines).map (Prod.map id f) →
      load file b.source = renumberAnswer f (load file a.source)

theorem layoutFree (file : Option String) : LayoutFree file where
  laidOut := exists_layout
  respaced _ _ _ _ := Line.exists_edit_of_hasRight
  edited a b h := by
    have hlines : a.lines.map Line.ofText = b.lines.map Line.ofText :=
      map_eq_map_of_forall₂ h fun _ _ he => (Line.ofText_eq_of_edits he).symm
    have hactive : activeLines 1 b.lines = (activeLines 1 a.lines).map (Prod.map id id) := by
      rw [Prod.map_id, List.map_id, activeLines_congr hlines.symm]
    simpa using load_of_activeLines file rfl hactive
  inserted a b before idle after ha hb hidle := by
    apply load_of_activeLines file (by simp [shiftDown])
    rw [ha, hb, activeLines_insert hidle]
  deleted a b before idle after ha hb hidle := by
    apply load_of_activeLines file (by simp [shiftUp])
    rw [ha, hb, activeLines_delete hidle]
  moved _ _ _ := load_of_activeLines file

-- Edits of all kinds, and a last line that does not end.
example : load none (encode "\tS →  a\t\tA # root\r\n | b\nA → c*") =
    load none (encode "S → a A\n| b\nA → c*\n") := by
  decide +kernel

end Grammar
end

end LineGrammar
