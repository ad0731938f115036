import LineGrammar.Text.Ranges

/-!
White space: the characters that trimming removes and that part one word from the next.
-/

namespace LineGrammar

-- The code points with the Unicode property White_Space, in ascending order.
def blank : Ranges := [
  (0x9, 0xD), (0x20, 0x20), (0x85, 0x85), (0xA0, 0xA0), (0x1680, 0x1680), (0x2000, 0x200A),
  (0x2028, 0x2029), (0x202F, 0x202F), (0x205F, 0x205F), (0x3000, 0x3000)]

def isBlank (c : Char) : Bool :=
  blank.covers c

def trimStart (text : List Char) : List Char :=
  text.dropWhile isBlank

def trimEnd (text : List Char) : List Char :=
  (text.reverse.dropWhile isBlank).reverse

def trim (text : List Char) : List Char :=
  trimEnd (trimStart text)

def words (text : List Char) : List (List Char) :=
  (text.splitOnP isBlank).filter (!·.isEmpty)

theorem mem_and_of_mem_splitOnP {α : Type} {p : α → Bool} {l run : List α}
    (h : run ∈ l.splitOnP p) : ∀ a ∈ run, a ∈ l ∧ p a = false := by
  induction l generalizing run
  case nil =>
    rw [List.splitOnP_nil, List.mem_singleton] at h
    simp [h]
  case cons b rest ih =>
    have hrest : ∀ {run}, run ∈ rest.splitOnP p → ∀ a ∈ run, a ∈ b :: rest ∧ p a = false :=
      fun hrun a ha => (ih hrun a ha).imp_left (List.mem_cons_of_mem b)
    rw [List.splitOnP_cons_eq_if_modifyHead] at h
    split at h
    case isTrue =>
      cases List.mem_cons.mp h
      case inl h => simp [h]
      case inr h => exact hrest h
    case isFalse hb =>
      have ⟨first, others, hsplit⟩ := List.exists_cons_of_ne_nil (List.splitOnP_ne_nil p rest)
      rw [hsplit, List.modifyHead_cons] at h
      rw [hsplit] at hrest
      cases List.mem_cons.mp h
      case inr h => exact hrest (List.mem_cons_of_mem _ h)
      case inl h =>
        rw [h, List.forall_mem_cons]
        exact ⟨⟨List.mem_cons_self, by simpa using hb⟩, hrest List.mem_cons_self⟩

@[simp]
theorem words_nil : words [] = [] := by
  simp [words]

theorem words_append_blank {c : Char} (h : isBlank c) (before after : List Char) :
    words (before ++ c :: after) = words before ++ words after := by
  simp [words, List.splitOnP_append_cons before after h]

theorem words_cons_blank {c : Char} (h : isBlank c) (text : List Char) :
    words (c :: text) = words text := by
  simpa using words_append_blank h [] text

theorem words_singleton {word : List Char} (hn : word ≠ [])
    (hb : ∀ c ∈ word, isBlank c = false) : words word = [word] := by
  simp [words, List.splitOnP_eq_singleton hb, hn]

end LineGrammar
