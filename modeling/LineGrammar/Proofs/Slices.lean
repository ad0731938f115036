import LineGrammar.Line
import LineGrammar.Proofs.Encoding
import LineGrammar.Proofs.Words

/-!
Cutting texts by bytes. Where a comment, a mark or the quotes of a literal are cut off, the cuts are made
between characters, so what remains is a text.
-/

namespace LineGrammar

-- The bytes of the text from one position up to another are those of the piece. Both positions stand
-- between characters of the text.
structure Slices (text : String) (start stop : Nat) (piece : String) : Prop where
  start_valid : (⟨start⟩ : String.Pos.Raw).IsValid text
  stop_valid  : (⟨stop⟩ : String.Pos.Raw).IsValid text
  ordered     : start ≤ stop
  bytes       : (encode text).extract start stop = encode piece

section

variable {text before piece after : String}

theorem length_encode (text : String) : (encode text).length = text.utf8ByteSize :=
  rfl

theorem encode_append (before after : String) : encode (before ++ after) = encode before ++ encode after := by
  simp [encode_eq_flatMap]

theorem slices_of_append (h : text = before ++ piece ++ after) :
    Slices text before.utf8ByteSize (before.utf8ByteSize + piece.utf8ByteSize) piece where
  start_valid :=
    String.Pos.Raw.isValid_iff_exists_append.mpr ⟨before, piece ++ after, h ▸ String.append_assoc, rfl⟩
  stop_valid := by
    refine String.Pos.Raw.isValid_iff_exists_append.mpr ⟨before ++ piece, after, h, ?_⟩
    simp [String.rawEndPos]
  ordered := Nat.le_add_right ..
  bytes := by
    rw [h, encode_append, encode_append, List.append_assoc, List.extract_eq_take_drop]
    simp [← length_encode]

end

structure CutsLast (text rest : String) (c : Char) : Prop where
  size : 1 ≤ text.utf8ByteSize
  rest : Slices text 0 (text.utf8ByteSize - 1) rest
  last : Slices text (text.utf8ByteSize - 1) text.utf8ByteSize (String.singleton c)

structure CutsEnds (text inner : String) (c : Char) : Prop where
  size  : 2 ≤ text.utf8ByteSize
  first : Slices text 0 1 (String.singleton c)
  inner : Slices text 1 (text.utf8ByteSize - 1) inner
  last  : Slices text (text.utf8ByteSize - 1) text.utf8ByteSize (String.singleton c)

theorem cutsLast_of_append {text rest : String} {c : Char} (hc : c.utf8Size = 1)
    (h : text = rest ++ String.singleton c) : CutsLast text rest c := by
  have hsize : text.utf8ByteSize = rest.utf8ByteSize + 1 := by simp [h, hc]
  have hsub : text.utf8ByteSize - 1 = rest.utf8ByteSize := by omega
  have hrest : text = "" ++ rest ++ String.singleton c := by simp [h]
  have hlast : text = rest ++ String.singleton c ++ "" := by simp [h]
  refine ⟨by omega, ?rest, ?last⟩
  case rest => simpa [hsub] using slices_of_append hrest
  case last => simpa [hsub, hsize, hc] using slices_of_append hlast

theorem cutsEnds_of_append {text inner : String} {c : Char} (hc : c.utf8Size = 1)
    (h : text = String.singleton c ++ inner ++ String.singleton c) : CutsEnds text inner c := by
  have hcut : CutsLast text (String.singleton c ++ inner) c := cutsLast_of_append hc h
  have hsize : text.utf8ByteSize = 1 + inner.utf8ByteSize + 1 := by simp [h, hc]
  have hsub : text.utf8ByteSize - 1 = 1 + inner.utf8ByteSize := by omega
  have hfirst : text = "" ++ String.singleton c ++ (inner ++ String.singleton c) := by
    rw [h, String.empty_append, String.append_assoc]
  refine ⟨by omega, ?first, ?inner, hcut.last⟩
  case first => simpa [hc] using slices_of_append hfirst
  case inner => simpa [hc, hsub] using slices_of_append h

theorem slices_of_hash {line : List Char} (h : '#' ∈ line) :
    let content := String.ofList (line.takeWhile (· != '#'))
    Slices (String.ofList line) 0 content.utf8ByteSize content ∧
      Slices (String.ofList line) content.utf8ByteSize (content.utf8ByteSize + 1) "#" := by
  obtain ⟨before, after, rfl, hb⟩ := List.eq_append_cons_of_mem h
  have hcontent : (before ++ '#' :: after).takeWhile (· != '#') = before := by
    have hne : ∀ c ∈ before, (c != '#') = true := by
      intro c hc
      simpa using fun he : c = '#' => hb (he ▸ hc)
    simp [List.takeWhile_append_of_pos hne]
  have hfirst : String.ofList (before ++ '#' :: after) =
      "" ++ String.ofList before ++ String.ofList ('#' :: after) := by simp
  have hhash : String.ofList (before ++ '#' :: after) = String.ofList before ++ "#" ++ String.ofList after :=
    String.toList_injective (by simp)
  simp only [hcontent]
  exact ⟨by simpa using slices_of_append hfirst, slices_of_append hhash⟩

theorem Repetition.utf8Size_mark (repetition : Repetition) : repetition.mark.utf8Size = 1 := by
  cases repetition <;> rfl

theorem Quote.utf8Size_char (quote : Quote) : quote.char.utf8Size = 1 := by
  cases quote <;> rfl

namespace Word

variable {text base : List Char} {word : Word} {repetition : Repetition} {quote : Quote} {inner : String}

theorem cutsLast_of_splitMark (h : splitMark text = (base, some repetition)) :
    CutsLast (String.ofList text) (String.ofList base) repetition.mark := by
  refine cutsLast_of_append repetition.utf8Size_mark ?_
  rw [splitMark_eq_some_iff.mp h, String.ofList_append, String.singleton_eq_ofList]

theorem cutsEnds_of_ofText (h : ofText text = .ok word) (ht : word.item = .terminal (.literal quote inner)) :
    CutsEnds (String.ofList (splitMark text).1) inner quote.char := by
  obtain ⟨hw, rfl⟩ := ofText_eq_ok_iff.mp h
  refine cutsEnds_of_append quote.utf8Size_char ?_
  rw [splitMark_text hw, ht]
  exact String.toList_injective (by simp [Item.name, Terminal.name])

end Word
end LineGrammar
