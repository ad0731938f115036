import LineGrammar.Proofs.Lists
import LineGrammar.Source

/-!
Texts as bytes. The characters that end a line stand in UTF-8 for themselves, and their bytes are part of
no other character, so the lines of a text may as well be cut before decoding.
-/

namespace LineGrammar

-- The mark is encoded as a single sign, which is part of nothing else.
structure Marks {α β : Type} (encode : α → List β) (mark : α) (sign : β) : Prop where
  single : encode mark = [sign]
  only   : ∀ a, sign ∈ encode a → a = mark
  ne_nil : ∀ a, encode a ≠ []

section

variable {α β : Type} {f : α → List β} {feed ret mark : α} {sign feedSign retSign : β} {l : List α}

theorem flatMap_intercalate (h : f mark = [sign]) (pieces : List (List α)) :
    ([mark].intercalate pieces).flatMap f = [sign].intercalate (pieces.map (List.flatMap f)) := by
  induction pieces
  case nil => simp
  case cons piece rest ih =>
    cases rest
    case nil => simp
    case cons => simpa [List.intercalate_cons_cons, h] using ih

theorem flatMap_eq_nil_iff (h : Marks f mark sign) : l.flatMap f = [] ↔ l = [] := by
  simp only [List.flatMap_eq_nil_iff, h.ne_nil, imp_false]
  exact List.eq_nil_iff_forall_not_mem.symm

theorem flatMap_append_eq_intercalate (lines : List (List α)) :
    lines.flatMap (· ++ [feed]) = [feed].intercalate (lines ++ [[]]) := by
  induction lines
  case nil => rfl
  case cons line rest ih =>
    rw [List.flatMap_cons, ih, List.cons_append, List.intercalate_cons_of_ne_nil (by simp)]

variable [BEq α] [LawfulBEq α] [BEq β] [LawfulBEq β]

theorem splitOn_flatMap (h : Marks f mark sign) :
    (l.flatMap f).splitOn sign = (l.splitOn mark).map (List.flatMap f) := by
  have hl : l.flatMap f = [sign].intercalate ((l.splitOn mark).map (List.flatMap f)) := by
    rw [← flatMap_intercalate h.single, List.intercalate_splitOn]
  have hn : ∀ piece ∈ (l.splitOn mark).map (List.flatMap f), sign ∉ piece := by
    intro piece hp hs
    obtain ⟨run, hrun, rfl⟩ := List.mem_map.mp hp
    have ⟨a, ha, hs⟩ := List.mem_flatMap.mp hs
    exact (isRun_of_mem_splitOn hrun).left (h.only a hs ▸ ha)
  have hne : (l.splitOn mark).map (List.flatMap f) ≠ [] := by
    simp [List.splitOn_ne_nil]
  rw [hl, List.splitOn_intercalate sign hn hne]

theorem dropReturn_flatMap (h : Marks f ret retSign) :
    dropReturn retSign (l.flatMap f) = (dropReturn ret l).flatMap f := by
  unfold dropReturn
  obtain rfl | ⟨front, a, rfl⟩ := l.eq_nil_or_concat
  · simp
  · rw [List.concat_eq_append, List.flatMap_append, List.flatMap_singleton]
    by_cases ha : a = ret
    case pos => simp [ha, h.single]
    case neg =>
      have hlast : (front.flatMap f ++ f a).getLast? ≠ some retSign := by
        rw [List.getLast?_append_of_ne_nil _ (h.ne_nil a)]
        exact fun hl => ha (h.only a (List.mem_of_getLast? hl))
      rw [if_neg (by simpa using hlast), if_neg (by simp [ha]), List.flatMap_append,
        List.flatMap_singleton]

theorem linesBy_flatMap (hfeed : Marks f feed feedSign) (hret : Marks f ret retSign) :
    linesBy feedSign retSign (l.flatMap f) = (linesBy feed ret l).map (List.flatMap f) := by
  have hlast : ∀ piece : Option (List α), ((piece.map (List.flatMap f)).toList.filter (!·.isEmpty)) =
      (piece.toList.filter (!·.isEmpty)).map (List.flatMap f) := by
    intro piece
    cases piece
    case none => rfl
    case some piece =>
      have : (piece.flatMap f).isEmpty = piece.isEmpty := by
        rw [Bool.eq_iff_iff, List.isEmpty_iff, List.isEmpty_iff, flatMap_eq_nil_iff hfeed]
      cases hp : piece.isEmpty <;> simp [this, hp]
  simp only [linesBy, splitOn_flatMap hfeed, ← List.map_dropLast, List.getLast?_map, hlast,
    List.map_append, List.map_map, Function.comp_def, dropReturn_flatMap hret]

theorem linesBy_append_cons (front rest : List α) : linesBy feed ret (front ++ feed :: rest) =
    (front.splitOn feed).map (dropReturn ret) ++ linesBy feed ret rest := by
  have hne : rest.splitOn feed ≠ [] := List.splitOn_ne_nil _ _
  simp only [linesBy, List.splitOn_append_cons_self, List.dropLast_append_of_ne_nil hne, List.map_append,
    List.getLast?_append_of_ne_nil _ hne, List.append_assoc]

theorem linesBy_append_feed (front rest : List α) : linesBy feed ret (front ++ [feed] ++ rest) =
    linesBy feed ret (front ++ [feed]) ++ linesBy feed ret rest := by
  have hnil : linesBy feed ret [] = [] := rfl
  rw [List.append_assoc, List.singleton_append, linesBy_append_cons, linesBy_append_cons, hnil,
    List.append_nil]

theorem linesBy_flatMap_append {lines : List (List α)} (hfeed : ∀ line ∈ lines, feed ∉ line)
    (hret : ∀ line ∈ lines, ret ∉ line) : linesBy feed ret (lines.flatMap (· ++ [feed])) = lines := by
  have hsplit : (lines.flatMap (· ++ [feed])).splitOn feed = lines ++ [[]] := by
    rw [flatMap_append_eq_intercalate]
    refine List.splitOn_intercalate feed (fun line hm => ?_) (by simp)
    cases List.mem_append.mp hm
    case inl hm => exact hfeed line hm
    case inr hm => simp [List.mem_singleton.mp hm]
  have hdrop : ∀ line ∈ lines, dropReturn ret line = line := by
    intro line hm
    have hlast : line.getLast? ≠ some ret := fun hl => hret line hm (List.mem_of_getLast? hl)
    simp [dropReturn, hlast]
  simp [linesBy, hsplit, List.map_congr_left hdrop]

end

-- A byte below 128 is a whole character.
theorem toNat_eq_of_mem_utf8EncodeChar {c : Char} {b : UInt8} (hb : b ∈ String.utf8EncodeChar c)
    (h : b.toNat < 128) : c.toNat = b.toNat := by
  have hv : c.val.toNat = c.toNat := rfl
  simp only [String.utf8EncodeChar, hv] at hb
  split at hb
  case isTrue hle =>
    rw [List.mem_singleton.mp hb, UInt8.toNat_ofNat']
    omega
  case isFalse =>
    -- All bytes of a longer form have their highest bit set.
    exfalso
    split at hb
    case isTrue =>
      simp only [List.mem_cons, List.not_mem_nil, or_false] at hb
      obtain rfl | rfl := hb <;> rw [UInt8.toNat_ofNat'] at h <;> omega
    case isFalse =>
      split at hb
      all_goals simp only [List.mem_cons, List.not_mem_nil, or_false] at hb
      case isTrue =>
        obtain rfl | rfl | rfl := hb <;> rw [UInt8.toNat_ofNat'] at h <;> omega
      case isFalse =>
        obtain rfl | rfl | rfl | rfl := hb <;> rw [UInt8.toNat_ofNat'] at h <;> omega

theorem marks_utf8EncodeChar {c : Char} {b : UInt8} (hc : String.utf8EncodeChar c = [b])
    (h : b.toNat < 128) : Marks String.utf8EncodeChar c b where
  single := hc
  only a ha := by
    have hmem : b ∈ String.utf8EncodeChar c := hc ▸ List.mem_singleton_self b
    have he : a.toNat = c.toNat :=
      (toNat_eq_of_mem_utf8EncodeChar ha h).trans (toNat_eq_of_mem_utf8EncodeChar hmem h).symm
    exact Char.toNat_inj.mp he
  ne_nil a hn := by
    have := String.length_utf8EncodeChar a
    have := Char.utf8Size_pos a
    simp_all

theorem encode_eq_flatMap (text : String) : encode text = text.toList.flatMap String.utf8EncodeChar := by
  rw [← String.ofList_toList (s := text), encode, String.toByteArray_ofList, String.toList_ofList,
    List.utf8Encode, List.toList_data_toByteArray]

theorem decode_encode (text : String) : decode (encode text) = some text.toList := by
  have hbytes : (⟨(encode text).toArray⟩ : ByteArray) = text.toByteArray := by
    rw [encode, Array.toArray_toList]
  rw [decode, hbytes, String.fromUTF8?, dif_pos text.isValidUTF8]
  rfl

theorem sourceLines_encode (text : String) :
    Grammar.sourceLines (encode text) = (textLines text.toList).map some := by
  have hfeed : Marks String.utf8EncodeChar '\n' 0x0A := marks_utf8EncodeChar rfl (by decide)
  have hret : Marks String.utf8EncodeChar '\r' 0x0D := marks_utf8EncodeChar rfl (by decide)
  have hdecode : ∀ line : List Char, decode (line.flatMap String.utf8EncodeChar) = some line := by
    intro line
    simpa [encode_eq_flatMap] using decode_encode (String.ofList line)
  rw [Grammar.sourceLines, byteLines, encode_eq_flatMap, linesBy_flatMap hfeed hret, List.map_map]
  simp [Function.comp_def, hdecode, textLines]

end LineGrammar
