import LineGrammar.Proofs.Lexemes
import Mathlib.Data.List.DropRight
import Mathlib.Data.List.Induction
import Mathlib.Data.List.TakeWhile

/-!
Lines without trimming. What a line says can be read off the text before its comment as it stands, with white
space at both ends, since neither a bar nor an arrow has white space in it.
-/

namespace LineGrammar

section

variable {text before after blanks : List Char} {c : Char}

theorem trimEnd_append_blanks (h : ∀ c ∈ blanks, isBlank c) (text : List Char) :
    trimEnd (text ++ blanks) = trimEnd text := by
  have hreverse : ∀ c ∈ blanks.reverse, isBlank c := fun c hc => h c (List.mem_reverse.mp hc)
  rw [trimEnd, List.reverse_append, List.dropWhile_append_of_pos hreverse, trimEnd]

theorem trimEnd_prefix (text : List Char) : trimEnd text <+: text := by
  rw [trimEnd, ← List.reverse_suffix, List.reverse_reverse]
  exact List.dropWhile_suffix _

theorem trimEnd_append_of_getLast? (h : before.getLast? = some c) (hc : isBlank c = false) :
    trimEnd (before ++ after) = before ++ trimEnd after := by
  obtain ⟨front, rfl⟩ := List.getLast?_eq_some_iff.mp h
  have hfront : (front ++ [c]).reverse.dropWhile isBlank = (front ++ [c]).reverse := by simp [hc]
  rw [trimEnd, List.reverse_append, List.dropWhile_append, hfront, trimEnd]
  split
  case isTrue he => simp [List.isEmpty_iff.mp he]
  case isFalse   => simp

theorem trim_append {first : Char} (hf : before.head? = some first) (hfirst : isBlank first = false)
    (hl : before.getLast? = some c) (hc : isBlank c = false) :
    trim (before ++ after) = before ++ trimEnd after := by
  obtain ⟨rest, rfl⟩ := List.head?_eq_some_iff.mp hf
  have hstart : trimStart (first :: rest ++ after) = first :: rest ++ after := by
    simp [trimStart, hfirst]
  rw [trim, hstart, trimEnd_append_of_getLast? hl hc]

-- White space at the end makes no word, so it does not matter that a line is trimmed before it is read.
theorem words_trimEnd (text : List Char) : words (trimEnd text) = words text := by
  induction text using List.reverseRecOn
  case nil => rfl
  case append_singleton front c ih =>
    cases hc : isBlank c
    case true  =>
      rw [trimEnd_append_blanks (by simpa using hc), ih, words_append_blank hc, words_nil, List.append_nil]
    case false => simp [trimEnd, hc]

theorem trim_append_left (h : ∀ c ∈ blanks, isBlank c) (text : List Char) :
    trim (blanks ++ text) = trim text := by
  rw [trim, trimStart, List.dropWhile_append_of_pos h, trim, trimStart]

theorem trim_append_right (h : ∀ c ∈ blanks, isBlank c) (text : List Char) :
    trim (text ++ blanks) = trim text := by
  have hblanks : blanks.dropWhile isBlank = [] := List.dropWhile_eq_nil_iff.mpr h
  rw [trim, trim, trimStart, trimStart, List.dropWhile_append]
  split
  case isTrue he  => rw [hblanks, List.isEmpty_iff.mp he]
  case isFalse    => exact trimEnd_append_blanks h _

theorem trim_trimStart (text : List Char) : trim (trimStart text) = trim text := by
  rw [trim, trim, trimStart, trimStart, List.dropWhile_idempotent]

theorem exists_eq_append_trim (text : List Char) : ∃ lead tail,
    text = lead ++ trim text ++ tail ∧ (∀ c ∈ lead, isBlank c) ∧ ∀ c ∈ tail, isBlank c := by
  have hstart : text.takeWhile isBlank ++ trimStart text = text := List.takeWhile_append_dropWhile
  have hend : trim text ++ ((trimStart text).reverse.takeWhile isBlank).reverse = trimStart text := by
    rw [trim, trimEnd, ← List.reverse_append, List.takeWhile_append_dropWhile, List.reverse_reverse]
  refine ⟨text.takeWhile isBlank, ((trimStart text).reverse.takeWhile isBlank).reverse, ?_,
    fun c hc => List.mem_takeWhile_imp hc, fun c hc => List.mem_takeWhile_imp (List.mem_reverse.mp hc)⟩
  rw [List.append_assoc, hend, hstart]

theorem firstAt_cons {rest : List Char} (h : c ∉ before) :
    FirstAt (c :: rest) (before ++ (c :: rest) ++ after) before after where
  text_eq := rfl
  first b a he := by
    by_contra hlt
    rw [Nat.not_le] at hlt
    have hget := congrArg (·[b.length]?) he
    simp only [List.append_assoc, List.getElem?_append_left hlt] at hget
    exact h (List.mem_of_getElem? (hget.trans (by simp)))

theorem FirstAt.not_mem (h : FirstAt [c] text before after) : c ∉ before := by
  intro hm
  obtain ⟨front, tail, rfl⟩ := List.append_of_mem hm
  have hlen := h.first front (tail ++ [c] ++ after) (by simp [h.text_eq])
  simp only [List.length_append, List.length_cons] at hlen
  omega

theorem exists_firstAt {mark : List Char} (hn : mark ≠ []) (h : mark <:+: text) :
    ∃ before after, FirstAt mark text before after := by
  cases hc : Line.cutAt? mark text
  case none       => exact absurd h ((Line.cutAt?_eq_none_iff hn).mp hc)
  case some parts => exact ⟨parts.1, parts.2, Line.firstAt_of_cutAt? hc⟩

end

namespace Line

variable {text mark right before blanks : List Char}

theorem takeWhile_ne_hash {text : List Char} (h : '#' ∉ text) : text.takeWhile (· != '#') = text := by
  refine List.takeWhile_eq_self_iff.mpr fun c hc => ?_
  simpa using ne_of_mem_of_not_mem hc h

theorem takeWhile_append_of_mem (h : '#' ∈ text) (rest : List Char) :
    (text ++ rest).takeWhile (· != '#') = text.takeWhile (· != '#') := by
  rw [List.takeWhile_append, if_neg]
  intro hlen
  have hall : text.takeWhile (· != '#') = text := (List.takeWhile_prefix _).eq_of_length hlen
  have hhash := List.takeWhile_eq_self_iff.mp hall '#' h
  simp at hhash

theorem takeWhile_append_of_not_mem (h : '#' ∉ text) (rest : List Char) :
    (text ++ rest).takeWhile (· != '#') = text ++ rest.takeWhile (· != '#') :=
  List.takeWhile_append_of_pos fun _ hc => by simpa using ne_of_mem_of_not_mem hc h

inductive Divides (content : List Char) : List Char → Prop
  | arrow : Divides content arrow
  | asciiArrow (other : '→' ∉ content) : Divides content asciiArrow

theorem arrow_infix_iff : arrow <:+: text ↔ '→' ∈ text := by
  simp [arrow, List.IsInfix, List.mem_iff_append, eq_comm]

theorem Divides.head? (h : Divides text mark) :
    ∃ c rest, mark = c :: rest ∧ isBlank c = false ∧ c ≠ '|' := by
  cases h
  case arrow      => exact ⟨'→', [], rfl, by decide, by decide⟩
  case asciiArrow => exact ⟨'-', ['>'], rfl, by decide, by decide⟩

theorem Divides.getLast? (h : Divides text mark) : ∃ c, mark.getLast? = some c ∧ isBlank c = false := by
  cases h
  case arrow      => exact ⟨'→', rfl, by decide⟩
  case asciiArrow => exact ⟨'>', rfl, by decide⟩

theorem firstAt_trim (hd : Divides text mark) (h : FirstAt mark text before right) :
    FirstAt mark (trim text) (trimStart before) (trimEnd right) := by
  obtain ⟨c, rest, hmark, hc, -⟩ := hd.head?
  obtain ⟨d, hlast, hd'⟩ := hd.getLast?
  have hstart : trimStart text = trimStart before ++ mark ++ right := by
    rw [h.text_eq, trimStart, List.append_assoc, List.dropWhile_append, List.append_assoc]
    split
    case isTrue he => simp [hmark, hc, trimStart, List.isEmpty_iff.mp he]
    case isFalse   => rfl
  have hend : (trimStart before ++ mark).getLast? = some d := by
    rw [List.getLast?_append_of_ne_nil _ (by simp [hmark]), hlast]
  have htrim : trim text = trimStart before ++ mark ++ trimEnd right := by
    rw [trim, hstart, trimEnd_append_of_getLast? hend hd']
  refine ⟨htrim, fun b a he => ?_⟩
  obtain ⟨tail, htail⟩ := trimEnd_prefix right
  have hbefore : before.takeWhile isBlank ++ trimStart before = before := List.takeWhile_append_dropWhile
  have htext : text = before.takeWhile isBlank ++ b ++ mark ++ (a ++ tail) := by
    calc text = (before.takeWhile isBlank ++ trimStart before) ++ mark ++ (trimEnd right ++ tail) := by
          rw [hbefore, htail, h.text_eq]
      _ = before.takeWhile isBlank ++ trim text ++ tail := by simp only [htrim, List.append_assoc]
      _ = before.takeWhile isBlank ++ b ++ mark ++ (a ++ tail) := by simp only [he, List.append_assoc]
  have hlen := h.first _ _ htext
  have hsum := congrArg List.length hbefore
  rw [List.length_append] at hlen hsum
  omega

theorem splitAlternatives_trimEnd (right : List Char) :
    splitAlternatives (trimEnd right) = splitAlternatives right := by
  rw [splitAlternatives, words_trimEnd, splitAlternatives]

theorem ofText_of_bar (hbody : text.takeWhile (· != '#') = blanks ++ '|' :: right)
    (h : ∀ c ∈ blanks, isBlank c) : ofText text = alternatives (splitAlternatives right) := by
  have hstrip : IsContinuation text (trimEnd right) := by
    have hbar : trim (['|'] ++ right) = ['|'] ++ trimEnd right := trim_append rfl (by decide) rfl (by decide)
    rw [IsContinuation, stripComment, hbody, trim_append_left h]
    exact hbar
  rw [ofText_of_isContinuation hstrip, splitAlternatives_trimEnd]

theorem ofText_of_mark {content : List Char} (hbody : text.takeWhile (· != '#') = content)
    (hd : Divides content mark) (hf : FirstAt mark content before right)
    (hbar : (trimStart before).head? ≠ some '|') :
    ofText text = rule (trim before) (splitAlternatives right) := by
  have hstrip : stripComment text = trim content := by rw [stripComment, hbody]
  have hfirst := firstAt_trim hd hf
  have hhead : IsHead text := by
    obtain ⟨c, rest, rfl, -, hc⟩ := hd.head?
    rw [IsHead, hstrip, hfirst.text_eq]
    cases hb : trimStart before
    case nil  => simpa using hc
    case cons => simpa [hb] using hbar
  have hparts : HeadParts (stripComment text) (trim (trimStart before)) (trimEnd right) := by
    rw [hstrip]
    cases hd
    case arrow            => exact .arrow hfirst
    case asciiArrow other => exact .asciiArrow (mt arrow_infix_iff.mp (mt mem_of_mem_trim other)) hfirst
  rw [ofText_of_isHead hhead hparts, splitAlternatives_trimEnd, trim_trimStart]

end Line
end LineGrammar
