import LineGrammar.Proofs.Failures
import LineGrammar.Proofs.FurtherAlternatives

/-!
The two arrows of a rule head. A head with the arrow is read the same whatever its right-hand side has in it.
A head with the two-character arrow is read the same as that one, unless there is an arrow on its right: that
one comes first then, and what stands before it is no name.
-/

namespace LineGrammar

def asciiHeadLine (name right : List Char) : List Char :=
  name ++ [' ', '-', '>', ' '] ++ right

namespace Line

variable {name right before after : List Char}

theorem hash_not_mem_asciiHeadLine (hn : isIdentifier name) (hr : '#' ∉ right) :
    '#' ∉ asciiHeadLine name right := by
  have hname : '#' ∉ name := not_mem_of_isIdentifier hn (by decide)
  simp [asciiHeadLine, hname, hr]

theorem ofText_asciiHeadLine (hn : isIdentifier name) (hr : '#' ∉ right) (ha : '→' ∉ right) :
    ofText (asciiHeadLine name right) = rule name (splitAlternatives right) := by
  have hname : '→' ∉ name := not_mem_of_isIdentifier hn (by decide +kernel)
  have hhyphen : '-' ∉ name ++ [' '] := by
    simpa using not_mem_of_isIdentifier hn (by decide)
  have hother : '→' ∉ asciiHeadLine name right := by simp [asciiHeadLine, hname, ha]
  have hline : asciiHeadLine name right = name ++ [' '] ++ asciiArrow ++ ' ' :: right := by
    simp [asciiHeadLine, asciiArrow]
  have hfirst : FirstAt asciiArrow (asciiHeadLine name right) (name ++ [' ']) (' ' :: right) :=
    hline ▸ firstAt_cons hhyphen
  rw [ofText_of_mark (takeWhile_ne_hash (hash_not_mem_asciiHeadLine hn hr)) (.asciiArrow hother) hfirst
    (head?_trimStart_ne_bar hn _), trim_append_space hn, splitAlternatives, words_cons_blank (by decide),
    splitAlternatives]

theorem trim_asciiHeadLine (hn : isIdentifier name) (before : List Char) :
    trim (asciiHeadLine name before) = name ++ [' ', '-', '>'] ++ trimEnd (' ' :: before) := by
  obtain ⟨first, rest, rfl, hfirst⟩ := exists_first_of_isIdentifier hn
  have hline : asciiHeadLine (first :: rest) before =
      (first :: rest ++ [' ', '-', '>']) ++ ' ' :: before := by simp [asciiHeadLine]
  have hlast : (first :: rest ++ [' ', '-', '>']).getLast? = some '>' := by
    rw [List.getLast?_append_of_ne_nil _ (by simp)]
    rfl
  rw [hline, trim_append rfl (isBlank_eq_false_of_continuesIdentifier hfirst) hlast (by decide)]

theorem ofText_asciiHeadLine_of_arrow (hn : isIdentifier name) (hr : '#' ∉ right)
    (h : FirstAt arrow right before after) :
    ofText (asciiHeadLine name right) =
      rule (name ++ [' ', '-', '>'] ++ trimEnd (' ' :: before)) (splitAlternatives after) := by
  have hname : '→' ∉ name := not_mem_of_isIdentifier hn (by decide +kernel)
  have hbefore : '→' ∉ before := h.not_mem
  have hline : asciiHeadLine name right = asciiHeadLine name before ++ arrow ++ after := by
    simp [asciiHeadLine, h.text_eq]
  have hfirst : FirstAt arrow (asciiHeadLine name right) (asciiHeadLine name before) after :=
    hline ▸ firstAt_cons (by simp [asciiHeadLine, hname, hbefore])
  have hbar : (trimStart (asciiHeadLine name before)).head? ≠ some '|' := by
    rw [asciiHeadLine, List.append_assoc]
    exact head?_trimStart_ne_bar hn _
  rw [ofText_of_mark (takeWhile_ne_hash (hash_not_mem_asciiHeadLine hn hr)) .arrow hfirst hbar,
    trim_asciiHeadLine hn]

end Line

namespace Loader

variable {loader : Loader} {number : Nat} {name right before after : List Char}

theorem readLine_asciiHeadLine (hn : isIdentifier name) (hr : '#' ∉ right) (ha : '→' ∉ right) :
    readLine number (asciiHeadLine name right) = readLine number (headLine name right) := by
  rw [readLine, readLine, Line.ofText_asciiHeadLine hn hr ha, Line.ofText_headLine hn hr]

theorem run_readLine_asciiHeadLine_of_arrow (hn : isIdentifier name) (hr : '#' ∉ right)
    (h : FirstAt Line.arrow right before after) :
    (readLine number (asciiHeadLine name right)).run loader =
      .error ⟨⟨loader.file, number⟩, .invalidNonterminalName
        (String.ofList (name ++ [' ', '-', '>'] ++ trimEnd (' ' :: before)))⟩ (loader.atLine number) := by
  have hno : ¬isIdentifier (name ++ [' ', '-', '>'] ++ trimEnd (' ' :: before)) := fun hi =>
    absurd (continuesIdentifier_of_mem (c := '-') hi (by simp)) (by decide)
  simp only [readLine, Line.ofText_asciiHeadLine_of_arrow hn hr h, if_neg hno]
  rfl

-- A head line is not taken to be misnamed, as it is named by an identifier.
theorem ne_invalidNonterminalName_of_headLine (hn : isIdentifier name) (hr : '#' ∉ right)
    {error : GrammarError} {new : Loader}
    (h : (readLine number (headLine name right)).run loader = .error error new) (other : String) :
    error.fault ≠ .invalidNonterminalName other := by
  have hfails : FailsOnly (·.isRightFault) (readLine number (headLine name right)) := by
    rw [readLine_headLine hn hr]
    exact .bind (.modify _) fun _ => .bind (failsOnly_declare _) fun _ => failsOnly_addAlternatives _ _
  intro hfault
  have hright := hfails loader error new h
  rw [hfault] at hright
  cases hright

structure ComparesArrows (loader : Loader) (number : Nat) (name right : List Char) : Prop where
  arrow      : readLine number (headLine name right) = (do
    modify (·.atLine number)
    let id ← declare (String.ofList name)
    addAlternatives id (Line.splitAlternatives right))
  alike_iff  : (readLine number (asciiHeadLine name right)).run loader =
    (readLine number (headLine name right)).run loader ↔ '→' ∉ right
  asciiArrow : ∀ before after, FirstAt Line.arrow right before after →
    (readLine number (asciiHeadLine name right)).run loader =
      .error ⟨⟨loader.file, number⟩, .invalidNonterminalName
        (String.ofList (name ++ [' ', '-', '>'] ++ trimEnd (' ' :: before)))⟩ (loader.atLine number)

theorem comparesArrows_of_isIdentifier (loader : Loader) (number : Nat) (hn : isIdentifier name)
    (hr : '#' ∉ right) : loader.ComparesArrows number name right where
  arrow                     := readLine_headLine hn hr
  asciiArrow before after h := run_readLine_asciiHeadLine_of_arrow hn hr h
  alike_iff := by
    constructor
    case mpr =>
      intro ha
      rw [readLine_asciiHeadLine hn hr ha]
    case mp =>
      intro halike ha
      obtain ⟨before, after, h⟩ := exists_firstAt (by simp [Line.arrow]) (Line.arrow_infix_iff.mpr ha)
      rw [run_readLine_asciiHeadLine_of_arrow hn hr h] at halike
      exact ne_invalidNonterminalName_of_headLine hn hr halike.symm _ rfl

theorem comparesArrows_quoted :
    isIdentifier ['A'] ∧ '#' ∉ "b -> '→' | '->'".toList ∧
      (start none).ComparesArrows 1 ['A'] "b -> '→' | '->'".toList :=
  have hname : isIdentifier ['A'] := by decide +kernel
  have hright : '#' ∉ "b -> '→' | '->'".toList := by decide
  ⟨hname, hright, comparesArrows_of_isIdentifier (start none) 1 hname hright⟩

-- A quoted arrow is enough to tell the two arrows apart.
theorem not_forall_headLines_alike :
    ¬∀ (loader : Loader) (number : Nat) (name right : List Char), isIdentifier name → '#' ∉ right →
      (readLine number (asciiHeadLine name right)).run loader =
        (readLine number (headLine name right)).run loader := by
  intro halike
  have hname : isIdentifier ['A'] := by decide +kernel
  have hright : '#' ∉ ['\'', '→', '\''] := by decide
  have hfirst : FirstAt Line.arrow ['\'', '→', '\''] ['\''] ['\''] :=
    show FirstAt ['→'] (['\''] ++ ['→'] ++ ['\'']) ['\''] ['\''] from firstAt_cons (by decide)
  have h := halike (start none) 1 ['A'] ['\'', '→', '\''] hname hright
  rw [run_readLine_asciiHeadLine_of_arrow hname hright hfirst] at h
  exact ne_invalidNonterminalName_of_headLine hname hright h.symm _ rfl

end Loader
end LineGrammar
