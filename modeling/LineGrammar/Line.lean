import LineGrammar.Text.Blank

/-!
The lines of a grammar text. What follows a number sign is a comment. A line that starts with a bar
adds alternatives to the rule before it, any other line that is not blank starts or resumes a rule.
-/

namespace LineGrammar

-- The texts of the alternatives are cut into words, but not yet read.
inductive Line
  | blank
  | alternatives (texts : List (List (List Char)))
  | rule (head : List Char) (texts : List (List (List Char)))
  deriving DecidableEq, Repr

namespace Line

def stripComment (line : List Char) : List Char :=
  trim (line.takeWhile (· != '#'))

def cutAt? (mark : List Char) : List Char → Option (List Char × List Char)
  | [] => none
  | c :: rest =>
    if mark.isPrefixOf (c :: rest) then some ([], (c :: rest).drop mark.length)
    else (cutAt? mark rest).map fun (before, after) => (c :: before, after)

def arrow : List Char :=
  ['→']

def asciiArrow : List Char :=
  ['-', '>']

-- The arrow wins over the two-character one wherever the two stand, so a line that has an arrow
-- anywhere is cut there even if two characters that look like one come earlier.
def splitHead (line : List Char) : List Char × Option (List Char) :=
  match (cutAt? arrow line).or (cutAt? asciiArrow line) with
  | some (head, right) => (trim head, some right)
  | none               => (trim line, none)

-- Where nothing stands between two bars there is no alternative.
def splitAlternatives (right : List Char) : List (List (List Char)) :=
  ((words right).splitOn ['|']).filter (!·.isEmpty)

theorem splitAlternatives_eq_iff {right : List Char} {alternatives : List (List (List Char))} :
    splitAlternatives right = alternatives ↔
      ∃ pieces, pieces ≠ [] ∧ (∀ piece ∈ pieces, ['|'] ∉ piece) ∧
        words right = [['|']].intercalate pieces ∧ alternatives = pieces.filter (!·.isEmpty) := by
  constructor
  case mp =>
    rintro rfl
    refine ⟨(words right).splitOn ['|'], List.splitOn_ne_nil _ _, fun piece hpiece hbar => ?_,
      (List.intercalate_splitOn _).symm, rfl⟩
    rw [List.splitOn_eq_splitOnP] at hpiece
    simpa using (mem_and_of_mem_splitOnP hpiece _ hbar).right
  case mpr =>
    rintro ⟨pieces, hne, hbar, hw, rfl⟩
    rw [splitAlternatives, hw, List.splitOn_intercalate _ hbar hne]

def ofText (line : List Char) : Line :=
  match stripComment line with
  | [] => blank
  | '|' :: right => alternatives (splitAlternatives right)
  | content@(_ :: _) =>
    let (head, right) := splitHead content
    rule head (splitAlternatives (right.getD []))

end Line
end LineGrammar
