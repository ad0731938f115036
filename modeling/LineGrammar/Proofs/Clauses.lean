import LineGrammar.Line
import LineGrammar.Proofs.Words

/-!
What the lines of a source say, without regard to any loader: which rule heads they have, which
alternatives belong to which of them, and which line is at fault.
-/

namespace LineGrammar

-- One alternative as it is written, and the head of the rule that it belongs to.
structure Clause where
  head : String
  texts : List (List Char)

namespace Clause

-- A rule must not derive its own head in one step.
def words (clause : Clause) : Except Fault (List Word) :=
  match alternativeOfTexts clause.texts with
  | .error fault => .error fault
  | .ok words    =>
    if words = [⟨.nonterminal clause.head, none⟩] then .error (.derivesItself clause.head)
    else .ok words

def fault? (clause : Clause) : Option Fault :=
  match clause.words with
  | .error fault => some fault
  | .ok _        => none

end Clause

namespace Line

def head? : Line → Option String
  | rule head _ => some (String.ofList head)
  | _           => none

def texts : Line → List (List (List Char))
  | blank              => []
  | alternatives texts => texts
  | rule _ texts       => texts

def clauses (line : Line) (active : Option String) : List Clause :=
  match line.head?.or active with
  | some head => line.texts.map fun texts => ⟨head, texts⟩
  | none      => []

def fault? (line : Line) (active : Option String) : Option Fault :=
  match line, active with
  | blank,          _    => none
  | alternatives _, none => some .missingNonterminal
  | rule head _,    _    =>
    if isIdentifier head then (line.clauses active).findSome? Clause.fault?
    else some (.invalidNonterminalName (String.ofList head))
  | alternatives _, _    => (line.clauses active).findSome? Clause.fault?

theorem texts_ne_nil (text : List Char) : ∀ texts ∈ (ofText text).texts, texts ≠ [] := by
  intro texts h
  unfold ofText at h
  split at h
  case h_1 => simp [Line.texts] at h
  case h_2 | h_3 =>
    simp only [Line.texts, splitAlternatives, List.mem_filter] at h
    simpa using h.right

end Line

-- A line whose bytes are no text says nothing.
def linesOf (source : List (Option (List Char))) : List Line :=
  source.filterMap (·.map Line.ofText)

theorem linesOf_map_some (texts : List (List Char)) :
    linesOf (texts.map some) = texts.map Line.ofText := by
  simp [linesOf, List.filterMap_map]

theorem linesOf_append (before after : List (Option (List Char))) :
    linesOf (before ++ after) = linesOf before ++ linesOf after :=
  List.filterMap_append ..

theorem linesOf_flatten (blocks : List (List (Option (List Char)))) :
    linesOf blocks.flatten = (blocks.map linesOf).flatten :=
  List.filterMap_flatten ..

def headNames (lines : List Line) : List String :=
  lines.filterMap Line.head?

theorem headNames_cons (line : Line) (lines : List Line) :
    headNames (line :: lines) = line.head?.toList ++ headNames lines := by
  cases h : line.head? <;> simp [headNames, h]

theorem getLast?_headNames_cons_or (line : Line) (lines : List Line) (active : Option String) :
    (headNames (line :: lines)).getLast?.or active =
      (headNames lines).getLast?.or (line.head?.or active) := by
  cases h : line.head? <;> simp [headNames, List.getLast?_cons, h]

-- Each line without a head goes with the head before it.
def clausesFrom : Option String → List Line → List Clause
  | _, [] => []
  | active, line :: rest => line.clauses active ++ clausesFrom (line.head?.or active) rest

def alternativesOf (name : String) (clauses : List Clause) : List (List (List Char)) :=
  (clauses.filter (·.head == name)).map Clause.texts

def isEpsilonText (texts : List (List Char)) : Bool :=
  texts == [['0']]

theorem isEpsilonText_iff (texts : List (List Char)) : isEpsilonText texts ↔ texts = [['0']] :=
  beq_iff_eq

def alternativeNames (texts : List (List Char)) : List String :=
  if isEpsilonText texts then [] else texts.map String.ofList

section

variable {name : String} {clauses : List Clause} {clause : Clause}

theorem alternativesOf_append (before after : List Clause) : alternativesOf name (before ++ after) =
    alternativesOf name before ++ alternativesOf name after := by
  simp [alternativesOf]

theorem alternativesOf_append_singleton : alternativesOf name (clauses ++ [clause]) =
    alternativesOf name clauses ++ if clause.head = name then [clause.texts] else [] := by
  by_cases h : clause.head = name <;> simp [alternativesOf, h]

theorem mem_alternativesOf {texts : List (List Char)} :
    texts ∈ alternativesOf name clauses ↔ ⟨name, texts⟩ ∈ clauses := by
  simp only [alternativesOf, List.mem_map, List.mem_filter, beq_iff_eq]
  constructor
  · rintro ⟨⟨head, texts⟩, ⟨hm, rfl⟩, rfl⟩
    exact hm
  · intro hm
    exact ⟨_, ⟨hm, rfl⟩, rfl⟩

theorem alternativesOf_eq_nil (h : ∀ clause ∈ clauses, clause.head ≠ name) :
    alternativesOf name clauses = [] := by
  simpa [alternativesOf] using h

end

theorem headNames_append (before after : List Line) :
    headNames (before ++ after) = headNames before ++ headNames after :=
  List.filterMap_append ..

def firstFault? : Option String → Nat → List Line → Option (Nat × Fault)
  | _, _, [] => none
  | active, number, line :: rest =>
    match line.fault? active with
    | some fault => some (number, fault)
    | none       => firstFault? (line.head?.or active) (number + 1) rest

section

variable {active : Option String} {number : Nat} {before after : List Line}

theorem clausesFrom_append : clausesFrom active (before ++ after) =
    clausesFrom active before ++ clausesFrom ((headNames before).getLast?.or active) after := by
  induction before generalizing active
  case nil => rfl
  case cons line rest ih =>
    simp only [List.cons_append, clausesFrom, ih, List.append_assoc, getLast?_headNames_cons_or]

theorem firstFault?_append : firstFault? active number (before ++ after) =
    (firstFault? active number before).or
      (firstFault? ((headNames before).getLast?.or active) (number + before.length) after) := by
  induction before generalizing active number
  case nil => simp [firstFault?, headNames]
  case cons line rest ih =>
    simp only [List.cons_append, firstFault?]
    cases line.fault? active
    case some => simp
    case none =>
      rw [ih, getLast?_headNames_cons_or, List.length_cons, Nat.add_right_comm, Nat.add_assoc]

theorem firstFault?_append_eq_none_iff : firstFault? active number (before ++ after) = none ↔
    firstFault? active number before = none ∧
      firstFault? ((headNames before).getLast?.or active) (number + before.length) after = none := by
  rw [firstFault?_append, Option.or_eq_none_iff]

theorem firstFault?_eq_none_iff_of_number {other : Nat} {lines : List Line} :
    firstFault? active number lines = none ↔ firstFault? active other lines = none := by
  induction lines generalizing active number other
  case nil => rfl
  case cons line rest ih =>
    simp only [firstFault?]
    cases line.fault? active
    case some => simp
    case none => exact ih

end

end LineGrammar
