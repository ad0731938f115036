import LineGrammar.Proofs.Recogniser
import LineGrammar.Proofs.Reordering

/-!
Lines that say the same as those of a source, with one line for each rule head. They have no fault if those
of the source have none.
-/

namespace LineGrammar

def linesFor (names : List String) (alternatives : String → List (List (List Char))) : List Line :=
  names.map fun name => .rule name.toList (alternatives name)

section

variable {names : List String} {alternatives : String → List (List (List Char))} {name : String}
variable {active : Option String} {number : Nat} {clause : Clause} {lines : List Line}

theorem headNames_linesFor : headNames (linesFor names alternatives) = names := by
  simp [headNames, linesFor, List.filterMap_map, Function.comp_def, Line.head?]

theorem clausesFrom_linesFor : clausesFrom active (linesFor names alternatives) =
    names.flatMap fun name => (alternatives name).map fun texts => ⟨name, texts⟩ := by
  induction names generalizing active
  case nil => rfl
  case cons name rest ih =>
    have hline : (Line.rule name.toList (alternatives name)).clauses active =
        (alternatives name).map fun texts => ⟨name, texts⟩ := by
      simp [Line.clauses, Line.head?, Line.texts]
    rw [List.flatMap_cons, ← hline, ← ih]
    rfl

theorem mem_clausesFrom_linesFor : clause ∈ clausesFrom active (linesFor names alternatives) ↔
    clause.head ∈ names ∧ clause.texts ∈ alternatives clause.head := by
  simp only [clausesFrom_linesFor, List.mem_flatMap, List.mem_map]
  constructor
  · rintro ⟨name, hm, texts, ht, rfl⟩
    exact ⟨hm, ht⟩
  · exact fun ⟨hm, ht⟩ => ⟨_, hm, _, ht, rfl⟩

theorem alternativesOf_linesFor (hn : names.Nodup) (hm : name ∈ names) :
    alternativesOf name (clausesFrom active (linesFor names alternatives)) = alternatives name := by
  obtain ⟨before, after, rfl⟩ := List.append_of_mem hm
  rw [List.nodup_middle, List.nodup_cons, List.mem_append, not_or] at hn
  have hother : ∀ names : List String, name ∉ names → alternativesOf name (names.flatMap fun name =>
      (alternatives name).map fun texts => ⟨name, texts⟩) = [] := by
    refine fun names hnot => alternativesOf_eq_nil fun clause hc he => ?_
    simp only [List.mem_flatMap, List.mem_map] at hc
    obtain ⟨other, ho, _, _, rfl⟩ := hc
    exact hnot (he ▸ ho)
  have hself : alternativesOf name ((alternatives name).map fun texts => ⟨name, texts⟩) =
      alternatives name := by
    simp [alternativesOf, List.filter_map, Function.comp_def]
  rw [clausesFrom_linesFor, List.flatMap_append, List.flatMap_cons, alternativesOf_append,
    alternativesOf_append, hother before hn.left.left, hother after hn.left.right, hself,
    List.nil_append, List.append_nil]

theorem firstFault?_linesFor (hi : ∀ name ∈ names, isIdentifier name.toList)
    (hf : ∀ name ∈ names, ∀ texts ∈ alternatives name, Clause.fault? ⟨name, texts⟩ = none) :
    firstFault? active number (linesFor names alternatives) = none := by
  rw [firstFault?_eq_none_iff]
  intro before line after he
  have hm : line ∈ linesFor names alternatives := by simp [he]
  obtain ⟨name, hname, rfl⟩ := List.mem_map.mp hm
  simpa [Line.fault?, Line.clauses, Line.head?, Line.texts, hi name hname] using hf name hname

theorem Line.fault?_of_mem_clauses {line : Line} (h : line.fault? active = none)
    (hc : clause ∈ line.clauses active) : clause.fault? = none := by
  cases line
  case blank => simp [mem_clauses_iff, texts] at hc
  case alternatives =>
    cases active
    case none => simp [fault?] at h
    case some => exact List.findSome?_eq_none_iff.mp h clause hc
  case rule =>
    rw [fault?] at h
    split at h
    case isTrue  => exact List.findSome?_eq_none_iff.mp h clause hc
    case isFalse => cases h

theorem fault?_of_mem_clausesFrom (h : firstFault? active number lines = none)
    (hc : clause ∈ clausesFrom active lines) : clause.fault? = none := by
  induction lines generalizing active number
  case nil => simp [clausesFrom] at hc
  case cons line rest ih =>
    rw [firstFault?] at h
    split at h
    case h_1 => cases h
    case h_2 hline =>
      cases List.mem_append.mp hc
      case inl hc => exact Line.fault?_of_mem_clauses hline hc
      case inr hc => exact ih h hc

def gathered (lines : List Line) : List Line :=
  linesFor (headNames lines).eraseDups fun name =>
    keepFirst isEpsilonText (alternativesOf name (clausesFrom none lines))

theorem headNames_gathered : headNames (gathered lines) = (headNames lines).eraseDups :=
  headNames_linesFor

theorem alternativesOf_gathered (hm : name ∈ headNames lines) :
    alternativesOf name (clausesFrom active (gathered lines)) =
      keepFirst isEpsilonText (alternativesOf name (clausesFrom none lines)) :=
  alternativesOf_linesFor (nodup_eraseDups _) (List.mem_eraseDups.mpr hm)

theorem mem_clausesFrom_gathered : clause ∈ clausesFrom active (gathered lines) ↔
    clause.head ∈ headNames lines ∧ clause ∈ clausesFrom none lines := by
  rw [gathered, mem_clausesFrom_linesFor, List.mem_eraseDups, mem_keepFirst isEpsilonText_iff,
    mem_alternativesOf]

theorem sameClauses_gathered (h : ∀ clause ∈ clausesFrom none lines, clause.head ∈ headNames lines) :
    SameClauses lines (gathered lines) where
  root           := by rw [headNames_gathered, head?_eraseDups]
  heads name     := by rw [headNames_gathered, List.mem_eraseDups]
  clauses clause := by rw [mem_clausesFrom_gathered, iff_and_self]; exact h clause

theorem firstFault?_gathered (hi : ∀ name ∈ headNames lines, isIdentifier name.toList)
    (hf : firstFault? none 1 lines = none) : firstFault? active number (gathered lines) = none := by
  refine firstFault?_linesFor (fun name hm => hi name (List.mem_eraseDups.mp hm)) ?_
  intro name hm texts ht
  rw [mem_keepFirst isEpsilonText_iff, mem_alternativesOf] at ht
  exact fault?_of_mem_clausesFrom hf ht

end
end LineGrammar
