import LineGrammar.Proofs.Decoding
import LineGrammar.Proofs.Recasting

/-!
A grammar whose lines are numbered otherwise. The checks look at no location, they only report some. So lines
that do nothing may come and go: loading the lines that do something gives the same by other numbers.
-/

namespace LineGrammar

variable {f : Nat → Nat}

def Grammar.renumber (f : Nat → Nat) (g : Grammar) : Grammar :=
  { g with symbols := g.symbols.renumber f, rules := g.rules.renumber f }

def renumberAnswer (f : Nat → Nat) : Except GrammarError Grammar → Except GrammarError Grammar
  | .ok g        => .ok (g.renumber f)
  | .error error => .error (error.renumber f)

@[simp]
theorem renumberAnswer_id (answer : Except GrammarError Grammar) : renumberAnswer id answer = answer := by
  cases answer <;> simp [renumberAnswer, Grammar.renumber]

namespace Grammar

section

variable {g : Grammar} {id : NonterminalId} {n : Nonterminal}

@[simp]
theorem productionsOf_renumber : (g.renumber f).productionsOf id = (g.productionsOf id).map (.renumber f) :=
  Rules.productionsOf_renumber

theorem nonterminalIds_renumber : (g.renumber f).nonterminalIds = g.nonterminalIds := by
  rw [nonterminalIds, nonterminalCount, nonterminalIds, nonterminalCount, renumber,
    SymbolTable.length_nonterminals_renumber]

theorem map_nonterminalName_renumber (ids : List NonterminalId) :
    ids.map (g.renumber f).symbols.nonterminalName = ids.map g.symbols.nonterminalName :=
  List.map_congr_left fun _ _ => SymbolTable.nonterminalName_renumber

theorem checkReferences_renumber :
    (g.renumber f).checkReferences = g.checkReferences.mapError (.renumber f) := by
  have hreferenced : (fun m : Nonterminal => !m.referenced) ∘ Nonterminal.renumber f = (!·.referenced) := rfl
  have hfirst : (g.renumber f).firstUnreferenced? = g.firstUnreferenced?.map (.renumber f) := by
    rw [firstUnreferenced?, firstUnreferenced?, renumber, SymbolTable.renumber, List.find?_map, hreferenced]
  unfold checkReferences
  rw [hfirst]
  cases g.firstUnreferenced? <;> rfl

theorem ruleFault?_renumber : (g.renumber f).ruleFault? id (n.renumber f) = g.ruleFault? id n := by
  unfold ruleFault?
  rw [productionsOf_renumber, List.isEmpty_map]
  rfl

theorem checkRuleLists_renumber :
    (g.renumber f).checkRuleLists = g.checkRuleLists.mapError (.renumber f) := by
  have hfirst : (g.renumber f).firstRuleFault? = g.firstRuleFault?.map (.renumber f) := by
    have hnonterminals : (g.renumber f).symbols.nonterminals = g.symbols.nonterminals.map (.renumber f) := rfl
    rw [firstRuleFault?, firstRuleFault?, hnonterminals, List.zipIdx_map, List.findSome?_map,
      List.map_findSome?]
    congr 1
    funext row
    obtain ⟨n, id⟩ := row
    simp only [Function.comp_apply, Prod.map, ruleFault?_renumber, Option.map_map]
    rfl
  unfold checkRuleLists
  rw [hfirst]
  cases g.firstRuleFault? <;> rfl

theorem hasDerivingProduction_renumber (known : List NonterminalId) :
    (g.renumber f).hasDerivingProduction known id = g.hasDerivingProduction known id := by
  rw [hasDerivingProduction, productionsOf_renumber, List.any_map]
  rfl

theorem sweepFrom_renumber (known remaining : List NonterminalId) :
    (g.renumber f).sweepFrom known remaining = g.sweepFrom known remaining := by
  induction remaining generalizing known
  case nil => rfl
  case cons id rest ih => rw [sweepFrom, sweepFrom, hasDerivingProduction_renumber, ih, ih]

theorem settle_renumber (agenda : Agenda) : (g.renumber f).settle agenda = g.settle agenda := by
  have hsweep : ∀ agenda, (g.renumber f).sweep agenda = g.sweep agenda := fun _ => sweepFrom_renumber ..
  induction agenda using settle.induct g
  case case1 agenda swept hstop =>
    rw [settle, hsweep, if_pos hstop]
    conv => rhs; rw [settle, if_pos hstop]
  case case2 agenda swept hgo ih =>
    rw [settle, hsweep, if_neg hgo, ih]
    conv => rhs; rw [settle, if_neg hgo]

theorem underivable_renumber : (g.renumber f).underivable = g.underivable := by
  rw [underivable, settle_renumber, nonterminalIds_renumber, underivable]

theorem occurrences_renumber : (g.renumber f).occurrences id = g.occurrences id := by
  rw [occurrences, productionsOf_renumber, List.flatMap_map]
  rfl

theorem walk_renumber (w : Walk) : (g.renumber f).walk w = g.walk w := by
  induction w using Grammar.walk.induct g
  case case1 marked => rw [walk, walk]
  case case2 marked id rest ih => rw [walk, walk, ← ih, expand, occurrences_renumber, expand]

theorem unreached_renumber : (g.renumber f).unreached = g.unreached := by
  have hcount : (g.renumber f).nonterminalCount = g.nonterminalCount :=
    SymbolTable.length_nonterminals_renumber
  have hstart : (g.renumber f).walkStart = g.walkStart := by
    rw [walkStart, hcount]
    rfl
  rw [unreached, hstart, walk_renumber, nonterminalIds_renumber, unreached]

-- The checks of the grammar as a whole report no line, which is written as line 0.
variable (h0 : f 0 = 0)
include h0

theorem checkDerivability_renumber :
    (g.renumber f).checkDerivability = g.checkDerivability.mapError (.renumber f) := by
  rw [checkDerivability, checkDerivability, underivable_renumber, map_nonterminalName_renumber]
  split
  case isTrue  => rfl
  case isFalse => simp [Except.mapError, GrammarError.renumber, Location.renumber, h0, renumber]

theorem checkReachability_renumber :
    (g.renumber f).checkReachability = g.checkReachability.mapError (.renumber f) := by
  rw [checkReachability, checkReachability, unreached_renumber, map_nonterminalName_renumber]
  split
  case isTrue  => rfl
  case isFalse => simp [Except.mapError, GrammarError.renumber, Location.renumber, h0, renumber]

theorem validate_renumber : (g.renumber f).validate = g.validate.mapError (.renumber f) := by
  refine forM_mapError fun check _ => ?_
  cases check
  case references   => exact checkReferences_renumber
  case ruleLists    => exact checkRuleLists_renumber
  case derivability => exact checkDerivability_renumber h0
  case reachability => exact checkReachability_renumber h0

theorem validated_renumber (read : Except GrammarError Grammar) :
    (do let g ← renumberAnswer f read; g.validate; return g) =
      renumberAnswer f (do let g ← read; g.validate; return g) := by
  cases read
  case error => rfl
  case ok g =>
    have hread : (renumberAnswer f (.ok g) : Except GrammarError Grammar) = .ok (g.renumber f) := rfl
    simp only [hread, bind, Except.bind, validate_renumber h0]
    cases g.validate <;> rfl

end

end Grammar

namespace Loader

variable {earlier : List Note} {loader : Loader} {number : Nat} {x y : Reading Unit}

def answer (loader : Loader) (x : Reading Unit) : Except GrammarError Grammar :=
  match x.run loader with
  | .ok () new     => new.finish
  | .error error _ => .error error

theorem readRows_cons (text : List Char) (number : Nat) (rest : List (List Char × Nat)) :
    readRows ((text, number) :: rest) = readLine number text >>= fun _ => readRows rest :=
  rfl

-- Every line is read under its own number, whatever line was read before.
theorem answer_atLine (loader : Loader) (number : Nat) (rows : List (List Char × Nat)) :
    (loader.atLine number).answer (readRows rows) = loader.answer (readRows rows) := by
  cases rows
  case nil  => rfl
  case cons => rfl

theorem answer_filter (loader : Loader) (rows : List (List Char × Nat)) :
    loader.answer (readRows (rows.filter (Line.ofText ·.1 ≠ .blank))) = loader.answer (readRows rows) := by
  induction rows generalizing loader
  case nil => rfl
  case cons row rest ih =>
    obtain ⟨text, number⟩ := row
    by_cases hblank : Line.ofText text = .blank
    case pos =>
      have hrun : (readLine number text).run loader = .ok () (loader.atLine number) := by
        simp [readLine, hblank]
      rw [List.filter_cons_of_neg (by simpa using hblank), ← answer_atLine loader number, ih, readRows_cons]
      simp only [answer, EStateM.run_bind, hrun]
    case neg =>
      rw [List.filter_cons_of_pos (by simpa using hblank), readRows_cons, readRows_cons]
      unfold answer
      rw [EStateM.run_bind, EStateM.run_bind]
      cases (readLine number text).run loader
      case error  => rfl
      case ok new => exact ih new

theorem recasts_readRows {rows rows' : List (List Char × Nat)}
    (h : rows'.map (Prod.map Line.ofText id) = rows.map (Prod.map Line.ofText f)) :
    Recasts f earlier loader (readRows rows) (readRows rows') := by
  induction rows generalizing loader rows'
  case nil =>
    rw [List.map_nil, List.map_eq_nil_iff] at h
    subst h
    exact .pure _
  case cons row rest ih =>
    rw [List.map_cons] at h
    obtain ⟨⟨text', number'⟩, rest', rfl, hrow, hrest⟩ := List.map_eq_cons_iff.mp h
    obtain ⟨htext, hnumber⟩ := Prod.mk.inj hrow
    obtain rfl : number' = f row.2 := hnumber
    exact .bind (recasts_readLine row.2 htext) fun _ _ _ => ih hrest

theorem finish_recast (h0 : f 0 = 0) (loader : Loader) (earlier : List Note) :
    (loader.recast f earlier).finish = renumberAnswer f loader.finish := by
  have hroot : (loader.recast f earlier).root = loader.root := rfl
  unfold finish
  rw [hroot]
  cases loader.root
  case none => simp [renumberAnswer, GrammarError.renumber, Location.renumber, h0, recast]
  case some => rfl

theorem answer_of_recasts (h0 : f 0 = 0) (h : Recasts f earlier loader x y) :
    (loader.recast f earlier).answer y = renumberAnswer f (loader.answer x) := by
  unfold Recasts at h
  rw [answer, answer, h]
  cases x.run loader
  case error  => rfl
  case ok new => exact finish_recast h0 new earlier

end Loader

namespace Grammar

variable {file : Option String} {texts texts' : List (List Char)}

def activeLines (number : Nat) (texts : List (List Char)) : List (Line × Nat) :=
  ((texts.map Line.ofText).zipIdx number).filter (·.1 ≠ .blank)

theorem map_filter_zipIdx (g : Nat → Nat) (texts : List (List Char)) :
    ((texts.zipIdx 1).filter (Line.ofText ·.1 ≠ .blank)).map (Prod.map Line.ofText g) =
      (activeLines 1 texts).map (Prod.map id g) := by
  rw [activeLines, List.zipIdx_map, List.filter_map, List.map_map]
  rfl

theorem ofLines_eq_answer (file : Option String) (texts : List (List Char)) : ofLines file (texts.map some) =
    (Loader.start file).answer (Loader.readRows ((texts.zipIdx 1).filter (Line.ofText ·.1 ≠ .blank))) := by
  rw [Loader.answer_filter, ofLines, Loader.run, Loader.readLines_map_some]
  rfl

theorem ofLines_of_activeLines (h0 : f 0 = 0)
    (h : activeLines 1 texts' = (activeLines 1 texts).map (Prod.map id f)) :
    ofLines file (texts'.map some) = renumberAnswer f (ofLines file (texts.map some)) := by
  have hrows : ((texts'.zipIdx 1).filter (Line.ofText ·.1 ≠ .blank)).map (Prod.map Line.ofText id) =
      ((texts.zipIdx 1).filter (Line.ofText ·.1 ≠ .blank)).map (Prod.map Line.ofText f) := by
    rw [map_filter_zipIdx, map_filter_zipIdx, h, Prod.map_id, List.map_id]
  have hstart : (Loader.start file).recast f [] = Loader.start file := by
    simp [Loader.recast, Loader.start, h0, SymbolTable.renumber, SymbolTable.empty, Rules.renumber]
  have hrecasts : Loader.Recasts f [] (Loader.start file) _ _ := Loader.recasts_readRows hrows
  rw [ofLines_eq_answer, ofLines_eq_answer, ← Loader.answer_of_recasts h0 hrecasts, hstart]

end Grammar
end LineGrammar
