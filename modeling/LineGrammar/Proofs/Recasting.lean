import LineGrammar.Proofs.Reading

/-!
Lines by other numbers. Reading sees neither how the lines before were numbered nor which notes have been
taken: with other numbers and other notes from before it does the same, at locations by the new numbers.
-/

namespace LineGrammar

def Location.renumber (f : Nat → Nat) (location : Location) : Location :=
  { location with line := f location.line }

def Nonterminal.renumber (f : Nat → Nat) (nonterminal : Nonterminal) : Nonterminal :=
  { nonterminal with location := nonterminal.location.renumber f }

def SymbolTable.renumber (f : Nat → Nat) (table : SymbolTable) : SymbolTable :=
  { table with nonterminals := table.nonterminals.map (.renumber f) }

def Production.renumber (f : Nat → Nat) (production : Production) : Production :=
  { production with location := production.location.renumber f }

def Rule.renumber (f : Nat → Nat) (rule : Rule) : Rule :=
  { rule with productions := rule.productions.map (.renumber f) }

def Rules.renumber (f : Nat → Nat) (rules : Rules) : Rules :=
  rules.map (.renumber f)

def GrammarError.renumber (f : Nat → Nat) (error : GrammarError) : GrammarError :=
  { error with location := error.location.renumber f }

def Note.renumber (f : Nat → Nat) : Note → Note
  | ruleHead name line         => ruleHead name (f line)
  | repetition name line       => repetition name (f line)
  | keepingPrevious path error => keepingPrevious path (error.renumber f)
  | note                       => note

section

@[simp]
theorem Nonterminal.renumber_id : Nonterminal.renumber id = id :=
  rfl

@[simp]
theorem SymbolTable.renumber_id (table : SymbolTable) : table.renumber id = table := by
  simp [renumber]

@[simp]
theorem Rule.renumber_id : Rule.renumber id = id := by
  have hproduction : Production.renumber id = id := rfl
  funext rule
  simp [renumber, hproduction]

@[simp]
theorem Rules.renumber_id (rules : Rules) : rules.renumber id = rules := by
  simp [renumber]

@[simp]
theorem GrammarError.renumber_id (error : GrammarError) : error.renumber id = error :=
  rfl

@[simp]
theorem Note.renumber_id : Note.renumber id = id := by
  funext note
  cases note <;> rfl

end

variable {f : Nat → Nat}

namespace SymbolTable

variable {table : SymbolTable} {name : String} {id : NonterminalId} {location : Location}

theorem getElem?_nonterminals_renumber :
    (table.renumber f).nonterminals[id]? = table.nonterminals[id]?.map (.renumber f) :=
  List.getElem?_map

@[simp]
theorem length_nonterminals_renumber :
    (table.renumber f).nonterminals.length = table.nonterminals.length :=
  List.length_map _

@[simp]
theorem nonterminalNamed?_renumber :
    (table.renumber f).nonterminalNamed? name = table.nonterminalNamed? name :=
  List.findIdx?_map

@[simp]
theorem nonterminalName_renumber : (table.renumber f).nonterminalName id = table.nonterminalName id := by
  rw [nonterminalName, nonterminalName, getElem?_nonterminals_renumber, Option.map_map]
  rfl

@[simp]
theorem isSynthetic_renumber : (table.renumber f).isSynthetic id = table.isSynthetic id := by
  rw [isSynthetic, isSynthetic, getElem?_nonterminals_renumber, Option.map_map]
  rfl

@[simp]
theorem symbolName_renumber (symbol : Symbol) :
    (table.renumber f).symbolName symbol = table.symbolName symbol := by
  cases symbol
  case terminal    => rfl
  case nonterminal => exact nonterminalName_renumber

theorem internTerminal_renumber (t : Terminal) : (table.renumber f).internTerminal t =
    ((table.internTerminal t).1, (table.internTerminal t).2.renumber f) := by
  have hnamed : (table.renumber f).terminalNamed? t.name = table.terminalNamed? t.name := rfl
  simp only [internTerminal, hnamed]
  cases table.terminalNamed? t.name <;> rfl

theorem internNonterminal_renumber : (table.renumber f).internNonterminal name (location.renumber f) =
    ((table.internNonterminal name location).1, (table.internNonterminal name location).2.renumber f) := by
  simp only [internNonterminal, nonterminalNamed?_renumber]
  cases table.nonterminalNamed? name
  case none   => simp [renumber, Nonterminal.mentioned, Nonterminal.renumber]
  case some   => rfl

theorem insertHelper_renumber : (table.renumber f).insertHelper name (location.renumber f) =
    ((table.insertHelper name location).1, (table.insertHelper name location).2.renumber f) := by
  simp only [insertHelper, nonterminalNamed?_renumber]
  cases table.nonterminalNamed? name <;> simp [renumber, Nonterminal.helper, Nonterminal.renumber]

theorem define_renumber : (table.renumber f).define id (location.renumber f) =
    (table.define id location).renumber f := by
  have hdefine : ∀ n : Nonterminal, (n.renumber f).define (location.renumber f) =
      (n.define location).renumber f := by
    intro n
    by_cases hd : n.defined <;> simp [Nonterminal.define, Nonterminal.renumber, hd]
  exact congrArg (SymbolTable.mk _) (modify_map_of_comm hdefine ..)

theorem reference_renumber : (table.renumber f).reference id = (table.reference id).renumber f := by
  have hreference : ∀ n : Nonterminal, (n.renumber f).reference = n.reference.renumber f := fun _ => rfl
  exact congrArg (SymbolTable.mk _) (modify_map_of_comm hreference ..)

end SymbolTable

namespace Rules

variable {rules : Rules} {head : NonterminalId} {production : Production}

@[simp]
theorem hasHead_renumber : (rules.renumber f).hasHead head = rules.hasHead head :=
  List.any_map

@[simp]
theorem productionsOf_renumber : (rules.renumber f).productionsOf head =
    (rules.productionsOf head).map (.renumber f) := by
  have hcomp : ((fun rule : Rule => rule.head == head) ∘ Rule.renumber f) = (·.head == head) := rfl
  rw [productionsOf, productionsOf, renumber, List.find?_map, hcomp]
  cases rules.find? (·.head == head) <;> rfl

theorem declare_renumber : (rules.renumber f).declare head = (rules.declare head).renumber f := by
  unfold declare
  rw [hasHead_renumber]
  split
  case isTrue  => rfl
  case isFalse => simp [renumber, Rule.renumber]

theorem add_renumber : (rules.renumber f).add head (production.renumber f) =
    (rules.add head production).renumber f := by
  rw [add, add, declare_renumber, renumber, renumber, List.map_map, List.map_map]
  refine List.map_congr_left fun rule _ => ?_
  have hhead : (rule.renumber f).head = rule.head := rfl
  rw [Function.comp_apply, Function.comp_apply, hhead]
  split
  case isTrue  => simp [Rule.renumber]
  case isFalse => rfl

end Rules

namespace Loader

def recast (f : Nat → Nat) (earlier : List Note) (loader : Loader) : Loader :=
  { loader with
    symbols := loader.symbols.renumber f
    rules := loader.rules.renumber f
    line := f loader.line
    notes := earlier ++ loader.notes.map (.renumber f) }

theorem recast_id (loader : Loader) (earlier : List Note) :
    loader.recast id earlier = { loader with notes := earlier ++ loader.notes } := by
  simp [recast]

-- From the recast loader on, the one reading does what the other one does, and ends recast. This is
-- what allows a line to be read under another number and after other notes.
def Recasts {α : Type} (f : Nat → Nat) (earlier : List Note) (loader : Loader) (x y : Reading α) : Prop :=
  y.run (loader.recast f earlier) =
    match x.run loader with
    | .ok a new        => .ok a (new.recast f earlier)
    | .error error new => .error (error.renumber f) (new.recast f earlier)

variable {earlier : List Note} {loader : Loader} {id : NonterminalId} {name : String}

namespace Recasts

section

variable {α β : Type} {x y : Reading α} {g h : α → Reading β}

theorem pure (a : α) : Recasts f earlier loader (pure a) (pure a) :=
  rfl

theorem bind (hxy : Recasts f earlier loader x y)
    (hgh : ∀ a new, x.run loader = .ok a new → Recasts f earlier new (g a) (h a)) :
    Recasts f earlier loader (x >>= g) (y >>= h) := by
  unfold Recasts at hxy ⊢
  rw [EStateM.run_bind, EStateM.run_bind, hxy]
  cases hrun : x.run loader
  case error    => rfl
  case ok a new => exact hgh a new hrun

theorem get_bind {g h : Loader → Reading β}
    (hgh : Recasts f earlier loader (g loader) (h (loader.recast f earlier))) :
    Recasts f earlier loader (get >>= g) (get >>= h) :=
  hgh

theorem modify {g h : Loader → Loader} (hgh : h (loader.recast f earlier) = (g loader).recast f earlier) :
    Recasts f earlier loader (modify g) (modify h) :=
  congrArg (EStateM.Result.ok ()) hgh

theorem modifyGet {g h : Loader → α × Loader}
    (hgh : h (loader.recast f earlier) = ((g loader).1, (g loader).2.recast f earlier)) :
    Recasts f earlier loader (modifyGet g) (modifyGet h) := by
  have hrun : (MonadStateOf.modifyGet h : Reading α).run (loader.recast f earlier) =
      .ok (h (loader.recast f earlier)).1 (h (loader.recast f earlier)).2 := rfl
  exact hrun.trans (by rw [hgh]; rfl)

theorem fail (fault : Fault) : Recasts f earlier loader (Loader.fail fault : Reading α) (Loader.fail fault) :=
  rfl

end

end Recasts

theorem internTerminal_recast (t : Terminal) : (loader.recast f earlier).internTerminal t =
    ((loader.internTerminal t).1, (loader.internTerminal t).2.recast f earlier) := by
  simp only [internTerminal, recast, SymbolTable.internTerminal_renumber]

theorem internNonterminal_recast : (loader.recast f earlier).internNonterminal name =
    ((loader.internNonterminal name).1, (loader.internNonterminal name).2.recast f earlier) := by
  have hlocation : (loader.recast f earlier).location = loader.location.renumber f := rfl
  rw [internNonterminal, hlocation]
  simp only [recast, SymbolTable.internNonterminal_renumber]
  rfl

theorem reference_recast :
    (loader.recast f earlier).reference id = (loader.reference id).recast f earlier := by
  simp only [reference, recast, SymbolTable.reference_renumber]

theorem note_recast (n : Note) :
    (loader.recast f earlier).note (n.renumber f) = (loader.note n).recast f earlier := by
  simp [note, recast]

theorem addProduction_recast (symbols : List Symbol) : (loader.recast f earlier).addProduction id symbols =
    (loader.addProduction id symbols).recast f earlier := by
  have hepsilon : ((loader.rules.productionsOf id).map (.renumber f)).any Production.isEpsilon =
      (loader.rules.productionsOf id).any Production.isEpsilon := List.any_map
  have hrules : (loader.recast f earlier).rules = loader.rules.renumber f := rfl
  unfold addProduction
  rw [hrules, Rules.productionsOf_renumber, hepsilon]
  split
  case isTrue  => rfl
  case isFalse => simp only [recast, ← Rules.add_renumber]; rfl

theorem addHelper_recast (base : Symbol) (repetition : Repetition) :
    (loader.recast f earlier).addHelper name base repetition =
      ((loader.addHelper name base repetition).1,
        (loader.addHelper name base repetition).2.recast f earlier) := by
  have hsymbols : (loader.recast f earlier).symbols = loader.symbols.renumber f := rfl
  have hlocation : (loader.recast f earlier).location = loader.location.renumber f := rfl
  simp only [addHelper, hsymbols, hlocation, SymbolTable.insertHelper_renumber, ← addProduction_recast,
    ← note_recast]
  rfl

theorem openRule_recast : (loader.recast f earlier).openRule id name =
    (loader.openRule id name).recast f earlier := by
  have hsymbols : (loader.recast f earlier).symbols = loader.symbols.renumber f := rfl
  have hlocation : (loader.recast f earlier).location = loader.location.renumber f := rfl
  rw [openRule_eq, openRule_eq, hsymbols, hlocation, SymbolTable.define_renumber]
  simp only [recast, SymbolTable.reference_renumber, Rules.declare_renumber,
    apply_ite (SymbolTable.renumber f), List.map_append, List.append_assoc]
  rfl

theorem recasts_resolve (item : Item) : Recasts f earlier loader (resolve item) (resolve item) := by
  cases item
  case terminal t => exact .bind (.modifyGet (internTerminal_recast t)) fun _ _ _ => .pure _
  case nonterminal name =>
    refine .bind (.modifyGet internNonterminal_recast) fun id _ _ => ?_
    exact .bind (.modify reference_recast) fun _ _ _ => .pure _

theorem recasts_repeated (base : Symbol) (repetition : Repetition) :
    Recasts f earlier loader (repeated base repetition) (repeated base repetition) := by
  refine .get_bind ?_
  have hsymbols : (loader.recast f earlier).symbols = loader.symbols.renumber f := rfl
  simp only [hsymbols, SymbolTable.symbolName_renumber, SymbolTable.nonterminalNamed?_renumber,
    SymbolTable.isSynthetic_renumber]
  cases loader.symbols.nonterminalNamed? ((loader.symbols.symbolName base).push repetition.mark)
  case none    => exact .modifyGet (addHelper_recast base repetition)
  case some id =>
    dsimp only
    split
    · exact .pure _
    · exact .fail _

theorem recasts_symbolOf (word : Word) : Recasts f earlier loader (symbolOf word) (symbolOf word) := by
  refine .bind (recasts_resolve word.item) fun base _ _ => ?_
  cases word.repetition
  case none => exact .pure _
  case some => exact .bind (recasts_repeated base _) fun _ _ _ => .pure _

theorem recasts_mapM_symbolOf (words : List Word) :
    Recasts f earlier loader (words.mapM symbolOf) (words.mapM symbolOf) := by
  induction words generalizing loader
  case nil => exact .pure []
  case cons word rest ih =>
    rw [List.mapM_cons]
    exact .bind (recasts_symbolOf word) fun _ _ _ => .bind ih fun _ _ _ => .pure _

theorem recasts_addAlternative (texts : List (List Char)) :
    Recasts f earlier loader (addAlternative id texts) (addAlternative id texts) := by
  unfold addAlternative
  cases alternativeOfTexts texts
  case error => exact .fail _
  case ok words =>
    refine .bind (recasts_mapM_symbolOf words) fun symbols new _ => ?_
    split
    case isFalse => exact .modify (addProduction_recast symbols)
    case isTrue =>
      refine .get_bind ?_
      have hsymbols : (new.recast f earlier).symbols = new.symbols.renumber f := rfl
      rw [hsymbols, SymbolTable.nonterminalName_renumber]
      exact .bind (.fail _) fun _ _ _ => .modify (addProduction_recast symbols)

theorem recasts_addAlternatives (alternatives : List (List (List Char))) :
    Recasts f earlier loader (addAlternatives id alternatives) (addAlternatives id alternatives) := by
  induction alternatives generalizing loader
  case nil            => exact .pure _
  case cons texts rest ih => exact .bind (recasts_addAlternative texts) fun _ _ _ => ih

theorem recasts_declare (name : String) : Recasts f earlier loader (declare name) (declare name) := by
  refine .bind (.modifyGet internNonterminal_recast) fun id new _ => .get_bind ?_
  have hsymbols : (new.recast f earlier).symbols = new.symbols.renumber f := rfl
  rw [hsymbols, SymbolTable.isSynthetic_renumber]
  split
  case isTrue  => exact .bind (.fail _) fun _ _ _ => .bind (.modify openRule_recast) fun _ _ _ => .pure _
  case isFalse => exact .bind (.modify openRule_recast) fun _ _ _ => .pure _

theorem recasts_readLine (number : Nat) {text text' : List Char} (h : Line.ofText text' = Line.ofText text) :
    Recasts f earlier loader (readLine number text) (readLine (f number) text') := by
  refine .bind (.modify rfl) fun _ new _ => ?_
  rw [h]
  cases Line.ofText text
  case blank => exact .pure _
  case alternatives alternatives =>
    refine .get_bind ?_
    have hcurrent : (new.recast f earlier).current = new.current := rfl
    rw [hcurrent]
    cases new.current
    case none => exact .fail _
    case some => exact recasts_addAlternatives alternatives
  case rule head alternatives =>
    dsimp only
    split
    · exact .bind (recasts_declare _) fun _ _ _ => recasts_addAlternatives alternatives
    · exact .fail _

end Loader
end LineGrammar
