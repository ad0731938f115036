import LineGrammar.Proofs.Endings

/-!
Reading with guards. Each number is looked up only after a guard has made sure that it has been given out.
The guards never stop the reading, so reading without them never looks a number up in vain.
-/

namespace LineGrammar

def SymbolTable.Has (table : SymbolTable) : Symbol → Prop
  | .terminal id    => id < table.terminals.length
  | .nonterminal id => id < table.nonterminals.length

instance (table : SymbolTable) (symbol : Symbol) : Decidable (table.Has symbol) :=
  match symbol with
  | .terminal id    => inferInstanceAs (Decidable (id < table.terminals.length))
  | .nonterminal id => inferInstanceAs (Decidable (id < table.nonterminals.length))

namespace SymbolTable

variable {table : SymbolTable} {symbol : Symbol} {name : String} {id : NonterminalId}

theorem Knows.has (h : table.Knows symbol) : table.Has symbol := by
  cases symbol
  case terminal    => exact h
  case nonterminal => exact h.lt_length

theorem has_of_nonterminalNamed? (h : table.nonterminalNamed? name = some id) :
    table.Has (.nonterminal id) :=
  (List.findIdx?_eq_some_iff_getElem.mp h).choose

theorem has_internNonterminal (table : SymbolTable) (name : String) (location : Location) :
    (table.internNonterminal name location).2.Has
      (.nonterminal (table.internNonterminal name location).1) := by
  unfold internNonterminal
  split
  case h_1 h => exact has_of_nonterminalNamed? h
  case h_2   => simp [Has]

end SymbolTable

-- A guarded reading stops at a number that has not been given out, or at a fault as any reading does.
-- The two are kept apart so that the first can be shown never to occur.
inductive Stop
  | missing (symbol : Symbol)
  | fault (error : GrammarError)

abbrev GuardedReading := EStateM Stop Loader

namespace GuardedReading

def free {α : Type} (x : Reading α) : GuardedReading α :=
  x.adaptExcept .fault

def guard (symbol : Symbol) : GuardedReading Unit := do
  unless (← get).symbols.Has symbol do throw (.missing symbol)

def resolve : Item → GuardedReading Symbol
  | .terminal t       => free (Loader.resolve (.terminal t))
  | .nonterminal name => do
    let id ← modifyGet (·.internNonterminal name)
    guard (.nonterminal id)
    modify (·.reference id)
    return .nonterminal id

-- Two look-ups: that of the name of the base, and whether the nonterminal with the name is a helper.
def repeated (base : Symbol) (repetition : Repetition) : GuardedReading NonterminalId := do
  guard base
  let symbols := (← get).symbols
  let name := (symbols.symbolName base).push repetition.mark
  match symbols.nonterminalNamed? name with
  | none    => modifyGet (·.addHelper name base repetition)
  | some id =>
    guard (.nonterminal id)
    if symbols.isSynthetic id then return id else free (Loader.fail (.syntheticNameClash name))

def symbolOf (word : Word) : GuardedReading Symbol := do
  let base ← resolve word.item
  match word.repetition with
  | none            => return base
  | some repetition => return .nonterminal (← repeated base repetition)

def addAlternative (head : NonterminalId) (texts : List (List Char)) : GuardedReading Unit := do
  match alternativeOfTexts texts with
  | .error fault => free (Loader.fail fault)
  | .ok words =>
    let symbols ← words.mapM symbolOf
    if symbols = [.nonterminal head] then
      guard (.nonterminal head)
      free (Loader.fail (.derivesItself ((← get).symbols.nonterminalName head)))
    modify (·.addProduction head symbols)

def addAlternatives (head : NonterminalId) (alternatives : List (List (List Char))) :
    GuardedReading Unit :=
  alternatives.forM (addAlternative head)

def declare (name : String) : GuardedReading NonterminalId := do
  let id ← modifyGet (·.internNonterminal name)
  guard (.nonterminal id)
  if (← get).symbols.isSynthetic id then free (Loader.fail (.syntheticNameClash name))
  modify (·.openRule id name)
  return id

def readLine (number : Nat) (text : List Char) : GuardedReading Unit := do
  modify (·.atLine number)
  match Line.ofText text with
  | .blank => return
  | .alternatives alternatives =>
    match (← get).current with
    | none      => free (Loader.fail .missingNonterminal)
    | some head => addAlternatives head alternatives
  | .rule head alternatives =>
    if isIdentifier head then addAlternatives (← declare (String.ofList head)) alternatives
    else free (Loader.fail (.invalidNonterminalName (String.ofList head)))

def readLines : Nat → List (Option (List Char)) → GuardedReading Unit
  | _, []                     => return
  | number, none :: rest      => free (Loader.readLines number (none :: rest))
  | number, some text :: rest => do
    readLine number text
    readLines (number + 1) rest

def Agrees {α : Type} (loader : Loader) (x : GuardedReading α) (y : Reading α) : Prop :=
  x.run loader = (free y).run loader

section

variable {α β : Type} {loader : Loader} {x : GuardedReading α} {y : Reading α}
variable {f : α → GuardedReading β} {g : α → Reading β} {symbol : Symbol}

@[simp]
theorem run_free (y : Reading α) : (free y).run loader =
    match y.run loader with
    | .ok a new        => .ok a new
    | .error error new => .error (.fault error) new := by
  simp only [EStateM.run, free, EStateM.adaptExcept]
  cases y loader <;> rfl

theorem run_guard (h : loader.symbols.Has symbol) : (guard symbol).run loader = .ok () loader := by
  simp [guard, h]

namespace Agrees

theorem free (y : Reading α) : Agrees loader (free y) y :=
  rfl

theorem bind (h : Agrees loader x y) (hf : ∀ a new, y.run loader = .ok a new → Agrees new (f a) (g a)) :
    Agrees loader (x >>= f) (y >>= g) := by
  unfold Agrees at h ⊢
  simp only [run_free] at h
  simp only [EStateM.run_bind, run_free, h]
  cases hrun : y.run loader
  case error     => rfl
  case ok a new  => simpa only [Agrees, run_free] using hf a new hrun

theorem guard (h : loader.symbols.Has symbol) (hx : Agrees loader x y) :
    Agrees loader (GuardedReading.guard symbol >>= fun _ => x) y := by
  unfold Agrees
  rw [EStateM.run_bind, run_guard h]
  exact hx

theorem ne_missing (h : Agrees loader x y) (new : Loader) : x.run loader ≠ .error (.missing symbol) new := by
  rw [h, run_free]
  cases y.run loader <;> simp

theorem pure (a : α) : Agrees loader (pure a) (pure a) :=
  rfl

theorem get_bind {f : Loader → GuardedReading β} {g : Loader → Reading β}
    (h : Agrees loader (f loader) (g loader)) : Agrees loader (get >>= f) (get >>= g) :=
  h

theorem modify (f : Loader → Loader) : Agrees loader (modify f) (modify f) :=
  rfl

theorem modifyGet (f : Loader → α × Loader) : Agrees loader (modifyGet f) (modifyGet f) :=
  rfl

end Agrees
end

section

variable {loader : Loader} {word : Word} {words : List Word} {base : Symbol} {repetition : Repetition}
variable {id : NonterminalId}

theorem agrees_resolve (item : Item) : Agrees loader (resolve item) (Loader.resolve item) := by
  cases item
  case terminal => exact .free _
  case nonterminal name =>
    refine .bind (.modifyGet _) fun id new hrun => ?_
    cases hrun
    exact .guard (SymbolTable.has_internNonterminal ..) (.bind (.modify _) fun _ _ _ => .pure _)

theorem agrees_repeated (h : loader.symbols.Has base) :
    Agrees loader (repeated base repetition) (Loader.repeated base repetition) := by
  refine .guard h (.get_bind ?_)
  dsimp only
  cases hn : loader.symbols.nonterminalNamed? ((loader.symbols.symbolName base).push repetition.mark)
  case none    => exact .modifyGet _
  case some id =>
    refine .guard (SymbolTable.has_of_nonterminalNamed? hn) ?_
    by_cases hs : loader.symbols.isSynthetic id
    case pos => simpa only [if_pos hs] using .pure _
    case neg => simpa only [if_neg hs] using .free _

theorem agrees_symbolOf (hs : loader.Sound) (hw : word.item.WellFormed) :
    Agrees loader (symbolOf word) (Loader.symbolOf word) := by
  refine .bind (agrees_resolve word.item) fun base new hrun => ?_
  have ⟨_, _, hrun', hm⟩ := Loader.run_resolve hs hw
  cases hrun.symm.trans hrun'
  cases word.repetition
  case none => exact .pure _
  case some => exact .bind (agrees_repeated hm.knows.has) fun _ _ _ => .pure _

theorem agrees_mapM_symbolOf (hs : loader.Sound) (hw : ∀ word ∈ words, word.item.WellFormed) :
    Agrees loader (words.mapM symbolOf) (words.mapM Loader.symbolOf) := by
  induction words generalizing loader
  case nil => exact .pure []
  case cons word rest ih =>
    rw [List.forall_mem_cons] at hw
    rw [List.mapM_cons, List.mapM_cons]
    refine .bind (agrees_symbolOf hs hw.left) fun symbol mid hrun => ?_
    have ⟨_, _, hrun', hm⟩ := Loader.run_symbolOf hs hw.left
    cases hrun.symm.trans hrun'
    exact .bind (ih hm.sound hw.right) fun _ _ _ => .pure _

theorem agrees_addAlternative (hs : loader.Sound) (texts : List (List Char)) :
    Agrees loader (addAlternative id texts) (Loader.addAlternative id texts) := by
  unfold addAlternative Loader.addAlternative
  cases hwords : alternativeOfTexts texts
  case error    => exact .free _
  case ok words =>
    have hw := wellFormed_of_alternativeOfTexts hwords
    refine .bind (agrees_mapM_symbolOf hs hw) fun symbols new hrun => ?_
    have ⟨_, _, hrun', hm⟩ := Loader.run_mapM_symbolOf hs hw
    cases hrun.symm.trans hrun'
    by_cases hself : symbols = [.nonterminal id]
    case neg => simpa only [if_neg hself] using .modify _
    case pos =>
      have hhas : new.symbols.Has (.nonterminal id) := (hm.knows _ (by simp [hself])).has
      simpa only [if_pos hself] using
        .guard hhas (.get_bind (.bind (.free _) fun _ _ _ => .modify _))

theorem agrees_addAlternatives (hs : loader.Sound) (hc : loader.current = some id)
    (alternatives : List (List (List Char))) :
    Agrees loader (addAlternatives id alternatives) (Loader.addAlternatives id alternatives) := by
  induction alternatives generalizing loader
  case nil => exact .pure _
  case cons texts rest ih =>
    refine .bind (agrees_addAlternative hs texts) fun _ mid hrun => ?_
    have hsteps := Loader.steps_of_run_addAlternative hs hc hrun
    exact ih (hsteps.sound hs) ((hsteps.current Loader.head?_of_mem_alternativePieces).trans hc)

theorem agrees_declare (name : String) : Agrees loader (declare name) (Loader.declare name) := by
  refine .bind (.modifyGet _) fun id new hrun => ?_
  have hhas : new.symbols.Has (.nonterminal id) := by
    cases hrun
    exact SymbolTable.has_internNonterminal ..
  refine .guard hhas (.get_bind ?_)
  by_cases hs : new.symbols.isSynthetic id
  case pos =>
    simpa only [if_pos hs] using
      .bind (.free _) fun _ _ _ => .bind (.modify _) fun _ _ _ => .pure _
  case neg => simpa only [if_neg hs] using .bind (.modify _) fun _ _ _ => .pure _

theorem agrees_readLine (hs : loader.Sound) (number : Nat) (text : List Char) :
    Agrees loader (readLine number text) (Loader.readLine number text) := by
  refine .bind (.modify _) fun _ new hrun => ?_
  cases hrun
  have hs := hs.atLine number
  cases Line.ofText text
  case blank => exact .pure _
  case alternatives alternatives =>
    refine .get_bind ?_
    cases hc : (loader.atLine number).current
    case none    => exact .free _
    case some id => exact agrees_addAlternatives hs hc alternatives
  case rule head alternatives =>
    dsimp only
    by_cases hi : isIdentifier head
    case neg => simpa only [if_neg hi] using .free _
    case pos =>
      rw [if_pos hi, if_pos hi]
      refine .bind (agrees_declare _) fun id mid hrun => ?_
      have ⟨hstep, hc⟩ := Loader.step_of_run_declare (by simpa using hi) hrun
      exact agrees_addAlternatives (hstep.sound hs) hc alternatives

-- No guard ever stops the reading of lines.
theorem agrees_readLines (hs : loader.Sound) (number : Nat) (lines : List (Option (List Char))) :
    Agrees loader (readLines number lines) (Loader.readLines number lines) := by
  induction lines generalizing loader number
  case nil => exact .pure _
  case cons line rest ih =>
    cases line
    case none => exact .free _
    case some text =>
      refine .bind (agrees_readLine hs number text) fun _ mid hrun => ?_
      exact ih ((Loader.steps_of_run_readLine hs hrun).sound hs) (number + 1)

end

end GuardedReading
end LineGrammar
