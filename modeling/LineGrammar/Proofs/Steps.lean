import LineGrammar.Proofs.Reading

/-!
Reading as a row of steps, each of which takes in one piece of the source. What a step can do to a
loader is said here once, so whatever every step keeps is kept by the reading of any source.
-/

namespace LineGrammar

-- What a single step takes in. A word with a mark is taken in twice, for its item and for its mark.
inductive Piece
  | line (number : Nat)
  | head (name : String)
  | item (item : Item)
  | repetition (item : Item) (repetition : Repetition)
  | alternative (words : List Word)

namespace Piece

def head? : Piece → Option String
  | head name => some name
  | _         => none

end Piece

def Word.pieces : Word → List Piece
  | ⟨item, none⟩            => [.item item]
  | ⟨item, some repetition⟩ => [.item item, .repetition item repetition]

def alternativePieces (texts : List (List Char)) : List Piece :=
  match alternativeOfTexts texts with
  | .error _  => []
  | .ok words => words.flatMap Word.pieces ++ [.alternative words]

def Line.pieces (number : Nat) (line : Line) : List Piece :=
  .line number :: (line.head?.toList.map .head ++ line.texts.flatMap alternativePieces)

def pieces : Nat → List Line → List Piece
  | _, [] => []
  | number, line :: rest => line.pieces number ++ pieces (number + 1) rest

namespace Loader

inductive Step (loader : Loader) : Piece → Loader → Prop
  | line (number : Nat) : Step loader (.line number) (loader.atLine number)
  | head {name : String} (identifier : isIdentifier name.toList) :
    Step loader (.head name)
      ((loader.internNonterminal name).2.openRule (loader.internNonterminal name).1 name)
  | terminal {t : Terminal} (wellFormed : (Item.terminal t).WellFormed) :
    Step loader (.item (.terminal t)) (loader.internTerminal t).2
  | nonterminal {name : String} (wellFormed : (Item.nonterminal name).WellFormed) :
    Step loader (.item (.nonterminal name))
      ((loader.internNonterminal name).2.reference (loader.internNonterminal name).1)
  | helper {item : Item} {repetition : Repetition} {base : Symbol} (wellFormed : item.WellFormed)
      (denotes : loader.symbols.Denotes item base) (knows : loader.symbols.Knows base)
      (fresh : loader.symbols.nonterminalNamed? (item.name.push repetition.mark) = none) :
    Step loader (.repetition item repetition)
      (loader.addHelper (item.name.push repetition.mark) base repetition).2
  | shared {item : Item} {repetition : Repetition} {id : NonterminalId}
      (known : loader.symbols.nonterminalNamed? (item.name.push repetition.mark) = some id) :
    Step loader (.repetition item repetition) loader
  | alternative {head : NonterminalId} {words : List Word} {symbols : List Symbol}
      (current : loader.current = some head)
      (spells : List.Forall₂ loader.symbols.Spells words symbols)
      (knows : ∀ symbol ∈ symbols, loader.symbols.Knows symbol) :
    Step loader (.alternative words) (loader.addProduction head symbols)

inductive Steps : Loader → List Piece → Loader → Prop
  | nil {a : Loader} : Steps a [] a
  | cons {a b c : Loader} {piece : Piece} {rest : List Piece} (head : a.Step piece b)
      (tail : Steps b rest c) : Steps a (piece :: rest) c

variable {a b c loader new : Loader} {piece : Piece} {pieces rest : List Piece}

theorem Step.steps (h : a.Step piece b) : a.Steps [piece] b :=
  .cons h .nil

theorem Steps.append (h₁ : a.Steps pieces b) (h₂ : b.Steps rest c) : a.Steps (pieces ++ rest) c := by
  induction h₁
  case nil          => exact h₂
  case cons hs _ ih => exact .cons hs (ih h₂)

section

variable {item : Item} {word : Word} {words : List Word} {symbol base : Symbol}
variable {symbols : List Symbol} {id : NonterminalId} {repetition : Repetition}

theorem step_of_run_resolve (hi : item.WellFormed)
    (h : (resolve item).run loader = .ok symbol new) : loader.Step (.item item) new := by
  cases item
  case terminal    => cases h; exact .terminal hi
  case nonterminal => cases h; exact .nonterminal hi

theorem step_of_run_repeated (hi : item.WellFormed) (hb : loader.symbols.Denotes item base)
    (hk : loader.symbols.Knows base) (h : (repeated base repetition).run loader = .ok id new) :
    loader.Step (.repetition item repetition) new := by
  simp only [repeated, EStateM.run_bind, EStateM.run_get, hb.symbolName] at h
  cases hf : loader.symbols.nonterminalNamed? (item.name.push repetition.mark)
  case none =>
    rw [hf] at h
    cases h
    exact .helper hi hb hk hf
  case some known =>
    rw [hf] at h
    by_cases hs : loader.symbols.isSynthetic known
    case neg => simp [hs, run_fail] at h
    case pos =>
      simp only [hs, ↓reduceIte, EStateM.run_pure, EStateM.Result.ok.injEq] at h
      exact h.right ▸ .shared hf

theorem steps_of_run_symbolOf (hs : loader.Sound) (hw : word.item.WellFormed)
    (h : (symbolOf word).run loader = .ok symbol new) : loader.Steps word.pieces new := by
  obtain ⟨item, repetition⟩ := word
  obtain ⟨base, mid, hrun, hm⟩ := run_resolve hs hw
  have hstep := step_of_run_resolve hw hrun
  cases repetition
  case none =>
    simp only [symbolOf, EStateM.run_bind, hrun, EStateM.run_pure, EStateM.Result.ok.injEq] at h
    exact h.right ▸ hstep.steps
  case some repetition =>
    cases hm.spells with | plain hd =>
    obtain ⟨id, last, hrun', _⟩ := run_repeated hm.sound repetition hw hd hm.knows
    simp [symbolOf, hrun, hrun'] at h
    exact h.right ▸ .cons hstep (step_of_run_repeated hw hd hm.knows hrun').steps

theorem steps_of_run_mapM_symbolOf (hs : loader.Sound) (hw : ∀ word ∈ words, word.item.WellFormed)
    (h : (words.mapM symbolOf).run loader = .ok symbols new) :
    loader.Steps (words.flatMap Word.pieces) new := by
  induction words generalizing loader symbols
  case nil =>
    cases h
    exact .nil
  case cons word rest ih =>
    rw [List.forall_mem_cons] at hw
    have ⟨symbol, mid, hrun, hm⟩ := run_symbolOf hs hw.left
    have ⟨symbols', last, hrun', _⟩ := run_mapM_symbolOf hm.sound hw.right
    simp only [List.mapM_cons, EStateM.run_bind, hrun, hrun', EStateM.run_pure,
      EStateM.Result.ok.injEq] at h
    obtain ⟨-, rfl⟩ := h
    exact (steps_of_run_symbolOf hs hw.left hrun).append (ih hm.sound hw.right hrun')

theorem steps_of_run_addAlternative {texts : List (List Char)} (hs : loader.Sound)
    (hc : loader.current = some id) (h : (addAlternative id texts).run loader = .ok () new) :
    loader.Steps (alternativePieces texts) new := by
  cases hw : alternativeOfTexts texts
  case error => simp [addAlternative, hw, run_fail] at h
  case ok words =>
    have hwell := wellFormed_of_alternativeOfTexts hw
    obtain ⟨symbols, mid, hrun, hm⟩ := run_mapM_symbolOf hs hwell
    by_cases hself : symbols = [.nonterminal id]
    case pos => simp [addAlternative, hw, hrun, hself, run_fail] at h
    case neg =>
      simp [addAlternative, hw, hrun, hself] at h
      have hlast : mid.Step (.alternative words) new :=
        h ▸ .alternative (hm.advances.current.trans hc) hm.spells hm.knows
      simpa [alternativePieces, hw] using (steps_of_run_mapM_symbolOf hs hwell hrun).append hlast.steps

end

-- What holds of a sound loader is that it stays sound, whatever it takes in.
theorem Step.sound (h : a.Step piece b) (hs : a.Sound) : b.Sound := by
  cases h
  case line number => exact hs.atLine number
  case head name hi =>
    have hm := hs.of_mentions (hs.symbols.internNonterminal hi)
      (a.symbols.mentions_internNonterminal name a.location)
    have hd := SymbolTable.internNonterminal_denotes hs.symbols hi a.location
    generalize hid : (a.symbols.internNonterminal name a.location).1 = id at hd
    cases hd with | nonterminal hn hw =>
    subst hid
    exact hm.openRule hn hw _
  case terminal hi =>
    obtain ⟨_, _, hrun, hm⟩ := run_resolve hs hi
    cases hrun
    exact hm.sound
  case nonterminal hi =>
    obtain ⟨_, _, hrun, hm⟩ := run_resolve hs hi
    cases hrun
    exact hm.sound
  case helper hi hd hk hf => exact (addHelper_reads hs hi (by simp [Word.text]) hf hd hk).sound
  case shared             => exact hs
  case alternative hc _ hk =>
    obtain ⟨hw, hd⟩ := hs.current hc
    exact hs.addProduction hw hd hk

theorem Steps.sound (h : a.Steps pieces b) (hs : a.Sound) : b.Sound := by
  induction h
  case nil             => exact hs
  case cons hstep _ ih => exact ih (hstep.sound hs)

theorem samePlace_addHelper {name : String} {base : Symbol} {repetition : Repetition} :
    loader.SamePlace (loader.addHelper name base repetition).2 := by
  have hn : loader.SamePlace (Loader.note
      { loader with symbols := (loader.symbols.insertHelper name loader.location).2 }
      (.repetition name loader.line)) := ⟨rfl, rfl, rfl⟩
  exact hn.trans ((samePlace_addProduction _).trans (samePlace_addProduction _))

theorem Step.current (h : a.Step piece b) (hn : piece.head? = none) : b.current = a.current := by
  cases h
  case head        => cases hn
  case helper      => exact samePlace_addHelper.current
  case alternative => exact (samePlace_addProduction _).current
  all_goals rfl

theorem Steps.current (h : a.Steps pieces b) (hn : ∀ piece ∈ pieces, piece.head? = none) :
    b.current = a.current := by
  induction h
  case nil => rfl
  case cons hs _ ih =>
    rw [List.forall_mem_cons] at hn
    exact (ih hn.right).trans (hs.current hn.left)

theorem Step.file (h : a.Step piece b) : b.file = a.file := by
  cases h
  case head        => rw [openRule_eq]; rfl
  case helper      => exact samePlace_addHelper.file
  case alternative => exact (samePlace_addProduction _).file
  all_goals rfl

theorem Steps.file (h : a.Steps pieces b) : b.file = a.file := by
  induction h
  case nil           => rfl
  case cons hs _ ih  => exact ih.trans hs.file

-- What holds at the start and is kept by each step, given all that has been taken in before it, holds
-- at the end.
theorem Steps.induction {P : List Piece → Loader → Prop} (h : a.Steps pieces b) (hs : a.Sound)
    {done : List Piece} (ha : P done a)
    (hstep : ∀ {done piece a b}, a.Sound → a.Step piece b → P done a → P (done ++ [piece]) b) :
    P (done ++ pieces) b := by
  induction h generalizing done
  case nil => simpa using ha
  case cons head _ ih => simpa using ih (head.sound hs) (hstep hs head ha)

section

variable {id : NonterminalId} {alternatives : List (List (List Char))} {text : List Char}
variable {number : Nat}

theorem head?_of_mem_alternativePieces {texts : List (List Char)} :
    ∀ piece ∈ alternativePieces texts, piece.head? = none := by
  intro piece hm
  unfold alternativePieces at hm
  split at hm
  case h_1 => simp at hm
  case h_2 words _ =>
    simp only [List.mem_append, List.mem_flatMap, List.mem_singleton] at hm
    obtain ⟨⟨item, repetition⟩, _, hm⟩ | rfl := hm
    · cases repetition <;> simp [Word.pieces] at hm <;> grind [Piece.head?]
    · rfl

theorem steps_of_run_addAlternatives (hs : loader.Sound) (hc : loader.current = some id)
    (h : (addAlternatives id alternatives).run loader = .ok () new) :
    loader.Steps (alternatives.flatMap alternativePieces) new := by
  induction alternatives generalizing loader
  case nil =>
    cases h
    exact .nil
  case cons texts rest ih =>
    rw [addAlternatives_cons, EStateM.run_bind] at h
    split at h
    case h_2 => cases h
    case h_1 mid hrun =>
      have hm := steps_of_run_addAlternative hs hc hrun
      have hcm := hm.current head?_of_mem_alternativePieces
      exact hm.append (ih (hm.sound hs) (hcm.trans hc) h)

theorem step_of_run_declare {name : String} (hi : isIdentifier name.toList)
    (h : (declare name).run loader = .ok id new) :
    loader.Step (.head name) new ∧ new.current = some id := by
  simp only [declare, EStateM.run_bind, EStateM.run_modifyGet, EStateM.run_get] at h
  by_cases hs : (loader.internNonterminal name).2.symbols.isSynthetic
      (loader.internNonterminal name).1
  case pos => simp [hs, run_fail] at h
  case neg =>
    simp [hs] at h
    obtain ⟨rfl, rfl⟩ := h
    exact ⟨.head hi, current_openRule⟩

-- What reading a line comes to once its head has been read: it is blank, it has no rule to add to or no
-- name for one, or its alternatives are what is left to read.
inductive LineRun (loader : Loader) (number : Nat) (text : List Char) : Prop
  | blank (line : Line.ofText text = .blank)
      (run : (readLine number text).run loader = .ok () (loader.atLine number))
  | fault {fault : Fault} (head : fault = .missingNonterminal ∨ ∃ name, fault = .invalidNonterminalName name)
      (run : (readLine number text).run loader =
        .error ⟨(loader.atLine number).location, fault⟩ (loader.atLine number))
  | alternatives {id : NonterminalId} {mid : Loader}
      (head : (loader.atLine number).Steps ((Line.ofText text).head?.toList.map .head) mid)
      (current : mid.current = some id)
      (run : (readLine number text).run loader = (addAlternatives id (Line.ofText text).texts).run mid)

theorem lineRun (hs : loader.Sound) (number : Nat) (text : List Char) : loader.LineRun number text := by
  cases hline : Line.ofText text
  case blank => exact .blank hline (by simp [readLine, hline])
  case alternatives alternatives =>
    cases hc : (loader.atLine number).current
    case none => exact .fault (.inl rfl) (by simp [readLine, hline, hc, run_fail])
    case some id =>
      refine .alternatives ?_ hc (by simp [readLine, hline, hc, Line.texts])
      simpa [hline, Line.head?] using Steps.nil
  case rule head alternatives =>
    by_cases hi : isIdentifier head
    case neg => exact .fault (.inr ⟨String.ofList head, rfl⟩) (by simp [readLine, hline, hi, run_fail])
    case pos =>
      have hi' : isIdentifier (String.ofList head).toList := by simpa using hi
      have hrun := run_declare_eq (hs.atLine number) hi'
      obtain ⟨hstep, hc⟩ := step_of_run_declare hi' hrun
      refine .alternatives ?_ hc (by simp [readLine, hline, hi, hrun, Line.texts])
      simpa [hline, Line.head?] using hstep.steps

theorem steps_of_run_readLine (hs : loader.Sound)
    (h : (readLine number text).run loader = .ok () new) :
    loader.Steps ((Line.ofText text).pieces number) new := by
  have hstep : loader.Step (.line number) (loader.atLine number) := .line number
  refine .cons hstep ?_
  cases lineRun hs number text
  case blank hline hrun =>
    cases hrun.symm.trans h
    simpa [hline, Line.head?, Line.texts] using Steps.nil
  case fault hrun => cases hrun.symm.trans h
  case alternatives hhead hc hrun =>
    exact hhead.append (steps_of_run_addAlternatives (hhead.sound (hs.atLine number)) hc (hrun.symm.trans h))

theorem steps_of_run_readLines {texts : List (List Char)} (hs : loader.Sound)
    (h : (readLines number (texts.map some)).run loader = .ok () new) :
    loader.Steps (LineGrammar.pieces number (texts.map Line.ofText)) new := by
  induction texts generalizing loader number
  case nil =>
    cases h
    exact .nil
  case cons text rest ih =>
    rw [List.map_cons, readLines_cons, EStateM.run_bind] at h
    split at h
    case h_2 => cases h
    case h_1 mid hrun =>
      have hm := steps_of_run_readLine hs hrun
      exact hm.append (ih (hm.sound hs) h)

end

theorem finish_eq_ok_iff {g : Grammar} :
    loader.finish = .ok g ↔
      ∃ root, loader.root = some root ∧ g = ⟨loader.symbols, loader.rules, root, loader.file⟩ := by
  unfold finish
  split <;> simp_all [eq_comm]

end Loader

theorem Grammar.exists_steps_of_ofLines {file : Option String} {lines : List (Option (List Char))}
    {g : Grammar} (h : ofLines file lines = .ok g) :
    ∃ loader, (Loader.start file).Steps (pieces 1 (linesOf lines)) loader ∧ loader.finish = .ok g := by
  have ⟨loader, hrun, hfinish⟩ := exists_run_of_ofLines h
  obtain ⟨texts, rfl⟩ := exists_texts_of_ofLines h
  refine ⟨loader, ?_, hfinish⟩
  rw [linesOf_map_some]
  exact Loader.steps_of_run_readLines (Loader.sound_start file) hrun

theorem Grammar.file_of_ofLines {file : Option String} {lines : List (Option (List Char))} {g : Grammar}
    (h : ofLines file lines = .ok g) : g.file = file := by
  have ⟨loader, hsteps, hfinish⟩ := exists_steps_of_ofLines h
  obtain ⟨root, _, rfl⟩ := Loader.finish_eq_ok_iff.mp hfinish
  exact hsteps.file

end LineGrammar
