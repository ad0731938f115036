import LineGrammar.Proofs.FirstFault
import LineGrammar.Proofs.Guards
import LineGrammar.Proofs.Productivity
import LineGrammar.Proofs.Reachability
import LineGrammar.Proofs.Slices

/-!
Nothing is looked up that is not there. Whatever lines a loader has read, the numbers that it holds have
been given out, and so have those of a grammar that is checked or displayed.
-/

namespace LineGrammar

structure Rules.InRange (rules : Rules) (table : SymbolTable) : Prop where
  heads   : ∀ rule ∈ rules, table.Has (.nonterminal rule.head)
  symbols : ∀ rule ∈ rules, ∀ production ∈ rule.productions, ∀ symbol ∈ production.symbols,
    table.Has symbol

theorem Rules.Fits.inRange {rules : Rules} {table : SymbolTable} (h : rules.Fits table) :
    rules.InRange table where
  heads rule hm := by
    have ⟨n, hn, _⟩ := h.defined.mp (Rules.hasHead_iff.mpr ⟨rule, hm, rfl⟩)
    exact lt_length_of_getElem? hn
  symbols rule hm production hp symbol hs := by
    rw [← Rules.productionsOf_of_mem h.heads_nodup hm] at hp
    exact (h.known hp symbol hs).has

namespace Loader

variable {loader : Loader}

structure InRange (loader : Loader) : Prop where
  root    : ∀ id, loader.root = some id → loader.symbols.Has (.nonterminal id)
  current : ∀ id, loader.current = some id → loader.symbols.Has (.nonterminal id)
  rules   : loader.rules.InRange loader.symbols

theorem Sound.inRange (h : loader.Sound) : loader.InRange where
  root id hr := (h.root hr).has
  current id hc := by
    have ⟨n, hn, _⟩ := h.rules.defined.mp (h.current hc).right
    exact lt_length_of_getElem? hn
  rules := h.rules.inRange

end Loader

namespace SymbolTable

variable {table : SymbolTable} {symbol : Symbol}

def symbolName? (table : SymbolTable) : Symbol → Option String
  | .terminal id    => table.terminals[id]?.map Terminal.name
  | .nonterminal id => table.nonterminals[id]?.map Nonterminal.name

theorem symbolName?_eq_some (h : table.Has symbol) :
    table.symbolName? symbol = some (table.symbolName symbol) := by
  cases symbol
  case terminal id    => simp [symbolName?, symbolName, List.getElem?_eq_getElem h]
  case nonterminal id => simp [symbolName?, symbolName, nonterminalName, List.getElem?_eq_getElem h]

end SymbolTable

namespace Walk

variable {walk : Walk} {ids : List NonterminalId}

def visit? (walk : Walk) (id : NonterminalId) : Option Walk :=
  if id < walk.marked.length then some (walk.visit id) else none

theorem foldlM_visit? (h : ∀ id ∈ ids, id < walk.marked.length) :
    ids.foldlM visit? walk = some (ids.foldl visit walk) := by
  induction ids generalizing walk
  case nil => rfl
  case cons id rest ih =>
    rw [List.forall_mem_cons] at h
    have hlength : (walk.visit id).marked.length = walk.marked.length := (visits_visit walk id).length
    rw [List.foldlM_cons, visit?, if_pos h.left, List.foldl_cons]
    exact ih (hlength ▸ h.right)

end Walk

namespace Grammar

variable {g : Grammar} {w : Walk} {ids : List NonterminalId} {rule : Rule} {production : Production}

def productionText? (g : Grammar) (production : Production) : Option String :=
  if production.isEpsilon then some "0"
  else return " ".intercalate (← production.symbols.mapM g.symbols.symbolName?)

def ruleText? (g : Grammar) (rule : Rule) : Option String :=
  return (← g.symbols.symbolName? (.nonterminal rule.head)) ++ " → " ++
    " | ".intercalate (← rule.productions.mapM g.productionText?)

def display? (g : Grammar) : Option String :=
  return String.join ((← g.rules.mapM g.ruleText?).map (· ++ "\n"))

def names? (g : Grammar) (ids : List NonterminalId) : Option (List String) :=
  ids.mapM fun id => g.symbols.symbolName? (.nonterminal id)

inductive Walks (g : Grammar) : Walk → Prop
  | start : Walks g g.walkStart
  | expand {marked : List Bool} {id : NonterminalId} {rest : List NonterminalId}
      (walks : Walks g ⟨marked, id :: rest⟩) : Walks g (g.expand marked id rest)

theorem Walks.walk (h : g.Walks w) : g.Walks (g.walk w) := by
  induction w using Grammar.walk.induct g
  case case1 marked =>
    rw [Grammar.walk]
    exact h
  case case2 marked id rest ih =>
    rw [Grammar.walk]
    exact ih h.expand

theorem Walks.tracks (hg : g.Sound) (h : g.Walks w) : g.Tracks w := by
  induction h
  case start       => exact tracks_walkStart hg
  case expand _ ih => exact ih.expand hg

structure InRange (g : Grammar) : Prop where
  root        : g.symbols.Has (.nonterminal g.root)
  rules       : g.rules.InRange g.symbols
  underivable : g.names? g.underivable = some (g.underivable.map g.symbols.nonterminalName)
  walk        : ∀ marked id rest, g.Walks ⟨marked, id :: rest⟩ →
    (g.occurrences id).foldlM Walk.visit? ⟨marked, rest⟩ = some (g.expand marked id rest)
  marked      : g.Walks (g.walk g.walkStart) ∧ ∀ w, g.Walks w → w.marked.length = g.nonterminalCount
  unreached   : g.names? g.unreached = some (g.unreached.map g.symbols.nonterminalName)
  display     : g.display? = some g.display

theorem names?_eq_some (h : ∀ id ∈ ids, id < g.nonterminalCount) :
    g.names? ids = some (ids.map g.symbols.nonterminalName) := by
  refine mapM_eq_some_map fun id hm => ?_
  have hhas : g.symbols.Has (.nonterminal id) := h id hm
  exact SymbolTable.symbolName?_eq_some hhas

theorem productionText?_eq_some (h : ∀ symbol ∈ production.symbols, g.symbols.Has symbol) :
    g.productionText? production = some (g.productionText production) := by
  unfold productionText? productionText
  split
  case isTrue => rfl
  case isFalse =>
    rw [mapM_eq_some_map fun symbol hs => SymbolTable.symbolName?_eq_some (h symbol hs)]
    rfl

theorem ruleText?_eq_some (h : g.rules.InRange g.symbols) (hm : rule ∈ g.rules) :
    g.ruleText? rule = some (g.ruleText rule) := by
  unfold ruleText? ruleText
  rw [SymbolTable.symbolName?_eq_some (h.heads rule hm),
    mapM_eq_some_map fun production hp => productionText?_eq_some (h.symbols rule hm production hp)]
  rfl

theorem display?_eq_some (h : g.rules.InRange g.symbols) : g.display? = some g.display := by
  unfold display?
  rw [mapM_eq_some_map fun rule hm => ruleText?_eq_some h hm]
  simp [display, Function.comp_def]

theorem Sound.inRange (h : g.Sound) : g.InRange where
  root        := h.root.has
  rules       := h.rules.inRange
  underivable := names?_eq_some fun id hm => ((mem_underivable_iff h).mp hm).left
  walk marked id rest hw := by
    refine Walk.foldlM_visit? fun other hm => ?_
    exact (hw.tracks h).length ▸ (h.knows_of_mem_occurrences hm).lt_length
  marked      := ⟨Walks.start.walk, fun w hw => (hw.tracks h).length⟩
  unreached   := names?_eq_some fun id hm => ((mem_unreached_iff h).mp hm).left
  display     := display?_eq_some h.rules.inRange

-- Whatever a source says, no number is looked up that has not been given out, be it in the middle of a
-- line, in a check or for the display, and no text is cut within a character.
structure InBounds (file : Option String) (source : List UInt8) : Prop where
  reached  : ∀ loader, Loader.Reached file loader → loader.InRange ∧ ∀ number text,
    GuardedReading.Agrees loader (GuardedReading.readLine number text) (Loader.readLine number text)
  reading  : GuardedReading.Agrees (Loader.start file)
    (GuardedReading.readLines 1 (sourceLines source)) (Loader.readLines 1 (sourceLines source))
  missing  : ∀ symbol loader,
    (GuardedReading.readLines 1 (sourceLines source)).run (Loader.start file) ≠
      .error (.missing symbol) loader
  grammar  : ∀ g, ofBytes file source = .ok g → g.InRange
  comments : ∀ line : List Char, '#' ∈ line →
    let content := String.ofList (line.takeWhile (· != '#'))
    Slices (String.ofList line) 0 content.utf8ByteSize content ∧
      Slices (String.ofList line) content.utf8ByteSize (content.utf8ByteSize + 1) "#"
  marks    : ∀ text base repetition, Word.splitMark text = (base, some repetition) →
    CutsLast (String.ofList text) (String.ofList base) repetition.mark
  literals : ∀ text word quote inner, Word.ofText text = .ok word →
    word.item = .terminal (.literal quote inner) →
      CutsEnds (String.ofList (Word.splitMark text).1) inner quote.char

theorem agrees_readLines_of_source (file : Option String) (source : List UInt8) :
    GuardedReading.Agrees (Loader.start file) (GuardedReading.readLines 1 (sourceLines source))
      (Loader.readLines 1 (sourceLines source)) :=
  GuardedReading.agrees_readLines (Loader.sound_start file) 1 (sourceLines source)

theorem inBounds_of_source (file : Option String) (source : List UInt8) : InBounds file source where
  reached _ hr      := ⟨hr.sound.inRange, GuardedReading.agrees_readLine hr.sound⟩
  reading           := agrees_readLines_of_source file source
  missing _ _       := (agrees_readLines_of_source file source).ne_missing _
  grammar _ h       := (sound_of_ofLines h).inRange
  comments _        := slices_of_hash
  marks _ _ _       := Word.cutsLast_of_splitMark
  literals _ _ _ _  := Word.cutsEnds_of_ofText

end Grammar
end LineGrammar
