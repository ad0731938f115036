import LineGrammar.Proofs.Endings
import LineGrammar.Proofs.Faults

/-!
The names of rules and those of helpers are of two kinds: an identifier has no repetition mark, and the
name of a helper ends in one. So what is looked up for a rule head or for a repetition is always of its
own kind, and the fault that guards against the other kind is never reported.
-/

namespace LineGrammar

namespace SymbolTable

variable {table : SymbolTable} {name : String} {id : NonterminalId}

-- No name is of both kinds, and no look-up finds the other kind. A base may be named in any way, also by a
-- literal that ends in a mark.
structure NamesApart (table : SymbolTable) : Prop where
  written    : ∀ n ∈ table.nonterminals, n.synthetic = false → isIdentifier n.name.toList ∧
    (∀ repetition : Repetition, repetition.mark ∉ n.name.toList) ∧
    ∀ quote : Quote, quote.char ∉ n.name.toList
  helper     : ∀ n ∈ table.nonterminals, n.synthetic = true →
    ∃ repetition : Repetition, n.name.toList.getLast? = some repetition.mark
  head       : ∀ name id, isIdentifier name.toList → table.nonterminalNamed? name = some id →
    table.isSynthetic id = false
  repetition : ∀ (base : Symbol) (repetition : Repetition) id,
    table.nonterminalNamed? ((table.symbolName base).push repetition.mark) = some id →
    table.isSynthetic id = true

theorem Sound.isSynthetic_of_push (h : table.Sound) {base : String} {repetition : Repetition}
    (hf : table.nonterminalNamed? (base.push repetition.mark) = some id) : table.isSynthetic id = true := by
  have ⟨n, hn, he⟩ := h.nonterminalNamed?_eq_some_iff.mp hf
  rw [isSynthetic_of_getElem? hn, (h.nonterminal n (List.mem_of_getElem? hn)).synthetic_iff]
  exact ⟨repetition, by simp [he]⟩

theorem Sound.isSynthetic_eq_false (h : table.Sound) (hi : isIdentifier name.toList)
    (hf : table.nonterminalNamed? name = some id) : table.isSynthetic id = false := by
  obtain ⟨n, hn, rfl⟩ := h.nonterminalNamed?_eq_some_iff.mp hf
  rw [isSynthetic_of_getElem? hn, (h.nonterminal n (List.mem_of_getElem? hn)).synthetic_eq_false hi]

theorem Sound.namesApart (h : table.Sound) : table.NamesApart where
  written n hm hs := by
    have hi := (h.nonterminal n hm).identifier hs
    exact ⟨hi, mark_not_mem_of_isIdentifier hi, quote_not_mem_of_isIdentifier hi⟩
  helper n hm hs      := (h.nonterminal n hm).synthetic_iff_getLast?.mp hs
  head _ _ hi hf      := h.isSynthetic_eq_false hi hf
  repetition _ _ _ hf := h.isSynthetic_of_push hf

end SymbolTable

theorem AlternativeFault.ne_syntheticNameClash {head : List Char} {texts : List (List Char)} {fault : Fault}
    (h : AlternativeFault head texts fault) (name : String) : fault ≠ .syntheticNameClash name := by
  rintro rfl
  cases h with | word _ _ _ hw =>
  cases hw

namespace Reading

variable {α β : Type} {x : Reading α} {f : α → Reading β} {loader : Loader}

def Clashes (x : Reading α) (loader : Loader) : Prop :=
  ∃ location name new, x.run loader = .error ⟨location, .syntheticNameClash name⟩ new

theorem clashes_bind_iff : Clashes (x >>= f) loader ↔
    Clashes x loader ∨ ∃ a mid, x.run loader = .ok a mid ∧ Clashes (f a) mid := by
  unfold Clashes
  rw [EStateM.run_bind]
  cases x.run loader <;> simp

end Reading

namespace Loader

open Reading

variable {loader : Loader}

section

variable {id : NonterminalId}

theorem exists_run_repeated (h : loader.symbols.Sound) (base : Symbol) (repetition : Repetition) :
    ∃ id new, (repeated base repetition).run loader = .ok id new := by
  cases hf : loader.symbols.nonterminalNamed? ((loader.symbols.symbolName base).push repetition.mark)
  case none    => simp [repeated, hf]
  case some id => simp [repeated, hf, h.isSynthetic_of_push hf]

theorem not_clashes_addAlternative (hs : loader.Sound) (texts : List (List Char)) :
    ¬Clashes (addAlternative id texts) loader := by
  rintro ⟨location, name, new, h⟩
  cases hw : alternativeOfTexts texts
  case error fault =>
    simp only [addAlternative, hw, run_fail, EStateM.Result.error.injEq, GrammarError.mk.injEq] at h
    have hfault : AlternativeFault [] texts fault := alternativeFault_iff.mpr (.inl hw)
    exact hfault.ne_syntheticNameClash name h.left.right
  case ok words =>
    obtain ⟨symbols, mid, hrun, _⟩ := run_mapM_symbolOf hs (wellFormed_of_alternativeOfTexts hw)
    by_cases hself : symbols = [.nonterminal id] <;> simp [addAlternative, hw, hrun, hself, run_fail] at h

theorem not_clashes_addAlternatives (hs : loader.Sound) (hc : loader.current = some id)
    (alternatives : List (List (List Char))) : ¬Clashes (addAlternatives id alternatives) loader := by
  induction alternatives generalizing loader
  case nil => simp [Clashes, addAlternatives]
  case cons texts rest ih =>
    rw [addAlternatives_cons, clashes_bind_iff]
    rintro (h | ⟨_, mid, hrun, h⟩)
    · exact not_clashes_addAlternative hs texts h
    · have hm := steps_of_run_addAlternative hs hc hrun
      have hcm := hm.current head?_of_mem_alternativePieces
      exact ih (hm.sound hs) (hcm.trans hc) h

end

theorem not_clashes_readLine (hs : loader.Sound) (number : Nat) (text : List Char) :
    ¬Clashes (readLine number text) loader := by
  rintro ⟨location, name, new, h⟩
  cases lineRun hs number text
  case blank hrun => cases hrun.symm.trans h
  case fault hfault hrun =>
    cases hrun.symm.trans h
    simp at hfault
  case alternatives hhead hc hrun =>
    have hm := hhead.sound (hs.atLine number)
    exact not_clashes_addAlternatives hm hc _ ⟨location, name, new, hrun.symm.trans h⟩

theorem not_clashes_readLines (hs : loader.Sound) (number : Nat) (lines : List (Option (List Char))) :
    ¬Clashes (readLines number lines) loader := by
  induction lines generalizing loader number
  case nil => simp [Clashes, readLines]
  case cons line rest ih =>
    cases line
    case none => simp [Clashes, readLines]
    case some text =>
      rw [readLines_cons, clashes_bind_iff]
      rintro (h | ⟨_, mid, hrun, h⟩)
      · exact not_clashes_readLine hs number text h
      · exact ih ((steps_of_run_readLine hs hrun).sound hs) (number + 1) h

structure ClashFree (loader : Loader) : Prop where
  names    : loader.symbols.NamesApart
  declare  : ∀ name, isIdentifier name.toList → ∃ id new, (declare name).run loader = .ok id new
  repeated : ∀ base repetition, ∃ id new, (repeated base repetition).run loader = .ok id new
  readLine : ∀ number text, ¬Clashes (readLine number text) loader

theorem Sound.clashFree (h : loader.Sound) : loader.ClashFree where
  names         := h.symbols.namesApart
  declare _ hi  := ⟨_, _, run_declare_eq h hi⟩
  repeated      := exists_run_repeated h.symbols
  readLine      := not_clashes_readLine h

-- In a table that no source makes, names do clash, of either kind with the other.
example : Clashes (declare "x*")
    { start none with symbols := (SymbolTable.empty.insertHelper "x*" ⟨none, 1⟩).2 } :=
  ⟨_, _, _, rfl⟩

example : Clashes (symbolOf ⟨.terminal (.named "x"), some .zeroOrMore⟩)
    { start none with symbols := (SymbolTable.empty.internNonterminal "x*" ⟨none, 1⟩).2 } :=
  ⟨_, _, _, rfl⟩

end Loader

namespace Grammar

-- Wherever in a source the reading stands, nothing that comes next can clash, and so no source does.
theorem clashFree_of_reading (file : Option String) :
    (∀ loader, Loader.Passed file loader → loader.ClashFree) ∧
      (∀ lines, Loader.Passed file ((Loader.start file).after (Loader.readLines 1 lines))) ∧
      ∀ lines error, ofLines file lines = .error error →
        ∀ name, error.fault ≠ .syntheticNameClash name := by
  refine ⟨fun loader h => h.sound.clashFree, Loader.passed_after_readLines file, ?reported⟩
  rintro lines ⟨location, fault⟩ h name rfl
  unfold ofLines at h
  split at h
  case h_1 loader _ =>
    unfold Loader.finish at h
    split at h <;> cases h
  case h_2 error loader hrun =>
    cases h
    exact Loader.not_clashes_readLines (Loader.sound_start file) 1 lines ⟨location, name, loader, hrun⟩

-- The last line fails, as `A*` is no name for a rule, and not because there is a helper of that name.
theorem clashFree_of_marks_in_literals :
    let lines := ["A → 'A*'* x+ | 'x+'? A*", "x → B \"+\"+", "A* → c"].map (some ·.toList)
    let loader := (Loader.start none).after (Loader.readLines 1 lines)
    ofLines none lines = .error ⟨⟨none, 3⟩, .invalidNonterminalName "A*"⟩ ∧
      loader.symbols.nonterminals.map (fun n => (n.name, n.synthetic)) =
        [("A", false), ("'A*'*", true), ("x+", true), ("'x+'?", true), ("A*", true), ("x", false),
          ("B", false), ("\"+\"+", true)] ∧
      loader.ClashFree := by
  have ⟨hfree, hpassed, _⟩ := clashFree_of_reading none
  exact ⟨by decide +kernel, by decide +kernel, hfree _ (hpassed _)⟩

end Grammar
end LineGrammar
