import LineGrammar.Proofs.Derivability
import LineGrammar.Proofs.Failures
import LineGrammar.Proofs.FirstFault
import LineGrammar.Proofs.OutOfReach
import LineGrammar.Proofs.Sites

/-!
What an error says about where it comes from. Its fault tells the phase of loading that has raised it, and its
location is either that of a line which says something, or no line at all if the fault is one of the source or
of the grammar as a whole.
-/

namespace LineGrammar

def Fault.isPlaceless : Fault → Bool
  | unreadable _ | emptyGrammar | nonDerivable _ | unreachable _ => true
  | _ => false

theorem Fault.isPlaceless_of_isSyntaxFault {fault : Fault} (h : fault.isSyntaxFault) :
    fault.isPlaceless = false := by
  cases fault <;> first | rfl | cases h

namespace Loader

variable {loader new : Loader} {number : Nat} {lines : List (Option (List Char))} {error : GrammarError}

theorem run_readLines_singleton (loader : Loader) (number : Nat) (text : List Char) :
    (readLines number [some text]).run loader = (readLine number text).run loader := by
  rw [readLines_cons, EStateM.run_bind]
  split
  case h_1 hrun => exact hrun.symm
  case h_2 hrun => exact hrun.symm

theorem exists_line_of_run_readLines (h : (readLines number lines).run loader = .error error new) :
    ∃ before line after mid, lines = before ++ line :: after ∧
      (readLines number before).run loader = .ok () mid ∧
      (readLines (before.length + number) [line]).run mid = .error error new := by
  induction lines generalizing loader number
  case nil => cases h
  case cons line rest ih =>
    cases line
    case none => exact ⟨[], none, rest, loader, rfl, rfl, by simpa [readLines] using h⟩
    case some text =>
      rw [readLines_cons, EStateM.run_bind] at h
      split at h
      case h_1 mid hline =>
        obtain ⟨before, line, after, last, rfl, hbefore, hfails⟩ := ih h
        refine ⟨some text :: before, line, after, last, rfl, ?_, ?_⟩
        · rw [readLines_cons, EStateM.run_bind, hline]
          exact hbefore
        · rw [List.length_cons, Nat.add_assoc, Nat.add_comm 1]
          exact hfails
      case h_2 hline =>
        cases h
        refine ⟨[], some text, rest, loader, rfl, rfl, ?_⟩
        rw [run_readLines_singleton, List.length_nil, Nat.zero_add]
        exact hline

end Loader

namespace Grammar

-- Loading gets as far as the phase, and fails there with the error. A line is reached if those before it are
-- read, and the checks are if the whole source is.
inductive RaisedIn (file : Option String) (source : List UInt8) (error : GrammarError) : Phase → Prop
  | decoding {before after : List (Option (List Char))} {loader new : Loader}
      (lines_eq : sourceLines source = before ++ none :: after)
      (reached : Loader.run file before = .ok () loader)
      (fails : (Loader.readLines (before.length + 1) [none]).run loader = .error error new) :
    RaisedIn file source error .decoding
  | reading {before after : List (Option (List Char))} {text : List Char} {loader new : Loader}
      (lines_eq : sourceLines source = before ++ some text :: after)
      (reached : Loader.run file before = .ok () loader)
      (fails : (Loader.readLine (before.length + 1) text).run loader = .error error new) :
    RaisedIn file source error .reading
  | finishing {loader : Loader} (reached : Loader.run file (sourceLines source) = .ok () loader)
      (fails : loader.finish = .error error) : RaisedIn file source error .finishing
  | checking {g : Grammar} (reached : ofBytes file source = .ok g) (fails : g.validate = .error error) :
    RaisedIn file source error .checking

inductive Placed (file : Option String) (lines : List (Option (List Char))) : GrammarError → Prop
  | nowhere {fault : Fault} (placeless : fault.isPlaceless) : Placed file lines ⟨⟨file, 0⟩, fault⟩
  | line {i : Nat} {text : List Char} {fault : Fault} (getElem? : lines[i]? = some (some text))
      (nonblank : Line.ofText text ≠ .blank) (placed : fault.isPlaceless = false) :
    Placed file lines ⟨⟨file, i + 1⟩, fault⟩

structure ListsNames (g : Grammar) (names : List String) : Prop where
  ne_nil : names ≠ []
  nodup  : names.Nodup
  named  : ∀ name ∈ names, ∃ n ∈ g.symbols.nonterminals, n.name = name

-- The error of a failed loading. `RaisedIn` can be asked of each phase by itself, so `raised_iff` says
-- two things: the error is raised in the phase of its fault, and no other phase is come to with an
-- error of its own.
structure Phased (file : Option String) (source : List UInt8) (error : GrammarError) : Prop where
  raised_iff  : ∀ phase other,
    RaisedIn file source other phase ↔ phase = error.fault.phase ∧ other = error
  reading_iff : error.fault.isSyntaxFault ↔ ∃ other, RaisedIn file source other .reading
  headless    : error.fault = .emptyGrammar →
    ∀ text, some text ∈ sourceLines source → ¬Line.IsHead text
  file_eq     : error.location.file = file
  line_iff    : error.location.line = 0 ↔ error.fault.isPlaceless
  line        : error.location.line ≠ 0 → ∃ text,
    (sourceLines source)[error.location.line - 1]? = some (some text) ∧ Line.ofText text ≠ .blank
  names       : ∀ names, error.fault = .nonDerivable names ∨ error.fault = .unreachable names →
    ∃ g, ofBytes file source = .ok g ∧ g.ListsNames names

section

variable {file : Option String} {source : List UInt8} {error : GrammarError} {phase : Phase}

theorem ofBytes_of_line {before after : List (Option (List Char))} {line : Option (List Char)}
    {loader new : Loader} (hlines : sourceLines source = before ++ line :: after)
    (hreached : Loader.run file before = .ok () loader)
    (hfails : (Loader.readLines (before.length + 1) [line]).run loader = .error error new) :
    ofBytes file source = .error error := by
  have hrun : Loader.run file (before ++ [line]) = .error error new := by
    rw [Loader.run] at hreached ⊢
    rw [Loader.readLines_append, EStateM.run_bind, hreached, Nat.add_comm]
    exact hfails
  have hsource : sourceLines source = (before ++ [line]) ++ after := by simp [hlines]
  rw [ofBytes, ofLines, hsource, Loader.run, Loader.run_readLines_append_of_error hrun]

theorem RaisedIn.load (h : RaisedIn file source error phase) : load file source = .error error := by
  cases h
  case decoding hlines hreached hfails =>
    exact load_of_ofBytes_error (ofBytes_of_line hlines hreached hfails)
  case reading hlines hreached hfails =>
    rw [← Loader.run_readLines_singleton] at hfails
    exact load_of_ofBytes_error (ofBytes_of_line hlines hreached hfails)
  case finishing loader hreached hfails =>
    apply load_of_ofBytes_error
    rw [ofBytes, ofLines, hreached]
    exact hfails
  case checking g hreached hfails => exact load_eq_error_iff.mpr (.inr ⟨g, hreached, hfails⟩)

theorem RaisedIn.phase_eq (h : RaisedIn file source error phase) : error.fault.phase = phase := by
  cases h
  case decoding hfails =>
    cases hfails
    rfl
  case reading hfails   => exact Fault.phase_eq_reading_iff.mpr (Loader.failsOnly_readLine _ _ _ _ _ hfails)
  case finishing hfails => exact Loader.phase_of_finish hfails
  case checking hfails  => exact phase_of_validate hfails

theorem exists_raisedIn (h : load file source = .error error) :
    ∃ phase, RaisedIn file source error phase := by
  obtain h | ⟨g, hg, hv⟩ := load_eq_error_iff.mp h
  case inr => exact ⟨.checking, .checking hg hv⟩
  case inl =>
    unfold ofBytes ofLines at h
    split at h
    case h_1 loader hrun => exact ⟨.finishing, .finishing hrun h⟩
    case h_2 new hrun =>
      cases h
      obtain ⟨before, line, after, loader, hlines, hreached, hfails⟩ :=
        Loader.exists_line_of_run_readLines hrun
      cases line
      case none      => exact ⟨.decoding, .decoding hlines hreached hfails⟩
      case some text =>
        rw [Loader.run_readLines_singleton] at hfails
        exact ⟨.reading, .reading hlines hreached hfails⟩

theorem raisedIn_iff (h : load file source = .error error) {other : GrammarError} :
    RaisedIn file source other phase ↔ phase = error.fault.phase ∧ other = error := by
  constructor
  case mp =>
    intro hr
    obtain rfl : other = error := Except.error.inj (hr.load.symm.trans h)
    exact ⟨hr.phase_eq.symm, rfl⟩
  case mpr =>
    rintro ⟨rfl, rfl⟩
    obtain ⟨phase, hr⟩ := exists_raisedIn h
    exact hr.phase_eq ▸ hr

end

section

variable {file : Option String} {lines : List (Option (List Char))} {error : GrammarError} {g : Grammar}
variable {check : Check} {names : List String} {ids : List NonterminalId}

theorem placed_of_reports (h : Reports file lines error) : Placed file lines error := by
  cases h
  case unreadable   => exact .nowhere rfl
  case emptyGrammar => exact .nowhere rfl
  case line before text after fault hlines _ hl =>
    have hget : lines[before.length]? = some (some text) := by simp [hlines]
    refine .line hget (fun hblank => ?_) (Fault.isPlaceless_of_isSyntaxFault hl.isSyntaxFault)
    simp [lineFault_iff, hblank, Line.fault?] at hl

theorem not_isHead_of_reports (h : Reports file lines error) (hf : error.fault = .emptyGrammar)
    {text : List Char} (hm : some text ∈ lines) : ¬Line.IsHead text := by
  cases h
  case unreadable => cases hf
  case line hl    => exact absurd hf hl.ne_emptyGrammar
  case emptyGrammar hlines _ hheadless =>
    rw [hlines, List.mem_map] at hm
    obtain ⟨_, ht, he⟩ := hm
    cases he
    exact hheadless _ ht

theorem placed_of_isFirstLine (h : ofLines file lines = .ok g) {P : Line → Prop} {number : Nat}
    (hfirst : IsFirstLine (linesOf lines) P number) (hblank : ¬P .blank) {fault : Fault}
    (hplaced : fault.isPlaceless = false) : Placed file lines ⟨⟨file, number⟩, fault⟩ := by
  obtain ⟨texts, rfl⟩ := exists_texts_of_ofLines h
  obtain ⟨i, line, hi, rfl⟩ := hfirst
  have hget := hi.getElem?
  rw [linesOf_map_some, List.getElem?_map, Option.map_eq_some_iff] at hget
  obtain ⟨text, htext, rfl⟩ := hget
  exact .line (by simp [htext]) (fun he => hblank (he ▸ hi.holds)) hplaced

theorem placed_of_run_check (h : ofLines file lines = .ok g) (hc : check.run g = .error error) :
    Placed file lines error := by
  cases check
  case references =>
    obtain ⟨name, number, hfirst, rfl⟩ := site_of_checkReferences h hc
    exact placed_of_isFirstLine h hfirst nofun rfl
  case ruleLists =>
    obtain ⟨name, number, _, hfirst, rfl⟩ | ⟨name, number, hfirst, rfl⟩ := site_of_checkRuleLists h hc
    · exact placed_of_isFirstLine h hfirst (by simp [Line.Mentions, Line.HasWord, Line.texts]) rfl
    · exact placed_of_isFirstLine h hfirst nofun rfl
  case derivability =>
    obtain ⟨_, rfl⟩ := checkDerivability_eq_error_iff.mp hc
    exact file_of_ofLines h ▸ .nowhere rfl
  case reachability =>
    obtain ⟨_, rfl⟩ := checkReachability_eq_error_iff.mp hc
    exact file_of_ofLines h ▸ .nowhere rfl

theorem listsNames_map (hne : ids ≠ []) (hnodup : (ids.map g.symbols.nonterminalName).Nodup)
    (hlt : ∀ id ∈ ids, id < g.nonterminalCount) : g.ListsNames (ids.map g.symbols.nonterminalName) := by
  refine ⟨by simpa using hne, hnodup, fun name hm => ?_⟩
  obtain ⟨id, hid, rfl⟩ := List.mem_map.mp hm
  have hn := List.getElem?_eq_getElem (hlt id hid)
  exact ⟨_, List.mem_of_getElem? hn, (SymbolTable.nonterminalName_of_getElem? hn).symm⟩

theorem listsNames_of_run_check (h : ofLines file lines = .ok g) (hc : check.run g = .error error)
    (hf : error.fault = .nonDerivable names ∨ error.fault = .unreachable names) : g.ListsNames names := by
  have hg := sound_of_ofLines h
  cases check
  case references =>
    obtain ⟨_, _, _, rfl⟩ := site_of_checkReferences h hc
    simp at hf
  case ruleLists =>
    obtain ⟨_, _, _, _, rfl⟩ | ⟨_, _, _, rfl⟩ := site_of_checkRuleLists h hc
    all_goals simp at hf
  case derivability =>
    obtain ⟨hne, rfl⟩ := checkDerivability_eq_error_iff.mp hc
    have hids := isBarren_underivable hg
    obtain rfl : g.underivable.map g.symbols.nonterminalName = names := by simpa using hf
    exact listsNames_map hne (hids.nodup_names hg) fun id hid => ((hids.mem id).mp hid).left
  case reachability =>
    obtain ⟨hne, rfl⟩ := checkReachability_eq_error_iff.mp hc
    have hids := isStranded_unreached hg
    obtain rfl : g.unreached.map g.symbols.nonterminalName = names := by simpa using hf
    exact listsNames_map hne (hids.nodup_names hg) fun id hid => ((hids.mem id).mp hid).left

end

section

variable {file : Option String} {source : List UInt8} {error : GrammarError}

theorem placed_of_load (h : load file source = .error error) : Placed file (sourceLines source) error := by
  obtain h | ⟨g, hg, hv⟩ := load_eq_error_iff.mp h
  case inl => exact placed_of_reports (ofLines_eq_error_iff.mp h)
  case inr =>
    obtain ⟨_, _, hc⟩ := exists_of_forM_eq_error hv
    exact placed_of_run_check hg hc

theorem not_isHead_of_load (h : load file source = .error error) (hf : error.fault = .emptyGrammar)
    {text : List Char} (hm : some text ∈ sourceLines source) : ¬Line.IsHead text := by
  obtain h | ⟨g, _, hv⟩ := load_eq_error_iff.mp h
  case inl => exact not_isHead_of_reports (ofLines_eq_error_iff.mp h) hf hm
  case inr =>
    have hphase := phase_of_validate hv
    rw [hf] at hphase
    cases hphase

-- Only the checks list names, and they are only run on a grammar that has been read.
theorem listsNames_of_load (h : load file source = .error error) {names : List String}
    (hf : error.fault = .nonDerivable names ∨ error.fault = .unreachable names) :
    ∃ g, ofBytes file source = .ok g ∧ g.ListsNames names := by
  have hphase : error.fault.phase = .checking := by
    obtain hf | hf := hf
    all_goals rw [hf, Fault.phase]
  have hraised := (raisedIn_iff h).mpr ⟨hphase.symm, rfl⟩
  cases hraised with | checking hg hv =>
  obtain ⟨_, _, hc⟩ := exists_of_forM_eq_error hv
  exact ⟨_, hg, listsNames_of_run_check hg hc hf⟩

theorem phased_of_load (h : load file source = .error error) : Phased file source error where
  raised_iff phase other := raisedIn_iff h
  names names            := listsNames_of_load h
  headless hf text       := not_isHead_of_load h hf
  reading_iff := by
    rw [← Fault.phase_eq_reading_iff]
    simp [raisedIn_iff h, eq_comm]
  file_eq := by
    cases placed_of_load h <;> rfl
  line_iff := by
    cases placed_of_load h
    case nowhere hp => simp [hp]
    case line hp    => simp [hp]
  line := by
    cases placed_of_load h
    case nowhere       => exact fun hne => absurd rfl hne
    case line hget hb _ => exact fun _ => ⟨_, hget, hb⟩

-- No line is at fault. It is only in the end that `B` is found to occur in no production.
theorem phased_of_idle_rule :
    load (some "g") (encode "A → b+\n\nB # as yet unused\n| c") =
        .error ⟨⟨some "g", 3⟩, .unreferenced "B"⟩ ∧
      Phased (some "g") (encode "A → b+\n\nB # as yet unused\n| c") ⟨⟨some "g", 3⟩, .unreferenced "B"⟩ :=
  have h : load (some "g") (encode "A → b+\n\nB # as yet unused\n| c") =
    .error ⟨⟨some "g", 3⟩, .unreferenced "B"⟩ := by decide +kernel
  ⟨h, phased_of_load h⟩

end
end Grammar
end LineGrammar
