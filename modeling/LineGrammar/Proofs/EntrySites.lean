import LineGrammar.Proofs.Growth
import LineGrammar.Proofs.Helpers

/-!
Which piece of a source a nonterminal gets its location from. That is the first rule head with its name or, as
long as there is none, the first piece that mentions it. A helper gets it from its first repetition, and so
do its two productions.
-/

namespace LineGrammar

namespace Piece

def name? : Piece → Option String
  | head name                => some name
  | item (.nonterminal name) => some name
  | repetition base kind     => some (base.name.push kind.mark)
  | _                        => none

def lineAfter (number : Nat) : Piece → Nat
  | line next => next
  | _         => number

variable {piece : Piece} {name : String}

theorem name?_of_head? (h : piece.head? = some name) : piece.name? = some name := by
  cases piece <;> first | exact h | cases h

theorem lineAfter_of_name? (h : piece.name? = some name) (number : Nat) :
    piece.lineAfter number = number := by
  cases piece <;> first | rfl | cases h

end Piece

def firstLine? (p : Piece → Bool) : Nat → List Piece → Option Nat
  | _, [] => none
  | number, piece :: rest =>
    if p piece then some (piece.lineAfter number) else firstLine? p (piece.lineAfter number) rest

section

variable {p : Piece → Bool} {number : Nat} {pieces before after : List Piece} {piece : Piece}

theorem firstLine?_append : firstLine? p number (before ++ after) =
    (firstLine? p number before).or (firstLine? p (before.foldl Piece.lineAfter number) after) := by
  induction before generalizing number
  case nil => rfl
  case cons first rest ih =>
    by_cases hp : p first
    case pos => simp [firstLine?, hp]
    case neg => simpa [firstLine?, hp] using ih

theorem firstLine?_eq_none_iff : firstLine? p number pieces = none ↔ ∀ piece ∈ pieces, p piece = false := by
  induction pieces generalizing number
  case nil => simp [firstLine?]
  case cons first rest ih => by_cases hp : p first <;> simp [firstLine?, hp, ih]

end

namespace Nonterminal

variable {m n : Nonterminal} {piece : Piece}

def isSite (n : Nonterminal) (piece : Piece) : Bool :=
  if n.defined && !n.synthetic then piece.head? == some n.name else piece.name? == some n.name

theorem name?_of_isSite (h : n.isSite piece = true) : piece.name? = some n.name := by
  unfold isSite at h
  split at h
  case isTrue  => exact Piece.name?_of_head? (beq_iff_eq.mp h)
  case isFalse => exact beq_iff_eq.mp h

structure SameSite (m n : Nonterminal) : Prop where
  name      : n.name = m.name
  synthetic : n.synthetic = m.synthetic
  defined   : n.defined = m.defined
  location  : n.location = m.location

theorem SameSite.refl (n : Nonterminal) : n.SameSite n :=
  ⟨rfl, rfl, rfl, rfl⟩

theorem SameSite.isSite_eq (h : m.SameSite n) : n.isSite = m.isSite := by
  funext piece
  simp [isSite, h.name, h.synthetic, h.defined]

end Nonterminal

namespace SymbolTable

variable {table : SymbolTable} {name : String} {location : Location} {id : NonterminalId} {n : Nonterminal}

theorem mem_internNonterminal (h : n ∈ (table.internNonterminal name location).2.nonterminals) :
    n ∈ table.nonterminals ∨ n = .mentioned name location ∧ ∀ m ∈ table.nonterminals, m.name ≠ name := by
  unfold internNonterminal at h
  split at h
  case h_1 => exact .inl h
  case h_2 hf =>
    refine (List.mem_append.mp h).imp_right fun hm => ?_
    exact ⟨List.mem_singleton.mp hm, nonterminalNamed?_eq_none_iff.mp hf⟩

theorem mem_define (h : n ∈ (table.define id location).nonterminals) :
    n ∈ table.nonterminals ∨ ∃ m, table.nonterminals[id]? = some m ∧ n = m.define location := by
  have ⟨i, hi⟩ := List.mem_iff_getElem?.mp h
  simp only [define, List.getElem?_modify, Option.map_eq_map, Option.map_eq_some_iff] at hi
  obtain ⟨m, hm, rfl⟩ := hi
  split
  case isTrue he => exact .inr ⟨m, he ▸ hm, rfl⟩
  case isFalse   => exact .inl (List.mem_of_getElem? hm)

theorem exists_sameSite_of_mem_reference (h : n ∈ (table.reference id).nonterminals) :
    ∃ m ∈ table.nonterminals, m.SameSite n := by
  have ⟨i, hi⟩ := List.mem_iff_getElem?.mp h
  simp only [reference, List.getElem?_modify, Option.map_eq_map, Option.map_eq_some_iff] at hi
  obtain ⟨m, hm, rfl⟩ := hi
  refine ⟨m, List.mem_of_getElem? hm, ?_⟩
  split
  case isTrue  => exact ⟨rfl, rfl, rfl, rfl⟩
  case isFalse => exact .refl m

theorem exists_entry_of_internNonterminal (h : table.Sound) (hi : isIdentifier name.toList)
    (location : Location) : ∃ n, (table.internNonterminal name location).2.nonterminals[
      (table.internNonterminal name location).1]? = some n ∧ n.name = name := by
  have hd := internNonterminal_denotes h hi location
  generalize (table.internNonterminal name location).1 = id at hd
  cases hd with | nonterminal hn _ =>
  exact ⟨_, hn, rfl⟩

end SymbolTable

namespace Loader

variable {a b loader : Loader} {piece : Piece} {pieces done : List Piece} {id : NonterminalId}
variable {m n : Nonterminal} {name : String}

theorem exists_sameSite_of_mem_openRule (h : n ∈ (loader.openRule id name).symbols.nonterminals) :
    ∃ m ∈ (loader.symbols.define id loader.location).nonterminals, m.SameSite n := by
  cases hr : loader.root
  case none =>
    rw [symbols_openRule_of_no_root hr] at h
    exact SymbolTable.exists_sameSite_of_mem_reference h
  case some =>
    rw [symbols_openRule_of_root (hr ▸ rfl)] at h
    exact ⟨n, h, .refl n⟩

structure Sites (loader : Loader) (piece : Piece) (n : Nonterminal) : Prop where
  location : n.location = loader.location
  isSite   : n.isSite piece = true
  first    : ∀ m ∈ loader.symbols.nonterminals, m.name = n.name →
    m.defined = false ∧ n.defined = true ∧ n.synthetic = false

theorem Sites.of_sameSite (h : loader.Sites piece m) (hs : m.SameSite n) : loader.Sites piece n := by
  refine ⟨hs.location.trans h.location, hs.isSite_eq ▸ h.isSite, fun other hm he => ?_⟩
  rw [hs.defined, hs.synthetic]
  exact h.first other hm (he.trans hs.name)

theorem sites_mentioned (hp : piece.name? = some name)
    (hno : ∀ m ∈ loader.symbols.nonterminals, m.name ≠ name) :
    loader.Sites piece (.mentioned name loader.location) where
  location      := rfl
  isSite        := by simpa [Nonterminal.isSite, Nonterminal.mentioned] using hp
  first m hm he := absurd he (hno m hm)

theorem site_of_mem_internNonterminal (hp : piece.name? = some name)
    (hm : m ∈ (a.internNonterminal name).2.symbols.nonterminals) (hsame : m.SameSite n) :
    (∃ m ∈ a.symbols.nonterminals, m.SameSite n) ∨ a.Sites piece n := by
  obtain hm | ⟨rfl, hno⟩ := SymbolTable.mem_internNonterminal hm
  · exact .inl ⟨m, hm, hsame⟩
  · exact .inr ((sites_mentioned hp hno).of_sameSite hsame)

-- A head that is not defined yet was there at most as undefined before it was looked up.
theorem sites_define (hs : a.Sound) (hi : isIdentifier name.toList)
    (hm : (a.internNonterminal name).2.symbols.nonterminals[(a.internNonterminal name).1]? = some m)
    (hd : m.defined = false) : a.Sites (.head name) (m.define a.location) := by
  have hg : a.symbols.Grows (a.internNonterminal name).2.symbols := SymbolTable.grows_internNonterminal
  have hsound : (a.internNonterminal name).2.symbols.Sound := hs.symbols.internNonterminal hi
  have hname : m.name = name := SymbolTable.name_of_internNonterminal hs.symbols hi hm
  have hw := (hsound.nonterminal m (List.mem_of_getElem? hm)).synthetic_eq_false (hname ▸ hi)
  have hdefine : m.define a.location = { m with defined := true, location := a.location } := by
    simp [Nonterminal.define, hd]
  rw [hdefine]
  refine ⟨rfl, by simp [Nonterminal.isSite, hw, hname, Piece.head?], fun other ho he => ⟨?_, rfl, hw⟩⟩
  obtain ⟨i, hi⟩ := List.mem_iff_getElem?.mp ho
  obtain ⟨later, hl, hgrows⟩ := hg.nonterminals hi
  cases hsound.id_eq hl hm (hgrows.name.trans he)
  cases hl.symm.trans hm
  exact Bool.eq_false_iff.mpr fun hdefined => by simp [hgrows.defined hdefined] at hd

theorem site_of_head (hs : a.Sound) (hi : isIdentifier name.toList)
    (hn : n ∈ ((a.internNonterminal name).2.openRule (a.internNonterminal name).1 name).symbols.nonterminals) :
    (∃ m ∈ a.symbols.nonterminals, m.SameSite n) ∨ a.Sites (.head name) n := by
  obtain ⟨k, hk, hsame⟩ := exists_sameSite_of_mem_openRule hn
  obtain hk | ⟨m, hm, rfl⟩ := SymbolTable.mem_define hk
  case inl => exact site_of_mem_internNonterminal rfl hk hsame
  case inr =>
    cases hd : m.defined
    case false => exact .inr ((sites_define hs hi hm hd).of_sameSite hsame)
    case true  =>
      rw [show m.define _ = m by simp [Nonterminal.define, hd]] at hsame
      exact site_of_mem_internNonterminal rfl (List.mem_of_getElem? hm) hsame

theorem Step.site (hs : a.Sound) (h : a.Step piece b) (hn : n ∈ b.symbols.nonterminals) :
    (∃ m ∈ a.symbols.nonterminals, m.SameSite n) ∨ a.Sites piece n := by
  have hold : n ∈ a.symbols.nonterminals → ∃ m ∈ a.symbols.nonterminals, m.SameSite n :=
    fun hm => ⟨n, hm, .refl n⟩
  cases h
  case line        => exact .inl (hold hn)
  case shared      => exact .inl (hold hn)
  case terminal t _ =>
    rw [internTerminal, SymbolTable.nonterminals_internTerminal] at hn
    exact .inl (hold hn)
  case alternative =>
    rw [symbols_addProduction] at hn
    exact .inl (hold hn)
  case nonterminal name _ =>
    obtain ⟨k, hk, hsame⟩ := SymbolTable.exists_sameSite_of_mem_reference hn
    exact site_of_mem_internNonterminal rfl hk hsame
  case helper hf =>
    simp only [symbols_addHelper, SymbolTable.insertHelper, hf, List.mem_append, List.mem_singleton] at hn
    obtain hn | rfl := hn
    · exact .inl (hold hn)
    · have hno := SymbolTable.nonterminalNamed?_eq_none_iff.mp hf
      refine .inr ⟨rfl, ?_, fun m hm he => absurd he (hno m hm)⟩
      simp [Nonterminal.isSite, Nonterminal.helper, Piece.name?]
  case head hi => exact site_of_head hs hi hn

theorem Step.exists_named (hs : a.Sound) (h : a.Step piece b) (hp : piece.name? = some name) :
    ∃ n ∈ b.symbols.nonterminals, n.name = name ∧ (piece.head? = some name → n.defined = true) := by
  have hb := h.sound hs
  cases h
  case line        => cases hp
  case terminal    => cases hp
  case alternative => cases hp
  case nonterminal hi =>
    cases hp
    obtain ⟨n, hn, he⟩ := SymbolTable.exists_entry_of_internNonterminal hs.symbols hi.left a.location
    have hgrows : (a.internNonterminal name).2.symbols.Grows
        ((a.internNonterminal name).2.symbols.reference (a.internNonterminal name).1) :=
      SymbolTable.grows_reference
    obtain ⟨n', hn', hg⟩ := hgrows.nonterminals hn
    exact ⟨n', List.mem_of_getElem? hn', hg.name.trans he, fun hhead => by cases hhead⟩
  case helper item repetition _ _ _ _ hf =>
    have he : item.name.push repetition.mark = name := Option.some.inj hp
    exact ⟨.helper name a.location, by simp [SymbolTable.insertHelper, ← he, hf], rfl, fun _ => rfl⟩
  case shared hf =>
    cases hp
    obtain ⟨n, hn, he⟩ := hs.symbols.nonterminalNamed?_eq_some_iff.mp hf
    exact ⟨n, List.mem_of_getElem? hn, he, fun he => by cases he⟩
  case head hi =>
    cases hp
    obtain ⟨n, hn, he⟩ := SymbolTable.exists_entry_of_internNonterminal hs.symbols hi a.location
    obtain ⟨n', hn', hg⟩ := (grows_openRule (a.internNonterminal name).2
      (a.internNonterminal name).1 name).nonterminals hn
    obtain ⟨m, hm, hd⟩ := hb.rules.defined.mp (hb.current current_openRule).right
    cases hm.symm.trans hn'
    exact ⟨n', List.mem_of_getElem? hm, hg.name.trans he, fun _ => hd⟩

theorem Step.line_eq (h : a.Step piece b) : b.line = piece.lineAfter a.line := by
  cases h
  case head        => rw [openRule_eq]; rfl
  case helper      => exact samePlace_addHelper.line
  case alternative => exact (samePlace_addProduction _).line
  all_goals rfl

-- Each entry has its location from the first piece that can give it one, of all that have been taken in.
structure Sited (loader : Loader) (done : List Piece) : Prop where
  line  : loader.line = done.foldl Piece.lineAfter 0
  named : ∀ piece ∈ done, ∀ name, piece.name? = some name → ∃ n ∈ loader.symbols.nonterminals,
    n.name = name ∧ (piece.head? = some name → n.defined = true)
  entry : ∀ n ∈ loader.symbols.nonterminals, n.location.file = loader.file ∧
    firstLine? n.isSite 0 done = some n.location.line

theorem sited_start (file : Option String) : (start file).Sited [] := by
  constructor <;> simp [start, SymbolTable.empty]

-- What gives an entry its location now has not occurred before, or it would have done so then.
theorem Sited.firstLine?_eq_none (h : a.Sited done) (hn : a.Sites piece n) :
    firstLine? n.isSite 0 done = none := by
  rw [firstLine?_eq_none_iff]
  intro earlier he
  by_contra hsite
  have hsite := Bool.not_eq_false _ ▸ hsite
  have ⟨m, hm, hname, hdefined⟩ := h.named earlier he n.name (Nonterminal.name?_of_isSite hsite)
  have ⟨hno, hd, hw⟩ := hn.first m hm hname
  have hhead : earlier.head? = some n.name := by simpa [Nonterminal.isSite, hd, hw] using hsite
  exact Bool.false_ne_true (hno.symm.trans (hdefined hhead))

theorem Step.sited (hs : a.Sound) (h : a.Step piece b) (ha : a.Sited done) : b.Sited (done ++ [piece]) where
  line := by rw [h.line_eq, ha.line, List.foldl_append]; rfl
  named := by
    intro other hm name hname
    obtain hm | hm := List.mem_append.mp hm
    case inl =>
      have ⟨n, hn, he, hd⟩ := ha.named other hm name hname
      have ⟨i, hi⟩ := List.mem_iff_getElem?.mp hn
      have ⟨n', hn', hg⟩ := h.extends.symbols.nonterminals hi
      exact ⟨n', List.mem_of_getElem? hn', hg.name.trans he, fun hhead => hg.defined (hd hhead)⟩
    case inr =>
      cases List.mem_singleton.mp hm
      exact h.exists_named hs hname
  entry n hn := by
    rw [firstLine?_append, h.file]
    obtain ⟨m, hm, hsame⟩ | hsites := h.site hs hn
    case inl =>
      have ⟨hfile, hline⟩ := ha.entry m hm
      rw [hsame.isSite_eq, hsame.location, hline]
      exact ⟨hfile, rfl⟩
    case inr =>
      have hline := Piece.lineAfter_of_name? (Nonterminal.name?_of_isSite hsites.isSite) a.line
      rw [ha.firstLine?_eq_none hsites, Option.none_or, ← ha.line, hsites.location]
      exact ⟨rfl, by simp [firstLine?, hsites.isSite, hline, location]⟩

theorem Steps.sited (hs : a.Sound) (h : a.Steps pieces b) (ha : a.Sited done) : b.Sited (done ++ pieces) :=
  h.induction (P := fun done loader => loader.Sited done) hs ha fun hs hstep ha => hstep.sited hs ha

def HelpersSited (loader : Loader) : Prop :=
  ∀ {id : NonterminalId} {n}, loader.symbols.nonterminals[id]? = some n → n.synthetic = true →
    (loader.rules.productionsOf id).map Production.location = [n.location, n.location]

theorem Step.map_location_of_new (hs : a.Sound) (h : a.Step piece b)
    (hle : a.symbols.nonterminals.length ≤ id) (hn : b.symbols.nonterminals[id]? = some n)
    (hsyn : n.synthetic = true) :
    (b.rules.productionsOf id).map Production.location = [n.location, n.location] := by
  have hb := h.sound hs
  obtain ⟨m, hm, hsame⟩ | hsites := h.site hs (List.mem_of_getElem? hn)
  case inl =>
    have ⟨i, hi⟩ := List.mem_iff_getElem?.mp hm
    have ⟨m', hm', hg⟩ := h.extends.symbols.nonterminals hi
    cases hb.symbols.id_eq hm' hn (hg.name.trans hsame.name.symm)
    exact absurd (lt_length_of_getElem? hi) (Nat.not_lt.mpr hle)
  case inr =>
    have hname := Nonterminal.name?_of_isSite hsites.isSite
    have hw := hb.symbols.nonterminal n (List.mem_of_getElem? hn)
    have hwritten : ¬isIdentifier n.name.toList := fun hi => by simp [hw.synthetic_eq_false hi] at hsyn
    -- What a rule head or a mention enters has an identifier for its name, so it is no helper.
    cases h
    case line           => cases hname
    case terminal       => cases hname
    case alternative    => cases hname
    case shared         => exact absurd (lt_length_of_getElem? hn) (Nat.not_lt.mpr hle)
    case nonterminal hi => cases hname; exact absurd hi.left hwritten
    case head hi        => cases hname; exact absurd hi hwritten
    case helper hf =>
      have hnil := hs.rules.productionsOf_eq_nil hle
      rw [addHelper_eq hs hf] at hn ⊢
      obtain rfl : a.symbols.nonterminals.length = id := by
        have := lt_length_of_getElem? hn
        simp only [SymbolTable.insertHelper, hf, List.length_append, List.length_singleton] at this
        exact Nat.le_antisymm hle (Nat.le_of_lt_succ this)
      simp [Rules.productionsOf_add, hnil, hsites.location]

theorem Step.helpersSited (hs : a.Sound) (h : a.Step piece b) (ha : a.HelpersSited) : b.HelpersSited := by
  intro id n hn hsyn
  by_cases hlt : id < a.symbols.nonterminals.length
  case neg => exact h.map_location_of_new hs (Nat.not_lt.mp hlt) hn hsyn
  case pos =>
    have hkeeps := h.keepsHelpers hs
    have ⟨m, hm, hg⟩ := hkeeps.symbols.reflect hlt hn
    have hsyn' : m.synthetic = true := hg.synthetic ▸ hsyn
    rw [hkeeps.productionsOf (SymbolTable.isSynthetic_of_getElem? hm ▸ hsyn'), ha hm hsyn',
      hg.location (hs.rules.defined_of_synthetic hm hsyn')]

theorem Steps.helpersSited (hs : a.Sound) (h : a.Steps pieces b) (ha : a.HelpersSited) : b.HelpersSited := by
  induction h
  case nil => exact ha
  case cons hstep _ ih => exact ih (hstep.sound hs) (hstep.helpersSited hs ha)

end Loader

section

variable {p : Piece → Bool} {number : Nat} {line : Line} {lines : List Line} {piece : Piece}
variable {pieces : List Piece}

theorem lineAfter_of_mem_alternativePieces {texts : List (List Char)} (h : piece ∈ alternativePieces texts) :
    piece.lineAfter number = number := by
  obtain ⟨words, _, rfl | ⟨⟨item, repetition⟩, _, hp⟩⟩ := exists_words_of_mem_alternativePieces h
  case inl => rfl
  case inr =>
    cases repetition <;> simp only [Word.pieces, List.mem_cons, List.not_mem_nil, or_false] at hp
    case none => exact hp ▸ rfl
    case some => obtain rfl | rfl := hp <;> rfl

theorem lineAfter_of_mem_linePieces {line : Line}
    (h : piece ∈ line.head?.toList.map Piece.head ++ line.texts.flatMap alternativePieces) :
    piece.lineAfter number = number := by
  simp only [List.mem_append, List.mem_map, List.mem_flatMap] at h
  obtain ⟨name, _, rfl⟩ | ⟨texts, _, hm⟩ := h
  · rfl
  · exact lineAfter_of_mem_alternativePieces hm

theorem firstLine?_of_lineAfter (h : ∀ piece ∈ pieces, piece.lineAfter number = number) :
    firstLine? p number pieces = if pieces.any p then some number else none := by
  induction pieces
  case nil => rfl
  case cons first rest ih =>
    rw [List.forall_mem_cons] at h
    by_cases hp : p first <;> simp [firstLine?, hp, h.left, ih h.right]

theorem firstLine?_linePieces (hp : ∀ k, p (.line k) = false) (before : Nat) :
    firstLine? p before (line.pieces number) = if (line.pieces 0).any p then some number else none := by
  have hrest : ∀ piece ∈ line.head?.toList.map Piece.head ++ line.texts.flatMap alternativePieces,
      piece.lineAfter number = number := fun _ => lineAfter_of_mem_linePieces
  simp [Line.pieces, firstLine?, hp, Piece.lineAfter, firstLine?_of_lineAfter hrest]

theorem firstLine?_pieces (hp : ∀ k, p (.line k) = false) (before : Nat) :
    firstLine? p before (LineGrammar.pieces number lines) =
      (lines.findIdx? fun line => (line.pieces 0).any p).map (number + ·) := by
  induction lines generalizing before number
  case nil => rfl
  case cons line rest ih =>
    rw [LineGrammar.pieces, firstLine?_append, firstLine?_linePieces hp, ih, List.findIdx?_cons]
    by_cases hl : (line.pieces 0).any p
    case pos => simp [hl]
    case neg => simp [hl, Function.comp_def, Nat.add_comm, Nat.add_left_comm]

end
end LineGrammar
