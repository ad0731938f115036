import Mathlib.Data.List.Perm.Subperm
import LineGrammar.Proofs.Reading

/-!
Matching terminals with tokens. The name of a terminal decides what it accepts, and it also decides whether
two terminals are the same, be they of one grammar or of two.
-/

namespace LineGrammar

namespace Terminal

variable {t : Terminal} {token : Token}

def IsQuoted (t : Terminal) (text : String) : Prop :=
  ∃ quote : Quote, t.name.toList = quote.char :: text.toList ++ [quote.char]

theorem not_isQuoted_of_named {name text : String} (h : isIdentifier name.toList) :
    ¬(named name).IsQuoted text := by
  rintro ⟨quote, he⟩
  have hmem : quote.char ∈ name.toList := by
    simp only [Terminal.name] at he
    simp [he]
  exact quote_not_mem_of_isIdentifier h quote hmem

theorem isQuoted_literal_iff {quote : Quote} {text other : String} :
    (literal quote text).IsQuoted other ↔ text = other := by
  constructor
  case mp =>
    rintro ⟨quote', he⟩
    simp only [Terminal.name, String.toList_ofList, List.cons_append, List.cons.injEq] at he
    exact String.toList_injective (List.append_inj' he.right rfl).left
  case mpr =>
    rintro rfl
    exact ⟨quote, by simp [Terminal.name]⟩

theorem accepts_iff (h : (Item.terminal t).WellFormed) :
    t.accepts token = true ↔ (t.isLiteral = false ∧ t.name = token.kind) ∨ t.IsQuoted token.text := by
  match t, h with
  | named name, h           => simp [accepts, isLiteral, Terminal.name, not_isQuoted_of_named h.left]
  | literal quote text, _   => simp [accepts, isLiteral, isQuoted_literal_iff]

theorem eq_iff_name_eq {other : Terminal} (h : (Item.terminal t).WellFormed)
    (ho : (Item.terminal other).WellFormed) : t = other ↔ t.name = other.name := by
  constructor
  case mp  => exact congrArg _
  case mpr => exact fun he => Item.terminal.inj (Item.name_injective h ho he)

-- What accepts a token is one of three terminals.
theorem eq_of_accepts (h : t.accepts token = true) :
    (t.isLiteral = false ∧ t = named token.kind) ∨
      t.isLiteral = true ∧ (t = literal .single token.text ∨ t = literal .double token.text) := by
  cases t
  case named => simpa [accepts, isLiteral] using h
  case literal quote text =>
    obtain rfl : text = token.text := by simpa [accepts] using h
    cases quote <;> simp [isLiteral]

end Terminal

namespace Grammar

variable {g other : Grammar} {token : Token}

theorem Sound.nodup_terminalsAccepting (h : g.Sound) (token : Token) : (g.terminalsAccepting token).Nodup :=
  h.symbols.terminals_nodup.of_map.filter _

theorem Sound.length_named_le (h : g.Sound) (token : Token) :
    ((g.terminalsAccepting token).filter (!·.isLiteral)).length ≤ 1 := by
  have hsubset : (g.terminalsAccepting token).filter (!·.isLiteral) ⊆ [.named token.kind] := by
    intro t hm
    obtain ⟨ht, hl⟩ := List.mem_filter.mp hm
    obtain ⟨_, rfl⟩ | ⟨hl', _⟩ := Terminal.eq_of_accepts (List.mem_filter.mp ht).right
    · exact List.mem_singleton_self _
    · simp [hl'] at hl
  exact (List.subperm_of_subset ((h.nodup_terminalsAccepting token).filter _) hsubset).length_le

theorem Sound.length_literals_le (h : g.Sound) (token : Token) :
    ((g.terminalsAccepting token).filter (·.isLiteral)).length ≤ 2 := by
  have hsubset : (g.terminalsAccepting token).filter (·.isLiteral) ⊆
      [.literal .single token.text, .literal .double token.text] := by
    intro t hm
    obtain ⟨ht, hl⟩ := List.mem_filter.mp hm
    obtain ⟨hl', _⟩ | ⟨_, he⟩ := Terminal.eq_of_accepts (List.mem_filter.mp ht).right
    · simp [hl'] at hl
    · simpa using he
  exact (List.subperm_of_subset ((h.nodup_terminalsAccepting token).filter _) hsubset).length_le

-- A literal can be written with either of the two quotes, so a token's text is that of at most two
-- literals.
structure MatchesByName (g : Grammar) : Prop where
  accepts  : ∀ t ∈ g.symbols.terminals, ∀ token : Token, t.accepts token = true ↔
    (t.isLiteral = false ∧ t.name = token.kind) ∨ t.IsQuoted token.text
  named    : ∀ t ∈ g.symbols.terminals, t.isLiteral = false →
    isIdentifier t.name.toList ∧ t.name.toList.head?.any isUppercase = false
  literal  : ∀ t ∈ g.symbols.terminals, ∀ text, t.text? = some text → t.IsQuoted text
  atMost   : ∀ token, ((g.terminalsAccepting token).filter (!·.isLiteral)).length ≤ 1 ∧
    ((g.terminalsAccepting token).filter (·.isLiteral)).length ≤ 2

theorem Sound.matchesByName (h : g.Sound) : g.MatchesByName where
  accepts t ht _ := Terminal.accepts_iff (h.symbols.terminal t ht)
  named t ht hl := by
    have hw := h.symbols.terminal t ht
    cases t
    case named   => exact hw
    case literal => cases hl
  literal t _ text htext := by
    cases t
    case named => cases htext
    case literal =>
      cases htext
      exact Terminal.isQuoted_literal_iff.mpr rfl
  atMost token := ⟨h.length_named_le token, h.length_literals_le token⟩

theorem terminalNamed?_isSome_iff {table : SymbolTable} {name : String} :
    (table.terminalNamed? name).isSome ↔ ∃ t ∈ table.terminals, t.name = name := by
  simp [SymbolTable.terminalNamed?]

theorem Sound.commonTerminals_eq (h : g.Sound) (ho : other.Sound) : g.commonTerminals other =
    (g.symbols.terminals.map Terminal.name).filter fun name => (other.symbols.terminalNamed? name).isSome := by
  rw [commonTerminals, List.filter_map]
  congr 1
  refine List.filter_congr fun t ht => ?_
  rw [Bool.eq_iff_iff, List.contains_iff_mem, Function.comp_apply, terminalNamed?_isSome_iff]
  constructor
  case mp => exact fun hm => ⟨t, hm, rfl⟩
  case mpr =>
    rintro ⟨t', hm, he⟩
    have heq := (Terminal.eq_iff_name_eq (ho.symbols.terminal t' hm) (h.symbols.terminal t ht)).mpr he
    exact heq ▸ hm

variable {file file' : Option String} {lines lines' : List (Option (List Char))}

theorem matchesByName_of_ofLines (h : ofLines file lines = .ok g) (h' : ofLines file' lines' = .ok other) :
    g.MatchesByName ∧
      (∀ t ∈ g.symbols.terminals, ∀ t' ∈ other.symbols.terminals, t = t' ↔ t.name = t'.name) ∧
      g.commonTerminals other = (g.symbols.terminals.map Terminal.name).filter fun name =>
        (other.symbols.terminalNamed? name).isSome := by
  have hg := sound_of_ofLines h
  have ho := sound_of_ofLines h'
  exact ⟨hg.matchesByName,
    fun t ht t' ht' => Terminal.eq_iff_name_eq (hg.symbols.terminal t ht) (ho.symbols.terminal t' ht'),
    hg.commonTerminals_eq ho⟩

-- The token `a` with the text `a` is one of three terminals here, of which the other grammar has the literals.
theorem matchesByName_of_quoted_identifiers :
    ∃ g other, ofLines none (["A → a 'a' \"a\" \"'a'\" '' '\"\"'"].map (some ·.toList)) = .ok g ∧
      ofLines none (["B → 'a' b \"a\" \"\""].map (some ·.toList)) = .ok other ∧
      g.terminalsAccepting ⟨"a", "a"⟩ = [.named "a", .literal .single "a", .literal .double "a"] ∧
      g.terminalsAccepting ⟨"'a'", ""⟩ = [.literal .single ""] ∧
      g.MatchesByName ∧ g.commonTerminals other = ["'a'", "\"a\""] := by
  obtain ⟨g, hg, ha, he, hnames⟩ : ∃ g,
      ofLines none (["A → a 'a' \"a\" \"'a'\" '' '\"\"'"].map (some ·.toList)) = .ok g ∧
      g.terminalsAccepting ⟨"a", "a"⟩ = [.named "a", .literal .single "a", .literal .double "a"] ∧
      g.terminalsAccepting ⟨"'a'", ""⟩ = [.literal .single ""] ∧
      g.symbols.terminals.map Terminal.name = ["a", "'a'", "\"a\"", "\"'a'\"", "''", "'\"\"'"] :=
    exists_of_ofLines (by decide +kernel)
  obtain ⟨other, ho, hterminals⟩ : ∃ other,
      ofLines none (["B → 'a' b \"a\" \"\""].map (some ·.toList)) = .ok other ∧
      other.symbols.terminals =
        [.literal .single "a", .named "b", .literal .double "a", .literal .double ""] :=
    exists_of_ofLines (by decide +kernel)
  have ⟨hmatches, _, hcommon⟩ := matchesByName_of_ofLines hg ho
  refine ⟨g, other, hg, ho, ha, he, hmatches, ?_⟩
  simp only [hcommon, hnames, SymbolTable.terminalNamed?, hterminals]
  decide +kernel

end Grammar
end LineGrammar
