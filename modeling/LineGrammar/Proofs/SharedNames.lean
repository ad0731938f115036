import LineGrammar.Load
import LineGrammar.Proofs.Encoding
import LineGrammar.Proofs.Flags
import LineGrammar.Proofs.Reduced

/-!
Which names terminals and nonterminals share. Any identifier may head a rule, but on the right an identifier
stands for a nonterminal only if it starts with an uppercase character. So a rule of another name can never be
mentioned, and unless it is the first rule, the grammar does not pass the checks.
-/

namespace LineGrammar.Grammar

variable {g : Grammar} {id : NonterminalId} {n : Nonterminal} {heads : List String} {clauses : List Clause}
variable {head : NonterminalId} {production : Production} {t : Terminal}

-- A symbol of a production stands for a word of an alternative or, where the rule is that of a helper, for
-- the helper or for its base. So apart from helpers it stands for an item.
theorem exists_item_of_mem_symbols (hg : g.Sound) (hr : g.Records heads clauses)
    (hp : production ∈ g.productionsOf head) {symbol : Symbol} (hs : symbol ∈ production.symbols) :
    (∃ id, symbol = .nonterminal id ∧ g.symbols.isSynthetic id = true) ∨
      ∃ item : Item, item.WellFormed ∧ g.symbols.Denotes item symbol := by
  have hlt := hg.lt_nonterminalCount hp
  have hm := List.getElem?_eq_getElem hlt
  generalize g.symbols.nonterminals[head] = m at hm
  cases hw : m.synthetic
  case false =>
    have ⟨texts, _, words, hwords, hspells⟩ := exists_left_of_forall₂ (hr.productions hm hw) hp
    have ⟨word, hmem, hx⟩ := exists_left_of_forall₂ hspells hs
    cases hx
    case plain hd              => exact .inr ⟨_, wellFormed_of_alternativeOfTexts hwords _ hmem, hd⟩
    case repeated hn hhelper _  => exact .inl ⟨_, rfl, SymbolTable.isSynthetic_of_getElem? hn ▸ hhelper⟩
  case true =>
    have ⟨_, item, repetition, base, hi, _, hd, hx⟩ := hg.rules.helpers hm hw
    obtain rfl | rfl := hx.eq_of_mem_symbols hp hs
    · exact .inl ⟨head, rfl, SymbolTable.isSynthetic_of_getElem? hm ▸ hw⟩
    · exact .inr ⟨item, hi, hd⟩

theorem wellFormed_of_occurs (hg : g.Sound) (hr : g.Records heads clauses)
    (hn : g.symbols.nonterminals[id]? = some n) (hw : n.synthetic = false) (ho : g.Occurs id) :
    (Item.nonterminal n.name).WellFormed := by
  have ⟨head, production, hp, hs⟩ := (occurs_iff hg).mp ho
  obtain ⟨other, he, hsyn⟩ | ⟨item, hi, hd⟩ := exists_item_of_mem_symbols hg hr hp hs
  case inl =>
    cases he
    rw [SymbolTable.isSynthetic_of_getElem? hn, hw] at hsyn
    cases hsyn
  case inr =>
    cases hd with | nonterminal hn' =>
    cases hn.symm.trans hn'
    exact hi

-- The name of a helper ends in a mark, which is the end of no terminal.
theorem Sound.synthetic_eq_false_of_shared (hg : g.Sound) (ht : t ∈ g.symbols.terminals)
    (hn : n ∈ g.symbols.nonterminals) (he : t.name = n.name) : n.synthetic = false := by
  by_contra hs
  have ⟨repetition, hl⟩ :=
    (hg.symbols.nonterminal n hn).synthetic_iff_getLast?.mp (Bool.not_eq_false _ ▸ hs)
  have hne := Item.getLast?_name_ne_mark (hg.symbols.terminal t ht) repetition
  exact hne (by rw [Item.name, he, hl])

theorem Sound.not_wellFormed_of_shared (hg : g.Sound) (ht : t ∈ g.symbols.terminals)
    (he : t.name = n.name) : ¬(Item.nonterminal n.name).WellFormed := by
  intro hi
  cases Item.name_injective (hg.symbols.terminal t ht) hi he

-- Only the root can be called like a terminal, and then nothing mentions it.
structure UnambiguousNames (g : Grammar) : Prop where
  uppercase : ∀ (id : NonterminalId) n, g.symbols.nonterminals[id]? = some n → id ≠ g.root →
    n.synthetic = true ∨ n.name.toList.head?.any isUppercase = true
  shared    : ∀ t ∈ g.symbols.terminals, ∀ (id : NonterminalId) n,
    g.symbols.nonterminals[id]? = some n → t.name = n.name →
      id = g.root ∧ n.name.toList.head?.any isUppercase = false ∧ ¬g.Occurs g.root

variable {file : Option String} {lines : List (Option (List Char))}

-- Where all but the root is mentioned, all but the root is named as what is mentioned is.
theorem unambiguousNames_of_checkReferences (h : ofLines file lines = .ok g)
    (hc : g.checkReferences = .ok ()) : g.UnambiguousNames := by
  have ⟨hg, hr⟩ := sound_and_records_of_ofLines h
  have hoccurs : ∀ (id : NonterminalId) n, g.symbols.nonterminals[id]? = some n → id ≠ g.root →
      g.Occurs id := by
    intro id n hn hne
    have href := checkReferences_eq_ok_iff.mp hc n (List.mem_of_getElem? hn)
    exact ((referenced_iff h hn).mp href).resolve_left hne
  constructor
  case uppercase =>
    intro id n hn hne
    cases hw : n.synthetic
    case true  => exact .inl rfl
    case false => exact .inr (wellFormed_of_occurs hg hr hn hw (hoccurs id n hn hne)).right
  case shared =>
    intro t ht id n hn he
    have hw := hg.synthetic_eq_false_of_shared ht (List.mem_of_getElem? hn) he
    have hno := hg.not_wellFormed_of_shared ht he
    have hi := (hg.symbols.nonterminal n (List.mem_of_getElem? hn)).identifier hw
    have hunmentioned : ¬g.Occurs id := mt (wellFormed_of_occurs hg hr hn hw) hno
    obtain rfl : id = g.root := not_imp_comm.mp (hoccurs id n hn) hunmentioned
    exact ⟨rfl, Bool.eq_false_iff.mpr fun hu => hno ⟨hi, hu⟩, hunmentioned⟩

theorem UnambiguousNames.uppercase_of_mem_heads (h : g.UnambiguousNames) (hr : g.Records heads clauses)
    {name : String} (hm : name ∈ heads) (hne : heads.head? ≠ some name) : name.toList.head?.any isUppercase = true := by
  obtain ⟨id, n, hn, hw, rfl⟩ := hr.entered name hm
  refine (h.uppercase id n hn ?_).resolve_left (Bool.eq_false_iff.mp hw)
  rintro rfl
  exact hne (SymbolTable.nonterminalName_of_getElem? hn ▸ hr.root)

theorem unambiguousNames_of_load (file : Option String) (source : List UInt8) :
    (∀ g, load file source = .ok g → g.UnambiguousNames) ∧
      ∀ name ∈ headNames (linesOf (sourceLines source)), name.toList.head?.any isUppercase = false →
        (headNames (linesOf (sourceLines source))).head? ≠ some name →
          ∃ error, load file source = .error error := by
  have hread : ∀ g, load file source = .ok g →
      ofLines file (sourceLines source) = .ok g ∧ g.UnambiguousNames := by
    intro g h
    have ⟨hread, hvalid⟩ := load_eq_ok_iff.mp h
    exact ⟨hread, unambiguousNames_of_checkReferences hread (validate_eq_ok_iff.mp hvalid).left⟩
  refine ⟨fun g h => (hread g h).right, fun name hm hlower hne => ?_⟩
  cases h : load file source
  case error error => exact ⟨error, rfl⟩
  case ok g =>
    have ⟨hlines, hunambiguous⟩ := hread g h
    have hupper := hunambiguous.uppercase_of_mem_heads (sound_and_records_of_ofLines hlines).right hm hne
    simp [hlower] at hupper

-- The root is called like a terminal here. In the other source the second rule is, and that is an error.
theorem unambiguousNames_of_lowercase_heads :
    ∃ g, load none (encode "foo → foo B+ | 'foo'\nB → b") = .ok g ∧
      g.symbols.terminals = [.named "foo", .literal .single "foo", .named "b"] ∧
      g.symbols.nonterminals.map Nonterminal.name = ["foo", "B", "B+"] ∧
      g.UnambiguousNames ∧ ¬g.Occurs g.root ∧
      ∃ error, load none (encode "A → a b\nb → c") = .error error := by
  obtain ⟨g, hg, hvalid, hterminals, hnames, hroot⟩ : ∃ g,
      ofLines none (sourceLines (encode "foo → foo B+ | 'foo'\nB → b")) = .ok g ∧ g.validate = .ok () ∧
        g.symbols.terminals = [.named "foo", .literal .single "foo", .named "b"] ∧
        g.symbols.nonterminals.map Nonterminal.name = ["foo", "B", "B+"] ∧
        g.symbols.nonterminals[0]? = some ⟨"foo", ⟨none, 1⟩, true, true, false⟩ :=
    exists_of_ofLines (by decide +kernel)
  have hload := load_eq_ok_iff.mpr ⟨hg, hvalid⟩
  have hunambiguous := (unambiguousNames_of_load none _).left g hload
  have hshared := hunambiguous.shared (.named "foo") (by simp [hterminals]) 0 _ hroot rfl
  exact ⟨g, hload, hterminals, hnames, hunambiguous, hshared.right.right,
    (unambiguousNames_of_load none (encode "A → a b\nb → c")).right "b" (by decide +kernel)
      (by decide +kernel) (by decide +kernel)⟩

end LineGrammar.Grammar
