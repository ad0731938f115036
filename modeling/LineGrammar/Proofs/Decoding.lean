import LineGrammar.Proofs.Failures
import LineGrammar.Proofs.FirstFault

/-!
Bytes and texts as sources. The bytes of a text are read as the lines of the text. Of bytes that are no text,
the lines before the first that is no UTF-8 are read, and that line is reported if they have no fault.
-/

namespace LineGrammar

section

variable {α : Type} {feed ret : α} {source line rest : List α} {lines : List (List α)}

-- The lines of a source. Each of them ends at a feed or at a return with a feed right after it, save the last
-- one, which may also end with the source if there is anything in it.
inductive CutsInto (feed ret : α) : List α → List (List α) → Prop
  | empty : CutsInto feed ret [] []
  | last {line : List α} (inside : feed ∉ line) (ne_nil : line ≠ []) : CutsInto feed ret line [line]
  | feed {line rest : List α} {lines : List (List α)} (inside : feed ∉ line)
      (no_return : line.getLast? ≠ some ret) (later : CutsInto feed ret rest lines) :
    CutsInto feed ret (line ++ feed :: rest) (line :: lines)
  | returnFeed {line rest : List α} {lines : List (List α)} (inside : feed ∉ line)
      (later : CutsInto feed ret rest lines) :
    CutsInto feed ret (line ++ ret :: feed :: rest) (line :: lines)

variable [BEq α] [LawfulBEq α]

theorem dropReturn_append_return (ret : α) (line : List α) : dropReturn ret (line ++ [ret]) = line := by
  simp [dropReturn]

theorem dropReturn_of_getLast?_ne (h : line.getLast? ≠ some ret) : dropReturn ret line = line := by
  simp [dropReturn, h]

theorem linesBy_of_not_mem (h : feed ∉ line) :
    linesBy feed ret line = if line.isEmpty then [] else [line] := by
  cases he : line.isEmpty <;> simp [linesBy, List.splitOn_eq_singleton h, he]

theorem linesBy_feed (h : feed ∉ line) (rest : List α) :
    linesBy feed ret (line ++ feed :: rest) = dropReturn ret line :: linesBy feed ret rest := by
  rw [linesBy_append_cons, List.splitOn_eq_singleton h, List.map_singleton, List.singleton_append]

theorem linesBy_of_cutsInto (hne : ret ≠ feed) (h : CutsInto feed ret source lines) :
    linesBy feed ret source = lines := by
  induction h
  case empty => rfl
  case last hn => simp [linesBy_of_not_mem, *]
  case feed hline hlast _ ih => rw [linesBy_feed hline, dropReturn_of_getLast?_ne hlast, ih]
  case returnFeed line rest _ hline _ ih =>
    have hinside : feed ∉ line ++ [ret] := by simp [hline, hne.symm]
    have hsource : line ++ ret :: feed :: rest = line ++ [ret] ++ feed :: rest := by simp
    rw [hsource, linesBy_feed hinside, dropReturn_append_return, ih]

theorem cutsInto_linesBy (feed ret : α) (source : List α) :
    CutsInto feed ret source (linesBy feed ret source) := by
  by_cases hm : feed ∈ source
  case neg =>
    rw [linesBy_of_not_mem hm]
    cases source
    case nil  => exact .empty
    case cons => exact .last hm (by simp)
  case pos =>
    obtain ⟨line, rest, rfl, hline⟩ := List.eq_append_cons_of_mem hm
    have later := cutsInto_linesBy feed ret rest
    rw [linesBy_feed hline]
    by_cases hlast : line.getLast? = some ret
    case neg =>
      rw [dropReturn_of_getLast?_ne hlast]
      exact .feed hline hlast later
    case pos =>
      obtain ⟨front, rfl⟩ := List.getLast?_eq_some_iff.mp hlast
      rw [dropReturn_append_return, List.append_assoc]
      exact .returnFeed (fun hf => hline (List.mem_append_left _ hf)) later
termination_by source.length
decreasing_by simp_all; omega

theorem linesBy_eq_iff (hne : ret ≠ feed) :
    linesBy feed ret source = lines ↔ CutsInto feed ret source lines :=
  ⟨fun h => h ▸ cutsInto_linesBy feed ret source, linesBy_of_cutsInto hne⟩

end

theorem decode_eq_some_iff {bytes : List UInt8} {text : List Char} :
    decode bytes = some text ↔ encode (String.ofList text) = bytes := by
  constructor
  case mpr =>
    rintro rfl
    rw [decode_encode, String.toList_ofList]
  case mp =>
    intro h
    obtain ⟨string, hs, rfl⟩ := Option.map_eq_some_iff.mp h
    unfold String.fromUTF8? at hs
    split at hs
    case isFalse => cases hs
    case isTrue hvalid =>
      cases hs
      rw [String.ofList_toList, encode]
      rfl

namespace Loader

def readRows (rows : List (List Char × Nat)) : Reading Unit :=
  rows.forM fun (text, number) => readLine number text

def readTexts (texts : List (List Char)) : Reading Unit :=
  readRows (texts.zipIdx 1)

theorem readLines_map_some (number : Nat) (texts : List (List Char)) :
    readLines number (texts.map some) = readRows (texts.zipIdx number) := by
  induction texts generalizing number
  case nil => rfl
  case cons text rest ih =>
    rw [List.map_cons, readLines_cons, ih, List.zipIdx_cons]
    rfl

def failUnreadable : Reading Unit := do
  throw ⟨⟨(← get).file, 0⟩, .unreadable .notUtf8⟩

theorem readLines_unreadable (texts : List (List Char)) (after : List (Option (List Char))) :
    readLines 1 (texts.map some ++ none :: after) = readTexts texts >>= fun _ => failUnreadable := by
  rw [readLines_append, readLines_map_some]
  rfl

end Loader

namespace Grammar

variable {g : Grammar} {file : Option String} {source : List UInt8} {error : GrammarError}

theorem isReadFault_of_validate (h : g.validate = .error error) : error.fault.isReadFault = false := by
  rw [Bool.eq_false_iff, ne_eq, ← Fault.phase_eq_decoding_iff, phase_of_validate h]
  decide

theorem load_eq_error_iff_of_isReadFault (hf : error.fault.isReadFault) :
    load file source = .error error ↔ ofBytes file source = .error error := by
  rw [load_eq_error_iff, or_iff_left]
  rintro ⟨g, _, hv⟩
  simp [isReadFault_of_validate hv] at hf

variable {texts : List (List Char)}

-- Bytes are reported to be no text if a line of them is none and no line before that one has a fault.
theorem reports_unreadable_iff : Reports file (sourceLines source) ⟨⟨file, 0⟩, .unreadable .notUtf8⟩ ↔
    ∃ before bytes after texts, byteLines source = before ++ bytes :: after ∧
      before.map decode = texts.map some ∧ decode bytes = none ∧ Faultless texts := by
  constructor
  case mp =>
    generalize he : (⟨⟨file, 0⟩, .unreadable .notUtf8⟩ : GrammarError) = error
    rintro (⟨hlines, hfirst⟩ | ⟨-, -, hl⟩ | -)
    · obtain ⟨before, rest, hsource, hbefore, hrest⟩ := List.map_eq_append_iff.mp hlines
      obtain ⟨bytes, after, rfl, hbytes, -⟩ := List.map_eq_cons_iff.mp hrest
      exact ⟨before, bytes, after, _, hsource, hbefore, hbytes, hfirst⟩
    · cases he
    · cases he
  case mpr =>
    rintro ⟨before, bytes, after, texts, hsource, hbefore, hbytes, hfirst⟩
    have hlines : sourceLines source = texts.map some ++ none :: after.map decode := by
      rw [sourceLines, hsource, List.map_append, hbefore, List.map_cons, hbytes]
    exact .unreadable hlines hfirst

theorem eq_of_reports_of_isReadFault {lines : List (Option (List Char))} (h : Reports file lines error)
    (hf : error.fault.isReadFault) : error = ⟨⟨file, 0⟩, .unreadable .notUtf8⟩ ∧ none ∈ lines := by
  cases h
  case unreadable hlines _ => exact ⟨rfl, by simp [hlines]⟩
  case line fault _ _ hl   =>
    have hsyntax := hl.isSyntaxFault
    cases fault <;> cases hf
    cases hsyntax
  case emptyGrammar => cases hf

structure ReadsText (file : Option String) (text : String) : Prop where
  run      : Loader.run file (sourceLines (encode text)) =
    (Loader.readTexts (textLines text.toList)).run (.start file)
  readable : ∀ error, load file (encode text) = .error error → error.fault.isReadFault = false

-- Bytes are read line by line. The first line that is no text is found when its turn comes, and what follows
-- the first faulty line does not matter.
structure ReadsBytes (file : Option String) (source : List UInt8) : Prop where
  run : ∀ texts : List (List Char), (byteLines source).map decode = texts.map some →
    Loader.run file (sourceLines source) = (Loader.readTexts texts).run (.start file)
  run_unreadable : ∀ before bytes after (texts : List (List Char)),
    byteLines source = before ++ bytes :: after → before.map decode = texts.map some → decode bytes = none →
      Loader.run file (sourceLines source) =
        (do Loader.readTexts texts; Loader.failUnreadable).run (.start file)
  error_iff : ∀ error, error.fault.isReadFault → (load file source = .error error ↔
    error = ⟨⟨file, 0⟩, .unreadable .notUtf8⟩ ∧
      ∃ before bytes after texts, byteLines source = before ++ bytes :: after ∧
        before.map decode = texts.map some ∧ decode bytes = none ∧ Faultless texts)
  later : ∀ before bytes after other after', byteLines source = before ++ bytes :: after →
    byteLines other = before ++ bytes :: after' → FaultyAt (before.map decode) (decode bytes) →
      load file other = load file source

theorem readsText (file : Option String) (text : String) : ReadsText file text where
  run := by
    rw [Loader.run, sourceLines_encode, Loader.readLines_map_some]
    rfl
  readable error h := by
    by_contra hf
    rw [Bool.not_eq_false] at hf
    rw [load_eq_error_iff_of_isReadFault hf, ofBytes, sourceLines_encode, ofLines_eq_error_iff] at h
    simpa using (eq_of_reports_of_isReadFault h hf).right

theorem readsBytes (file : Option String) (source : List UInt8) : ReadsBytes file source := by
  refine ⟨?run, ?run_unreadable, ?error_iff, ?later⟩
  case run =>
    intro texts h
    rw [Loader.run, sourceLines, h, Loader.readLines_map_some]
    rfl
  case run_unreadable =>
    intro before bytes after texts hsource hbefore hbytes
    rw [Loader.run, sourceLines, hsource, List.map_append, hbefore, List.map_cons, hbytes,
      Loader.readLines_unreadable]
  case error_iff =>
    intro error hf
    rw [load_eq_error_iff_of_isReadFault hf, ofBytes, ofLines_eq_error_iff]
    constructor
    case mp =>
      intro h
      obtain ⟨rfl, _⟩ := eq_of_reports_of_isReadFault h hf
      exact ⟨rfl, reports_unreadable_iff.mp h⟩
    case mpr =>
      rintro ⟨rfl, h⟩
      exact reports_unreadable_iff.mpr h
  case later =>
    intro before bytes after other after' hsource hother hfaulty
    have herror : ∃ error, ofLines file ((before ++ [bytes]).map decode) = .error error ∧
        error.fault ≠ .emptyGrammar :=
      exists_error_of_faulty ⟨before.map decode, decode bytes, [], by simp, hfaulty⟩
    obtain ⟨error, he, hne⟩ := herror
    -- The lines up to the faulty one decide, and these the two sources have in common.
    have hload : ∀ source after, byteLines source = before ++ bytes :: after →
        load file source = .error error := by
      intro source after hlines
      apply load_of_ofBytes_error
      have hprefix : sourceLines source = (before ++ [bytes]).map decode ++ after.map decode := by
        simp [sourceLines, hlines]
      rw [ofBytes, hprefix]
      exact ofLines_append_of_error he hne
    rw [hload source after hsource, hload other after' hother]

theorem decoding_agrees (file : Option String) :
    (∀ text lines, textLines text = lines ↔ CutsInto '\n' '\r' text lines) ∧
      (∀ source lines, byteLines source = lines ↔ CutsInto 0x0A 0x0D source lines) ∧
      (∀ bytes text, decode bytes = some text ↔ encode (String.ofList text) = bytes) ∧
      (∀ text, ReadsText file text) ∧ ∀ source, ReadsBytes file source := by
  refine ⟨fun text lines => ?_, fun source lines => ?_, fun bytes text => decode_eq_some_iff,
    readsText file, readsBytes file⟩
  · exact linesBy_eq_iff (by decide)
  · exact linesBy_eq_iff (by decide)

example : sourceLines [0x41, 0x0D, 0x0D, 0x0A, 0xE2, 0x86, 0x0A, 0xC0, 0xAF] =
    [some ['A', '\r'], none, none] := by
  decide +kernel

end Grammar
end LineGrammar
