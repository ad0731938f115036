import LineGrammar.Proofs.Turns

/-!
What a service has in service. At any time it is what the last build made of the file as it was then,
and nothing but a build replaces it.
-/

namespace LineGrammar

structure BuiltBy (path : String) (publication : Publication) (turn : Turn) : Prop where
  builds   : turn.Builds
  grammar  : Grammar.loadFile path (turn.before.store.read path) = .ok publication.edition.grammar
  modified : publication.modified = turn.before.store.modified? path

-- What can be relied on after the turns of a service that started with nothing. Editions are compared
-- by number, as two of them may hold the same grammar.
structure Serves (path : String) (turns : List Turn) (service : Service) : Prop where
  idle         : service.published = none ↔ ∀ turn ∈ turns, ¬turn.Builds
  published    : ∀ publication, service.published = some publication →
    Since turns (BuiltBy path publication) Turn.Builds
  sound        : ∀ publication, service.published = some publication →
    publication.edition.grammar.validate = .ok ()
  unchanged    : ∀ turn ∈ turns, ¬turn.Builds → turn.after.published = turn.before.published
  fresh        : ∀ earlier turn later, turns = earlier ++ turn :: later → turn.Builds →
    ∃ edition, turn.after.editionInService = some edition ∧
      Announces edition turn.action turn.answer ∧
      ∀ old ∈ earlier, ∀ past, old.after.editionInService = some past → past.number ≠ edition.number
  held         : ∀ earlier turn later, turns = earlier ++ turn :: later → turn.Holds →
    ∃ edition, turn.before.editionInService = some edition ∧ turn.after.held = some edition ∧
      ((∃ current, service.editionInService = some current ∧ current.number = edition.number) ↔
        ∀ next ∈ later, ¬next.Builds)
  holdsCurrent : service.holdsCurrent = true ↔ Since turns Turn.Holds Turn.Builds

theorem Grammar.validate_of_loadFile {path : String} {contents : Except ReadFault (List UInt8)}
    {g : Grammar} (h : loadFile path contents = .ok g) : g.validate = .ok () := by
  cases contents with
  | error     => cases h
  | ok source => exact (load_eq_ok_iff.mp h).right

namespace Service

variable {service : Service} {action : Action} {answer : Answer} {edition : Edition}

structure Numbered (service : Service) : Prop where
  published : service.built = service.editionInService.elim 0 (·.number + 1)
  held      : ∀ edition, service.held = some edition → edition.number < service.built

theorem numbered_new (path : String) : (Service.new path).Numbered :=
  ⟨rfl, by simp [Service.new]⟩

theorem Numbered.built_eq (h : service.Numbered) (he : service.editionInService = some edition) :
    service.built = edition.number + 1 := by
  rw [h.published, he]
  rfl

theorem Numbered.exists_of_pos (h : service.Numbered) (hb : 0 < service.built) :
    ∃ edition, service.editionInService = some edition := by
  cases he : service.editionInService
  case none => simp [h.published, he] at hb
  case some edition => exact ⟨edition, rfl⟩

theorem Numbered.number_lt (h : service.Numbered) (he : service.editionInService = some edition) :
    edition.number < service.built :=
  h.built_eq he ▸ Nat.lt_succ_self _

section

variable {new : Service}

theorem Step.numbered (h : service.Step action answer new) (hn : service.Numbered) : new.Numbered := by
  cases h
  case build publication hbuilt _ =>
    have ⟨_, hnumber, _⟩ := loadFile_of_build hbuilt
    refine ⟨by simp [editionInService, hnumber], fun edition he => ?_⟩
    exact Nat.lt_succ_of_lt (hn.held edition he)
  case hold publication hp =>
    refine ⟨hn.published, fun edition he => ?_⟩
    cases he
    exact hn.number_lt (by simp [editionInService, hp])
  all_goals exact ⟨hn.published, hn.held⟩

theorem Step.not_announces_or_builds (h : service.Step action answer new) :
    ((∀ edition, ¬Announces edition action answer) ∧ new.published = service.published ∧
        new.built = service.built) ∨
      ∃ publication, new.published = some publication ∧ Announces publication.edition action answer ∧
        Publication.build service.path service.built service.view = .ok publication ∧
        new.built = service.built + 1 := by
  cases h
  case build publication hbuilt ha => exact .inr ⟨publication, rfl, ha, hbuilt, rfl⟩
  all_goals exact .inl ⟨fun _ ha => (nomatch ha), rfl, rfl⟩

theorem Step.exists_of_hold (h : service.Step .hold .done new) :
    ∃ publication, service.published = some publication ∧
      new = { service with held := some publication.edition } := by
  cases h
  case hold publication hp => exact ⟨publication, hp, rfl⟩
  case build ha            => cases ha

theorem holdsCurrent_iff : service.holdsCurrent = true ↔
    ∃ held current, service.held = some held ∧ service.editionInService = some current ∧
      held.number = current.number := by
  unfold holdsCurrent
  cases service.held <;> cases service.editionInService <;> simp

-- A build ends the time for which the edition put aside is the one in service.
theorem Step.holdsCurrent_iff (h : service.Step action answer new) (hn : service.Numbered) :
    new.holdsCurrent = true ↔ (action = .hold ∧ answer = .done) ∨
      (service.holdsCurrent = true ∧ ∀ edition, ¬Announces edition action answer) := by
  have hother : ∀ {action answer}, ¬(action = .hold ∧ answer = .done) →
      (∀ edition, ¬Announces edition action answer) → (service.holdsCurrent = true ↔
        (action = .hold ∧ answer = .done) ∨
          (service.holdsCurrent = true ∧ ∀ edition, ¬Announces edition action answer)) := by
    intro action answer hh ha
    simp [hh, ha]
  cases h
  case build publication hbuilt ha =>
    have ⟨_, hnumber, _⟩ := loadFile_of_build hbuilt
    have hhold : ¬(action = .hold ∧ answer = .done) := by
      rintro ⟨rfl, -⟩
      cases ha
    have hannounced : ¬∀ edition, ¬Announces edition action answer := fun hno => hno _ ha
    simp only [hhold, hannounced, and_false, or_false, iff_false, Service.holdsCurrent_iff]
    rintro ⟨held, current, hheld, hcurrent, he⟩
    cases hcurrent
    exact Nat.ne_of_lt (hn.held held hheld) (he.trans hnumber)
  case hold publication hp => simp [Service.holdsCurrent_iff, editionInService, hp]
  all_goals exact hother (by simp) (fun _ ha => nomatch ha)

end

variable {actions earlier later : List Action} {path : String}

theorem Numbered.run (h : service.Numbered) : (service.run actions).Numbered := by
  induction actions using List.reverseRecOn
  case nil => exact h
  case append_singleton actions action ih =>
    rw [run_concat]
    exact ((service.run actions).step_act action).numbered ih

theorem built_le_run : service.built ≤ (service.run actions).built := by
  induction actions using List.reverseRecOn
  case nil => exact Nat.le_refl _
  case append_singleton actions action ih =>
    rw [run_concat]
    cases ((service.run actions).step_act action).not_announces_or_builds
    case inl h =>
      have ⟨_, _, hb⟩ := h
      exact hb ▸ ih
    case inr h =>
      have ⟨_, _, _, _, hb⟩ := h
      exact hb ▸ Nat.le_succ_of_le ih

theorem built_run_eq_iff :
    (service.run actions).built = service.built ↔ ∀ turn ∈ service.turns actions, ¬turn.Builds := by
  induction actions generalizing service
  case nil => simp [turns]
  case cons action rest ih =>
    rw [turns, List.forall_mem_cons, ← ih]
    have hrun : service.run (action :: rest) = ((service.act action).2).run rest := rfl
    cases (service.step_act action).not_announces_or_builds
    case inl h =>
      obtain ⟨hno, _, hb⟩ := h
      have hturn : ¬(service.turn action).Builds := by
        rintro ⟨edition, ha⟩
        exact hno edition ha
      simp [hrun, hb, hturn]
    case inr h =>
      obtain ⟨publication, _, ha, _, hb⟩ := h
      have hle : (service.act action).2.built ≤ ((service.act action).2.run rest).built := built_le_run
      have hturn : (service.turn action).Builds := ⟨_, ha⟩
      simp only [hrun, hturn, not_true, false_and, iff_false]
      omega

theorem published_eq_none_iff : ((Service.new path).run actions).published = none ↔
    ∀ turn ∈ (Service.new path).turns actions, ¬turn.Builds := by
  have hn : ((Service.new path).run actions).Numbered := (numbered_new path).run
  have hzero : (Service.new path).built = 0 := rfl
  rw [← built_run_eq_iff, hzero, hn.published]
  cases hp : ((Service.new path).run actions).published <;> simp [editionInService, hp]

theorem since_builtBy {publication : Publication}
    (h : ((Service.new path).run actions).published = some publication) :
    Since ((Service.new path).turns actions) (BuiltBy path publication) Turn.Builds := by
  induction actions using List.reverseRecOn
  case nil => cases h
  case append_singleton actions action ih =>
    rw [run_concat] at h
    rw [turns_concat, since_concat_iff]
    cases (((Service.new path).run actions).step_act action).not_announces_or_builds
    case inl hstep =>
      have ⟨hno, hp, _⟩ := hstep
      exact .inr ⟨ih (hp ▸ h), fun ⟨edition, ha⟩ => hno edition ha⟩
    case inr hstep =>
      have ⟨built, hp, ha, hbuild, _⟩ := hstep
      cases h.symm.trans hp
      have ⟨hload, _, hmodified⟩ := loadFile_of_build hbuild
      have hpath : ((Service.new path).run actions).path = path := path_run
      simp only [view, FileStore.view, hpath] at hload hmodified
      exact .inl ⟨⟨_, ha⟩, hload, hmodified⟩

theorem holdsCurrent_run_iff : ((Service.new path).run actions).holdsCurrent = true ↔
    Since ((Service.new path).turns actions) Turn.Holds Turn.Builds := by
  induction actions using List.reverseRecOn
  case nil => simp [turns, since_nil, holdsCurrent, Service.new]
  case append_singleton actions action ih =>
    have hn : ((Service.new path).run actions).Numbered := (numbered_new path).run
    rw [run_concat, turns_concat, since_concat_iff, ← ih,
      (((Service.new path).run actions).step_act action).holdsCurrent_iff hn]
    simp [Turn.Holds, Turn.Builds, turn]

section

variable {new : Service}

theorem Step.exists_fresh (h : (service.run earlier).Step action answer new) (hn : service.Numbered)
    (ha : Announces edition action answer) :
    ∃ fresh, new.editionInService = some fresh ∧ Announces fresh action answer ∧
      ∀ old ∈ service.turns earlier, ∀ past, old.after.editionInService = some past →
        past.number ≠ fresh.number := by
  cases h.not_announces_or_builds
  case inl h => exact absurd ha (h.left edition)
  case inr h =>
    have ⟨publication, hp, ha, hbuild, _⟩ := h
    have ⟨_, hnumber, _⟩ := loadFile_of_build hbuild
    refine ⟨publication.edition, by simp [editionInService, hp], ha, fun old hm past hpast => ?_⟩
    obtain ⟨front, first, back, rfl, rfl⟩ := exists_of_mem_turns hm
    have hlt : past.number < ((service.run front).act first).2.built :=
      (((service.run front).step_act first).numbered hn.run).number_lt hpast
    have hle : ((service.run front).act first).2.built ≤ (service.run (front ++ first :: back)).built := by
      rw [run_append]
      exact built_le_run
    omega

theorem Step.exists_held (h : service.Step .hold .done new) (hn : service.Numbered) :
    ∃ edition, service.editionInService = some edition ∧ new.held = some edition ∧
      ((∃ current, (new.run later).editionInService = some current ∧
          current.number = edition.number) ↔ ∀ next ∈ new.turns later, ¬next.Builds) := by
  have ⟨publication, hp, hnew⟩ := h.exists_of_hold
  have hin : service.editionInService = some publication.edition := by simp [editionInService, hp]
  have hbuilt : new.built = publication.edition.number + 1 := by
    rw [hnew]
    exact hn.built_eq hin
  have hlast : (new.run later).Numbered := (h.numbered hn).run
  refine ⟨publication.edition, hin, by simp [hnew], ?_⟩
  rw [← built_run_eq_iff, hbuilt]
  constructor
  case mp =>
    intro ⟨last, hc, he⟩
    rw [hlast.built_eq hc, he]
  case mpr =>
    intro he
    have ⟨last, hc⟩ := hlast.exists_of_pos (by omega)
    have hnumber := hlast.built_eq hc
    exact ⟨last, hc, by omega⟩

end

theorem serves_last_build (path : String) (actions : List Action) :
    Serves path ((Service.new path).turns actions) ((Service.new path).run actions) where
  idle          := published_eq_none_iff
  published _ h := since_builtBy h
  sound _ h     := by
    have ⟨_, _, _, _, hbuilt, _⟩ := since_builtBy h
    exact Grammar.validate_of_loadFile hbuilt.grammar
  unchanged turn hm hno := by
    obtain ⟨earlier, action, later, rfl, rfl⟩ := exists_of_mem_turns hm
    cases (((Service.new path).run earlier).step_act action).not_announces_or_builds
    case inl h => exact h.right.left
    case inr h =>
      have ⟨_, _, ha, _⟩ := h
      exact absurd ⟨_, ha⟩ hno
  fresh earlier turn later h hb := by
    obtain ⟨before, action, after, rfl, rfl, rfl, rfl⟩ := exists_of_turns_eq h
    have ⟨_, ha⟩ := hb
    exact (((Service.new path).run before).step_act action).exists_fresh (numbered_new path) ha
  held earlier turn later h hh := by
    obtain ⟨before, action, after, rfl, rfl, rfl, rfl⟩ := exists_of_turns_eq h
    obtain ⟨rfl, hdone⟩ := hh
    have hstep := ((Service.new path).run before).step_act .hold
    rw [show (((Service.new path).run before).act .hold).1 = .done from hdone] at hstep
    rw [run_append]
    exact hstep.exists_held (numbered_new path).run
  holdsCurrent := holdsCurrent_run_iff

end Service
end LineGrammar
