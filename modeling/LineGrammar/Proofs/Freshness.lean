import LineGrammar.Proofs.Turns

/-!
Refreshing. As long as no two contents of the file have the same time of change, the edition in service
after a refresh is what the file holds, and a file that does not load is reported as often as it is asked
for.
-/

namespace LineGrammar

namespace FileStore

variable {store : FileStore} {path : String} {place : Place} {entry : Entry} {contents : List UInt8}
variable {modified : Int}

def HasFile (store : FileStore) (contents : List UInt8) (modified : Int) : Prop :=
  ∃ place, (place, .file contents modified) ∈ store.entries

theorem exists_entryAt?_of_resolve (h : store.resolve path = .ok entry) :
    ∃ place, store.entryAt? place = some entry := by
  simp only [resolve, bind, Except.bind, pure, Except.pure] at h
  split at h
  case h_1 => cases h
  case h_2 =>
    split at h
    case h_1 => cases h
    case h_2 place _ =>
      split at h
      case h_1 => cases h
      case h_2 he =>
        cases h
        exact ⟨place, he⟩

theorem hasFile_of_resolve (h : store.resolve path = .ok (.file contents modified)) :
    store.HasFile contents modified := by
  have ⟨place, he⟩ := exists_entryAt?_of_resolve h
  unfold entryAt? at he
  split at he
  case isTrue => cases he
  case isFalse =>
    obtain ⟨⟨found, _⟩, hf, rfl⟩ := Option.map_eq_some_iff.mp he
    exact ⟨found, List.mem_of_find?_eq_some hf⟩

-- Contents and time of change are seen together, as those of one file, or not at all.
theorem file_or_fault (store : FileStore) (path : String) :
    (∃ contents modified, store.HasFile contents modified ∧ store.read path = .ok contents ∧
        store.modified? path = some modified) ∨
      ∃ fault, store.read path = .error fault ∧ store.modified? path = none := by
  cases h : store.resolve path
  case error fault => exact .inr ⟨fault, by simp [read, h, bind, Except.bind], by simp [modified?, h]⟩
  case ok entry =>
    cases entry
    case directory =>
      exact .inr ⟨.isDirectory, by simp [read, h, bind, Except.bind, throw, throwThe,
        MonadExceptOf.throw], by simp [modified?, h]⟩
    case file contents modified =>
      exact .inl ⟨contents, modified, hasFile_of_resolve h,
        by simp [read, h, bind, Except.bind, pure, Except.pure], by simp [modified?, h]⟩

theorem hasFile_of_put (h : (store.put place entry).HasFile contents modified) :
    entry = .file contents modified ∨ store.HasFile contents modified := by
  obtain ⟨found, hm⟩ := h
  cases List.mem_cons.mp hm
  case inl he => exact .inl (Prod.mk.inj he).right.symm
  case inr hm => exact .inr ⟨found, (List.mem_filter.mp hm).left⟩

theorem hasFile_of_makeDirectories {pieces : List (List Char)}
    (h : (store.makeDirectories place pieces).HasFile contents modified) :
    store.HasFile contents modified := by
  induction pieces generalizing store place
  case nil => exact h
  case cons piece rest ih =>
    rw [makeDirectories] at h
    have hmade := ih h
    split at hmade
    case isTrue  => exact hmade
    case isFalse => exact (hasFile_of_put hmade).resolve_left (by simp)

theorem hasFile_of_write {bytes : List UInt8} {time : Int}
    (h : (store.write path bytes time).HasFile contents modified) :
    (contents = bytes ∧ modified = time) ∨ store.HasFile contents modified := by
  cases hasFile_of_put h
  case inl he =>
    cases he
    exact .inl ⟨rfl, rfl⟩
  case inr hd => exact .inr (hasFile_of_makeDirectories hd)

theorem hasFile_of_remove (h : (store.remove path).HasFile contents modified) :
    store.HasFile contents modified := by
  obtain ⟨found, hm⟩ := h
  exact ⟨found, (List.mem_filter.mp hm).left⟩

end FileStore

def DatedApart (actions : List Action) : Prop :=
  ∀ first second modified, .write first modified ∈ actions → .write second modified ∈ actions →
    first = second

structure FollowsFile (path : String) (turn : Turn) : Prop where
  store   : turn.after.store = turn.before.store
  answers : (∃ replaced, turn.answer = .refreshed replaced) ∨
    ∃ error, turn.answer = .failed error ∧
      Grammar.loadFile path (turn.before.store.read path) = .error error
  fresh   : ∀ replaced, turn.answer = .refreshed replaced →
    ∃ publication, turn.after.published = some publication ∧
      Grammar.loadFile path (turn.after.store.read path) = .ok publication.edition.grammar
  failed  : ∀ error, Grammar.loadFile path (turn.before.store.read path) = .error error →
    turn.answer = .failed error

namespace Service

variable {service new : Service} {actions : List Action} {action : Action} {answer : Answer}
variable {path : String} {publication : Publication}

-- Only writing makes a file, so the contents and the time of change of every file, and those that the
-- edition in service was built from, are those of some write.
structure Traces (actions : List Action) (service : Service) : Prop where
  files     : ∀ contents modified, service.store.HasFile contents modified →
    .write contents modified ∈ actions
  published : ∀ publication, service.published = some publication →
    ∃ contents modified, .write contents modified ∈ actions ∧ publication.modified = some modified ∧
      Grammar.loadFile service.path (.ok contents) = .ok publication.edition.grammar

theorem Traces.mono {more : List Action} (h : service.Traces actions)
    (hsub : ∀ action ∈ actions, action ∈ more) : service.Traces more where
  files contents modified hf := hsub _ (h.files contents modified hf)
  published publication hp := by
    have ⟨contents, modified, hw, hrest⟩ := h.published publication hp
    exact ⟨contents, modified, hsub _ hw, hrest⟩

theorem Traces.build (h : service.Traces actions)
    (hbuild : Publication.build service.path service.built service.view = .ok publication) :
    ∃ contents modified, .write contents modified ∈ actions ∧ publication.modified = some modified ∧
      Grammar.loadFile service.path (.ok contents) = .ok publication.edition.grammar := by
  obtain ⟨hload, _, hmodified⟩ := loadFile_of_build hbuild
  simp only [view, FileStore.view] at hload hmodified
  obtain ⟨contents, modified, hfile, hread, htime⟩ | ⟨fault, hread, _⟩ :=
    service.store.file_or_fault service.path
  · rw [hread] at hload
    exact ⟨contents, modified, h.files contents modified hfile, hmodified.trans htime, hload⟩
  · simp [hread, Grammar.loadFile] at hload

theorem Step.traces (h : service.Step action answer new) (ht : service.Traces actions) :
    new.Traces (actions ++ [action]) := by
  have hmore : service.Traces (actions ++ [action]) := ht.mono fun _ => List.mem_append_left _
  cases h
  case write contents modified =>
    refine ⟨fun bytes time hf => ?_, hmore.published⟩
    cases FileStore.hasFile_of_write hf
    case inl he => simp [he]
    case inr hf => exact hmore.files bytes time hf
  case remove =>
    exact ⟨fun bytes time hf => hmore.files bytes time (FileStore.hasFile_of_remove hf), hmore.published⟩
  case build publication hbuild _ =>
    refine ⟨hmore.files, fun other hp => ?_⟩
    cases hp
    exact hmore.build hbuild
  all_goals exact ⟨hmore.files, hmore.published⟩

theorem traces_run : ((Service.new path).run actions).Traces actions := by
  induction actions using List.reverseRecOn
  case nil => exact ⟨by simp [FileStore.HasFile, Service.new, FileStore.empty], by simp [Service.new]⟩
  case append_singleton actions action ih =>
    rw [run_concat]
    exact (((Service.new path).run actions).step_act action).traces ih

-- A time of change that is still the same belongs to the contents that were built.
theorem Traces.load_of_isUpToDate (h : service.Traces actions) (ha : DatedApart actions)
    (hp : service.published = some publication) (hsame : publication.isUpToDate service.view) :
    Grammar.loadFile service.path (service.store.read service.path) =
      .ok publication.edition.grammar := by
  obtain ⟨hsome, he⟩ : (service.store.modified? service.path).isSome ∧
      service.store.modified? service.path = publication.modified := by
    simpa [Publication.isUpToDate, view, FileStore.view] using hsame
  obtain ⟨contents, modified, hfile, hread, htime⟩ | ⟨fault, _, hnone⟩ :=
    service.store.file_or_fault service.path
  · obtain ⟨built, time, hwritten, hbuilt, hload⟩ := h.published publication hp
    obtain rfl : modified = time := Option.some.inj (htime.symm.trans (he.trans hbuilt))
    obtain rfl := ha contents built modified (h.files contents modified hfile) hwritten
    exact hread ▸ hload
  · simp [hnone] at hsome

theorem Step.refresh_cases (h : service.Step .refresh answer new) (ht : service.Traces actions)
    (ha : DatedApart actions) (hs : service.published ≠ none) :
    (∃ replaced publication, answer = .refreshed replaced ∧ new.published = some publication ∧
        Grammar.loadFile service.path (service.store.read service.path) =
          .ok publication.edition.grammar) ∨
      ∃ error, answer = .failed error ∧
        Grammar.loadFile service.path (service.store.read service.path) = .error error := by
  cases h
  case build publication hbuild announced =>
    cases announced
    exact .inl ⟨true, publication, rfl, rfl, (loadFile_of_build hbuild).left⟩
  case upToDate publication hp hsame =>
    exact .inl ⟨false, publication, rfl, hp, ht.load_of_isUpToDate ha hp hsame⟩
  case failed error hload => exact .inr ⟨error, rfl, hload⟩
  case notStarted hidle   => exact absurd hidle hs

theorem Step.store_of_refresh (h : service.Step .refresh answer new) : new.store = service.store := by
  cases h <;> rfl

-- Only the times of change are compared, but that is enough where they tell the contents apart.
theorem followsFile_of_refresh (path : String) {actions : List Action} (h : DatedApart actions) :
    ∀ turn ∈ (Service.new path).turns actions, turn.action = .refresh → turn.before.published ≠ none →
      FollowsFile path turn := by
  intro turn hm hrefresh hs
  obtain ⟨earlier, action, later, rfl, rfl⟩ := exists_of_mem_turns hm
  obtain rfl : action = .refresh := hrefresh
  have hstep := ((Service.new path).run earlier).step_act .refresh
  have htraces : ((Service.new path).run earlier).Traces (earlier ++ .refresh :: later) :=
    traces_run.mono fun _ => List.mem_append_left _
  have hpath : ((Service.new path).run earlier).path = path := path_run
  have hstore := hstep.store_of_refresh
  have hcases := hstep.refresh_cases htraces h hs
  rw [hpath] at hcases
  obtain ⟨replaced, publication, hanswer, hp, hload⟩ | ⟨error, hanswer, hload⟩ := hcases
  case inl =>
    refine ⟨hstore, .inl ⟨replaced, hanswer⟩, fun _ _ => ⟨publication, hp, ?_⟩, fun error he => ?_⟩
    · exact (congrArg (Grammar.loadFile path <| ·.read path) hstore).trans hload
    · cases hload.symm.trans he
  case inr =>
    refine ⟨hstore, .inr ⟨error, hanswer, hload⟩, fun replaced he => ?_, fun other he => ?_⟩
    · cases hanswer.symm.trans he
    · cases hload.symm.trans he
      exact hanswer

-- A file that is broken, removed and put back as it was, between refreshes.
theorem followsFile_of_broken_and_restored :
    ∃ actions, actions =
        [.write (encode "S → a") 1, .start, .refresh, .write (encode "S → B") 2, .refresh, .refresh,
          .remove, .refresh, .write (encode "S → a") 1, .refresh, .write (encode "S → b") 3, .refresh] ∧
      DatedApart actions ∧
      ((Service.new "g").turns actions).map Turn.answer =
        [.done, .started, .refreshed false, .done,
          .failed ⟨⟨some "g", 1⟩, .undefinedNonterminal "B"⟩,
          .failed ⟨⟨some "g", 1⟩, .undefinedNonterminal "B"⟩,
          .done, .failed ⟨⟨some "g", 0⟩, .unreadable .notFound⟩,
          .done, .refreshed false, .done, .refreshed true] ∧
      ∀ turn ∈ (Service.new "g").turns actions, turn.action = .refresh → turn.before.published ≠ none →
        FollowsFile "g" turn := by
  refine ⟨_, rfl, ?_⟩
  have hapart : DatedApart
      [.write (encode "S → a") 1, .start, .refresh, .write (encode "S → B") 2, .refresh, .refresh,
        .remove, .refresh, .write (encode "S → a") 1, .refresh, .write (encode "S → b") 3, .refresh] := by
    intro first second modified h₁ h₂
    simp only [List.mem_cons, Action.write.injEq, reduceCtorEq, List.not_mem_nil, or_false, false_or]
      at h₁ h₂
    grind
  exact ⟨hapart, by decide +kernel, followsFile_of_refresh "g" hapart⟩

end Service
end LineGrammar
