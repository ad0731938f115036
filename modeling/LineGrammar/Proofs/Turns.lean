import LineGrammar.Publication
import Mathlib.Data.List.Induction

/-!
Runs of a service. What a single action can do is said here once: it changes the file, it builds an
edition and puts it into service, or it leaves the edition in service alone.
-/

namespace LineGrammar

structure Turn where
  before : Service
  action : Action
  answer : Answer
  after : Service

inductive Announces (edition : Edition) : Action → Answer → Prop
  | started   : Announces edition .start .started
  | reloaded  : Announces edition .reload (.reloaded edition)
  | refreshed : Announces edition .refresh (.refreshed true)

namespace Turn

variable {turn : Turn}

def Builds (turn : Turn) : Prop :=
  ∃ edition, Announces edition turn.action turn.answer

def Holds (turn : Turn) : Prop :=
  turn.action = .hold ∧ turn.answer = .done

end Turn

def Since (turns : List Turn) (kind other : Turn → Prop) : Prop :=
  ∃ earlier turn later, turns = earlier ++ turn :: later ∧ kind turn ∧ ∀ next ∈ later, ¬other next

theorem since_nil {kind other : Turn → Prop} : ¬Since [] kind other := by
  rintro ⟨earlier, turn, later, h, -⟩
  simp at h

theorem since_concat_iff {turns : List Turn} {turn : Turn} {kind other : Turn → Prop} :
    Since (turns ++ [turn]) kind other ↔ kind turn ∨ (Since turns kind other ∧ ¬other turn) := by
  constructor
  case mp =>
    rintro ⟨earlier, first, later, h, hk, hl⟩
    obtain rfl | ⟨later, last, rfl⟩ := later.eq_nil_or_concat
    case inl =>
      obtain ⟨-, rfl⟩ := List.append_inj' h rfl |>.imp_right List.singleton_inj.mp
      exact .inl hk
    case inr =>
      rw [List.concat_eq_append, ← List.cons_append, ← List.append_assoc] at h
      obtain ⟨rfl, rfl⟩ := List.append_inj' h rfl |>.imp_right List.singleton_inj.mp
      simp only [List.concat_eq_append, List.forall_mem_append, List.forall_mem_singleton] at hl
      exact .inr ⟨⟨earlier, first, later, rfl, hk, hl.left⟩, hl.right⟩
  case mpr =>
    rintro (hk | ⟨⟨earlier, first, later, rfl, hk, hl⟩, ho⟩)
    · exact ⟨turns, turn, [], rfl, hk, by simp⟩
    · exact ⟨earlier, first, later ++ [turn], by simp, hk,
        List.forall_mem_append.mpr ⟨hl, List.forall_mem_singleton.mpr ho⟩⟩

namespace Service

variable {service new : Service} {action : Action} {answer : Answer}

def turn (service : Service) (action : Action) : Turn :=
  ⟨service, action, (service.act action).1, (service.act action).2⟩

def run (service : Service) (actions : List Action) : Service :=
  actions.foldl (fun service action => (service.act action).2) service

def turns (service : Service) : List Action → List Turn
  | []             => []
  | action :: rest => service.turn action :: turns (service.act action).2 rest

inductive Step (service : Service) : Action → Answer → Service → Prop
  | write (contents : List UInt8) (modified : Int) :
    Step service (.write contents modified) .done
      { service with store := service.store.write service.path contents modified }
  | remove :
    Step service .remove .done { service with store := service.store.remove service.path }
  | build {action : Action} {answer : Answer} {publication : Publication}
      (built : Publication.build service.path service.built service.view = .ok publication)
      (announces : Announces publication.edition action answer) :
    Step service action answer
      { service with published := some publication, built := service.built + 1 }
  | failed {action : Action} {error : GrammarError}
      (load : Grammar.loadFile service.path (service.store.read service.path) = .error error) :
    Step service action (.failed error) service
  | upToDate {publication : Publication} (published : service.published = some publication)
      (same : publication.isUpToDate service.view) :
    Step service .refresh (.refreshed false) service
  | current {publication : Publication} (published : service.published = some publication) :
    Step service .current (.current publication.edition.grammar) service
  | hold {publication : Publication} (published : service.published = some publication) :
    Step service .hold .done { service with held := some publication.edition }
  | notStarted {action : Action} (idle : service.published = none) :
    Step service action .notStarted service

theorem loadFile_of_build {path : String} {before : Nat} {view : FileView} {publication : Publication}
    (h : Publication.build path before view = .ok publication) :
    Grammar.loadFile path view.contents = .ok publication.edition.grammar ∧
      publication.edition.number = before ∧ publication.modified = view.modified := by
  cases hload : Grammar.loadFile path view.contents
  case error => simp [Publication.build, hload, bind, Except.bind] at h
  case ok g =>
    simp only [Publication.build, hload, bind, Except.bind, pure, Except.pure, Except.ok.injEq] at h
    subst h
    exact ⟨rfl, rfl, rfl⟩

theorem loadFile_of_build_error {path : String} {before : Nat} {view : FileView} {error : GrammarError}
    (h : Publication.build path before view = .error error) :
    Grammar.loadFile path view.contents = .error error := by
  cases hload : Grammar.loadFile path view.contents
  case ok => simp [Publication.build, hload, bind, Except.bind, pure, Except.pure] at h
  case error e =>
    simp only [Publication.build, hload, bind, Except.bind, Except.error.injEq] at h
    rw [h]

theorem step_publish {answerOf : Edition → Answer}
    (h : ∀ edition, Announces edition action (answerOf edition)) :
    service.Step action (service.publish answerOf).1 (service.publish answerOf).2 := by
  unfold publish
  split
  case h_1 error hbuild => exact .failed (loadFile_of_build_error hbuild)
  case h_2 publication hbuild => exact .build hbuild (h publication.edition)

theorem step_ifStarted {f : Publication → Answer × Service}
    (h : ∀ publication, service.published = some publication →
      service.Step action (f publication).1 (f publication).2) :
    service.Step action (service.ifStarted f).1 (service.ifStarted f).2 := by
  unfold ifStarted
  split
  case h_1 hnone => exact .notStarted hnone
  case h_2 publication hsome => exact h publication hsome

theorem step_act (service : Service) (action : Action) :
    service.Step action (service.act action).1 (service.act action).2 := by
  cases action
  case write contents modified => exact .write contents modified
  case remove  => exact .remove
  case start   => exact step_publish fun _ => .started
  case reload  => exact step_ifStarted fun _ _ => step_publish fun _ => .reloaded
  case current => exact step_ifStarted fun _ h => .current h
  case hold    => exact step_ifStarted fun _ h => .hold h
  case refresh =>
    refine step_ifStarted fun publication h => ?_
    split
    case isTrue hsame => exact .upToDate h hsame
    case isFalse      => exact step_publish fun _ => .refreshed

theorem Step.path (h : service.Step action answer new) : new.path = service.path := by
  cases h <;> rfl

section

variable {actions earlier later : List Action}

@[simp]
theorem run_nil : service.run [] = service :=
  rfl

@[simp]
theorem run_append : service.run (earlier ++ later) = (service.run earlier).run later :=
  List.foldl_append

theorem run_concat : service.run (actions ++ [action]) = ((service.run actions).act action).2 := by
  rw [run_append]
  rfl

theorem turns_append :
    service.turns (earlier ++ later) = service.turns earlier ++ (service.run earlier).turns later := by
  induction earlier generalizing service
  case nil => rfl
  case cons action rest ih => rw [List.cons_append, turns, ih]; rfl

theorem turns_concat :
    service.turns (actions ++ [action]) = service.turns actions ++ [(service.run actions).turn action] := by
  rw [turns_append]
  rfl

theorem exists_of_turns_eq {before after : List Turn} {turn : Turn}
    (h : service.turns actions = before ++ turn :: after) :
    ∃ earlier action later, actions = earlier ++ action :: later ∧ before = service.turns earlier ∧
      turn = (service.run earlier).turn action ∧ after = turn.after.turns later := by
  induction before generalizing service actions
  case nil =>
    cases actions
    case nil => cases h
    case cons action rest =>
      obtain ⟨rfl, rfl⟩ := List.cons.inj h
      exact ⟨[], action, rest, rfl, rfl, rfl, rfl⟩
  case cons first before ih =>
    cases actions
    case nil => cases h
    case cons action rest =>
      obtain ⟨rfl, htail⟩ := List.cons.inj h
      obtain ⟨earlier, next, later, rfl, rfl, rfl, rfl⟩ := ih htail
      exact ⟨action :: earlier, next, later, rfl, rfl, rfl, rfl⟩

theorem exists_of_mem_turns {turn : Turn} (h : turn ∈ service.turns actions) :
    ∃ earlier action later, actions = earlier ++ action :: later ∧
      turn = (service.run earlier).turn action := by
  obtain ⟨before, after, h⟩ := List.append_of_mem h
  obtain ⟨earlier, action, later, rfl, -, rfl, -⟩ := exists_of_turns_eq h
  exact ⟨earlier, action, later, rfl, rfl⟩

theorem path_run : (service.run actions).path = service.path := by
  induction actions using List.reverseRecOn
  case nil => rfl
  case append_singleton actions action ih =>
    rw [run_concat, ((service.run actions).step_act action).path, ih]

end

end Service
end LineGrammar
