import LineGrammar.FileStore
import LineGrammar.Load

/-!
A grammar in service. It is loaded from one file. When the file is loaded again it is replaced, but
only by a grammar that is sound: if loading fails, the one before stays in service.
-/

namespace LineGrammar

-- A grammar that was built, and how many were built before it. Two editions may hold the same
-- grammar, but no two have the same number.
structure Edition where
  number : Nat
  grammar : Grammar
  deriving DecidableEq, Repr

structure Publication where
  edition : Edition
  modified : Option Int
  deriving DecidableEq, Repr

namespace Publication

def build (path : String) (before : Nat) (view : FileView) : Except GrammarError Publication := do
  return ⟨⟨before, ← Grammar.loadFile path view.contents⟩, view.modified⟩

def isUpToDate (publication : Publication) (view : FileView) : Bool :=
  view.modified.isSome && view.modified == publication.modified

def rebuildNotes (path : String) (view : FileView) : List Note :=
  Grammar.loadFileNotes path view.contents ++
    match Grammar.loadFile path view.contents with
    | .ok _        => [.published path]
    | .error error => [.keepingPrevious path error]

end Publication

-- The grammar in service for one file, among all that has happened to the file so far. An edition
-- can be put aside, and whoever did so keeps it whatever is published later.
structure Service where
  path : String
  store : FileStore
  published : Option Publication
  held : Option Edition
  built : Nat
  deriving DecidableEq, Repr

inductive Action
  | write (contents : List UInt8) (modified : Int)
  | remove
  | start
  | reload
  | refresh
  | current
  | hold
  deriving DecidableEq, Repr

inductive Answer
  | done
  | started
  | reloaded (edition : Edition)
  | refreshed (replaced : Bool)
  | current (g : Grammar)
  | failed (error : GrammarError)
  | notStarted
  deriving DecidableEq, Repr

namespace Service

def new (path : String) : Service :=
  ⟨path, .empty, none, none, 0⟩

variable (service : Service)

def view : FileView :=
  service.store.view service.path

def publish (answer : Edition → Answer) : Answer × Service :=
  match Publication.build service.path service.built service.view with
  | .error error     => (.failed error, service)
  | .ok publication  => (answer publication.edition,
      { service with published := some publication, built := service.built + 1 })

def ifStarted (f : Publication → Answer × Service) : Answer × Service :=
  match service.published with
  | none             => (.notStarted, service)
  | some publication => f publication

def act : Action → Answer × Service
  | .write contents modified =>
    (.done, { service with store := service.store.write service.path contents modified })
  | .remove  => (.done, { service with store := service.store.remove service.path })
  | .start   => service.publish fun _ => .started
  | .reload  => service.ifStarted fun _ => service.publish .reloaded
  | .refresh => service.ifStarted fun publication =>
    if publication.isUpToDate service.view then (.refreshed false, service)
    else service.publish fun _ => .refreshed true
  | .current => service.ifStarted fun publication => (.current publication.edition.grammar, service)
  | .hold    => service.ifStarted fun publication =>
    (.done, { service with held := some publication.edition })

def notes (action : Action) : List Note :=
  match action, service.published with
  | .start,   _      => Grammar.loadFileNotes service.path service.view.contents
  | .reload,  some _ => Publication.rebuildNotes service.path service.view
  | .refresh, some publication =>
    if publication.isUpToDate service.view then []
    else Publication.rebuildNotes service.path service.view
  | _,        _      => []

def editionInService : Option Edition :=
  service.published.map Publication.edition

def holdsCurrent : Bool :=
  match service.held, service.editionInService with
  | some held, some current => held.number == current.number
  | _,         _            => false

end Service
end LineGrammar
