import AlbumIndex.Load.Walk

/-!
# Loads shared by a crew

Loading a folder takes long, so a load is shared.  A crew has one coordinator, who keeps the folders
that are still to be loaded, and some workers.  Folders go out to the workers through one channel
and come back, loaded, through another; first in is first out, and neither channel holds more than
there are workers.  The coordinator hands out folders as long as there are any and the channel has
room.  Otherwise it waits for one folder to come back, and puts the folders below it at the end of
those still to be loaded.  When nothing is outstanding any more, the work is done.

Who is faster than whom is left open: a crew at work goes from state to state by any of the steps
that are possible.  `Loader.walk` is what comes of it when one folder after the other is loaded.

## Main definitions

* `Found` — what a request comes to, and the requests that follow from it.
* `Crew`, `Crew.start` — the state of a crew, and its state before the first step.
* `Crew.Step` — the steps that are possible.
* `Loader.answer` — the requests of a load and what they come to.
* `Crew.outcome` — what a crew has brought home.
-/

namespace AlbumIndex

open Calendar Disk

/-! ### Crews -/

/-- What a request comes to, and the requests that follow from it. -/
structure Found (α β : Type) where
  result : β
  further : List α

/-- A request and its answer; a request that fails has none. -/
abbrev Answered (α β : Type) := α × Option (Found α β)

/-- A worker of a crew. -/
inductive Worker (α : Type) where
  /-- The worker waits for a request. -/
  | idle
  /-- The worker sees to a request, or waits for room to give the answer back. -/
  | busy (request : α)

/-- A crew at work. -/
structure Crew (α β : Type) where
  /-- The requests still to be handed out, the next one first. -/
  pending : List α
  /-- The number of requests without an answer that the coordinator has taken. -/
  outstanding : Nat
  /-- The coordinator waits for an answer. -/
  waiting : Bool
  /-- The requests on their way out. -/
  outgoing : List α
  workers : List (Worker α)
  /-- The answers on their way back. -/
  incoming : List (Answered α β)
  /-- The answers that the coordinator has taken, the first one first. -/
  taken : List (Answered α β)

namespace Crew

variable {α β : Type}

/-- The number of entries that a channel holds at most. -/
def capacity (c : Crew α β) : Nat := c.workers.length

/-- A crew of so many workers before its first step, with one request. -/
def start (workers : Nat) (request : α) : Crew α β :=
  { pending := [request], outstanding := 1, waiting := false, outgoing := []
    workers := List.replicate workers .idle, incoming := [], taken := [] }

/-- The requests that workers see to. -/
def held (c : Crew α β) : List α :=
  c.workers.filterMap fun
    | .idle => none
    | .busy request => some request

/-- Nothing is outstanding any more. -/
def IsDone (c : Crew α β) : Prop := c.outstanding = 0

/-- The requests that follow from an answer; none if there is no answer. -/
def further (answer : Option (Found α β)) : List α := (answer.map Found.further).getD []

/-- The steps of a crew that answers requests by `answer`. -/
inductive Step (answer : α → Option (Found α β)) : Crew α β → Crew α β → Prop where
  /-- The coordinator hands out the next request. -/
  | handOut {c : Crew α β} {request : α} {rest : List α} (work : 0 < c.outstanding)
      (ready : c.waiting = false) (next : c.pending = request :: rest)
      (room : c.outgoing.length < c.capacity) :
      Step answer c { c with pending := rest, outgoing := c.outgoing ++ [request] }
  /-- The coordinator has nothing to hand out, or no room for it, and begins to wait. -/
  | wait {c : Crew α β} (work : 0 < c.outstanding) (ready : c.waiting = false)
      (blocked : c.pending = [] ∨ c.capacity ≤ c.outgoing.length) :
      Step answer c { c with waiting := true }
  /-- The coordinator takes an answer. -/
  | takeAnswer {c : Crew α β} {a : Answered α β} {rest : List (Answered α β)}
      (waits : c.waiting = true) (next : c.incoming = a :: rest) :
      Step answer c
        { c with
          pending := c.pending ++ further a.2
          outstanding := c.outstanding - 1 + (further a.2).length
          waiting := false
          incoming := rest
          taken := c.taken ++ [a] }
  /-- An idle worker takes a request. -/
  | takeRequest {c : Crew α β} {request : α} {rest : List α} {worker : Nat}
      (idle : c.workers[worker]? = some .idle) (next : c.outgoing = request :: rest) :
      Step answer c
        { c with outgoing := rest, workers := c.workers.set worker (.busy request) }
  /-- A busy worker gives the answer back. -/
  | giveBack {c : Crew α β} {request : α} {worker : Nat}
      (busy : c.workers[worker]? = some (.busy request)) (room : c.incoming.length < c.capacity) :
      Step answer c
        { c with
          workers := c.workers.set worker .idle
          incoming := c.incoming ++ [(request, answer request)] }

end Crew

/-! ### The requests of a load -/

/-- The answer to a request, with the snapshots found on the disk when the load begins.  A folder
that cannot be listed, or whose times or album the calendar does not have, has none. -/
def Loader.answer (l : Loader) (force : Bool) (tree : FileTree) (request : FolderRequest) :
    Option (Found FolderRequest FolderLoad) :=
  match request.modified, tree.list (folderPath l.originals request.rel) with
  | some time, .ok entries =>
    match l.loadFolder force request.rel time.round entries (l.store.read tree request.rel) with
    | .ok f => some ⟨f, (FileTimes.empty.record request.rel entries).requests request.rel entries⟩
    | .error _ => none
  | _, _ => none

/-- The number of workers of a configured load: at least one. -/
def crewSize (workers : Nat) : Nat := max workers 1

/-- The crew of a load before its first step. -/
def Crew.begin (workers : Nat) (rootTime : Instant) : Crew FolderRequest FolderLoad :=
  .start (crewSize workers) ⟨"", some rootTime⟩

/-- What comes of answers: the albums in the order of their index, and what is counted. -/
def outcomeOf {α : Type} (answers : List (Answered α FolderLoad)) : List Album × LoadStats :=
  let loads := answers.filterMap fun a => a.2.map Found.result
  let albums := loads.map FolderLoad.album
  (albums.mergeSort Album.le,
    ⟨albums.length, albums.foldr (fun a n => a.images.length + n) 0,
      loads.countP FolderLoad.rebuilt, answers.countP fun a => a.2.isNone⟩)

/-- What a crew has brought home. -/
def Crew.outcome {α : Type} (c : Crew α FolderLoad) : List Album × LoadStats := outcomeOf c.taken

end AlbumIndex
