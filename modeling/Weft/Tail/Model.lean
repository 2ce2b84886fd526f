import Weft.Lib.Machine

/-! A client's tail of a workflow's events over a live socket: on every connect the persisted
history is fetched and what lies past the watermark is emitted, and the live frames that came in
meanwhile are emitted except for those that the replayed history seems to hold. An event of the
workflow is named by its place in the sequence of its events; the history is the beginning of
that sequence that is persisted. -/

namespace Weft.Tail

open Weft.Lib

universe u

variable {δ : Type u}

structure WorkflowEvent (δ : Type u) where
  type : String
  data : δ

def WORKFLOW_TERMINAL_EVENT_TYPES : List String :=
  ["workflow:completed", "workflow:failed", "workflow:cancelled", "workflow:timed-out"]

section Overlap

variable (stringify : δ → String)

/-- Timestamps are not compared. -/
def eventsEqual (a b : WorkflowEvent δ) : Bool :=
  a.type == b.type && stringify a.data == stringify b.data

variable {α : Type*}

/-- The frames that no entry of the history cancels; an entry that has cancelled one is taken out
of the searches that follow. -/
def dropOverlappingLiveFrames (equal : α → α → Bool) : List α → List α → List α
  | _, [] => []
  | history, live :: buffered =>
      if history.any fun historic => equal historic live then
        dropOverlappingLiveFrames equal (history.eraseP fun historic => equal historic live)
          buffered
      else live :: dropOverlappingLiveFrames equal history buffered

end Overlap

/-- The current socket, with the frames that were received on it. -/
structure Socket where
  opened : Bool
  received : List Nat
deriving DecidableEq, Repr

/-- How far the fetch of a catch-up has come: the history that the server answered with is given
by its length. -/
inductive Fetch where
  | requested
  | answered (length : Nat)
deriving DecidableEq, Repr

def Fetch.length : Fetch → Option Nat
  | .requested => none
  | .answered length => some length

structure CatchUp where
  generation : Nat
  fetch : Fetch
deriving DecidableEq, Repr

structure Subscription where
  /-- How many events the server has persisted. -/
  persisted : Nat
  socket : Option Socket
  historyWatermark : Nat
  reconnectAttempts : Nat
  maxReconnectAttempts : Nat
  reconnectTimer : Bool
  /-- `#catchUpInFlight`, with what the running catch-up has pinned. -/
  catchUp : Option CatchUp
  pendingLive : List Nat
  connectGeneration : Nat
  closed : Bool
  emitted : List Nat
  /-- The history that the last successful catch-up of the current socket has fetched; the code
  keeps no such field. -/
  caughtUp : Option Nat
deriving DecidableEq, Repr

inductive Step where
  | persist
  /-- The reconnect timer fires; the factory may throw. -/
  | connect (throws : Bool)
  | socketOpen
  | drop
  /-- A frame arrives on the open socket. -/
  | live (event : Nat)
  /-- The server answers the fetch. -/
  | answer
  /-- The fetch settles at the client, and the catch-up runs to its end. -/
  | settle (succeeds : Bool)
  | close
deriving DecidableEq, Repr

/-- A new subscription, to a workflow with some events persisted; the socket is being opened. -/
def subscribe (persisted maxReconnectAttempts : Nat) : Subscription where
  persisted := persisted
  socket := some ⟨false, []⟩
  historyWatermark := 0
  reconnectAttempts := 0
  maxReconnectAttempts := maxReconnectAttempts
  reconnectTimer := false
  catchUp := none
  pendingLive := []
  connectGeneration := 0
  closed := false
  emitted := []
  caughtUp := none

namespace Subscription

def terminate (s : Subscription) : Subscription :=
  if s.closed then s
  else { s with closed := true, socket := none, reconnectTimer := false, caughtUp := none }

def scheduleReconnect (s : Subscription) : Subscription :=
  if s.closed then s
  else if s.maxReconnectAttempts ≤ s.reconnectAttempts then s.terminate
  else { s with reconnectAttempts := s.reconnectAttempts + 1, reconnectTimer := true }

def handleSocketDrop (s : Subscription) : Subscription :=
  ({ s with socket := none, caughtUp := none } : Subscription).scheduleReconnect

/-- `#catchUp` up to the request of the history. -/
def startCatchUp (s : Subscription) : Subscription :=
  if s.catchUp.isSome || s.closed then s
  else { s with catchUp := some ⟨s.connectGeneration, .requested⟩ }

section Emit

variable (events : Nat → WorkflowEvent δ) (stringify : δ → String)

def isTerminal (event : Nat) : Bool :=
  WORKFLOW_TERMINAL_EVENT_TYPES.contains (events event).type

def emit (s : Subscription) (event : Nat) : Subscription :=
  if s.closed then s
  else
    let told := { s with emitted := s.emitted ++ [event] }
    if isTerminal events event then told.terminate else told

def emitAll (s : Subscription) (given : List Nat) : Subscription :=
  given.foldl (emit events) s

def deliverLive (s : Subscription) (event : Nat) : Subscription :=
  if s.catchUp.isSome then { s with pendingLive := s.pendingLive ++ [event] }
  else s.emit events event

/-- The persisted entries that a catch-up replays. -/
def newHistory (s : Subscription) (length : Nat) : List Nat :=
  if length < s.historyWatermark then List.range length
  else (List.range length).drop s.historyWatermark

def equal (i j : Nat) : Bool := eventsEqual stringify (events i) (events j)

/-- The emissions of `#reconcileHistory`; a failed fetch replays nothing. -/
def replay (s : Subscription) (history : Option Nat) : Subscription :=
  let replayed := s.newHistory (history.getD 0)
  ({ s with pendingLive := [] } : Subscription).emitAll events
    (replayed ++ dropOverlappingLiveFrames (equal events stringify) replayed s.pendingLive)

/-- `#reconcileHistory` from the settled fetch on: `history` is the length of the fetched history,
where the fetch succeeded. -/
def reconcileHistory (s : Subscription) (generation : Nat) (history : Option Nat) :
    Bool × Subscription :=
  if s.closed then (false, s)
  else if generation ≠ s.connectGeneration then (false, s)
  else
    let told := s.replay events stringify history
    (history.isSome, { told with historyWatermark := history.getD told.historyWatermark })

/-- The `finally` of `#catchUp`. -/
def finishCatchUp (s : Subscription) (generation : Nat) (succeeded : Bool) : Subscription :=
  let settled := { s with catchUp := none }
  if !s.closed && generation ≠ s.connectGeneration then settled.startCatchUp
  else if succeeded && s.socket.isSome then { settled with reconnectAttempts := 0 }
  else settled

/-- The history that a successful catch-up of an open socket has fetched is noted. -/
def noteCaughtUp (s : Subscription) (succeeded : Bool) (history : Option Nat) : Subscription :=
  if succeeded && s.socket.any Socket.opened then { s with caughtUp := history } else s

def settle (s : Subscription) (generation : Nat) (history : Option Nat) : Subscription :=
  let reconciled := s.reconcileHistory events stringify generation history
  (reconciled.2.noteCaughtUp reconciled.1 history).finishCatchUp generation reconciled.1

def step (s : Subscription) : Step → Option Subscription
  | .persist => some { s with persisted := s.persisted + 1 }
  | .connect throws =>
      if s.reconnectTimer then
        let fired := { s with reconnectTimer := false }
        if throws then some fired.scheduleReconnect
        else some { fired with socket := some ⟨false, []⟩, caughtUp := none }
      else none
  | .socketOpen =>
      match s.socket with
      | some ⟨false, received⟩ =>
          let opened := { s with
            socket := some ⟨true, received⟩
            connectGeneration := s.connectGeneration + 1
            caughtUp := none }
          some opened.startCatchUp
      | _ => none
  | .drop => if s.socket.isSome then some s.handleSocketDrop else none
  | .live event =>
      match s.socket with
      | some ⟨true, received⟩ =>
          -- the frames of a socket come in the order of the events
          if received.all fun earlier => earlier < event then
            let heard := { s with socket := some ⟨true, received ++ [event]⟩ }
            some (heard.deliverLive events event)
          else none
      | _ => none
  | .answer =>
      match s.catchUp with
      | some ⟨generation, .requested⟩ =>
          some { s with catchUp := some ⟨generation, .answered s.persisted⟩ }
      | _ => none
  | .settle succeeds =>
      match s.catchUp, succeeds with
      | some ⟨generation, .answered length⟩, true =>
          some (s.settle events stringify generation (some length))
      | some ⟨generation, _⟩, false => some (s.settle events stringify generation none)
      | _, _ => none
  | .close => some s.terminate

end Emit

end Subscription

open Subscription

def machine (events : Nat → WorkflowEvent δ) (stringify : δ → String) :
    Machine Subscription Step :=
  ⟨fun s event => s.step events stringify event⟩

/-- Whenever a catch-up has succeeded for the current socket and none is in flight, the history it
fetched and the frames that the socket has received have all been emitted. -/
def NothingLost (s : Subscription) : Prop :=
  ∀ length ∈ s.caughtUp, s.catchUp = none → ∀ socket ∈ s.socket,
    (∀ event < length, event ∈ s.emitted) ∧ ∀ event ∈ socket.received, event ∈ s.emitted

/-- Before each buffered frame that the fetched history does not hold, there are at least as many
buffered frames equal to it as the history replays entries equal to it. -/
def Distinguished (events : Nat → WorkflowEvent δ) (stringify : δ → String) (s : Subscription)
    (length : Nat) : Prop :=
  ∀ k < s.pendingLive.length, ∀ frame ∈ s.pendingLive[k]?, length ≤ frame →
    (s.newHistory length).countP (fun entry => equal events stringify entry frame) ≤
      (s.pendingLive.take k).countP fun earlier => equal events stringify earlier frame

/-- A fetch that succeeds for the current connection finds every overlap told apart from a new
frame. -/
def Apart (events : Nat → WorkflowEvent δ) (stringify : δ → String) (s : Subscription) :
    Step → Prop
  | .settle true => ∀ catchUp ∈ s.catchUp, catchUp.generation = s.connectGeneration →
      ∀ length ∈ catchUp.fetch.length, Distinguished events stringify s length
  | _ => True

section

variable (events : Nat → WorkflowEvent δ) (stringify : δ → String)

instance decidableDistinguished (s : Subscription) (length : Nat) :
    Decidable (Distinguished events stringify s length) :=
  inferInstanceAs (Decidable (∀ k < s.pendingLive.length, ∀ frame ∈ s.pendingLive[k]?,
    length ≤ frame →
      (s.newHistory length).countP (fun entry => equal events stringify entry frame) ≤
        (s.pendingLive.take k).countP fun earlier => equal events stringify earlier frame))

instance decidableApart (s : Subscription) :
    (event : Step) → Decidable (Apart events stringify s event)
  | .settle true =>
      inferInstanceAs (Decidable (∀ catchUp ∈ s.catchUp,
        catchUp.generation = s.connectGeneration →
          ∀ length ∈ catchUp.fetch.length, Distinguished events stringify s length))
  | .settle false => isTrue trivial
  | .persist => isTrue trivial
  | .connect _ => isTrue trivial
  | .socketOpen => isTrue trivial
  | .drop => isTrue trivial
  | .live _ => isTrue trivial
  | .answer => isTrue trivial
  | .close => isTrue trivial

end

end Weft.Tail
