import Mathlib.Algebra.GroupWithZero.Nat
import Mathlib.Logic.Function.Basic
import ActixSend.Message

/-! # The state of one actor set

Everything the handles, the spawned tasks and the contexts of one actor set
share. A reference counter of the standard library is kept by listing what
holds it, so that an object is alive while something on the list is; only the
counters the source keeps itself (`strong_count`, `active`, `next_key`) are
numbers here. Tables only grow: an entry that is gone stays in its last phase.
-/

namespace ActixSend

open Function
set_option autoImplicit false

def marker : Nat := 1

def unit : Nat := 1 <<< 1

def usizeMax : Nat := 2 ^ 64 - 1

/-- The cell a `FinisherFuture` shares with its handlers: the cancel flag and
the waker of the task that polled last. -/
structure CancelCell where
  flag : Bool
  waker : Option Nat
  deriving DecidableEq, Repr

/-- How far a call of `ActorState::shutdown` has come. -/
inductive Shutdown
  | marker
  | lock
  | cancel (rest : List FutureHandler)
  deriving DecidableEq, Repr

inductive AddressPhase
  | live
  | shutdown (pos : Shutdown)
  | fields
  | dropped
  deriving DecidableEq, Repr

/-- An `Address`. Its sender is the one of channel 0; `txSubs` lists the
channels of the broadcast group, `subs` names its subscriber list. `fields` is
the stretch between the body of `Drop::drop` and the drop of the fields. -/
structure Address where
  txSubs : Option (List Nat)
  subs : Option Nat
  phase : AddressPhase
  deriving DecidableEq, Repr

structure WeakAddress where
  txSubs : Option (List Nat)
  deriving DecidableEq, Repr

inductive UpgradePhase
  | sender
  | counted
  | returned
  | panicked
  deriving DecidableEq, Repr

/-- A call of `WeakAddress::upgrade` whose `WeakSender` did upgrade. -/
structure Upgrade where
  weak : WeakAddress
  phase : UpgradePhase
  deriving DecidableEq, Repr

section Tables
variable (A : Actor)

/-- Where a context is in `spawn_loop`. `build` is the builder's future on the
arbiter's side; `recv` awaits the next message; from `handle` to `intervalRun`
a message is in hand. -/
inductive Position
  | build
  | onStart
  | incActive
  | recv
  | handle (env : Envelope A)
  | insert (env : Envelope A) (fut : A.Future) (key : Nat)
  | pushCheck (env : Envelope A) (handler : FutureHandler)
  | pushExtend (env : Envelope A) (handler : FutureHandler)
  | reply (env : Envelope A) (tx : Nat) (handler : FutureHandler)
  | intervalRun (env : Envelope A) (index : Nat)
  | decActive
  | onStop
  | stopped
  | panicked

/-- An `ActorContext` with the receivers it owns. `starts` and `stops` count
the calls of `on_start` and `on_stop`. -/
structure Context where
  id : Nat
  generation : Nat
  rx : Nat
  selector : Option Nat
  manualShutdown : Bool
  actor : A.State
  pos : Position A
  starts : Nat
  stops : Nat

/-- The tasks spawned on the runtime besides the contexts. `send` owns a strong
sender until it is done, `delayed` until its closure is; an `interval` loop
owns one only while `holding`, between the upgrade and its send. -/
inductive Task
  | send (msg : ContextMessage A)
  | delayed (cell : Nat) (msg : InstantMessage A) (elapsed : Bool)
  | interval (cell index : Nat) (ticked holding : Bool)
  | finished

inductive CallPhase
  | sending
  | waiting (reply : Option (Reply A))
  | done (out : Outcome A)
  | abandoned

/-- A request in flight or finished; its index is the number of its oneshot.
`address` is the `Address` it borrows. -/
structure Call where
  address : Option Nat
  req : Request A
  phase : CallPhase A

/-- `ActorStreamState`; `last` names the request whose reply is awaited. -/
inductive StreamPhase
  | next
  | last (call : Nat)
  | dropped
  deriving DecidableEq

/-- One run of `handle_msg` to its end. -/
structure Handled where
  context : Nat
  env : Envelope A
  reply : Option (Reply A)

structure Taken where
  context : Nat
  chan : Nat
  env : Envelope A

/-- `accepted`, `taken` and `handled` record what has happened and are read by
no step. -/
structure State where
  cfg : Config
  strongCount : Nat
  addresses : List Address
  weaks : List WeakAddress
  upgrades : List Upgrade
  cap : Nat → Option Nat
  queue : Nat → List (Envelope A)
  nextId : Nat
  active : Nat
  handlers : List FutureHandler
  handlersLocked : Bool
  cells : List CancelCell
  nextKey : Nat
  futures : Nat → Option A.Future
  futuresLock : Option Nat
  contexts : List (Context A)
  calls : List (Call A)
  streams : List StreamPhase
  tasks : List (Task A)
  accepted : List (Nat × Envelope A)
  taken : List (Taken A)
  handled : List (Handled A)

end Tables

variable {A : Actor}

/-- The message a context has taken out of a channel and not finished. -/
def Position.hand : Position A → Option (Envelope A)
  | .handle env => some env
  | .insert env _ _ => some env
  | .pushCheck env _ => some env
  | .pushExtend env _ => some env
  | .reply env _ _ => some env
  | .intervalRun env _ => some env
  | _ => none

/-- The context runs its receive loop, from its `inc_active` to its `dec_active`. -/
def Position.inLoop : Position A → Bool
  | .recv => true
  | .decActive => true
  | pos => pos.hand.isSome

def Position.gone : Position A → Bool
  | .stopped => true
  | .panicked => true
  | _ => false

def Context.receives (c : Context A) (chan : Nat) : Bool :=
  !c.pos.gone && (c.rx == chan || c.selector == some chan)

def Task.holdsSender : Task A → Bool
  | .send _ => true
  | .delayed _ _ _ => true
  | .interval _ _ _ holding => holding
  | .finished => false

def Upgrade.holdsSender (u : Upgrade) : Bool :=
  u.phase == .sender || u.phase == .counted

def Address.isLive (a : Address) : Bool := a.phase == .live

/-- The fields of the address have not been dropped yet. -/
def Address.holdsFields (a : Address) : Bool := a.phase != .dropped

def Address.inGroup (a : Address) (chan : Nat) : Bool :=
  a.holdsFields && a.txSubs.any fun group => group.contains chan

def Call.pending (c : Call A) : Bool :=
  match c.phase with
  | .sending => true
  | .waiting _ => true
  | _ => false

namespace State

/-- Some strong `Sender` of the shared channel is alive. -/
def sharedSender (s : State A) : Bool :=
  s.addresses.any Address.holdsFields || s.upgrades.any Upgrade.holdsSender ||
    s.streams.any (fun st => st != .dropped) || s.tasks.any Task.holdsSender

/-- Some sender of the channel is alive; only the addresses hold the group. -/
def sender (s : State A) (chan : Nat) : Bool :=
  if chan = 0 then s.sharedSender else s.addresses.any fun a => a.inGroup chan

/-- Some receiver of the channel is alive, so that it accepts messages. -/
def receiver (s : State A) (chan : Nat) : Bool :=
  s.contexts.any fun c => c.receives chan

def full (s : State A) (chan : Nat) : Bool :=
  (s.cap chan).any fun cap => cap ≤ (s.queue chan).length

/-- A receiver of the channel sees its end. -/
def ended (s : State A) (chan : Nat) : Bool :=
  (s.queue chan).isEmpty && !s.sender chan

/-- The `OneShotSender` of request `tx` is alive: with its caller, in a queue
that a sender or a receiver still keeps, or in the hand of a context. -/
def oneShotSender (s : State A) (tx : Nat) : Bool :=
  match s.calls[tx]? with
  | none => false
  | some call =>
    call.phase matches .sending ||
    ((s.sender call.req.channel || s.receiver call.req.channel) &&
      (s.queue call.req.channel).any fun env => env.msg.tx == some tx) ||
    s.contexts.any fun c => c.pos.hand.any fun env => env.msg.tx == some tx

/-- The caller of request `tx` still awaits its oneshot, and nothing has been
sent through it. -/
def oneShotOpen (s : State A) (tx : Nat) : Bool :=
  match s.calls[tx]? with
  | none => false
  | some call => call.phase matches .waiting none

def liveAddresses (s : State A) : Nat := s.addresses.countP Address.isLive

def runningContexts (s : State A) : Nat := s.contexts.countP fun c => c.pos.inLoop

def currentActive (s : State A) : Nat := s.active >>> 1

def isRunning (s : State A) : Bool := s.active &&& marker == 0

end State

end ActixSend
