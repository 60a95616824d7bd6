import Mathlib.Data.List.Basic

/-! # What an actor set is configured with and what travels through its channels

Oneshot channels are numbered by the request that made them, so a message
carries the number of its `OneShotSender`. The runtime's timers decide when a
delay or a period has passed; a period is kept because it may be zero.
-/

namespace ActixSend

set_option autoImplicit false

inductive ActixSendError
  | canceled | closed | timeout | blocking | typeCast | subscribe | broadcast
  deriving DecidableEq, Repr

structure Config where
  num : Nat
  restartOnErr : Bool
  handleDelayedOnShutdown : Bool
  allowBroadcast : Bool
  allowSubscribe : Bool
  deriving DecidableEq, Repr

def Config.default : Config where
  num := 1
  restartOnErr := false
  handleDelayedOnShutdown := false
  allowBroadcast := false
  allowSubscribe := false

/-- The user's side of an actor type. `Await` is whatever the awaits inside a
handler or a boxed future bring in, so neither has to be a function of its
arguments alone. `kind` is the message type a value of the message enum was
converted from, and `map` answers `none` where the generated code has
`unreachable!()`. -/
structure Actor where
  State : Type
  Message : Type
  Result : Type
  Kind : Type
  Output : Type
  Future : Type
  Object : Type
  Return : Type
  Await : Type
  kind : Message → Kind
  handle : State → Message → Await → State × Result
  map : Kind → Result → Option (Except ActixSendError Output)
  runFuture : State → Future → Await → State × Future × Object
  unpack : Return → Object → Option Output

/-- A small actor for concrete runs: it answers a number with itself, and a
boxed future yields the number it was made with. -/
def echoActor : Actor where
  State := Unit
  Message := Bool × Nat
  Result := Bool × Nat
  Kind := Bool
  Output := Nat
  Future := Nat
  Object := Nat
  Return := Unit
  Await := Unit
  kind := Prod.fst
  handle _ msg _ := ((), msg)
  map kind res := if res.1 = kind then some (.ok res.2) else none
  runFuture _ fut _ := ((), fut, fut)
  unpack _ obj := some obj

/-- `FutureHandler`: the cancel cell it shares with its task, and the index of
the interval future it removes. -/
structure FutureHandler where
  cell : Nat
  index : Option Nat
  deriving DecidableEq, Repr

section Messages
variable (A : Actor)

inductive InstantMessage
  | static (tx : Option Nat) (msg : A.Message)
  | dynamic (tx : Option Nat) (fut : A.Future)

inductive DelayedMessage
  | static (msg : A.Message)
  | dynamic (fut : A.Future)

inductive IntervalMessage
  | register (tx : Nat) (fut : A.Future) (dur : Nat)
  | run (index : Nat)
  | remove (index : Nat)

inductive ContextMessage
  | manualShutDown (tx : Nat)
  | instant (msg : InstantMessage A)
  | delayed (msg : DelayedMessage A)
  | interval (msg : IntervalMessage A)

/-- A message once a channel has accepted it, numbered in the order of acceptance. -/
structure Envelope where
  id : Nat
  msg : ContextMessage A

/-- What a context sends back through a oneshot. -/
inductive Reply
  | result (r : A.Result)
  | object (o : A.Object)
  | contextState (id generation : Nat)
  | handler (h : FutureHandler)

inductive Value
  | output (o : A.Output)
  | unit
  | contextState (id generation : Nat)
  | handler (h : FutureHandler)

inductive Outcome
  | ok (v : Value A)
  | err (e : ActixSendError)
  | unreachable

/-- The calls that put one message into a channel and may await one reply.
`entry` is one of the futures a broadcast collects, `item` one item of an
`ActorStream`. -/
inductive Request
  | send (msg : A.Message)
  | run (ret : A.Return) (fut : A.Future)
  | sendLater (msg : A.Message)
  | runLater (fut : A.Future)
  | runInterval (dur : Nat) (fut : A.Future)
  | closeOne
  | entry (batch chan : Nat) (msg : A.Message)
  | item (stream : Nat) (msg : A.Message)

end Messages

variable {A : Actor}

def ContextMessage.tx : ContextMessage A → Option Nat
  | .manualShutDown tx => some tx
  | .instant (.static tx _) => tx
  | .instant (.dynamic tx _) => tx
  | .delayed _ => none
  | .interval (.register tx _ _) => some tx
  | .interval (.run _) => none
  | .interval (.remove _) => none

/-- A registration whose timer cannot be made. -/
def ContextMessage.zeroPeriod : ContextMessage A → Bool
  | .interval (.register _ _ dur) => dur == 0
  | _ => false

def ContextMessage.runs (index : Nat) : ContextMessage A → Bool
  | .interval (.run k) => k == index
  | _ => false

/-- `handle_delayed_msg`: a delayed message comes back as an instant one that
nobody awaits. -/
def DelayedMessage.toInstant : DelayedMessage A → InstantMessage A
  | .static msg => .static none msg
  | .dynamic fut => .dynamic none fut

def Request.message (tx : Nat) : Request A → ContextMessage A
  | .send msg => .instant (.static (some tx) msg)
  | .run _ fut => .instant (.dynamic (some tx) fut)
  | .sendLater msg => .delayed (.static msg)
  | .runLater fut => .delayed (.dynamic fut)
  | .runInterval dur fut => .interval (.register tx fut dur)
  | .closeOne => .manualShutDown tx
  | .entry _ _ msg => .instant (.static (some tx) msg)
  | .item _ msg => .instant (.static (some tx) msg)

/-- Channel 0 is the one all contexts share. -/
def Request.channel : Request A → Nat
  | .entry _ chan _ => chan
  | _ => 0

def Request.awaitsReply : Request A → Bool
  | .sendLater _ => false
  | .runLater _ => false
  | _ => true

def Outcome.ofMap : Option (Except ActixSendError A.Output) → Outcome A
  | some (.ok o) => .ok (.output o)
  | some (.error e) => .err e
  | none => .unreachable

/-- What the caller makes of a reply: `M::map` for messages, `unpack` for boxed
futures, the value itself otherwise. The last arm stands for the pairs that the
types of the oneshot channels exclude. -/
def Request.answer : Request A → Reply A → Outcome A
  | .send msg, .result r => .ofMap (A.map (A.kind msg) r)
  | .entry _ _ msg, .result r => .ofMap (A.map (A.kind msg) r)
  | .item _ msg, .result r => .ofMap (A.map (A.kind msg) r)
  | .run ret _, .object o =>
    match A.unpack ret o with
    | some v => .ok (.output v)
    | none => .err .typeCast
  | .runInterval _ _, .handler h => .ok (.handler h)
  | .closeOne, .contextState id generation => .ok (.contextState id generation)
  | _, _ => .unreachable

@[simp] theorem DelayedMessage.toInstant_tx (msg : DelayedMessage A) :
    (ContextMessage.instant msg.toInstant).tx = none := by
  cases msg <;> rfl

theorem ContextMessage.eq_run {msg : ContextMessage A} {index : Nat}
    (h : msg.runs index = true) : msg = .interval (.run index) := by
  cases msg with
  | interval msg =>
    cases msg with
    | run k => rw [beq_iff_eq.mp h]
    | _ => cases h
  | _ => cases h

theorem Request.message_tx (req : Request A) (tx : Nat) :
    (req.message tx).tx = if req.awaitsReply then some tx else none := by
  cases req <;> rfl

end ActixSend
