import ActixSend.Primitive

/-! # Requests

The calls of an address that put messages into the channels, and the
`ActorStream`, from the caller's side. A call is a future: creating it, each
poll and dropping it are actions of their own.
-/

namespace ActixSend

variable {A : Actor}

inductive RequestAct (A : Actor)
  | call (a : Nat) (req : Request A)
  | broadcast (a : Nat) (msg : A.Message)
  | doSend (a : Nat) (msg : A.Message)
  | doRun (a : Nat) (fut : A.Future)
  | send (c : Nat)
  | timeout (c : Nat)
  | receive (c : Nat)
  | abandon (c : Nat)
  | stream (a : Nat)
  | item (st : Nat) (msg : A.Message)
  | dropStream (st : Nat)
  | cancel (c : Nat)

namespace State

def newCall (s : State A) (address : Option Nat) (req : Request A) (phase : CallPhase A) :
    State A :=
  { s with calls := s.calls ++ [⟨address, req, phase⟩] }

def isRequest : Request A → Bool
  | .entry _ _ _ => false
  | .item _ _ => false
  | _ => true

def call (s : State A) (a : Nat) (req : Request A) : Option (State A) :=
  match s.addresses[a]? with
  | some addr =>
    if addr.isLive && isRequest req then some (s.newCall (some a) req .sending) else none
  | none => none

/-- `Address::broadcast` on an address with a group: one future for each of the
group's senders. Without a group it returns `Err(Broadcast)` at once. -/
def broadcast (s : State A) (a : Nat) (msg : A.Message) : Option (State A) :=
  match s.addresses[a]? with
  | some addr =>
    match addr.txSubs with
    | some group =>
      if addr.isLive then
        some { s with
          calls := s.calls ++ group.map fun chan =>
            ⟨some a, .entry s.calls.length chan msg, .sending⟩ }
      else none
    | none => none
  | none => none

/-- `do_send` and `do_run` spawn a task that owns a sender of its own. -/
def spawnSend (s : State A) (a : Nat) (msg : InstantMessage A) : Option (State A) :=
  match s.addresses[a]? with
  | some addr =>
    if addr.isLive then some { s with tasks := s.tasks ++ [.send (.instant msg)] } else none
  | none => none

def sendCall (s : State A) (c : Nat) : Option (State A) :=
  match s.calls[c]? with
  | some call =>
    match call.phase with
    | .sending =>
      let chan := call.req.channel
      if !s.receiver chan then some (s.setCall c { call with phase := .done (.err .closed) })
      else if s.full chan then none
      else
        let phase := if call.req.awaitsReply then .waiting none else .done (.ok .unit)
        some ((s.enqueue chan (call.req.message c)).setCall c { call with phase := phase })
    | _ => none
  | none => none

/-- The deadline of `timeout`, which polls the send future before it looks at
the clock. -/
def timeoutCall (s : State A) (c : Nat) : Option (State A) :=
  match s.calls[c]? with
  | some call =>
    match call.phase with
    | .sending =>
      if s.receiver call.req.channel && s.full call.req.channel then
        some (s.setCall c { call with phase := .done (.err .timeout) })
      else none
    | _ => none
  | none => none

/-- A stream whose item got its answer polls its inner stream again. -/
def resumeStream (s : State A) : Request A → State A
  | .item st _ => { s with streams := s.streams.set st .next }
  | _ => s

def receiveCall (s : State A) (c : Nat) : Option (State A) :=
  match s.calls[c]? with
  | some call =>
    match call.phase with
    | .waiting (some reply) =>
      some ((s.setCall c { call with phase := .done (call.req.answer reply) }).resumeStream
        call.req)
    | .waiting none =>
      if s.oneShotSender c then none
      else some ((s.setCall c { call with phase := .done (.err .canceled) }).resumeStream call.req)
    | _ => none
  | none => none

def abandonCall (s : State A) (c : Nat) : Option (State A) :=
  match s.calls[c]? with
  | some call =>
    if call.pending && call.address.isSome then some (s.setCall c { call with phase := .abandoned })
    else none
  | none => none

def sendStream (s : State A) (a : Nat) : Option (State A) :=
  match s.addresses[a]? with
  | some addr => if addr.isLive then some { s with streams := s.streams ++ [.next] } else none
  | none => none

/-- A poll of an `ActorStream` whose inner stream has an item ready. -/
def streamItem (s : State A) (st : Nat) (msg : A.Message) : Option (State A) :=
  match s.streams[st]? with
  | some .next =>
    let c := s.calls.length
    if s.receiver 0 then
      some {
        (s.enqueue 0 ((Request.item st msg).message c)).newCall none (.item st msg) (.waiting none)
        with streams := s.streams.set st (.last c) }
    else some (s.newCall none (.item st msg) (.done (.err .closed)))
  | _ => none

def dropStream (s : State A) (st : Nat) : Option (State A) :=
  match s.streams[st]? with
  | some .next => some { s with streams := s.streams.set st .dropped }
  | some (.last c) =>
    match s.calls[c]? with
    | some call =>
      some { s.setCall c { call with phase := .abandoned } with
        streams := s.streams.set st .dropped }
    | none => none
  | _ => none

/-- A caller cancels the interval future whose handler it was given. -/
def cancelCall (s : State A) (c : Nat) : Option (State A) :=
  match s.calls[c]? with
  | some call =>
    match call.phase with
    | .done (.ok (.handler h)) => some (s.cancelHandler h)
    | _ => none
  | none => none

def requestStep (s : State A) : RequestAct A → Option (State A)
  | .call a req => s.call a req
  | .broadcast a msg => s.broadcast a msg
  | .doSend a msg => s.spawnSend a (.static none msg)
  | .doRun a fut => s.spawnSend a (.dynamic none fut)
  | .send c => s.sendCall c
  | .timeout c => s.timeoutCall c
  | .receive c => s.receiveCall c
  | .abandon c => s.abandonCall c
  | .stream a => s.sendStream a
  | .item st msg => s.streamItem st msg
  | .dropStream st => s.dropStream st
  | .cancel c => s.cancelCall c

end State

end ActixSend
