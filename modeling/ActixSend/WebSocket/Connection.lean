import ActixSend.WebSocket.Codec

/-! # A WebSocket connection

What `split_stream` makes: the decode stream inside the user's
`WebSocketStream`, the encode stream the server drains, the local queue both
share, and the channel of `WebSocketSender`. The queue and the streams live on
one thread; senders may be anywhere. Times are the numbers of a clock that
only goes forward.
-/

namespace ActixSend.WebSocket

set_option autoImplicit false

structure WsConfig (C : Codec) where
  codec : Option C.State
  heartbeat : Option Nat
  serverSendHeartbeat : Bool
  timeout : Nat

def WsConfig.default (C : Codec) : WsConfig C where
  codec := none
  heartbeat := some 5
  serverSendHeartbeat := false
  timeout := 10

inductive Poll (α : Type)
  | ready (a : α)
  | pending
  deriving DecidableEq

def Poll.isPending {α : Type} : Poll α → Bool
  | .pending => true
  | .ready _ => false

def Poll.isEnd {α : Type} : Poll (Option α) → Bool
  | .ready none => true
  | _ => false

theorem Poll.eq_pending {α : Type} {p : Poll α} (h : p.isPending = true) : p = .pending := by
  cases p with
  | pending => rfl
  | ready => cases h

theorem last_pending {α : Type} {l : List (Nat × Poll α)} {w : Nat}
    (h : (l.getLast?.any fun y => y.1 == w && y.2.isPending) = true) :
    l.getLast? = some (w, .pending) := by
  obtain ⟨y, hlast, hy⟩ := (Option.any_eq_true _ _).mp h
  rw [Bool.and_eq_true, beq_iff_eq] at hy
  rw [hlast, ← hy.1, ← Poll.eq_pending hy.2]

theorem Poll.eq_end {α : Type} {p : Poll (Option α)} (h : p.isEnd = true) : p = .ready none := by
  cases p with
  | pending => cases h
  | ready a =>
    cases a with
    | none => rfl
    | some => cases h

structure QueueInner where
  queue : List Message
  waker : Option Nat

/-- The channel as its receiver sees it; `closed` is `Receiver::close`, which
refuses new messages and keeps those already there. -/
structure Receiver where
  buffer : List Message
  senders : Nat
  closed : Bool
  waker : Option Nat

/-- A timer of the runtime with the waker its last poll registered. Once for each
deadline it fires, and wakes that waker. -/
structure Sleep where
  deadline : Nat
  fired : Bool
  waker : Option Nat

namespace Sleep

def new (deadline : Nat) : Sleep := ⟨deadline, false, none⟩

/-- The runtime at time `now` with the timer, and whom it wakes. -/
def fire (timer : Sleep) (now : Nat) : Sleep × List Nat :=
  if !timer.fired && timer.deadline ≤ now then
    ({ timer with fired := true, waker := none }, timer.waker.toList)
  else (timer, [])

/-- A poll at time `now` is ready when the deadline is not in the future. It
registers its waker before it looks. -/
def poll (timer : Sleep) (now waker : Nat) : Bool × Sleep :=
  (timer.deadline ≤ now, { timer with waker := some waker })

/-- The waker stays; a deadline that has passed makes the timer fire at once. -/
def reset (timer : Sleep) (deadline now : Nat) : Sleep × List Nat :=
  { timer with deadline := deadline, fired := false }.fire now

end Sleep

structure HeartBeat where
  serverSendHeartbeat : Bool
  interval : Nat
  timeout : Nat
  deadline : Nat

namespace HeartBeat

def new (interval timeout : Nat) (serverSendHeartbeat : Bool) (now : Nat) : HeartBeat where
  serverSendHeartbeat := serverSendHeartbeat
  interval := interval
  timeout := timeout
  deadline := now + timeout

def update (hb : HeartBeat) (now : Nat) : HeartBeat := { hb with deadline := now + hb.timeout }

/-- `now` is the timer's deadline, `clock` the time at which it is reset. -/
def set (hb : HeartBeat) (timer : Sleep) (clock : Nat) : Bool × Sleep × List Nat :=
  let now := timer.deadline
  if hb.deadline ≤ now then (false, timer, []) else (true, timer.reset (now + hb.interval) clock)

end HeartBeat

inductive Incoming
  | chunk (data : Bytes)
  | err (text : String)
  | done

structure DecodeStream (C : Codec) where
  stream : List Incoming
  timer : Option Sleep
  hb : HeartBeat
  codec : C.State
  readBuf : Bytes

/-- `handles` counts the local queue's clones besides the one of the encode
stream, `decode` is gone with the `WebSocketStream`. `wakes` lists the wakers
woken so far; `pushed`, `sent`, `encoded`, `polled` and `yielded` record what
has happened and are read by no step. -/
structure Connection (C : Codec) where
  inner : QueueInner
  handles : Nat
  rx : Receiver
  decode : Option (DecodeStream C)
  codec : C.State
  writeBuf : Bytes
  clock : Nat
  wakes : List Nat
  pushed : List Message
  sent : List Message
  encoded : List (Message × Bytes)
  polled : List (Poll (Option (Except C.Error Bytes)))
  yielded : List (Nat × Poll (Option (Except (ProtocolError C) Message)))

def WsConfig.interval {C : Codec} (cfg : WsConfig C) : Nat := cfg.heartbeat.getD 1

/-- `split_stream`, with the times at which it makes the timer and the heartbeat. -/
def splitStream {C : Codec} (cfg : WsConfig C) (now now' : Nat) : Connection C where
  inner := ⟨[], none⟩
  handles := 1
  rx := ⟨[], 1, false, none⟩
  decode := some {
    stream := []
    timer := cfg.heartbeat.map fun dur => .new (now + dur)
    hb := .new cfg.interval cfg.timeout cfg.serverSendHeartbeat now'
    codec := cfg.codec.getD C.new
    readBuf := [] }
  codec := cfg.codec.getD C.new
  writeBuf := []
  clock := now'
  wakes := []
  pushed := []
  sent := []
  encoded := []
  polled := []
  yielded := []

namespace Connection

variable {C : Codec}

def wake (s : Connection C) : Connection C :=
  match s.inner.waker with
  | some w => { s with inner := { s.inner with waker := none }, wakes := s.wakes ++ [w] }
  | none => s

/-- The wake-up of the task that last polled the channel's receiver. -/
def wakeRx (s : Connection C) : Connection C :=
  match s.rx.waker with
  | some w => { s with rx := { s.rx with waker := none }, wakes := s.wakes ++ [w] }
  | none => s

/-- The methods of `WebSocketLocalQueue`, which push one kind of message each. -/
def push (s : Connection C) (msg : Message) : Connection C :=
  { s with
    inner := { s.inner with queue := s.inner.queue ++ [msg] }
    pushed := s.pushed ++ [msg] }.wake

def send (s : Connection C) (msg : Message) : Connection C :=
  if s.rx.closed then s
  else { s with
    rx := { s.rx with buffer := s.rx.buffer ++ [msg] }
    sent := s.sent ++ [msg] }.wakeRx

/-- The channel ends with its last sender. -/
def dropSender (s : Connection C) : Connection C :=
  let s := { s with rx := { s.rx with senders := s.rx.senders - 1 } }
  if s.rx.senders = 0 then s.wakeRx else s

/-- The drop of the `WebSocketStream`: `PinnedDrop::drop` and then its fields. -/
def dropStream (s : Connection C) : Connection C :=
  let s := s.wake
  { s with handles := s.handles - 1, decode := none }.dropSender

/-- The queue's clones and the senders that the `WebSocketStream` owns. -/
def owned (s : Connection C) : Nat := if s.decode.isSome then 1 else 0

def isClosed (s : Connection C) : Bool := s.handles == 0

end Connection

end ActixSend.WebSocket
