import ActixSend.Transition.Path
import ActixSend.WebSocket.Connection

/-! # The two streams of a connection

`EncodeStream::poll_next`, `DecodeStream::poll_next`, and the steps of a
connection. A poll is one step: the local queue cannot change while it runs,
and a message that a sender puts into the channel meanwhile might as well have
been there before. The runtime gives the polling task a budget of messages of the
channel. When it is spent `poll_recv` is pending whatever the channel holds, and
registers no waker; the runtime wakes the task instead. The decode stream reads
the clock twice, for the heartbeat's update or its timer and for the timer's reset
and second poll. A timer that is due has fired by the time it is polled.
-/

namespace ActixSend.WebSocket

open Transition
set_option autoImplicit false

variable {C : Codec}

namespace Connection

/-- Both loops of the encode stream: they close the receiver on a close message
and encode; an error leaves the loop with the messages behind it untouched. -/
def drain (s : Connection C) : List Message → Connection C × List Message × Option C.Error
  | [] => (s, [], none)
  | msg :: rest =>
    let s := if msg.isClose then { s with rx := { s.rx with closed := true } } else s
    match C.encode s.codec msg with
    | (codec, .ok bytes) =>
      drain { s with
        codec := codec
        writeBuf := s.writeBuf ++ bytes
        encoded := s.encoded ++ [(msg, bytes)] } rest
    | (codec, .error e) => ({ s with codec := codec }, rest, some e)

def drainQueue (s : Connection C) : Connection C × Option C.Error :=
  let (s, rest, err) := s.drain s.inner.queue
  ({ s with inner := { s.inner with queue := rest } }, err)

/-- Close the receiver when nobody else holds the queue, or register. -/
def register (s : Connection C) (w : Nat) : Connection C :=
  if s.isClosed then { s with rx := { s.rx with closed := true } }
  else { s with inner := { s.inner with waker := some w } }

def drainChannel (s : Connection C) (budget : Nat) : Connection C × Option C.Error :=
  let behind := s.rx.buffer.drop budget
  let (s, rest, err) := s.drain (s.rx.buffer.take budget)
  ({ s with rx := { s.rx with buffer := rest ++ behind } }, err)

/-- The `Pending` of `poll_recv`. -/
def pause (s : Connection C) : Connection C × Poll (Option (Except C.Error Bytes)) :=
  if s.writeBuf.isEmpty then (s, .pending)
  else ({ s with writeBuf := [] }, .ready (some (.ok s.writeBuf)))

/-- What follows once `poll_recv` gives no more messages: the budget is spent, or
the channel has ended, or it is empty. -/
def flush (s : Connection C) (w : Nat) (spent : Bool) :
    Connection C × Poll (Option (Except C.Error Bytes)) :=
  if spent then { s with wakes := s.wakes ++ [w] }.pause
  else if s.rx.closed || s.rx.senders == 0 then
    if s.writeBuf.isEmpty then (s, .ready none)
    else ({ s with writeBuf := [], wakes := s.wakes ++ [w] }, .ready (some (.ok s.writeBuf)))
  else { s with rx := { s.rx with waker := some w } }.pause

/-- The task's budget ends before the poll has seen the channel empty. -/
def spends (s : Connection C) (budget : Nat) : Bool := budget ≤ s.rx.buffer.length

def pollEncode (s : Connection C) (w budget : Nat) :
    Connection C × Poll (Option (Except C.Error Bytes)) :=
  let spent := s.spends budget
  match s.drainQueue with
  | (s, some e) => (s, .ready (some (.error e)))
  | (s, none) =>
    match (s.register w).drainChannel budget with
    | (s, some e) => (s, .ready (some (.error e)))
    | (s, none) => s.flush w spent

end Connection

namespace DecodeStream

/-- The message a frame makes; a ping or a pong puts the heartbeat's deadline off. -/
def toMessage (d : DecodeStream C) (now : Nat) :
    Frame → DecodeStream C × Except (ProtocolError C) Message
  | .text data =>
    match String.fromUTF8? ⟨data.toArray⟩ with
    | some text => (d, .ok (.text text))
    | none => (d, .error (.utf8 data))
  | .binary data => (d, .ok (.binary data))
  | .ping data => ({ d with hb := d.hb.update now }, .ok (.ping data))
  | .pong data => ({ d with hb := d.hb.update now }, .ok (.pong data))
  | .close reason => (d, .ok (.close reason))
  | .continuation item => (d, .ok (.continuation item))

def nextFrame (d : DecodeStream C) (now : Nat) :
    DecodeStream C × Option (Except (ProtocolError C) Message) :=
  if d.readBuf.isEmpty then (d, none)
  else
    match C.decode d.codec d.readBuf with
    | (codec, buf, .error e) =>
      ({ d with codec := codec, readBuf := buf }, some (.error (.codec e)))
    | (codec, buf, .ok none) => ({ d with codec := codec, readBuf := buf }, none)
    | (codec, buf, .ok (some frame)) =>
      let (d, item) := { d with codec := codec, readBuf := buf }.toMessage now frame
      (d, some item)

/-- The loop up to an item, to the end of the inner stream, or to where the
inner stream is pending. -/
def readLoop (d : DecodeStream C) (now : Nat) :
    List Incoming → DecodeStream C × Poll (Option (Except (ProtocolError C) Message))
  | [] =>
    match d.nextFrame now with
    | (d, some item) => ({ d with stream := [] }, .ready (some item))
    | (d, none) => ({ d with stream := [] }, .pending)
  | incoming :: rest =>
    match d.nextFrame now with
    | (d, some item) => ({ d with stream := incoming :: rest }, .ready (some item))
    | (d, none) =>
      match incoming with
      | .chunk data => readLoop { d with readBuf := d.readBuf ++ data } now rest
      | .err text => ({ d with stream := rest }, .ready (some (.error (.stream text))))
      | .done => ({ d with stream := rest }, .ready none)

end DecodeStream

def pingPayload : Bytes := [0x70, 0x69, 0x6E, 0x67]

namespace Connection

/-- The heartbeat check of a poll whose inner stream is pending. -/
def checkTimer (s : Connection C) (d : DecodeStream C) (w now now' : Nat) :
    Connection C × Poll (Option (Except (ProtocolError C) Message)) :=
  match d.timer with
  | none => ({ s with decode := some d }, .pending)
  | some timer =>
    let (timer, woken) := timer.fire now
    let s := { s with wakes := s.wakes ++ woken }
    let (ready, timer) := timer.poll now w
    if ready then
      let (ok, timer, woken) := d.hb.set timer now'
      if ok then
        let (_, timer) := timer.poll now' w
        let s := { s with
          decode := some { d with timer := some timer }
          wakes := s.wakes ++ woken }
        if d.hb.serverSendHeartbeat then (s.push (.ping pingPayload), .pending) else (s, .pending)
      else
        let s := { s with decode := some { d with timer := some timer } }
        (s.push (.close (some (.ofCode .normal))), .ready none)
    else ({ s with decode := some { d with timer := some timer } }, .pending)

def pollDecode (s : Connection C) (d : DecodeStream C) (w now now' : Nat) :
    Connection C × Poll (Option (Except (ProtocolError C) Message)) :=
  match d.readLoop now d.stream with
  | (d, .ready item) => ({ s with decode := some d }, .ready item)
  | (d, .pending) => s.checkTimer d w now now'

/-- The runtime's clock reaches `now`, and the timer fires if it is due. -/
def tick (s : Connection C) (now : Nat) : Connection C :=
  let s := { s with clock := now }
  match s.decode with
  | some d =>
    match d.timer with
    | some timer =>
      let (timer, woken) := timer.fire now
      { s with decode := some { d with timer := some timer }, wakes := s.wakes ++ woken }
    | none => s
  | none => s

end Connection

/-- `w` names the waker of a poll's task. A task outside the runtime's budgets has
a `budget` beyond the channel's messages. -/
inductive Act
  | push (msg : Message)
  | cloneQueue
  | dropQueue
  | send (msg : Message)
  | cloneSender
  | dropSender
  | dropStream
  | arrive (incoming : Incoming)
  | tick (now : Nat)
  | pollEncode (w budget : Nat)
  | pollDecode (w now now' : Nat)

def step (s : Connection C) : Act → Option (Connection C)
  | .push msg => if 0 < s.handles && msg.isLocal then some (s.push msg) else none
  | .cloneQueue => if 0 < s.handles then some { s with handles := s.handles + 1 } else none
  | .dropQueue => if s.owned < s.handles then some { s with handles := s.handles - 1 } else none
  | .send msg => if 0 < s.rx.senders then some (s.send msg) else none
  | .cloneSender =>
    if 0 < s.rx.senders then some { s with rx := { s.rx with senders := s.rx.senders + 1 } }
    else none
  | .dropSender => if s.owned < s.rx.senders then some s.dropSender else none
  | .dropStream => if s.decode.isSome then some s.dropStream else none
  | .arrive incoming =>
    match s.decode with
    | some d => some { s with decode := some { d with stream := d.stream ++ [incoming] } }
    | none => none
  | .tick now => if s.clock ≤ now then some (s.tick now) else none
  | .pollEncode w budget =>
    let (s, polled) := s.pollEncode w budget
    some { s with polled := s.polled ++ [polled] }
  | .pollDecode w now now' =>
    match s.decode with
    | some d =>
      if s.clock ≤ now && now ≤ now' then
        let (s, yielded) := s.pollDecode d w now now'
        some { s with clock := now', yielded := s.yielded ++ [(w, yielded)] }
      else none
    | none => none

end ActixSend.WebSocket
