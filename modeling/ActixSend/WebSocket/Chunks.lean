import Mathlib.Data.List.Infix
import ActixSend.WebSocket.Close
import ActixSend.WebSocket.Frames

/-! # The chunks of the encode stream

Whatever the order of pushes, sends and polls, the encode stream is the codec
run over one list of messages. That list merges what was pushed on the local
queue with what the channel took, each in its own order. The chunks are the
bytes of the messages the codec accepts, and the `Err` items are its errors.
-/

namespace ActixSend.WebSocket

open Transition
set_option autoImplicit false

variable {C : Codec}

namespace Codec

def encodeAll (C : Codec) : C.State → List Message → C.State × List (Except C.Error Bytes)
  | codec, [] => (codec, [])
  | codec, msg :: rest =>
    let (codec, out) := C.encode codec msg
    let (codec, outs) := encodeAll C codec rest
    (codec, out :: outs)

def okBytes {ε : Type} : List (Except ε Bytes) → Bytes
  | [] => []
  | .ok bytes :: outs => bytes ++ okBytes outs
  | .error _ :: outs => okBytes outs

def errors {ε : Type} : List (Except ε Bytes) → List ε
  | [] => []
  | .ok _ :: outs => errors outs
  | .error e :: outs => e :: errors outs

theorem encodeAll_append (codec : C.State) (msgs msgs' : List Message) :
    C.encodeAll codec (msgs ++ msgs') =
      ((C.encodeAll (C.encodeAll codec msgs).1 msgs').1,
        (C.encodeAll codec msgs).2 ++ (C.encodeAll (C.encodeAll codec msgs).1 msgs').2) := by
  induction msgs generalizing codec with
  | nil => rfl
  | cons msg msgs ih =>
    rw [List.cons_append]
    simp only [encodeAll]
    rw [ih]
    rfl

theorem okBytes_append {ε : Type} (outs outs' : List (Except ε Bytes)) :
    okBytes (outs ++ outs') = okBytes outs ++ okBytes outs' := by
  induction outs with
  | nil => rfl
  | cons out outs ih =>
    cases out with
    | ok bytes => simp only [List.cons_append, okBytes, ih, List.append_assoc]
    | error e => exact ih

theorem errors_append {ε : Type} (outs outs' : List (Except ε Bytes)) :
    errors (outs ++ outs') = errors outs ++ errors outs' := by
  induction outs with
  | nil => rfl
  | cons out outs ih =>
    cases out with
    | ok bytes => exact ih
    | error e => simp only [List.cons_append, errors, ih]

end Codec

inductive Source
  | queue
  | channel
  deriving DecidableEq

def messagesOf (source : Source) (served : List (Source × Message)) : List Message :=
  (served.filter fun x => x.1 == source).map Prod.snd

def tagged (source : Source) (msgs : List Message) : List (Source × Message) :=
  msgs.map (Prod.mk source)

theorem messagesOf_append (source : Source) (served served' : List (Source × Message)) :
    messagesOf source (served ++ served') =
      messagesOf source served ++ messagesOf source served' := by
  simp [messagesOf]

theorem messagesOf_tagged (source : Source) (msgs : List Message) :
    messagesOf source (tagged source msgs) = msgs := by
  simp [messagesOf, tagged, List.filter_map, Function.comp_def]

theorem messagesOf_other {source source' : Source} (h : source' ≠ source) (msgs : List Message) :
    messagesOf source (tagged source' msgs) = [] := by
  simp [messagesOf, tagged, List.filter_map, Function.comp_def, h]

theorem messagesOf_poll (served : List (Source × Message)) (q c : List Message) :
    messagesOf .queue (served ++ (tagged .queue q ++ tagged .channel c)) =
        messagesOf .queue served ++ q ∧
      messagesOf .channel (served ++ (tagged .queue q ++ tagged .channel c)) =
        messagesOf .channel served ++ c := by
  have hchannel : messagesOf .queue (tagged .channel c) = [] := messagesOf_other (by decide) c
  have hqueue : messagesOf .channel (tagged .queue q) = [] := messagesOf_other (by decide) q
  constructor
  · rw [messagesOf_append, messagesOf_append, messagesOf_tagged, hchannel, List.append_nil]
  · rw [messagesOf_append, messagesOf_append, messagesOf_tagged, hqueue, List.nil_append]

theorem tagged_messages (source : Source) (msgs : List Message) :
    (tagged source msgs).map Prod.snd = msgs := by
  simp [tagged, Function.comp_def]

def Poll.error? {ε : Type} : Poll (Option (Except ε Bytes)) → Option ε
  | .ready (some (.error e)) => some e
  | _ => none

def Connection.errorItems (s : Connection C) : List C.Error := s.polled.filterMap Poll.error?

/-- The messages `served` have left the queue and the channel in this order,
through a codec that began in the state `init`. -/
structure Serves (init : C.State) (served : List (Source × Message)) (s : Connection C) :
    Prop where
  queue : messagesOf .queue served ++ s.inner.queue = s.pushed
  channel : messagesOf .channel served ++ s.rx.buffer = s.sent
  codec : s.codec = (C.encodeAll init (served.map Prod.snd)).1
  wire : s.wire = Codec.okBytes (C.encodeAll init (served.map Prod.snd)).2
  errors : s.errorItems = Codec.errors (C.encodeAll init (served.map Prod.snd)).2

structure Drained (s : Connection C) : Prop where
  queue : s.inner.queue = []
  channel : s.rx.buffer = []
  writeBuf : s.writeBuf = []

structure Complete (init : C.State) (served : List (Source × Message)) (s : Connection C) :
    Prop where
  queue : messagesOf .queue served = s.pushed
  channel : messagesOf .channel served = s.sent
  chunks : (s.polled.map Poll.bytes).flatten =
    Codec.okBytes (C.encodeAll init (served.map Prod.snd)).2
  errors : s.errorItems = Codec.errors (C.encodeAll init (served.map Prod.snd)).2
  drained : Drained s

theorem Serves.complete {init : C.State} {served : List (Source × Message)} {s : Connection C}
    (h : Serves init served s) (hs : Drained s) : Complete init served s where
  queue := by rw [← h.queue, hs.queue, List.append_nil]
  channel := by rw [← h.channel, hs.channel, List.append_nil]
  chunks := by rw [← h.wire, Connection.wire, hs.writeBuf, List.append_nil]
  errors := h.errors
  drained := hs

/-- From `s` to `t` the codec takes the messages `done` and rejects some with `errs`. -/
structure Takes (s : Connection C) (done : List Message) (errs : List C.Error)
    (t : Connection C) : Prop where
  codec : t.codec = (C.encodeAll s.codec done).1
  writeBuf : t.writeBuf = s.writeBuf ++ Codec.okBytes (C.encodeAll s.codec done).2
  errors : errs = Codec.errors (C.encodeAll s.codec done).2
  polled : t.polled = s.polled
  pushed : t.pushed = s.pushed
  sent : t.sent = s.sent

theorem Takes.trans {s t u : Connection C} {done done' : List Message} {errs errs' : List C.Error}
    (h : Takes s done errs t) (h' : Takes t done' errs' u) :
    Takes s (done ++ done') (errs ++ errs') u where
  codec := by rw [Codec.encodeAll_append, h'.codec, h.codec]
  writeBuf := by
    rw [Codec.encodeAll_append, Codec.okBytes_append, h'.writeBuf, h.writeBuf, h.codec,
      List.append_assoc]
  errors := by rw [Codec.encodeAll_append, Codec.errors_append, h'.errors, h.errors, h.codec]
  polled := h'.polled.trans h.polled
  pushed := h'.pushed.trans h.pushed
  sent := h'.sent.trans h.sent

/-- A loop takes messages off the front of its source, all of them unless one is rejected. -/
theorem drain_takes (s : Connection C) (msgs : List Message) : ∃ done,
    msgs = done ++ (s.drain msgs).2.1 ∧
      Takes s done (s.drain msgs).2.2.toList (s.drain msgs).1 ∧
      ((s.drain msgs).2.2 = none → (s.drain msgs).2.1 = []) := by
  induction msgs generalizing s with
  | nil => exact ⟨[], rfl, ⟨rfl, (List.append_nil _).symm, rfl, rfl, rfl, rfl⟩, fun _ => rfl⟩
  | cons msg rest ih =>
    simp only [Connection.drain]
    generalize hs₁ : (if msg.isClose = true then { s with rx := { s.rx with closed := true } }
      else s) = s₁
    have hclose : Takes s [] [] s₁ := by
      rw [← hs₁]
      split <;> exact ⟨rfl, (List.append_nil _).symm, rfl, rfl, rfl, rfl⟩
    rcases hencode : C.encode s₁.codec msg with ⟨codec, e | bytes⟩
    · have hone : Takes s₁ [msg] [e] { s₁ with codec := codec } := by
        constructor <;> simp [Codec.encodeAll, hencode, Codec.okBytes, Codec.errors]
      exact ⟨[msg], rfl, hclose.trans hone, by simp⟩
    · have hone : Takes s₁ [msg] [] { s₁ with
          codec := codec
          writeBuf := s₁.writeBuf ++ bytes
          encoded := s₁.encoded ++ [(msg, bytes)] } := by
        constructor <;> simp [Codec.encodeAll, hencode, Codec.okBytes, Codec.errors]
      obtain ⟨done, hrest, htakes, hall⟩ := ih { s₁ with
        codec := codec
        writeBuf := s₁.writeBuf ++ bytes
        encoded := s₁.encoded ++ [(msg, bytes)] }
      exact ⟨msg :: done, congrArg (msg :: ·) hrest, (hclose.trans hone).trans htakes, hall⟩

theorem drainQueue_takes {s t : Connection C} {err : Option C.Error}
    (h : s.drainQueue = (t, err)) : ∃ done, s.inner.queue = done ++ t.inner.queue ∧
      Takes s done err.toList t ∧ (err = none → t.inner.queue = []) ∧
      t.rx.buffer = s.rx.buffer := by
  obtain ⟨done, hdone, htakes, hall⟩ := drain_takes s s.inner.queue
  have hframe := drain_frame s s.inner.queue
  cases h
  refine ⟨done, hdone, ⟨htakes.codec, htakes.writeBuf, htakes.errors, htakes.polled,
    htakes.pushed, htakes.sent⟩, hall, ?_⟩
  dsimp only
  rw [hframe]

theorem drainChannel_takes {s t : Connection C} {budget : Nat} {err : Option C.Error}
    (h : s.drainChannel budget = (t, err)) : ∃ done, s.rx.buffer = done ++ t.rx.buffer ∧
      Takes s done err.toList t ∧ (err = none → t.rx.buffer = s.rx.buffer.drop budget) ∧
      t.inner.queue = s.inner.queue := by
  obtain ⟨done, hdone, htakes, hall⟩ := drain_takes s (s.rx.buffer.take budget)
  have hframe := drain_frame s (s.rx.buffer.take budget)
  cases h
  refine ⟨done, ?_, ⟨htakes.codec, htakes.writeBuf, htakes.errors, htakes.polled,
    htakes.pushed, htakes.sent⟩, fun hnone => ?_, ?_⟩
  · dsimp only
    rw [← List.append_assoc, ← hdone, List.take_append_drop]
  · dsimp only
    rw [hall hnone, List.nil_append]
  · dsimp only
    rw [hframe]

theorem register_takes (s : Connection C) (w : Nat) : Takes s [] [] (s.register w) ∧
    (s.register w).inner.queue = s.inner.queue ∧ (s.register w).rx.buffer = s.rx.buffer := by
  simp only [Connection.register]
  split <;> exact ⟨⟨rfl, (List.append_nil _).symm, rfl, rfl, rfl, rfl⟩, rfl, rfl⟩

theorem pause_serves {s t : Connection C} {answer : Poll (Option (Except C.Error Bytes))}
    (h : s.pause = (t, answer)) : t = { s with writeBuf := t.writeBuf } ∧
      answer.bytes ++ t.writeBuf = s.writeBuf ∧ answer.error? = none ∧ answer ≠ .ready none := by
  simp only [Connection.pause] at h
  split at h
  · cases h
    exact ⟨rfl, rfl, rfl, by simp⟩
  · cases h
    exact ⟨rfl, List.append_nil _, rfl, by simp⟩

theorem flush_serves {s t : Connection C} {w : Nat} {spent : Bool}
    {answer : Poll (Option (Except C.Error Bytes))} (h : s.flush w spent = (t, answer)) :
    t = { s with rx := { s.rx with waker := t.rx.waker }, writeBuf := t.writeBuf,
                 wakes := t.wakes } ∧
      answer.bytes ++ t.writeBuf = s.writeBuf ∧ answer.error? = none ∧
      (answer = .ready none → spent = false ∧ t.writeBuf = []) := by
  simp only [Connection.flush] at h
  split at h
  · obtain ⟨hframe, hbytes, herror, hopen⟩ := pause_serves h
    rw [hframe]
    exact ⟨rfl, hbytes, herror, fun hend => absurd hend hopen⟩
  · rename_i hspent
    split at h
    · split at h
      · rename_i hempty
        cases h
        exact ⟨rfl, rfl, rfl, fun _ =>
          ⟨Bool.eq_false_iff.mpr hspent, List.isEmpty_iff.mp hempty⟩⟩
      · cases h
        exact ⟨rfl, List.append_nil _, rfl, by simp⟩
    · obtain ⟨hframe, hbytes, herror, hopen⟩ := pause_serves h
      rw [hframe]
      exact ⟨rfl, hbytes, herror, fun hend => absurd hend hopen⟩

structure PollServes (s : Connection C) (q c : List Message) (t : Connection C)
    (answer : Poll (Option (Except C.Error Bytes))) : Prop where
  queue : s.inner.queue = q ++ t.inner.queue
  channel : s.rx.buffer = c ++ t.rx.buffer
  codec : t.codec = (C.encodeAll s.codec (q ++ c)).1
  bytes : answer.bytes ++ t.writeBuf =
    s.writeBuf ++ Codec.okBytes (C.encodeAll s.codec (q ++ c)).2
  error : answer.error?.toList = Codec.errors (C.encodeAll s.codec (q ++ c)).2
  polled : t.polled = s.polled
  pushed : t.pushed = s.pushed
  sent : t.sent = s.sent
  ended : answer = .ready none → Drained t

theorem Takes.failed {s t : Connection C} {q c : List Message} {e : C.Error}
    (h : Takes s (q ++ c) [e] t) (hq : s.inner.queue = q ++ t.inner.queue)
    (hc : s.rx.buffer = c ++ t.rx.buffer) : PollServes s q c t (.ready (some (.error e))) where
  queue := hq
  channel := hc
  codec := h.codec
  bytes := h.writeBuf
  error := h.errors
  polled := h.polled
  pushed := h.pushed
  sent := h.sent
  ended := nofun

theorem drop_of_not_spends {s : Connection C} {budget : Nat} (h : s.spends budget = false) :
    s.rx.buffer.drop budget = [] := by
  rw [Connection.spends, decide_eq_false_iff_not, Nat.not_le] at h
  exact List.drop_of_length_le h.le

theorem pollEncode_serves {s t : Connection C} {w budget : Nat}
    {answer : Poll (Option (Except C.Error Bytes))} (h : s.pollEncode w budget = (t, answer)) :
    ∃ q c, PollServes s q c t answer := by
  cases EncodeMove.of_poll h with
  | queueError hqueue =>
    obtain ⟨q, hq, htakes, _, hbuffer⟩ := drainQueue_takes hqueue
    refine ⟨q, [], Takes.failed ?_ hq ?_⟩
    · rwa [List.append_nil]
    · rw [hbuffer, List.nil_append]
  | @channelError s₁ _ _ hqueue hchannel =>
    obtain ⟨q, hq, htakes, _, hbuffer⟩ := drainQueue_takes hqueue
    obtain ⟨hregister, hinner', hbuffer'⟩ := register_takes s₁ w
    obtain ⟨c, hc, htakes', _, hinner⟩ := drainChannel_takes hchannel
    have hwhole := (htakes.trans hregister).trans htakes'
    rw [List.append_nil] at hwhole
    refine ⟨q, c, hwhole.failed ?_ ?_⟩
    · rw [hinner, hinner', hq]
    · rw [← hbuffer, ← hbuffer', hc]
  | @flushed s₁ s₂ _ _ hqueue hchannel hflush =>
    obtain ⟨q, hq, htakes, hqall, hbuffer⟩ := drainQueue_takes hqueue
    obtain ⟨hregister, hinner', hbuffer'⟩ := register_takes s₁ w
    obtain ⟨c, hc, htakes', hcall, hinner⟩ := drainChannel_takes hchannel
    obtain ⟨hframe, hbytes, herror, hempty⟩ := flush_serves hflush
    have hwhole := (htakes.trans hregister).trans htakes'
    rw [List.append_nil] at hwhole
    have hqueue' : s₂.inner.queue = [] := by rw [hinner, hinner', hqall rfl]
    rw [hframe]
    refine ⟨q, c, ?_, ?_, hwhole.codec, ?_, ?_, hwhole.polled, hwhole.pushed, hwhole.sent, ?_⟩
    · rw [hq, hqueue', hqall rfl]
    · rw [← hbuffer, ← hbuffer']
      exact hc
    · exact hbytes.trans hwhole.writeBuf
    · rw [herror]
      exact hwhole.errors
    · intro hend
      obtain ⟨hspent, hwriteBuf⟩ := hempty hend
      refine ⟨hqueue', ?_, hwriteBuf⟩
      dsimp only
      rw [hcall rfl, hbuffer', hbuffer, drop_of_not_spends hspent]

structure Feeds (s : Connection C) (p c : List Message) (t : Connection C) : Prop where
  queue : t.inner.queue = s.inner.queue ++ p
  pushed : t.pushed = s.pushed ++ p
  channel : t.rx.buffer = s.rx.buffer ++ c
  sent : t.sent = s.sent ++ c
  codec : t.codec = s.codec
  writeBuf : t.writeBuf = s.writeBuf
  polled : t.polled = s.polled

theorem Feeds.none {s t : Connection C} (hqueue : t.inner.queue = s.inner.queue)
    (hpushed : t.pushed = s.pushed) (hchannel : t.rx.buffer = s.rx.buffer)
    (hsent : t.sent = s.sent) (hcodec : t.codec = s.codec) (hwriteBuf : t.writeBuf = s.writeBuf)
    (hpolled : t.polled = s.polled) : Feeds s [] [] t :=
  ⟨by rw [hqueue, List.append_nil], by rw [hpushed, List.append_nil],
    by rw [hchannel, List.append_nil], by rw [hsent, List.append_nil], hcodec, hwriteBuf, hpolled⟩

theorem step_feeds {s t : Connection C} {act : Act} (h : step s act = some t)
    (hact : ∀ w budget, act ≠ .pollEncode w budget) : ∃ p c, Feeds s p c t := by
  cases ConnectionMove.of_step h with
  | pollEncode w budget => exact absurd rfl (hact w budget)
  | push msg | pollDecodePush _ msg =>
    exact ⟨[msg], [], rfl, rfl, (List.append_nil _).symm, (List.append_nil _).symm, rfl, rfl, rfl⟩
  | send msg =>
    exact ⟨[], [msg], (List.append_nil _).symm, (List.append_nil _).symm, rfl, rfl, rfl, rfl, rfl⟩
  | tick _ _ htick =>
    rw [htick]
    exact ⟨[], [], .none rfl rfl rfl rfl rfl rfl rfl⟩
  | _ => exact ⟨[], [], .none rfl rfl rfl rfl rfl rfl rfl⟩

theorem Serves.feeds {init : C.State} {served : List (Source × Message)} {s t : Connection C}
    {p c : List Message} (h : Serves init served s) (hfeeds : Feeds s p c t) :
    Serves init served t where
  queue := by rw [hfeeds.queue, hfeeds.pushed, ← List.append_assoc, h.queue]
  channel := by rw [hfeeds.channel, hfeeds.sent, ← List.append_assoc, h.channel]
  codec := hfeeds.codec.trans h.codec
  wire := by rw [← h.wire, Connection.wire, Connection.wire, hfeeds.polled, hfeeds.writeBuf]
  errors := by rw [← h.errors, Connection.errorItems, Connection.errorItems, hfeeds.polled]

theorem Serves.poll {init : C.State} {served : List (Source × Message)} {s t : Connection C}
    {q c : List Message} {answer : Poll (Option (Except C.Error Bytes))}
    (h : Serves init served s) (hpoll : PollServes s q c t answer) :
    Serves init (served ++ (tagged .queue q ++ tagged .channel c))
      { t with polled := t.polled ++ [answer] } := by
  have hmsgs : (served ++ (tagged .queue q ++ tagged .channel c)).map Prod.snd =
      served.map Prod.snd ++ (q ++ c) := by
    rw [List.map_append, List.map_append, tagged_messages, tagged_messages]
  have hencode := Codec.encodeAll_append init (served.map Prod.snd) (q ++ c)
  rw [← h.codec] at hencode
  constructor
  · rw [(messagesOf_poll served q c).1, List.append_assoc]
    dsimp only
    rw [← hpoll.queue, h.queue, hpoll.pushed]
  · rw [(messagesOf_poll served q c).2, List.append_assoc]
    dsimp only
    rw [← hpoll.channel, h.channel, hpoll.sent]
  · rw [hmsgs, hencode]
    exact hpoll.codec
  · rw [hmsgs, hencode]
    dsimp only
    rw [Codec.okBytes_append, ← h.wire]
    simp only [Connection.wire]
    rw [hpoll.polled, List.map_append, List.flatten_append, List.append_assoc, List.append_assoc,
      ← hpoll.bytes]
    simp
  · rw [hmsgs, hencode]
    dsimp only
    rw [Codec.errors_append, ← h.errors, ← hpoll.error]
    simp only [Connection.errorItems]
    rw [hpoll.polled, List.filterMap_append]
    cases herror : answer.error? <;> simp [herror]

section Runs
variable {cfg : WsConfig C} {now now' : Nat} {t : Connection C}
  {ms : List (Move (Connection C) Act)}

/-- The move is a poll of the encode stream that answers `None`. -/
def EncodeEnds (m : Move (Connection C) Act) : Prop :=
  (∃ w budget, m.act = .pollEncode w budget) ∧ m.dst.polled.getLast? = some (.ready none)

theorem exists_serves (h : Path step (splitStream cfg now now') ms t) :
    ∃ served, Serves (cfg.codec.getD C.new) served t := by
  apply h.invariant (I := fun u => ∃ served, Serves (cfg.codec.getD C.new) served u)
  · exact ⟨[], rfl, rfl, rfl, rfl, rfl⟩
  · intro u act v hstep hu
    obtain ⟨served, hserved⟩ := hu
    by_cases hact : ∃ w budget, act = .pollEncode w budget
    · obtain ⟨w, budget, rfl⟩ := hact
      rcases hpoll : u.pollEncode w budget with ⟨u', answer⟩
      obtain ⟨q, c, hserves⟩ := pollEncode_serves hpoll
      simp only [step, hpoll] at hstep
      cases hstep
      exact ⟨_, hserved.poll hserves⟩
    · obtain ⟨p, c, hfeeds⟩ := step_feeds hstep fun w budget heq => hact ⟨w, budget, heq⟩
      exact ⟨served, hserved.feeds hfeeds⟩

theorem EncodeEnds.drained {m : Move (Connection C) Act} (h : EncodeEnds m)
    (hstep : step m.src m.act = some m.dst) : Drained m.dst := by
  obtain ⟨⟨w, budget, hact⟩, hpolled⟩ := h
  rw [hact] at hstep
  rcases hpoll : m.src.pollEncode w budget with ⟨u, answer⟩
  obtain ⟨q, c, hserves⟩ := pollEncode_serves hpoll
  simp only [step, hpoll, Option.some.injEq] at hstep
  rw [← hstep] at hpolled ⊢
  obtain rfl : answer = .ready none := by simpa using hpolled
  obtain ⟨hqueue, hchannel, hwriteBuf⟩ := hserves.ended rfl
  exact ⟨hqueue, hchannel, hwriteBuf⟩

/-- At every moment the items are those of the messages served so far, and what
is not served is still there; at every `None` all the messages are served. -/
theorem chunks_exact (h : Path step (splitStream cfg now now') ms t) :
    (∃ served, Serves (cfg.codec.getD C.new) served t) ∧
      ∀ m ∈ ms, EncodeEnds m → ∃ served, Complete (cfg.codec.getD C.new) served m.dst := by
  refine ⟨exists_serves h, ?_⟩
  intro m hm hends
  obtain ⟨ps, qs, rfl, hps, hstep⟩ := h.exists_prefix hm
  obtain ⟨served, hserves⟩ := exists_serves (hps.snoc hstep)
  exact ⟨served, hserves.complete (hends.drained hstep)⟩

/-- A text and a close message with a rejected one sent between them. -/
theorem chunks_around_error : ∃ ms s t,
    Path step (splitStream (WsConfig.default shortCodec) 0 0)
      (ms ++ [⟨s, .pollEncode 0 128, t⟩]) t ∧
      (t.polled.map Poll.bytes).flatten = [0x81, 0x01, 0x61, 0x88, 0x00] ∧
      t.errorItems.length = 1 ∧ ∃ served, Complete shortCodec.new served t := by
  obtain ⟨ms, s, t, h, _, hp⟩ := exists_path_of_eval step
    (splitStream (WsConfig.default shortCodec) 0 0)
    [.push (.text "a"), .send (.continuation (.last [])), .push (.close none), .pollEncode 0 128,
      .pollEncode 0 128] (.pollEncode 0 128)
    (fun _ t => decide ((t.polled.map Poll.bytes).flatten = [0x81, 0x01, 0x61, 0x88, 0x00]) &&
      decide (t.errorItems.length = 1) && t.polled.getLast?.any Poll.isEnd) (by decide)
  simp only [Bool.and_eq_true, decide_eq_true_eq] at hp
  obtain ⟨⟨hchunks, herrors⟩, hpolled⟩ := hp
  have hends : t.polled.getLast? = some (.ready none) := by
    obtain ⟨p, hlast, hp⟩ := (Option.any_eq_true _ _).mp hpolled
    rw [hlast, Poll.eq_end hp]
  exact ⟨ms, s, t, h, hchunks, herrors,
    (chunks_exact h).2 ⟨s, .pollEncode 0 128, t⟩ (by simp) ⟨⟨0, 128, rfl⟩, hends⟩⟩

end Runs

end ActixSend.WebSocket
