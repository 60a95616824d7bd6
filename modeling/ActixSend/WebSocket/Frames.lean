import ActixSend.WebSocket.Streams

/-! # What the operations of a connection leave

Each operation, and then each step, as one record update of the connection
before it. The two wakers are taken when they are woken, so a waker is woken
once for each registration.
-/

namespace ActixSend.WebSocket

set_option autoImplicit false

variable {C : Codec}

theorem wake_eq (s : Connection C) : s.wake = { s with
    inner := { s.inner with waker := none }, wakes := s.wakes ++ s.inner.waker.toList } := by
  obtain ⟨⟨queue, waker⟩, _⟩ := s
  cases waker <;> simp [Connection.wake]

theorem wakeRx_eq (s : Connection C) : s.wakeRx = { s with
    rx := { s.rx with waker := none }, wakes := s.wakes ++ s.rx.waker.toList } := by
  obtain ⟨_, _, ⟨buffer, senders, closed, waker⟩, _⟩ := s
  cases waker <;> simp [Connection.wakeRx]

theorem push_eq (s : Connection C) (msg : Message) : s.push msg = { s with
    inner := ⟨s.inner.queue ++ [msg], none⟩
    pushed := s.pushed ++ [msg]
    wakes := s.wakes ++ s.inner.waker.toList } := by
  rw [Connection.push, wake_eq]

theorem send_eq (s : Connection C) (msg : Message) :
    s.rx.closed = true ∧ s.send msg = s ∨ s.rx.closed = false ∧ s.send msg = { s with
      rx := { s.rx with buffer := s.rx.buffer ++ [msg], waker := none }
      sent := s.sent ++ [msg]
      wakes := s.wakes ++ s.rx.waker.toList } := by
  unfold Connection.send
  cases h : s.rx.closed with
  | true => exact .inl ⟨rfl, rfl⟩
  | false =>
    rw [if_neg nofun, wakeRx_eq]
    exact .inr ⟨rfl, rfl⟩

theorem dropSender_frame (s : Connection C) : ∃ waker woken, s.dropSender = { s with
    rx := { s.rx with senders := s.rx.senders - 1, waker := waker }
    wakes := s.wakes ++ woken } := by
  simp only [Connection.dropSender]
  split
  · rw [wakeRx_eq]
    exact ⟨_, _, rfl⟩
  · exact ⟨s.rx.waker, [], by simp⟩

theorem dropStream_frame (s : Connection C) : ∃ waker woken, s.dropStream = { s with
    inner := { s.inner with waker := none }
    handles := s.handles - 1
    decode := none
    rx := { s.rx with senders := s.rx.senders - 1, waker := waker }
    wakes := s.wakes ++ s.inner.waker.toList ++ woken } := by
  rw [Connection.dropStream, wake_eq]
  obtain ⟨waker, woken, hdrop⟩ := dropSender_frame { s with
    inner := { s.inner with waker := none }
    handles := s.handles - 1
    decode := none
    wakes := s.wakes ++ s.inner.waker.toList }
  exact ⟨waker, woken, hdrop⟩

namespace Sleep

theorem fire_eq_self {timer : Sleep} {now : Nat} (h : now < timer.deadline) :
    timer.fire now = (timer, []) := by
  rw [fire, if_neg]
  simp [h]

@[simp] theorem fire_deadline (timer : Sleep) (now : Nat) :
    (timer.fire now).1.deadline = timer.deadline := by
  unfold fire
  split <;> rfl

@[simp] theorem fire_fired (timer : Sleep) (now : Nat) :
    (timer.fire now).1.fired = (timer.fired || decide (timer.deadline ≤ now)) := by
  obtain ⟨deadline, fired, waker⟩ := timer
  cases fired <;> by_cases hdue : deadline ≤ now <;> simp [fire, hdue]

theorem reset_due {timer : Sleep} {deadline now : Nat} (h : deadline ≤ now) :
    timer.reset deadline now = (⟨deadline, true, none⟩, timer.waker.toList) := by
  simp [reset, fire, h]

theorem reset_ahead {timer : Sleep} {deadline now : Nat} (h : now < deadline) :
    timer.reset deadline now = (⟨deadline, false, timer.waker⟩, []) := by
  simp [reset, fire, h]

end Sleep

theorem tick_decode {s : Connection C} {now : Nat} {d' : DecodeStream C}
    (h : (s.tick now).decode = some d') :
    ∃ d timer, s.decode = some d ∧ d' = { d with timer := timer } := by
  simp only [Connection.tick] at h
  split at h
  · rename_i d hd
    split at h
    · cases h
      exact ⟨d, _, hd, rfl⟩
    · exact ⟨d', d'.timer, h, rfl⟩
  · exact ⟨d', d'.timer, h, rfl⟩

theorem tick_isSome (s : Connection C) (now : Nat) :
    (s.tick now).decode.isSome = s.decode.isSome := by
  simp only [Connection.tick]
  split
  · rename_i d hd
    rw [hd]
    split <;> rfl
  · rfl

theorem tick_frame (s : Connection C) (now : Nat) : ∃ woken, s.tick now = { s with
    clock := now, decode := (s.tick now).decode, wakes := s.wakes ++ woken } := by
  simp only [Connection.tick]
  split
  · split
    · exact ⟨_, rfl⟩
    · exact ⟨[], by simp⟩
  · exact ⟨[], by simp⟩

theorem drain_frame (s : Connection C) (msgs : List Message) : (s.drain msgs).1 = { s with
    rx := { s.rx with closed := (s.drain msgs).1.rx.closed }
    codec := (s.drain msgs).1.codec
    writeBuf := (s.drain msgs).1.writeBuf
    encoded := (s.drain msgs).1.encoded } := by
  induction msgs generalizing s with
  | nil => rfl
  | cons msg rest ih =>
    simp only [Connection.drain]
    split
    · rename_i codec bytes _
      rw [ih]
      split <;> rfl
    · split <;> rfl

/-- What a poll of the encode stream leaves as it is; it may wake tasks. -/
structure SameReader (s t : Connection C) : Prop where
  handles : t.handles = s.handles
  decode : t.decode = s.decode
  clock : t.clock = s.clock
  wakes : s.wakes <+: t.wakes
  polled : t.polled = s.polled
  yielded : t.yielded = s.yielded

theorem SameReader.trans {s t u : Connection C} (h : SameReader s t) (h' : SameReader t u) :
    SameReader s u :=
  ⟨h'.handles.trans h.handles, h'.decode.trans h.decode, h'.clock.trans h.clock,
    h.wakes.trans h'.wakes, h'.polled.trans h.polled, h'.yielded.trans h.yielded⟩

theorem SameReader.woken {s t : Connection C} {woken : List Nat} (hhandles : t.handles = s.handles)
    (hdecode : t.decode = s.decode) (hclock : t.clock = s.clock)
    (hwakes : t.wakes = s.wakes ++ woken) (hpolled : t.polled = s.polled)
    (hyielded : t.yielded = s.yielded) : SameReader s t :=
  ⟨hhandles, hdecode, hclock, ⟨woken, hwakes.symm⟩, hpolled, hyielded⟩

theorem SameReader.same {s t : Connection C} (hhandles : t.handles = s.handles)
    (hdecode : t.decode = s.decode) (hclock : t.clock = s.clock) (hwakes : t.wakes = s.wakes)
    (hpolled : t.polled = s.polled) (hyielded : t.yielded = s.yielded) : SameReader s t :=
  .woken hhandles hdecode hclock (hwakes.trans (List.append_nil _).symm) hpolled hyielded

theorem drain_sameReader (s : Connection C) (msgs : List Message) :
    SameReader s (s.drain msgs).1 := by
  rw [drain_frame]
  exact .same rfl rfl rfl rfl rfl rfl

theorem register_sameReader (s : Connection C) (w : Nat) : SameReader s (s.register w) := by
  simp only [Connection.register]
  split <;> exact .same rfl rfl rfl rfl rfl rfl

theorem pause_sameReader (s : Connection C) : SameReader s s.pause.1 := by
  simp only [Connection.pause]
  split <;> exact .same rfl rfl rfl rfl rfl rfl

theorem flush_sameReader (s : Connection C) (w : Nat) (spent : Bool) :
    SameReader s (s.flush w spent).1 := by
  simp only [Connection.flush]
  split
  · refine SameReader.trans ?_ (pause_sameReader _)
    exact .woken rfl rfl rfl rfl rfl rfl
  · split
    · split
      · exact .same rfl rfl rfl rfl rfl rfl
      · exact .woken rfl rfl rfl rfl rfl rfl
    · refine SameReader.trans ?_ (pause_sameReader _)
      exact .same rfl rfl rfl rfl rfl rfl

/-- What a poll of the encode stream does: the codec fails on a message of the
queue or of the channel, or the poll takes all it may and hands on what it has. -/
inductive EncodeMove (s : Connection C) (w budget : Nat) :
    Connection C → Poll (Option (Except C.Error Bytes)) → Prop
  | queueError {t : Connection C} {e : C.Error} (hqueue : s.drainQueue = (t, some e)) :
      EncodeMove s w budget t (.ready (some (.error e)))
  | channelError {s₁ t : Connection C} {e : C.Error} (hqueue : s.drainQueue = (s₁, none))
      (hchannel : (s₁.register w).drainChannel budget = (t, some e)) :
      EncodeMove s w budget t (.ready (some (.error e)))
  | flushed {s₁ s₂ t : Connection C} {polled : Poll (Option (Except C.Error Bytes))}
      (hqueue : s.drainQueue = (s₁, none))
      (hchannel : (s₁.register w).drainChannel budget = (s₂, none))
      (hflush : s₂.flush w (s.spends budget) = (t, polled)) : EncodeMove s w budget t polled

theorem EncodeMove.of_poll {s t : Connection C} {w budget : Nat}
    {polled : Poll (Option (Except C.Error Bytes))} (h : s.pollEncode w budget = (t, polled)) :
    EncodeMove s w budget t polled := by
  simp only [Connection.pollEncode] at h
  split at h
  · rename_i s₁ e hqueue
    cases h
    exact .queueError hqueue
  · rename_i s₁ hqueue
    split at h
    · rename_i s₂ e hchannel
      cases h
      exact .channelError hqueue hchannel
    · rename_i s₂ hchannel
      exact .flushed hqueue hchannel h

theorem pollEncode_sameReader (s : Connection C) (w budget : Nat) :
    SameReader s (s.pollEncode w budget).1 := by
  have hqueue : SameReader s s.drainQueue.1 :=
    (drain_sameReader s s.inner.queue).trans (.same rfl rfl rfl rfl rfl rfl)
  have hchannel : ∀ s₁ : Connection C, s.drainQueue = (s₁, none) →
      SameReader s ((s₁.register w).drainChannel budget).1 := by
    intro s₁ heq
    rw [heq] at hqueue
    exact (hqueue.trans (register_sameReader s₁ w)).trans
      ((drain_sameReader _ _).trans (.same rfl rfl rfl rfl rfl rfl))
  rcases hpoll : s.pollEncode w budget with ⟨t, polled⟩
  cases EncodeMove.of_poll hpoll with
  | queueError heq => rwa [heq] at hqueue
  | @channelError s₁ _ _ heq heq' =>
    have hdrain := hchannel s₁ heq
    rwa [heq'] at hdrain
  | @flushed s₁ s₂ _ _ heq heq' hflush =>
    have hdrain := hchannel s₁ heq
    rw [heq'] at hdrain
    have hsame := flush_sameReader s₂ w (s.spends budget)
    rw [hflush] at hsame
    exact hdrain.trans hsame

theorem checkTimer_cases (s : Connection C) (d : DecodeStream C) (w now now' : Nat) :
    ∃ timer woken, (s.checkTimer d w now now').1 = { s with
        decode := some { d with timer := timer }
        wakes := s.wakes ++ woken } ∨
      ∃ msg, (s.checkTimer d w now now').1 = { s with
        decode := some { d with timer := timer }
        wakes := s.wakes ++ woken }.push msg := by
  unfold Connection.checkTimer
  split
  · exact ⟨d.timer, [], .inl (by rw [List.append_nil])⟩
  · dsimp only
    split
    · split
      · split
        · exact ⟨_, _, .inr ⟨_, by rw [List.append_assoc]⟩⟩
        · exact ⟨_, _, .inl (by rw [List.append_assoc])⟩
      · exact ⟨_, _, .inr ⟨_, rfl⟩⟩
    · exact ⟨_, _, .inl rfl⟩

section Timer
variable {s : Connection C} {d : DecodeStream C} {timer : Sleep} {w now now' : Nat}

theorem checkTimer_early (htimer : d.timer = some timer) (h : now < timer.deadline) :
    s.checkTimer d w now now' =
      ({ s with decode := some { d with timer := some { timer with waker := some w } } },
        .pending) := by
  simp [Connection.checkTimer, htimer, Sleep.fire_eq_self h, Sleep.poll, Nat.not_le.mpr h]

theorem checkTimer_lost (htimer : d.timer = some timer) (hdue : timer.deadline ≤ now)
    (hlost : d.hb.deadline ≤ timer.deadline) :
    s.checkTimer d w now now' = ({ s with
      decode := some { d with timer := some { (timer.fire now).1 with waker := some w } }
      wakes := s.wakes ++ (timer.fire now).2 }.push (.close (some (.ofCode .normal))),
        .ready none) := by
  simp [Connection.checkTimer, htimer, Sleep.poll, HeartBeat.set, hdue, hlost]

/-- The next check is an interval after the one that passes. If that is past too,
the reset wakes the task. -/
theorem checkTimer_passes (htimer : d.timer = some timer) (hdue : timer.deadline ≤ now)
    (hbefore : timer.deadline < d.hb.deadline) : ∃ u,
      s.checkTimer d w now now' = (u, .pending) ∧ u.yielded = s.yielded ∧
      u.decode = some { d with timer := some ⟨timer.deadline + d.hb.interval,
        decide (timer.deadline + d.hb.interval ≤ now'), some w⟩ } ∧
      (timer.deadline + d.hb.interval ≤ now' → w ∈ u.wakes.drop s.wakes.length) := by
  have hpassed : ¬d.hb.deadline ≤ timer.deadline := Nat.not_le.mpr hbefore
  by_cases hagain : timer.deadline + d.hb.interval ≤ now'
  · simp only [Connection.checkTimer, htimer, Sleep.poll, HeartBeat.set, Sleep.fire_deadline, hdue,
      decide_true, if_true, if_neg hpassed, Sleep.reset_due hagain]
    split
    · refine ⟨_, rfl, by rw [push_eq], by rw [push_eq]; simp [hagain], fun _ => ?_⟩
      rw [push_eq]
      simp
    · refine ⟨_, rfl, rfl, by simp [hagain], fun _ => ?_⟩
      simp
  · simp only [Connection.checkTimer, htimer, Sleep.poll, HeartBeat.set, Sleep.fire_deadline, hdue,
      decide_true, if_true, if_neg hpassed, Sleep.reset_ahead (Nat.lt_of_not_le hagain)]
    split
    · exact ⟨_, rfl, by rw [push_eq], by rw [push_eq]; simp [hagain], fun h => absurd h hagain⟩
    · exact ⟨_, rfl, rfl, by simp [hagain], fun h => absurd h hagain⟩

end Timer

theorem checkTimer_answer (s : Connection C) (d : DecodeStream C) (w now now' : Nat) :
    (s.checkTimer d w now now').2 = .pending ∨ (s.checkTimer d w now now').2 = .ready none := by
  unfold Connection.checkTimer
  split
  · exact .inl rfl
  · dsimp only
    split
    · split
      · split <;> exact .inl rfl
      · exact .inr rfl
    · exact .inl rfl

theorem pollDecode_cases (s : Connection C) (d : DecodeStream C) (w now now' : Nat) :
    ∃ d' woken, (s.pollDecode d w now now').1 =
        { s with decode := some d', wakes := s.wakes ++ woken } ∨
      ∃ msg, (s.pollDecode d w now now').1 =
        { s with decode := some d', wakes := s.wakes ++ woken }.push msg := by
  unfold Connection.pollDecode
  split
  · exact ⟨_, [], .inl (by rw [List.append_nil])⟩
  · rename_i d' _
    obtain ⟨timer, woken, hcheck⟩ := checkTimer_cases s d' w now now'
    exact ⟨_, woken, hcheck⟩

inductive ConnectionMove (s : Connection C) : Act → Connection C → Prop
  | push (msg : Message) (hopen : 0 < s.handles) (hlocal : msg.isLocal = true) :
      ConnectionMove s (.push msg) { s with
        inner := ⟨s.inner.queue ++ [msg], none⟩
        pushed := s.pushed ++ [msg]
        wakes := s.wakes ++ s.inner.waker.toList }
  | cloneQueue (hopen : 0 < s.handles) :
      ConnectionMove s .cloneQueue { s with handles := s.handles + 1 }
  | dropQueue (hfree : s.owned < s.handles) :
      ConnectionMove s .dropQueue { s with handles := s.handles - 1 }
  | send (msg : Message) (hopen : 0 < s.rx.senders) (hclosed : s.rx.closed = false) :
      ConnectionMove s (.send msg) { s with
        rx := { s.rx with buffer := s.rx.buffer ++ [msg], waker := none }
        sent := s.sent ++ [msg]
        wakes := s.wakes ++ s.rx.waker.toList }
  | sendRefused (msg : Message) (hopen : 0 < s.rx.senders) (hclosed : s.rx.closed = true) :
      ConnectionMove s (.send msg) s
  | cloneSender (hopen : 0 < s.rx.senders) :
      ConnectionMove s .cloneSender { s with rx := { s.rx with senders := s.rx.senders + 1 } }
  | dropSender (waker : Option Nat) (woken : List Nat) (hfree : s.owned < s.rx.senders) :
      ConnectionMove s .dropSender { s with
        rx := { s.rx with senders := s.rx.senders - 1, waker := waker }
        wakes := s.wakes ++ woken }
  | dropStream (waker : Option Nat) (woken : List Nat) (hdecode : s.decode.isSome = true) :
      ConnectionMove s .dropStream { s with
        inner := { s.inner with waker := none }
        handles := s.handles - 1
        decode := none
        rx := { s.rx with senders := s.rx.senders - 1, waker := waker }
        wakes := s.wakes ++ s.inner.waker.toList ++ woken }
  | arrive (incoming : Incoming) {d : DecodeStream C} (hdecode : s.decode = some d) :
      ConnectionMove s (.arrive incoming)
        { s with decode := some { d with stream := d.stream ++ [incoming] } }
  | tick {now : Nat} (woken : List Nat) (hnow : s.clock ≤ now)
      (htick : s.tick now = { s with
        clock := now, decode := (s.tick now).decode, wakes := s.wakes ++ woken }) :
      ConnectionMove s (.tick now) (s.tick now)
  | pollEncode (w budget : Nat) :
      ConnectionMove s (.pollEncode w budget) { (s.pollEncode w budget).1 with
        polled := (s.pollEncode w budget).1.polled ++ [(s.pollEncode w budget).2] }
  | pollDecode (w : Nat) {now now' : Nat} {d d' : DecodeStream C} (woken : List Nat)
      (hdecode : s.decode = some d) (hnow : s.clock ≤ now ∧ now ≤ now')
      (hpoll : (s.pollDecode d w now now').1 =
        { s with decode := some d', wakes := s.wakes ++ woken }) :
      ConnectionMove s (.pollDecode w now now') { s with
        decode := some d'
        wakes := s.wakes ++ woken
        clock := now'
        yielded := s.yielded ++ [(w, (s.pollDecode d w now now').2)] }
  | pollDecodePush (w : Nat) {now now' : Nat} {d d' : DecodeStream C} (msg : Message)
      (woken : List Nat) (hdecode : s.decode = some d) (hnow : s.clock ≤ now ∧ now ≤ now')
      (hpoll : (s.pollDecode d w now now').1 =
        { s with decode := some d', wakes := s.wakes ++ woken }.push msg) :
      ConnectionMove s (.pollDecode w now now') { s with
        inner := ⟨s.inner.queue ++ [msg], none⟩
        pushed := s.pushed ++ [msg]
        wakes := s.wakes ++ woken ++ s.inner.waker.toList
        decode := some d'
        clock := now'
        yielded := s.yielded ++ [(w, (s.pollDecode d w now now').2)] }

theorem ConnectionMove.of_step {s t : Connection C} {act : Act} (h : step s act = some t) :
    ConnectionMove s act t := by
  cases act with
  | push msg =>
    simp only [step, Bool.and_eq_true, decide_eq_true_eq] at h
    split at h
    · rename_i hguard
      cases h
      rw [push_eq]
      exact .push msg hguard.1 hguard.2
    · cases h
  | cloneQueue =>
    simp only [step] at h
    split at h
    · rename_i hguard
      cases h
      exact .cloneQueue hguard
    · cases h
  | dropQueue =>
    simp only [step] at h
    split at h
    · rename_i hguard
      cases h
      exact .dropQueue hguard
    · cases h
  | send msg =>
    simp only [step] at h
    split at h
    · rename_i hguard
      cases h
      rcases send_eq s msg with ⟨hclosed, heq⟩ | ⟨hclosed, heq⟩
      · rw [heq]
        exact .sendRefused msg hguard hclosed
      · rw [heq]
        exact .send msg hguard hclosed
    · cases h
  | cloneSender =>
    simp only [step] at h
    split at h
    · rename_i hguard
      cases h
      exact .cloneSender hguard
    · cases h
  | dropSender =>
    simp only [step] at h
    split at h
    · rename_i hguard
      cases h
      obtain ⟨waker, woken, heq⟩ := dropSender_frame s
      rw [heq]
      exact .dropSender waker woken hguard
    · cases h
  | dropStream =>
    simp only [step] at h
    split at h
    · rename_i hguard
      cases h
      obtain ⟨waker, woken, heq⟩ := dropStream_frame s
      rw [heq]
      exact .dropStream waker woken hguard
    · cases h
  | arrive incoming =>
    simp only [step] at h
    split at h
    · rename_i d hdecode
      cases h
      exact .arrive incoming hdecode
    · cases h
  | tick now =>
    simp only [step] at h
    split at h
    · rename_i hguard
      cases h
      obtain ⟨woken, heq⟩ := tick_frame s now
      exact .tick woken hguard heq
    · cases h
  | pollEncode w budget =>
    simp only [step] at h
    cases h
    exact .pollEncode w budget
  | pollDecode w now now' =>
    simp only [step, Bool.and_eq_true, decide_eq_true_eq] at h
    split at h
    · rename_i d hdecode
      split at h
      · rename_i hguard
        cases h
        obtain ⟨d', woken, hpoll | ⟨msg, hpoll⟩⟩ := pollDecode_cases s d w now now'
        · rw [hpoll]
          exact .pollDecode w woken hdecode hguard hpoll
        · rw [hpoll, push_eq]
          exact .pollDecodePush w msg woken hdecode hguard hpoll
      · cases h
    · cases h

end ActixSend.WebSocket
