import Mathlib.Data.List.Infix
import ActixSend.WebSocket.Frames

/-! # The heartbeat's timer

A poll of the decode stream that finds the timer due sets it to the next check
and polls it again, so that it wakes the task. The next check is an interval
after the last one was due, not after now. When a poll is late by a whole
interval that is past as well, and the second poll is ready. Nobody looks at its
answer, but the reset has woken the task.
-/

namespace ActixSend.WebSocket

open Transition
set_option autoImplicit false

variable {C : Codec}

def Connection.timer (s : Connection C) : Option Sleep := s.decode.bind DecodeStream.timer

/-- The move is a poll of the decode stream by `w` that answers `Pending`. -/
def PollsPending (m : Move (Connection C) Act) (w now now' : Nat) : Prop :=
  m.act = .pollDecode w now now' ∧ m.dst.yielded.getLast? = some (w, .pending)

/-- However the connection `t` goes on without another poll, the clock that reaches
the timer's deadline finds the task `w` woken since `s`. -/
def WokenWhenDue (s t : Connection C) (w : Nat) : Prop :=
  ∀ timer, t.timer = some timer → ∀ ms u now v, Path step t ms u →
    (∀ m ∈ ms, ∀ w now now', m.act ≠ .pollDecode w now now') → step u (.tick now) = some v →
    timer.deadline ≤ now → v.decode.isSome = true → w ∈ v.wakes.drop s.wakes.length

/-- The last poll of the timer was pending, and with the waker `w`. -/
structure Armed (s : Connection C) (w : Nat) : Prop where
  registered : ∀ timer, s.timer = some timer → timer.fired = false ∧ timer.waker = some w
  woken : WokenWhenDue s s w

/-- The poll comes before the timer is due, or its second look at the clock
before the next check is. -/
def PolledInTime (s : Connection C) (now now' : Nat) : Prop :=
  ∀ d timer, s.decode = some d → d.timer = some timer →
    now < timer.deadline ∨ now' < timer.deadline + d.hb.interval

theorem toMessage_timer (d : DecodeStream C) (now : Nat) (frame : Frame) :
    (d.toMessage now frame).1.timer = d.timer ∧
      (d.toMessage now frame).1.hb.interval = d.hb.interval := by
  cases frame with
  | text data =>
    simp only [DecodeStream.toMessage]
    split <;> exact ⟨rfl, rfl⟩
  | _ => exact ⟨rfl, rfl⟩

theorem nextFrame_timer (d : DecodeStream C) (now : Nat) :
    (d.nextFrame now).1.timer = d.timer ∧ (d.nextFrame now).1.hb.interval = d.hb.interval := by
  unfold DecodeStream.nextFrame
  split
  · exact ⟨rfl, rfl⟩
  · split
    · exact ⟨rfl, rfl⟩
    · exact ⟨rfl, rfl⟩
    · exact toMessage_timer _ now _

theorem readLoop_timer {d d' : DecodeStream C} {now : Nat} {stream : List Incoming}
    {polled : Poll (Option (Except (ProtocolError C) Message))}
    (h : d.readLoop now stream = (d', polled)) :
    d'.timer = d.timer ∧ d'.hb.interval = d.hb.interval := by
  induction stream generalizing d with
  | nil =>
    have hnext := nextFrame_timer d now
    simp only [DecodeStream.readLoop] at h
    rcases hframe : d.nextFrame now with ⟨d₁, _ | item⟩ <;> rw [hframe] at h hnext <;> cases h
    · exact hnext
    · exact hnext
  | cons incoming rest ih =>
    have hnext := nextFrame_timer d now
    simp only [DecodeStream.readLoop] at h
    rcases hframe : d.nextFrame now with ⟨d₁, _ | item⟩ <;> rw [hframe] at h hnext
    · cases incoming with
      | chunk data =>
        obtain ⟨htimer, hinterval⟩ := ih h
        exact ⟨htimer.trans hnext.1, hinterval.trans hnext.2⟩
      | err | done =>
        cases h
        exact hnext
    · cases h
      exact hnext

/-- What a poll of the decode stream can do: it answers an item, finds no timer
or one that is not due, or makes a check that passes or ends the stream. -/
inductive PollMove (s : Connection C) (d : DecodeStream C) (w now now' : Nat) :
    Connection C → Poll (Option (Except (ProtocolError C) Message)) → Prop
  | item {d' : DecodeStream C} (item : Option (Except (ProtocolError C) Message))
      (hread : d.readLoop now d.stream = (d', .ready item)) :
      PollMove s d w now now' { s with decode := some d' } (.ready item)
  | untimed {d' : DecodeStream C} (hread : d.readLoop now d.stream = (d', .pending))
      (htimer : d'.timer = none) : PollMove s d w now now' { s with decode := some d' } .pending
  | early {d' : DecodeStream C} {timer : Sleep}
      (hread : d.readLoop now d.stream = (d', .pending)) (htimer : d'.timer = some timer)
      (hearly : now < timer.deadline) :
      PollMove s d w now now'
        { s with decode := some { d' with timer := some { timer with waker := some w } } } .pending
  | passes {u : Connection C} {d' : DecodeStream C} {timer : Sleep}
      (hread : d.readLoop now d.stream = (d', .pending)) (htimer : d'.timer = some timer)
      (hdue : timer.deadline ≤ now) (hbefore : timer.deadline < d'.hb.deadline)
      (hdecode : u.decode = some { d' with timer := some ⟨timer.deadline + d'.hb.interval,
        decide (timer.deadline + d'.hb.interval ≤ now'), some w⟩ })
      (hwoken : timer.deadline + d'.hb.interval ≤ now' → w ∈ u.wakes.drop s.wakes.length)
      (hyielded : u.yielded = s.yielded) :
      PollMove s d w now now' u .pending
  | closes {u : Connection C} {d' : DecodeStream C} {timer timer' : Sleep}
      (hread : d.readLoop now d.stream = (d', .pending)) (htimer : d'.timer = some timer)
      (hdue : timer.deadline ≤ now) (hafter : d'.hb.deadline ≤ timer.deadline)
      (hdecode : u.decode = some { d' with timer := some timer' })
      (htimer' : timer'.deadline = timer.deadline) (hyielded : u.yielded = s.yielded)
      (hpushed : u.pushed = s.pushed ++ [.close (some (.ofCode .normal))]) :
      PollMove s d w now now' u (.ready none)

theorem PollMove.of_poll (s : Connection C) (d : DecodeStream C) (w now now' : Nat) :
    PollMove s d w now now' (s.pollDecode d w now now').1 (s.pollDecode d w now now').2 := by
  rcases hread : d.readLoop now d.stream with ⟨d', item | _⟩
  · simp only [Connection.pollDecode, hread]
    exact .item item hread
  · simp only [Connection.pollDecode, hread]
    cases htimer : d'.timer with
    | none =>
      simp only [Connection.checkTimer, htimer]
      exact .untimed hread htimer
    | some timer =>
      by_cases hdue : timer.deadline ≤ now
      · by_cases hafter : d'.hb.deadline ≤ timer.deadline
        · rw [checkTimer_lost htimer hdue hafter, push_eq]
          exact .closes hread htimer hdue hafter rfl (Sleep.fire_deadline timer now) rfl rfl
        · obtain ⟨u, hcheck, hyielded, hdecode, hwoken⟩ :=
            checkTimer_passes (s := s) (w := w) htimer hdue (Nat.lt_of_not_le hafter)
          rw [hcheck]
          exact .passes hread htimer hdue (Nat.lt_of_not_le hafter) hdecode hwoken hyielded
      · rw [checkTimer_early htimer (Nat.lt_of_not_le hdue)]
        exact .early hread htimer (Nat.lt_of_not_le hdue)

theorem PollMove.yielded_eq {s u : Connection C} {d : DecodeStream C} {w now now' : Nat}
    {polled : Poll (Option (Except (ProtocolError C) Message))}
    (h : PollMove s d w now now' u polled) : u.yielded = s.yielded := by
  cases h with
  | item | untimed | early => rfl
  | passes _ _ _ _ _ _ hyielded => exact hyielded
  | closes _ _ _ _ _ _ hyielded => exact hyielded

theorem PollMove.of_step {s t : Connection C} {w now now' : Nat}
    (h : step s (.pollDecode w now now') = some t) : ∃ d u polled, s.decode = some d ∧
      s.clock ≤ now ∧ now ≤ now' ∧ PollMove s d w now now' u polled ∧
      t = { u with clock := now', yielded := s.yielded ++ [(w, polled)] } := by
  simp only [step] at h
  split at h
  · rename_i d hd
    split at h
    · rename_i hnow
      simp only [Bool.and_eq_true, decide_eq_true_eq] at hnow
      have hmove := PollMove.of_poll s d w now now'
      refine ⟨d, _, _, hd, hnow.1, hnow.2, hmove, ?_⟩
      rw [← hmove.yielded_eq]
      exact (Option.some.inj h).symm
    · cases h
  · cases h

theorem timer_of_decode {s : Connection C} {d : DecodeStream C} (h : s.decode = some d) :
    s.timer = d.timer := by
  rw [Connection.timer, h]
  rfl

/-- A timer that has fired was due. -/
def FiredDue (s : Connection C) : Prop :=
  ∀ timer, s.timer = some timer → timer.fired = true → timer.deadline ≤ s.clock

section Polls
variable {s t : Connection C} {w now now' : Nat}

theorem polledInTime_iff {d : DecodeStream C} {timer : Sleep} (hd : s.decode = some d)
    (htimer : d.timer = some timer) : PolledInTime s now now' ↔
      now < timer.deadline ∨ now' < timer.deadline + d.hb.interval := by
  constructor
  · exact fun hintime => hintime d timer hd htimer
  · intro hintime d₁ timer₁ hd₁ htimer₁
    obtain rfl := Option.some.inj (hd.symm.trans hd₁)
    obtain rfl := Option.some.inj (htimer.symm.trans htimer₁)
    exact hintime

theorem pending_timer (hs : FiredDue s) (h : step s (.pollDecode w now now') = some t)
    (hpending : t.yielded.getLast? = some (w, .pending)) :
    (s.timer = none ∧ t.timer = none) ∨ ∃ timer timer', s.timer = some timer ∧
      t.timer = some timer' ∧
      (timer'.fired = false ∧ timer'.waker = some w ↔ PolledInTime s now now') ∧
      (¬PolledInTime s now now' → w ∈ t.wakes.drop s.wakes.length) := by
  obtain ⟨d, u, polled, hd, hnow, _, hmove, rfl⟩ := PollMove.of_step h
  obtain rfl : polled = .pending := by simpa using hpending
  cases hmove with
  | untimed hread htimer =>
    obtain ⟨hkept, _⟩ := readLoop_timer hread
    exact .inl ⟨(timer_of_decode hd).trans (hkept.symm.trans htimer), htimer⟩
  | @early d' timer hread htimer hearly =>
    have hsrc : d.timer = some timer := (readLoop_timer hread).1.symm.trans htimer
    have hintime : PolledInTime s now now' := (polledInTime_iff hd hsrc).mpr (.inl hearly)
    have hfired : timer.fired = false := Bool.eq_false_iff.mpr fun hf =>
      absurd ((hs timer ((timer_of_decode hd).trans hsrc) hf).trans hnow) (Nat.not_le.mpr hearly)
    exact .inr ⟨timer, _, (timer_of_decode hd).trans hsrc, rfl,
      ⟨fun _ => hintime, fun _ => ⟨hfired, rfl⟩⟩, absurd hintime⟩
  | @passes _ d' timer hread htimer hdue _ hdecode hwoken =>
    obtain ⟨hkept, hinterval⟩ := readLoop_timer hread
    have hsrc : d.timer = some timer := hkept.symm.trans htimer
    rw [hinterval] at hdecode hwoken
    have hintime : PolledInTime s now now' ↔ now' < timer.deadline + d.hb.interval := by
      rw [polledInTime_iff hd hsrc, or_iff_right (Nat.not_lt.mpr hdue)]
    refine .inr ⟨timer, _, (timer_of_decode hd).trans hsrc, timer_of_decode hdecode, ?_, ?_⟩
    · rw [hintime, decide_eq_false_iff_not, Nat.not_le, and_iff_left rfl]
    · rw [hintime, Nat.not_lt]
      exact hwoken

theorem pollDecode_firedDue (hs : FiredDue s) (h : step s (.pollDecode w now now') = some t) :
    FiredDue t := by
  obtain ⟨d, u, polled, hd, hnow, hnow', hmove, rfl⟩ := PollMove.of_step h
  have hkept {timer : Sleep} (htimer : d.timer = some timer) (hf : timer.fired = true) :
      timer.deadline ≤ now' :=
    (hs timer ((timer_of_decode hd).trans htimer) hf).trans (hnow.trans hnow')
  intro timer' htimer' hf
  cases hmove with
  | item _ hread =>
    exact hkept ((readLoop_timer hread).1.symm.trans htimer') hf
  | untimed _ htimer => cases htimer.symm.trans htimer'
  | early hread htimer =>
    have hdue := hkept ((readLoop_timer hread).1.symm.trans htimer)
    cases htimer'
    exact hdue hf
  | passes _ _ _ _ hdecode =>
    cases (timer_of_decode hdecode).symm.trans htimer'
    exact of_decide_eq_true hf
  | closes _ _ hdue _ hdecode hsame =>
    cases (timer_of_decode hdecode).symm.trans htimer'
    exact hsame.trans_le (hdue.trans hnow')

end Polls

/-- The steps that do not poll the decode stream leave its timer as it is. -/
structure Keeps (s t : Connection C) : Prop where
  clock : t.clock = s.clock
  wakes : s.wakes <+: t.wakes
  timer : t.decode.isSome = true → s.decode.isSome = true ∧ t.timer = s.timer

theorem Keeps.woken {s t : Connection C} {woken : List Nat} (hclock : t.clock = s.clock)
    (hwakes : t.wakes = s.wakes ++ woken) (hdecode : t.decode = s.decode) : Keeps s t := by
  refine ⟨hclock, ⟨woken, hwakes.symm⟩, fun hsome => ?_⟩
  rw [Connection.timer, Connection.timer, hdecode]
  exact ⟨hdecode ▸ hsome, rfl⟩

theorem Keeps.same {s t : Connection C} (hclock : t.clock = s.clock) (hwakes : t.wakes = s.wakes)
    (hdecode : t.decode = s.decode) : Keeps s t :=
  .woken hclock (hwakes.trans (List.append_nil _).symm) hdecode

theorem step_keeps {s t : Connection C} {act : Act} (h : step s act = some t)
    (hpoll : ∀ w now now', act ≠ .pollDecode w now now') (htick : ∀ now, act ≠ .tick now) :
    Keeps s t := by
  cases ConnectionMove.of_step h with
  | pollDecode w | pollDecodePush w => exact absurd rfl (hpoll w _ _)
  | tick => exact absurd rfl (htick _)
  | push | send | dropSender => exact .woken rfl rfl rfl
  | dropStream =>
    refine ⟨rfl, ?_, nofun⟩
    rw [List.append_assoc]
    exact List.prefix_append _ _
  | arrive incoming hd =>
    refine ⟨rfl, List.prefix_refl _, fun _ => ⟨by rw [hd]; rfl, ?_⟩⟩
    rw [timer_of_decode hd]
    rfl
  | pollEncode w budget =>
    have hsame := pollEncode_sameReader s w budget
    obtain ⟨woken, hwoken⟩ := hsame.wakes
    exact .woken hsame.clock hwoken.symm hsame.decode
  | cloneQueue | dropQueue | sendRefused | cloneSender => exact .same rfl rfl rfl

theorem tick_timer (s : Connection C) (now : Nat) :
    (s.tick now).timer = s.timer.map (fun timer => (timer.fire now).1) ∧
      (s.tick now).wakes = s.wakes ++ ((s.timer.map fun timer => (timer.fire now).2).getD []) := by
  unfold Connection.tick Connection.timer
  cases hd : s.decode with
  | none => simp
  | some d =>
    cases htimer : d.timer with
    | none => simp [htimer]
    | some timer => simp [htimer]

theorem step_firedDue {s t : Connection C} {act : Act} (h : step s act = some t)
    (hs : FiredDue s) : FiredDue t := by
  by_cases htick : ∃ now, act = .tick now
  · obtain ⟨now, rfl⟩ := htick
    cases ConnectionMove.of_step h with
    | tick woken hnow heq =>
      intro timer htimer hf
      rw [(tick_timer s now).1] at htimer
      obtain ⟨timer₀, htimer₀, rfl⟩ := Option.map_eq_some_iff.mp htimer
      rw [heq]
      rw [Sleep.fire_fired, Bool.or_eq_true, decide_eq_true_eq] at hf
      rw [Sleep.fire_deadline]
      rcases hf with hf | hdue
      · exact (hs timer₀ htimer₀ hf).trans hnow
      · exact hdue
  · by_cases hpoll : ∃ w now now', act = .pollDecode w now now'
    · obtain ⟨w, now, now', rfl⟩ := hpoll
      exact pollDecode_firedDue hs h
    · have hkeeps := step_keeps h (fun w now now' heq => hpoll ⟨w, now, now', heq⟩)
        fun now heq => htick ⟨now, heq⟩
      intro timer htimer hf
      have hsome : t.decode.isSome = true := by
        rw [Connection.timer] at htimer
        obtain ⟨d, hd, _⟩ := Option.bind_eq_some_iff.mp htimer
        rw [hd]
        rfl
      rw [hkeeps.clock]
      exact hs timer ((hkeeps.timer hsome).2 ▸ htimer) hf

structure Waiting (s : Connection C) (deadline w : Nat) (u : Connection C) : Prop where
  wakes : s.wakes <+: u.wakes
  timer : u.decode.isSome = true →
    u.timer = some ⟨deadline, false, some w⟩ ∨ w ∈ u.wakes.drop s.wakes.length

section Waiting
variable {s u v : Connection C} {deadline w now : Nat}

theorem Waiting.keeps (h : Waiting s deadline w u) (hkeeps : Keeps u v) :
    Waiting s deadline w v := by
  refine ⟨h.wakes.trans hkeeps.wakes, fun hsome => ?_⟩
  obtain ⟨hsome', htimer⟩ := hkeeps.timer hsome
  rcases h.timer hsome' with hwait | hwoken
  · exact .inl (htimer.trans hwait)
  · exact .inr ((List.IsPrefix.drop hkeeps.wakes _).subset hwoken)

theorem Waiting.tick (h : Waiting s deadline w u) : Waiting s deadline w (u.tick now) ∧
    (deadline ≤ now → (u.tick now).decode.isSome = true →
      w ∈ (u.tick now).wakes.drop s.wakes.length) := by
  obtain ⟨htimer, hwakes⟩ := tick_timer u now
  have hprefix : u.wakes <+: (u.tick now).wakes := ⟨_, hwakes.symm⟩
  by_cases hsome : u.decode.isSome = true
  · rcases h.timer hsome with hwait | hwoken
    · rw [hwait, Option.map_some] at htimer hwakes
      by_cases hdue : deadline ≤ now
      · have hfire : (⟨deadline, false, some w⟩ : Sleep).fire now =
            (⟨deadline, true, none⟩, [w]) := by simp [Sleep.fire, hdue]
        rw [hfire, Option.getD_some] at hwakes
        have hwoken : w ∈ (u.tick now).wakes.drop s.wakes.length := by
          rw [hwakes, List.drop_append_of_le_length h.wakes.length_le]
          exact List.mem_concat_self
        exact ⟨⟨h.wakes.trans hprefix, fun _ => .inr hwoken⟩, fun _ _ => hwoken⟩
      · have hearly : now < (⟨deadline, false, some w⟩ : Sleep).deadline := Nat.lt_of_not_le hdue
        rw [Sleep.fire_eq_self hearly] at htimer
        exact ⟨⟨h.wakes.trans hprefix, fun _ => .inl htimer⟩, fun hle => absurd hle hdue⟩
    · have hwoken' := (List.IsPrefix.drop hprefix _).subset hwoken
      exact ⟨⟨h.wakes.trans hprefix, fun _ => .inr hwoken'⟩, fun _ _ => hwoken'⟩
  · have hnone : ¬(u.tick now).decode.isSome = true := by rwa [tick_isSome]
    exact ⟨⟨h.wakes.trans hprefix, fun hsome => absurd hsome hnone⟩,
      fun _ hsome => absurd hsome hnone⟩

theorem Waiting.path {ms : List (Move (Connection C) Act)} (h : Waiting s deadline w u)
    (hu : Path step u ms v) (hms : ∀ m ∈ ms, ∀ w now now', m.act ≠ .pollDecode w now now') :
    Waiting s deadline w v := by
  apply hu.invariant_of (I := Waiting s deadline w) hms h
  intro v act v' hact hstep hv
  by_cases htick : ∃ now, act = .tick now
  · obtain ⟨now, rfl⟩ := htick
    cases ConnectionMove.of_step hstep with
    | tick => exact hv.tick.1
  · exact hv.keeps (step_keeps hstep hact fun now heq => htick ⟨now, heq⟩)

end Waiting

theorem wokenWhenDue_of_registered {s t : Connection C} {w : Nat} (hwakes : s.wakes <+: t.wakes)
    (h : ∀ timer, t.timer = some timer → (timer.fired = false ∧ timer.waker = some w) ∨
      w ∈ t.wakes.drop s.wakes.length) : WokenWhenDue s t w := by
  intro timer htimer ms u now v hpath hms hstep hdue hsome
  have hwaiting : Waiting s timer.deadline w t := by
    refine ⟨hwakes, fun _ => ?_⟩
    rcases h timer htimer with ⟨hfired, hwaker⟩ | hwoken
    · rw [htimer, ← hfired, ← hwaker]
      exact .inl rfl
    · exact .inr hwoken
  cases ConnectionMove.of_step hstep with
  | tick => exact (hwaiting.path hpath hms).tick.2 hdue hsome

theorem armed_iff (s : Connection C) (w : Nat) :
    Armed s w ↔ ∀ timer, s.timer = some timer → timer.fired = false ∧ timer.waker = some w :=
  ⟨Armed.registered, fun h => ⟨h, wokenWhenDue_of_registered (List.prefix_refl _)
    fun timer htimer => .inl (h timer htimer)⟩⟩

theorem pollDecode_wakes {s t : Connection C} {w now now' : Nat}
    (h : step s (.pollDecode w now now') = some t) : s.wakes <+: t.wakes := by
  cases ConnectionMove.of_step h with
  | pollDecode => exact List.prefix_append _ _
  | pollDecodePush =>
    rw [List.append_assoc]
    exact List.prefix_append _ _

section Runs
variable {cfg : WsConfig C} {now now' : Nat} {t : Connection C}
  {ms : List (Move (Connection C) Act)}

theorem firedDue_of_path (h : Path step (splitStream cfg now now') ms t) : FiredDue t := by
  apply h.invariant (I := FiredDue)
  · intro timer htimer hf
    rw [Connection.timer] at htimer
    obtain ⟨dur, _, rfl⟩ := Option.map_eq_some_iff.mp htimer
    cases hf
  · exact fun _ _ _ hstep hu => step_firedDue hstep hu

/-- A poll that answers `Pending` leaves the timer armed exactly if it is in time;
otherwise it wakes the task. The check that follows is never missed. -/
theorem heartbeat_armed_or_woken (h : Path step (splitStream cfg now now') ms t) :
    ∀ m ∈ ms, ∀ w now now', PollsPending m w now now' →
      (Armed m.dst w ↔ PolledInTime m.src now now') ∧
      (¬PolledInTime m.src now now' → w ∈ m.dst.wakes.drop m.src.wakes.length) ∧
      WokenWhenDue m.src m.dst w := by
  intro m hm w now now' ⟨hact, hpending⟩
  obtain ⟨ps, qs, rfl, hps, hstep⟩ := h.exists_prefix hm
  rw [hact] at hstep
  have hwakes := pollDecode_wakes hstep
  rw [armed_iff]
  rcases pending_timer (firedDue_of_path hps) hstep hpending with
    ⟨hsrc, hdst⟩ | ⟨timer, timer', _, hdst, harmed, hwoken⟩
  · have hintime : PolledInTime m.src now now' := by
      intro d timer hd htimer
      rw [timer_of_decode hd, htimer] at hsrc
      cases hsrc
    refine ⟨⟨fun _ => hintime, fun _ timer htimer => ?_⟩, fun hlate => absurd hintime hlate, ?_⟩
    · rw [hdst] at htimer
      cases htimer
    · intro timer htimer
      rw [hdst] at htimer
      cases htimer
  · refine ⟨?_, hwoken, wokenWhenDue_of_registered hwakes fun timer₁ htimer₁ => ?_⟩
    · rw [hdst, ← harmed]
      exact ⟨fun hall => hall _ rfl, fun hw timer₁ htimer₁ => by rwa [← Option.some.inj htimer₁]⟩
    · obtain rfl := Option.some.inj (hdst.symm.trans htimer₁)
      by_cases hintime : PolledInTime m.src now now'
      · exact .inl (harmed.mpr hintime)
      · exact .inr (hwoken hintime)

/-- A poll that is an interval late finds the next check due and wakes its task. -/
theorem late_poll_woken : ∃ ms s t,
    Path step (splitStream (WsConfig.default shortCodec) 0 0)
      (ms ++ [⟨s, .pollDecode 0 10 10, t⟩]) t ∧
      ms.map Move.act = [.pollDecode 0 0 0, .tick 10] ∧ s.wakes = [0] ∧ ¬Armed t 0 ∧
      0 ∈ t.wakes.drop s.wakes.length ∧ WokenWhenDue s t 0 := by
  obtain ⟨ms, s, t, h, hacts, hp⟩ := exists_path_of_eval step
    (splitStream (WsConfig.default shortCodec) 0 0)
    [.pollDecode 0 0 0, .tick 10] (.pollDecode 0 10 10)
    (fun s t => (s.decode.any fun d => (d.timer.any fun timer => timer.deadline == 5) &&
      d.hb.interval == 5) && decide (s.wakes = [0]) &&
      t.yielded.getLast?.any fun y => y.1 == 0 && y.2.isPending) (by decide)
  rw [Bool.and_eq_true, Bool.and_eq_true, decide_eq_true_eq] at hp
  obtain ⟨⟨hdecode, hwakes⟩, hyielded⟩ := hp
  have hpending : t.yielded.getLast? = some (0, .pending) := last_pending hyielded
  obtain ⟨harmed, hwoken, hdue⟩ :=
    heartbeat_armed_or_woken h ⟨s, .pollDecode 0 10 10, t⟩ (by simp) 0 10 10 ⟨rfl, hpending⟩
  have hlate : ¬PolledInTime s 10 10 := by
    intro hintime
    obtain ⟨d, hd, hp⟩ := (Option.any_eq_true _ _).mp hdecode
    rw [Bool.and_eq_true, beq_iff_eq] at hp
    obtain ⟨timer, htimer, hdeadline⟩ := (Option.any_eq_true _ _).mp hp.1
    have hdeadline : timer.deadline = 5 := eq_of_beq hdeadline
    have := hintime d timer hd htimer
    omega
  exact ⟨ms, s, t, h, hacts, hwakes, mt harmed.1 hlate, hwoken hlate, hdue⟩

/-- The timer is not armed after that poll: it has fired. -/
theorem missed_interval_disarms : ¬∀ ms t,
    Path step (splitStream (WsConfig.default shortCodec) 0 0) ms t →
      ∀ m ∈ ms, ∀ w now now', PollsPending m w now now' → Armed m.dst w := by
  intro hall
  obtain ⟨ms, s, t, h, _, hp⟩ := exists_path_of_eval step
    (splitStream (WsConfig.default shortCodec) 0 0)
    [.pollDecode 0 0 0, .tick 10] (.pollDecode 0 10 10)
    (fun _ t => (t.timer.any fun timer => timer.fired) &&
      t.yielded.getLast?.any fun y => y.1 == 0 && y.2.isPending) (by decide)
  rw [Bool.and_eq_true] at hp
  obtain ⟨hlost, hyielded⟩ := hp
  have hpending : t.yielded.getLast? = some (0, .pending) := last_pending hyielded
  obtain ⟨timer, htimer, hfired⟩ := (Option.any_eq_true _ _).mp hlost
  have harmed := hall _ t h ⟨s, .pollDecode 0 10 10, t⟩ (by simp) 0 10 10 ⟨rfl, hpending⟩
  rw [(harmed.registered timer htimer).1] at hfired
  cases hfired

end Runs

end ActixSend.WebSocket
