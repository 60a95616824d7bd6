import Mathlib.Order.Nat
import ActixSend.Transition.Table
import ActixSend.WebSocket.Heartbeat

/-! # Idle clients

A heartbeat check compares the time it was scheduled for with the deadline that
the last ping or pong has set. Scheduled times are an interval apart, whenever
the polls come; the deadline is taken from the clock.
-/

namespace ActixSend.WebSocket

open Transition
set_option autoImplicit false

variable {C : Codec}

structure Check where
  polled : Nat
  scheduled : Nat
  deriving DecidableEq

/-- The check that a poll makes: the inner stream is pending and the timer is due. -/
def DecodeStream.check? (d : DecodeStream C) (now : Nat) : Option Check :=
  match d.readLoop now d.stream with
  | (_, .ready _) => none
  | (d, .pending) => d.timer.bind fun timer =>
    if timer.deadline ≤ now then some ⟨now, timer.deadline⟩ else none

def checkOf (m : Move (Connection C) Act) : Option Check :=
  match m.act with
  | .pollDecode _ now _ => m.src.decode.bind fun d => d.check? now
  | _ => none

def isBeat : Except (ProtocolError C) Message → Bool
  | .ok (.ping _) => true
  | .ok (.pong _) => true
  | _ => false

def Poll.beats : Poll (Option (Except (ProtocolError C) Message)) → Bool
  | .ready (some item) => isBeat item
  | _ => false

def beatOf (m : Move (Connection C) Act) : Option Nat :=
  match m.act with
  | .pollDecode _ now _ =>
    if m.dst.yielded.getLast?.any fun y => y.2.beats then some now else none
  | _ => none

/-- When the last ping or pong was decoded, or the connection created. -/
def lastBeat (created : Nat) (ms : List (Move (Connection C) Act)) : Nat :=
  (ms.filterMap beatOf).getLast?.getD created

def passes (m : Move (Connection C) Act) : Bool :=
  (checkOf m).isSome && m.dst.yielded.getLast?.any fun y => y.2.isPending

def passed (ms : List (Move (Connection C) Act)) : Nat := ms.countP passes

structure Closes (m : Move (Connection C) Act) : Prop where
  ends : ∃ w now now', m.act = .pollDecode w now now' ∧
    m.dst.yielded = m.src.yielded ++ [(w, .ready none)]
  queued : m.dst.pushed = m.src.pushed ++ [.close (some (.ofCode .normal))]

structure Exhausted (d : DecodeStream C) : Prop where
  stream : d.stream = []
  buffer : d.readBuf = [] ∨ ∃ codec buf, C.decode codec buf = (d.codec, d.readBuf, .ok none)

/-- Each check is polled before the next is due, until one ends the stream. -/
structure CheckedInTime (start interval : Nat) (ms : List (Move (Connection C) Act))
    (t : Connection C) : Prop where
  polled : ∀ m ∈ ms, ∀ check, checkOf m = some check → check.polled < check.scheduled + interval
  due : ∀ k, start + (k + 1) * interval ≤ t.clock → k ≤ passed ms ∨ ∃ m ∈ ms, Closes m

/-- The numbers of the checks that are scheduled at or after `deadline`. -/
def checksFrom (start interval deadline : Nat) : Set Nat :=
  {k | 0 < k ∧ deadline ≤ start + k * interval}

/-- The heartbeat in a run whose timer was made at `start` and whose heartbeat
was made at `created`. -/
structure HeartbeatLaws (start created interval timeout : Nat)
    (ms : List (Move (Connection C) Act)) (t : Connection C) : Prop where
  scheduled : ∀ ms₁ m ms₂, ms = ms₁ ++ m :: ms₂ → ∀ check, checkOf m = some check →
    check.scheduled = start + (passed ms₁ + 1) * interval ∧ check.scheduled ≤ check.polled
  passes_or_closes : ∀ m ∈ ms, (checkOf m).isSome = true → (passes m = true ↔ ¬Closes m)
  closes_iff : ∀ ms₁ m ms₂, ms = ms₁ ++ m :: ms₂ → (Closes m ↔
    ∃ check, checkOf m = some check ∧ lastBeat created ms₁ + timeout ≤ check.scheduled)
  decoded : ∀ m ∈ ms, (checkOf m).isSome = true → ∃ d, m.dst.decode = some d ∧ Exhausted d
  idle : ∀ ms₁ ms₂, ms = ms₁ ++ ms₂ → (∀ m ∈ ms₁, ¬Closes m) → (∀ m ∈ ms₂, beatOf m = none) →
    CheckedInTime start interval ms t →
    ∃ k, IsLeast (checksFrom start interval (lastBeat created ms₁ + timeout)) k ∧
      (start + (k + 1) * interval ≤ t.clock → ∃ m ∈ ms₂, Closes m ∧ ∃ check,
        checkOf m = some check ∧ check.scheduled = start + k * interval ∧
          check.polled < start + (k + 1) * interval) ∧
      (start < lastBeat created ms₁ + timeout →
        start + k * interval < lastBeat created ms₁ + timeout + interval) ∧
      (lastBeat created ms₁ + timeout ≤ start → k = 1)

theorem toMessage_hb {d d' : DecodeStream C} {now : Nat} {frame : Frame}
    {item : Except (ProtocolError C) Message} (h : d.toMessage now frame = (d', item)) :
    d'.hb = if isBeat item then d.hb.update now else d.hb := by
  cases frame with
  | text data =>
    simp only [DecodeStream.toMessage] at h
    split at h <;> cases h <;> rfl
  | _ =>
    cases h
    rfl

theorem nextFrame_hb {d d' : DecodeStream C} {now : Nat}
    {item : Option (Except (ProtocolError C) Message)} (h : d.nextFrame now = (d', item)) :
    d'.hb = if item.any isBeat then d.hb.update now else d.hb := by
  unfold DecodeStream.nextFrame at h
  split at h
  · cases h
    rfl
  · split at h
    · cases h
      rfl
    · cases h
      rfl
    · rename_i codec buf frame _
      rcases hmessage : DecodeStream.toMessage { d with codec := codec, readBuf := buf } now frame
        with ⟨d₁, item⟩
      rw [hmessage] at h
      cases h
      have hbeat := toMessage_hb hmessage
      exact hbeat

theorem readLoop_hb {d d' : DecodeStream C} {now : Nat} {stream : List Incoming}
    {polled : Poll (Option (Except (ProtocolError C) Message))}
    (h : d.readLoop now stream = (d', polled)) :
    d'.hb = if polled.beats then d.hb.update now else d.hb := by
  induction stream generalizing d with
  | nil =>
    simp only [DecodeStream.readLoop] at h
    rcases hframe : d.nextFrame now with ⟨d₁, _ | item⟩ <;> rw [hframe] at h <;> cases h
    · exact nextFrame_hb hframe
    · exact nextFrame_hb hframe
  | cons incoming rest ih =>
    simp only [DecodeStream.readLoop] at h
    rcases hframe : d.nextFrame now with ⟨d₁, _ | item⟩ <;> rw [hframe] at h
    · have hsame : d₁.hb = d.hb := nextFrame_hb hframe
      cases incoming with
      | chunk data =>
        have hrest := ih h
        rwa [hsame] at hrest
      | err | done =>
        cases h
        exact hsame
    · cases h
      exact nextFrame_hb hframe

theorem nextFrame_none {d d' : DecodeStream C} {now : Nat} (h : d.nextFrame now = (d', none)) :
    d'.readBuf = [] ∨ ∃ codec buf, C.decode codec buf = (d'.codec, d'.readBuf, .ok none) := by
  unfold DecodeStream.nextFrame at h
  split at h
  · rename_i hempty
    cases h
    exact .inl (List.isEmpty_iff.mp hempty)
  · split at h
    · cases h
    · rename_i codec buf hdecode
      cases h
      exact .inr ⟨_, _, hdecode⟩
    · cases h

theorem readLoop_exhausted {d d' : DecodeStream C} {now : Nat} {stream : List Incoming}
    (h : d.readLoop now stream = (d', .pending)) : Exhausted d' := by
  induction stream generalizing d with
  | nil =>
    simp only [DecodeStream.readLoop] at h
    rcases hframe : d.nextFrame now with ⟨d₁, _ | item⟩ <;> rw [hframe] at h <;> cases h
    have hnone := nextFrame_none hframe
    exact ⟨rfl, hnone⟩
  | cons incoming rest ih =>
    simp only [DecodeStream.readLoop] at h
    rcases hframe : d.nextFrame now with ⟨d₁, _ | item⟩ <;> rw [hframe] at h
    · cases incoming with
      | chunk data => exact ih h
      | err | done => cases h
    · cases h

theorem tick_deadline {s : Connection C} {now : Nat} {d' : DecodeStream C}
    (h : (s.tick now).decode = some d') : ∃ d, s.decode = some d ∧ d'.hb = d.hb ∧
      d'.timer.map Sleep.deadline = d.timer.map Sleep.deadline := by
  simp only [Connection.tick] at h
  split at h
  · rename_i d hd
    split at h
    · rename_i timer htimer
      cases h
      refine ⟨d, hd, rfl, ?_⟩
      rw [htimer, Option.map_some, Option.map_some, Sleep.fire_deadline]
    · exact ⟨d', h, rfl, rfl⟩
  · exact ⟨d', h, rfl, rfl⟩

structure SameTimes (s t : Connection C) : Prop where
  clock : s.clock ≤ t.clock
  decode : ∀ d', t.decode = some d' → ∃ d, s.decode = some d ∧ d'.hb = d.hb ∧
    d'.timer.map Sleep.deadline = d.timer.map Sleep.deadline

theorem SameTimes.same {s t : Connection C} (hclock : t.clock = s.clock)
    (hdecode : t.decode = s.decode) : SameTimes s t :=
  ⟨hclock.ge, fun d' hd' => ⟨d', hdecode ▸ hd', rfl, rfl⟩⟩

theorem step_sameTimes {s t : Connection C} {act : Act} (h : step s act = some t)
    (hpoll : ∀ w now now', act ≠ .pollDecode w now now') : SameTimes s t := by
  cases ConnectionMove.of_step h with
  | pollDecode w | pollDecodePush w => exact absurd rfl (hpoll w _ _)
  | tick _ hnow htick =>
    constructor
    · rw [htick]
      exact hnow
    · intro d' hd'
      exact tick_deadline hd'
  | arrive incoming hd =>
    constructor
    · exact Nat.le_refl _
    · intro d' hd'
      cases hd'
      exact ⟨_, hd, rfl, rfl⟩
  | dropStream => exact ⟨Nat.le_refl _, nofun⟩
  | pollEncode w budget =>
    have hsame := pollEncode_sameReader s w budget
    exact .same hsame.clock hsame.decode
  | push | cloneQueue | dropQueue | send | sendRefused | cloneSender | dropSender =>
    exact .same rfl rfl

theorem lastBeat_snoc (created : Nat) (ms : List (Move (Connection C) Act))
    (m : Move (Connection C) Act) :
    lastBeat created (ms ++ [m]) = (beatOf m).getD (lastBeat created ms) := by
  simp only [lastBeat, List.filterMap_append]
  cases hbeat : beatOf m with
  | none => simp [hbeat]
  | some now => simp [hbeat]

theorem passed_snoc (ms : List (Move (Connection C) Act)) (m : Move (Connection C) Act) :
    passed (ms ++ [m]) = passed ms + if passes m then 1 else 0 := by
  rw [passed, List.countP_append, List.countP_singleton, passed]

/-- The timer is set for the check after those that passed, and the heartbeat
to the timeout after the last ping or pong. -/
structure Scheduled (start created interval timeout : Nat)
    (ms : List (Move (Connection C) Act)) (s : Connection C) : Prop where
  beat : lastBeat created ms ≤ s.clock
  hb : ∀ d, s.decode = some d → d.hb.interval = interval ∧ d.hb.timeout = timeout ∧
    d.hb.deadline = lastBeat created ms + timeout
  timer : ∀ d, s.decode = some d →
    d.timer.map Sleep.deadline = some (start + (passed ms + 1) * interval)

section Step
variable {start created interval timeout : Nat} {ms : List (Move (Connection C) Act)}
  {s t : Connection C}

theorem Scheduled.sameTimes (h : Scheduled start created interval timeout ms s)
    (htimes : SameTimes s t) {m : Move (Connection C) Act} (hbeat : beatOf m = none)
    (hpasses : passes m = false) : Scheduled start created interval timeout (ms ++ [m]) t := by
  have hlast : lastBeat created (ms ++ [m]) = lastBeat created ms := by
    rw [lastBeat_snoc, hbeat, Option.getD_none]
  have hpassed : passed (ms ++ [m]) = passed ms := by
    rw [passed_snoc, hpasses]
    rfl
  constructor
  · rw [hlast]
    exact h.beat.trans htimes.clock
  · intro d' hd'
    obtain ⟨d, hd, hhb, _⟩ := htimes.decode d' hd'
    rw [hlast, hhb]
    exact h.hb d hd
  · intro d' hd'
    obtain ⟨d, hd, _, htimer⟩ := htimes.decode d' hd'
    rw [hpassed, htimer]
    exact h.timer d hd

/-- What a check is and does, after `k` checks that passed and with the last
ping or pong at `last`. -/
structure CheckLaws (start interval timeout last k : Nat) (m : Move (Connection C) Act)
    (check : Check) : Prop where
  scheduled : check.scheduled = start + (k + 1) * interval
  due : check.scheduled ≤ check.polled
  exhausted : ∃ d, m.dst.decode = some d ∧ Exhausted d
  closes_iff : Closes m ↔ last + timeout ≤ check.scheduled
  passes_iff : passes m = true ↔ check.scheduled < last + timeout

theorem beatOf_poll (now : Nat) {u : Connection C} {w now' : Nat}
    {polled : Poll (Option (Except (ProtocolError C) Message))}
    (ht : t = { u with clock := now', yielded := s.yielded ++ [(w, polled)] }) :
    beatOf ⟨s, .pollDecode w now now', t⟩ = if polled.beats then some now else none := by
  subst ht
  simp only [beatOf, List.getLast?_concat, Option.any_some]

theorem passes_poll (now : Nat) {u : Connection C} {w now' : Nat}
    {polled : Poll (Option (Except (ProtocolError C) Message))}
    (ht : t = { u with clock := now', yielded := s.yielded ++ [(w, polled)] }) :
    passes ⟨s, .pollDecode w now now', t⟩ =
      ((checkOf ⟨s, .pollDecode w now now', t⟩).isSome && polled.isPending) := by
  subst ht
  simp only [passes, List.getLast?_concat, Option.any_some]

theorem checkOf_poll {d : DecodeStream C} (hd : s.decode = some d) (w now now' : Nat) :
    checkOf ⟨s, .pollDecode w now now', t⟩ = d.check? now := by
  show (s.decode.bind fun d => d.check? now) = d.check? now
  rw [hd, Option.bind_some]

theorem check?_of_pending {d d' : DecodeStream C} {now : Nat} {timer : Sleep}
    (hread : d.readLoop now d.stream = (d', .pending)) (htimer : d'.timer = some timer) :
    d.check? now = if timer.deadline ≤ now then some ⟨now, timer.deadline⟩ else none := by
  simp only [DecodeStream.check?, hread, htimer, Option.bind_some]

theorem Closes.of_poll {w now now' : Nat}
    {polled : Poll (Option (Except (ProtocolError C) Message))}
    (h : Closes ⟨s, .pollDecode w now now', t⟩) {u : Connection C}
    (ht : t = { u with clock := now', yielded := s.yielded ++ [(w, polled)] }) :
    polled = .ready none ∧ u.pushed = s.pushed ++ [.close (some (.ofCode .normal))] := by
  obtain ⟨⟨_, _, _, hact, hyielded⟩, hqueued⟩ := h
  cases hact
  rw [ht] at hyielded hqueued
  have hlast := List.append_cancel_left hyielded
  simp only [List.cons.injEq, Prod.mk.injEq, true_and, and_true] at hlast
  exact ⟨hlast, hqueued⟩

theorem Scheduled.unchecked (h : Scheduled start created interval timeout ms s)
    {m : Move (Connection C) Act} {b : Bool} {now : Nat}
    (hbeat : beatOf m = if b then some now else none) (hcheck : checkOf m = none)
    {d d' : DecodeStream C} (hd : s.decode = some d) (ht : t.decode = some d')
    (hnow : s.clock ≤ now ∧ now ≤ t.clock) (hhb : d'.hb = if b then d.hb.update now else d.hb)
    (htimer : d'.timer.map Sleep.deadline = d.timer.map Sleep.deadline) :
    Scheduled start created interval timeout (ms ++ [m]) t := by
  have hpasses : passes m = false := by
    rw [passes, hcheck]
    rfl
  cases b with
  | false =>
    refine h.sameTimes ⟨hnow.1.trans hnow.2, fun d₁ hd₁ => ?_⟩ hbeat hpasses
    cases ht.symm.trans hd₁
    exact ⟨d, hd, hhb, htimer⟩
  | true =>
    obtain ⟨hinterval, htimeout, _⟩ := h.hb d hd
    have hlast : lastBeat created (ms ++ [m]) = now := by
      rw [lastBeat_snoc, hbeat]
      rfl
    constructor
    · rw [hlast]
      exact hnow.2
    · intro d₁ hd₁
      cases ht.symm.trans hd₁
      rw [hlast, hhb, if_pos rfl, ← htimeout]
      exact ⟨hinterval, rfl, rfl⟩
    · intro d₁ hd₁
      cases ht.symm.trans hd₁
      rw [htimer, passed_snoc, hpasses]
      exact h.timer d hd

theorem Scheduled.checked (h : Scheduled start created interval timeout ms s)
    {m : Move (Connection C) Act} (hbeat : beatOf m = none) {k : Nat}
    (hpasses : (if passes m then 1 else 0) = k) {d d' : DecodeStream C} (hd : s.decode = some d)
    (ht : t.decode = some d') (hclock : s.clock ≤ t.clock) (hhb : d'.hb = d.hb)
    (htimer : d'.timer.map Sleep.deadline =
      some (start + (passed ms + 1) * interval + k * interval)) :
    Scheduled start created interval timeout (ms ++ [m]) t := by
  have hlast : lastBeat created (ms ++ [m]) = lastBeat created ms := by
    rw [lastBeat_snoc, hbeat, Option.getD_none]
  constructor
  · rw [hlast]
    exact h.beat.trans hclock
  · intro d₁ hd₁
    cases ht.symm.trans hd₁
    rw [hlast, hhb]
    exact h.hb d hd
  · intro d₁ hd₁
    cases ht.symm.trans hd₁
    rw [htimer, passed_snoc, hpasses, Nat.add_assoc, ← Nat.add_mul, Nat.add_right_comm]

/-- The timer is due when the inner stream is pending: there is a check, and it
was scheduled an interval after the last one that passed. -/
theorem Scheduled.due (h : Scheduled start created interval timeout ms s)
    {d d' : DecodeStream C} (hd : s.decode = some d) {now : Nat} {timer : Sleep}
    (hread : d.readLoop now d.stream = (d', .pending)) (htimer : d'.timer = some timer)
    (hdue : timer.deadline ≤ now) :
    d.check? now = some ⟨now, timer.deadline⟩ ∧
      timer.deadline = start + (passed ms + 1) * interval ∧ d'.hb = d.hb := by
  have hset := h.timer d hd
  rw [← (readLoop_timer hread).1, htimer, Option.map_some, Option.some_inj] at hset
  refine ⟨?_, hset, readLoop_hb hread⟩
  rw [check?_of_pending hread htimer, if_pos hdue]

theorem Scheduled.poll (h : Scheduled start created interval timeout ms s) {w now now' : Nat}
    (hstep : step s (.pollDecode w now now') = some t) :
    Scheduled start created interval timeout (ms ++ [⟨s, .pollDecode w now now', t⟩]) t ∧
      ((checkOf ⟨s, .pollDecode w now now', t⟩ = none ∧
          ¬Closes ⟨s, .pollDecode w now now', t⟩) ∨
        ∃ check, checkOf ⟨s, .pollDecode w now now', t⟩ = some check ∧
          CheckLaws start interval timeout (lastBeat created ms) (passed ms)
            ⟨s, .pollDecode w now now', t⟩ check) := by
  obtain ⟨d, u, polled, hd, hnow, hnow', hmove, ht⟩ := PollMove.of_step hstep
  obtain ⟨hinterval, _, hdeadline⟩ := h.hb d hd
  have hset := h.timer d hd
  have hclock : t.clock = now' := by rw [ht]
  have hdecode_eq : t.decode = u.decode := by rw [ht]
  have hbeat := beatOf_poll now ht
  have hpasses := passes_poll now ht
  have hcheckOf := checkOf_poll (t := t) hd w now now'
  have hcloses : Closes ⟨s, .pollDecode w now now', t⟩ → polled = .ready none ∧
      u.pushed = s.pushed ++ [.close (some (.ofCode .normal))] := fun hcloses =>
    hcloses.of_poll ht
  cases hmove with
  | @item d' item hread =>
    obtain ⟨htimer, _⟩ := readLoop_timer hread
    have hnone : d.check? now = none := by simp only [DecodeStream.check?, hread]
    refine ⟨h.unchecked hbeat (hcheckOf.trans hnone) hd hdecode_eq ⟨hnow, hclock ▸ hnow'⟩
      (readLoop_hb hread) (by rw [htimer]), .inl ⟨hcheckOf.trans hnone, fun hc => ?_⟩⟩
    have hlength := congrArg List.length (hcloses hc).2
    simp at hlength
  | @untimed d' hread htimer =>
    rw [← (readLoop_timer hread).1, htimer] at hset
    cases hset
  | @early d' timer hread htimer hearly =>
    have hnone : d.check? now = none := by
      rw [check?_of_pending hread htimer, if_neg (by omega)]
    have hhb := readLoop_hb hread
    refine ⟨h.unchecked hbeat (hcheckOf.trans hnone) hd hdecode_eq ⟨hnow, hclock ▸ hnow'⟩ hhb ?_,
      .inl ⟨hcheckOf.trans hnone, fun hc => nomatch (hcloses hc).1⟩⟩
    rw [← (readLoop_timer hread).1, htimer]
    rfl
  | @passes _ d' timer hread htimer hdue hbefore hdecode =>
    obtain ⟨hcheck, hscheduled, hhb⟩ := h.due hd hread htimer hdue
    have hcheck := hcheckOf.trans hcheck
    have hpassed : passes ⟨s, .pollDecode w now now', t⟩ = true := by
      rw [hpasses, hcheck]
      rfl
    refine ⟨h.checked (k := 1) hbeat (if_pos hpassed) hd (hdecode_eq.trans hdecode)
      (hclock ▸ hnow.trans hnow') hhb ?_, .inr ⟨_, hcheck, ?_⟩⟩
    · simp only [Option.map_some, hscheduled, hhb, hinterval, Nat.one_mul]
    · rw [hhb, hdeadline] at hbefore
      constructor
      · exact hscheduled
      · exact hdue
      · exact ⟨_, hdecode_eq.trans hdecode, (readLoop_exhausted hread).1,
          (readLoop_exhausted hread).2⟩
      · exact ⟨fun hc => (nomatch (hcloses hc).1), fun hle => absurd hbefore (Nat.not_lt.mpr hle)⟩
      · exact ⟨fun _ => hbefore, fun _ => hpassed⟩
  | @closes _ d' timer timer' hread htimer hdue hafter hdecode htimer' hyielded hpushed =>
    obtain ⟨hcheck, hscheduled, hhb⟩ := h.due hd hread htimer hdue
    have hcheck := hcheckOf.trans hcheck
    have hfailed : passes ⟨s, .pollDecode w now now', t⟩ ≠ true := by
      rw [hpasses, hcheck]
      exact Bool.false_ne_true
    refine ⟨h.checked (k := 0) hbeat (if_neg hfailed) hd (hdecode_eq.trans hdecode)
      (hclock ▸ hnow.trans hnow') hhb ?_, .inr ⟨_, hcheck, ?_⟩⟩
    · rw [Option.map_some, htimer', hscheduled, Nat.zero_mul]
      rfl
    · rw [hhb, hdeadline] at hafter
      constructor
      · exact hscheduled
      · exact hdue
      · exact ⟨_, hdecode_eq.trans hdecode, (readLoop_exhausted hread).1,
          (readLoop_exhausted hread).2⟩
      · refine ⟨fun _ => hafter, fun _ => ⟨⟨w, now, now', rfl, by rw [ht]⟩, ?_⟩⟩
        rw [ht]
        exact hpushed
      · exact ⟨fun hp => absurd hp hfailed, fun hlt => absurd hlt (Nat.not_lt.mpr hafter)⟩

end Step

theorem exists_first_check {interval : Nat} (hinterval : 0 < interval) (start deadline : Nat) :
    ∃ k, IsLeast (checksFrom start interval deadline) k := by
  classical
  have hlate : ∃ k, k ∈ checksFrom start interval deadline := by
    refine ⟨deadline + 1, Nat.succ_pos _, ?_⟩
    have hle : deadline + 1 ≤ (deadline + 1) * interval := Nat.le_mul_of_pos_right _ hinterval
    omega
  exact ⟨Nat.find hlate, Nat.isLeast_find hlate⟩

theorem first_check_lt {start interval deadline k : Nat} (hafter : start < deadline)
    (hk : IsLeast (checksFrom start interval deadline) k) :
    start + k * interval < deadline + interval := by
  obtain ⟨⟨hpos, _⟩, hleast⟩ := hk
  obtain ⟨j, rfl⟩ : ∃ j, k = j + 1 := ⟨k - 1, by omega⟩
  rw [Nat.succ_mul]
  by_cases hj : 0 < j
  · by_contra hlate
    have hle := hleast (show j ∈ checksFrom start interval deadline from ⟨hj, by omega⟩)
    omega
  · obtain rfl : j = 0 := by omega
    omega

theorem first_check_one {start interval deadline k : Nat} (hbefore : deadline ≤ start)
    (hk : IsLeast (checksFrom start interval deadline) k) : k = 1 := by
  have hle := hk.2 (show 1 ∈ checksFrom start interval deadline from ⟨Nat.one_pos, by omega⟩)
  have hpos : 0 < k := hk.1.1
  omega

section Runs
variable {cfg : WsConfig C} {start created interval : Nat} {t : Connection C}
  {ms : List (Move (Connection C) Act)}

theorem scheduled_of_path (hcfg : cfg.heartbeat = some interval)
    (h : Path step (splitStream cfg start created) ms t) :
    Scheduled start created interval cfg.timeout ms t := by
  induction h with
  | nil =>
    constructor
    · exact Nat.le_refl _
    · intro d hd
      cases hd
      exact ⟨by simp [HeartBeat.new, WsConfig.interval, hcfg], rfl, rfl⟩
    · intro d hd
      cases hd
      simp [hcfg, Sleep.new, passed]
  | @snoc ms u v act _ hstep ih =>
    by_cases hpoll : ∃ w now now', act = .pollDecode w now now'
    · obtain ⟨w, now, now', rfl⟩ := hpoll
      exact (ih.poll hstep).1
    · have hother : ∀ w now now', act ≠ .pollDecode w now now' := fun w now now' hact =>
        hpoll ⟨w, now, now', hact⟩
      have htimes := step_sameTimes hstep hother
      cases act with
      | pollDecode w now now' => exact absurd rfl (hother w now now')
      | _ => exact ih.sameTimes htimes rfl rfl

theorem check_of_path (hcfg : cfg.heartbeat = some interval)
    (h : Path step (splitStream cfg start created) ms t) {ms₁ ms₂ : List (Move (Connection C) Act)}
    {m : Move (Connection C) Act} (hms : ms = ms₁ ++ m :: ms₂) :
    (checkOf m = none ∧ ¬Closes m) ∨ ∃ check, checkOf m = some check ∧
      CheckLaws start interval cfg.timeout (lastBeat created ms₁) (passed ms₁) m check := by
  subst hms
  obtain ⟨s, hs, hrest⟩ := h.exists_between
  obtain ⟨hsrc, hstep, _⟩ := hrest.first
  obtain ⟨src, act, dst⟩ := m
  obtain rfl : src = s := hsrc
  have hscheduled := scheduled_of_path hcfg hs
  by_cases hpoll : ∃ w now now', act = .pollDecode w now now'
  · obtain ⟨w, now, now', rfl⟩ := hpoll
    exact (hscheduled.poll hstep).2
  · refine .inl ⟨?_, fun hc => ?_⟩
    · cases act with
      | pollDecode w now now' => exact absurd ⟨w, now, now', rfl⟩ hpoll
      | _ => rfl
    · obtain ⟨w, now, now', hact, _⟩ := hc.ends
      exact hpoll ⟨w, now, now', hact⟩

theorem lastBeat_le (hcfg : cfg.heartbeat = some interval)
    {ms₁ ms₂ : List (Move (Connection C) Act)}
    (h : Path step (splitStream cfg start created) (ms₁ ++ ms₂) t) :
    lastBeat created ms₁ ≤ lastBeat created (ms₁ ++ ms₂) := by
  induction ms₂ using List.reverseRecOn generalizing t with
  | nil => rw [List.append_nil]
  | append_singleton ms₂ m ih =>
    rw [← List.append_assoc] at h ⊢
    obtain ⟨s, hs, hstep, hm⟩ := h.last
    refine (ih hs).trans ?_
    have hclock := (scheduled_of_path hcfg hs).beat
    rw [lastBeat_snoc]
    cases hbeat : beatOf m with
    | none => exact Nat.le_refl _
    | some now =>
      rw [hm] at hbeat
      rw [beatOf] at hbeat
      split at hbeat
      · rename_i w now₁ now₂ hact
        split at hbeat
        · cases hbeat
          have hact' : m.act = .pollDecode w now now₂ := hact
          rw [hact'] at hstep
          obtain ⟨_, _, _, _, hnow, _⟩ := PollMove.of_step hstep
          exact hclock.trans hnow
        · cases hbeat
      · cases hbeat

theorem lastBeat_idle {ms₁ ms₂ : List (Move (Connection C) Act)}
    (h : ∀ m ∈ ms₂, beatOf m = none) :
    lastBeat created (ms₁ ++ ms₂) = lastBeat created ms₁ := by
  have hnone : ms₂.filterMap beatOf = [] := List.filterMap_eq_nil_iff.mpr h
  rw [lastBeat, List.filterMap_append, hnone, List.append_nil, lastBeat]

theorem idle_closed (hcfg : cfg.heartbeat = some interval)
    {ms₁ ms₂ : List (Move (Connection C) Act)}
    (h : Path step (splitStream cfg start created) (ms₁ ++ ms₂) t)
    (hopen : ∀ m ∈ ms₁, ¬Closes m) (hidle : ∀ m ∈ ms₂, beatOf m = none)
    (hintime : CheckedInTime start interval (ms₁ ++ ms₂) t) {k : Nat}
    (hk : IsLeast (checksFrom start interval (lastBeat created ms₁ + cfg.timeout)) k)
    (hclock : start + (k + 1) * interval ≤ t.clock) : ∃ m ∈ ms₂, Closes m ∧ ∃ check,
      checkOf m = some check ∧ check.scheduled = start + k * interval ∧
        check.polled < start + (k + 1) * interval := by
  obtain ⟨⟨hpos, hfrom⟩, hleast⟩ := hk
  obtain ⟨j, rfl⟩ : ∃ j, k = j + 1 := ⟨k - 1, by omega⟩
  -- a check that passed was scheduled before the deadline
  have hpassed : passed (ms₁ ++ ms₂) ≤ j := by
    by_contra hlt
    obtain ⟨as, m, bs, hms, hpasses, hcount⟩ := exists_split_countP (Nat.lt_of_not_le hlt)
    rcases check_of_path hcfg h hms with ⟨hnone, _⟩ | ⟨check, _, hlaws⟩
    · rw [passes, hnone] at hpasses
      cases hpasses
    · have hbefore := hlaws.passes_iff.mp hpasses
      have hle : lastBeat created as ≤ lastBeat created (ms₁ ++ ms₂) := by
        rw [hms] at h ⊢
        exact lastBeat_le hcfg h
      rw [lastBeat_idle hidle] at hle
      rw [hlaws.scheduled, show passed as = j from hcount] at hbefore
      omega
  obtain ⟨m, hm, hcloses⟩ := (hintime.due (j + 1) hclock).resolve_left (by omega)
  have hm₂ : m ∈ ms₂ := (List.mem_append.mp hm).resolve_left fun hm₁ => hopen m hm₁ hcloses
  obtain ⟨ps, qs, rfl⟩ := List.append_of_mem hm₂
  have hsplit : ms₁ ++ (ps ++ m :: qs) = (ms₁ ++ ps) ++ m :: qs := (List.append_assoc _ _ _).symm
  rcases check_of_path hcfg h hsplit with ⟨_, hnot⟩ | ⟨check, hcheck, hlaws⟩
  · exact absurd hcloses hnot
  · have hlate := hlaws.closes_iff.mp hcloses
    have hfew : passed (ms₁ ++ ps) ≤ passed (ms₁ ++ (ps ++ m :: qs)) := by
      rw [hsplit]
      exact (List.sublist_append_left _ _).countP_le
    rw [lastBeat_idle fun n hn => hidle n (List.mem_append_left _ hn)] at hlate
    have hmember : passed (ms₁ ++ ps) + 1 ∈
        checksFrom start interval (lastBeat created ms₁ + cfg.timeout) := by
      refine ⟨Nat.succ_pos _, ?_⟩
      rw [← hlaws.scheduled]
      exact hlate
    have hround : passed (ms₁ ++ ps) = j := by
      have := hleast hmember
      omega
    have hscheduled := hlaws.scheduled
    rw [hround] at hscheduled
    refine ⟨m, hm₂, hcloses, check, hcheck, hscheduled, ?_⟩
    have hpolled := hintime.polled m hm check hcheck
    rw [hscheduled, Nat.add_assoc, ← Nat.succ_mul] at hpolled
    exact hpolled

theorem heartbeat_laws (hcfg : cfg.heartbeat = some interval) (hinterval : 0 < interval)
    (h : Path step (splitStream cfg start created) ms t) :
    HeartbeatLaws start created interval cfg.timeout ms t := by
  have hlaws : ∀ m ∈ ms, (checkOf m).isSome = true → ∃ last k check,
      CheckLaws start interval cfg.timeout last k m check := by
    intro m hm hcheck
    obtain ⟨ms₁, ms₂, hms⟩ := List.append_of_mem hm
    rcases check_of_path hcfg h hms with ⟨hnone, _⟩ | ⟨check, _, hlaws⟩
    · rw [hnone] at hcheck
      cases hcheck
    · exact ⟨_, _, check, hlaws⟩
  constructor
  · intro ms₁ m ms₂ hms check hcheck
    rcases check_of_path hcfg h hms with ⟨hnone, _⟩ | ⟨check', hcheck', hlaws⟩
    · cases hnone.symm.trans hcheck
    · cases hcheck'.symm.trans hcheck
      exact ⟨hlaws.scheduled, hlaws.due⟩
  · intro m hm hcheck
    obtain ⟨last, k, check, hm⟩ := hlaws m hm hcheck
    rw [hm.passes_iff, hm.closes_iff, Nat.not_le]
  · intro ms₁ m ms₂ hms
    rcases check_of_path hcfg h hms with ⟨hnone, hnot⟩ | ⟨check, hcheck, hlaws⟩
    · rw [hnone]
      exact ⟨fun hc => absurd hc hnot, fun ⟨_, hsome, _⟩ => nomatch hsome⟩
    · rw [hlaws.closes_iff, hcheck]
      exact ⟨fun hlate => ⟨check, rfl, hlate⟩, fun ⟨_, heq, hlate⟩ => Option.some.inj heq ▸ hlate⟩
  · intro m hm hcheck
    obtain ⟨_, _, _, hm⟩ := hlaws m hm hcheck
    exact hm.exhausted
  · rintro ms₁ ms₂ rfl hopen hidle hintime
    obtain ⟨k, hk⟩ := exists_first_check hinterval start (lastBeat created ms₁ + cfg.timeout)
    exact ⟨k, hk, idle_closed hcfg h hopen hidle hintime hk, fun hlt => first_check_lt hlt hk,
      fun hle => first_check_one hle hk⟩

/-- A client that never sends anything is closed at the second check. -/
theorem heartbeat_laws_silent : ∃ ms t,
    Path step (splitStream (WsConfig.default shortCodec) 0 0) ms t ∧
      ms.map Move.act = [.tick 5, .pollDecode 0 6 6, .tick 11, .pollDecode 0 12 12] ∧
      t.yielded.getLast?.map (fun y => y.2.isPending) = some false ∧
      HeartbeatLaws 0 0 5 10 ms t := by
  obtain ⟨ms, t, h, hacts, _, hend⟩ := exists_path_of_checkedRun step
    (splitStream (WsConfig.default shortCodec) 0 0)
    [.tick 5, .pollDecode 0 6 6, .tick 11, .pollDecode 0 12 12] (fun _ _ _ => true)
    (fun t => decide (t.yielded.getLast?.map (fun y => y.2.isPending) = some false)) (by decide)
  exact ⟨ms, t, h, hacts, of_decide_eq_true hend, heartbeat_laws rfl (by decide) h⟩

/-- Without a timeout the deadline is the start itself, a whole interval before
the first check. -/
theorem first_check_is_late : ¬∀ ms t,
    Path step (splitStream (C := shortCodec) ⟨none, some 1, false, 0⟩ 0 0) ms t →
      (∀ m ∈ ms, beatOf m = none) → CheckedInTime 0 1 ms t →
      ∀ k, IsLeast (checksFrom 0 1 (lastBeat 0 ms + 0)) k → 0 + (k + 1) * 1 ≤ t.clock →
        (∃ m ∈ ms, Closes m ∧ ∃ check, checkOf m = some check ∧ check.scheduled = 0 + k * 1) ∧
          0 + k * 1 < lastBeat 0 ms + 0 + 1 := by
  intro hall
  have hpoll : step (splitStream (C := shortCodec) ⟨none, some 1, false, 0⟩ 0 0)
      (.pollDecode 0 1 1) = some _ := rfl
  have h := (Path.single hpoll).snoc (show step _ (.tick 2) = some _ from rfl)
  have hlate := (hall _ _ h (by decide) ⟨?_, ?_⟩ 1 ⟨⟨by decide, by decide⟩, fun _ hk => hk.1⟩
    (by decide)).2
  · exact absurd hlate (by decide)
  · intro m hm check hcheck
    rcases List.mem_append.mp hm with hm | hm
    · obtain rfl := List.mem_singleton.mp hm
      have hone : some (⟨1, 1⟩ : Check) = some check := hcheck
      cases hone
      decide
    · obtain rfl := List.mem_singleton.mp hm
      cases hcheck
  · intro k hk
    have hle : 0 + (k + 1) * 1 ≤ 2 := hk
    obtain rfl | rfl : k = 0 ∨ k = 1 := by omega
    · exact .inl (Nat.zero_le _)
    · exact .inr ⟨_, List.mem_append_left _ List.mem_cons_self, ⟨0, 1, 1, rfl, rfl⟩, rfl⟩

end Runs

end ActixSend.WebSocket
