import Mathlib.Data.List.Infix
import ActixSend.WebSocket.Frames

/-! # The waker of the encode stream

A poll of the encode stream that answers `Pending` leaves its waker in the
local queue. Every push takes it and wakes it, and so does the drop of the
`WebSocketStream`. The drop of a clone of the queue does not, although the last
one is what closes the queue.
-/

namespace ActixSend.WebSocket

open Transition
set_option autoImplicit false

variable {C : Codec}

/-- The move is a poll of the encode stream by `w` that answers `Pending`. -/
def EncodePends (m : Move (Connection C) Act) (w : Nat) : Prop :=
  (∃ budget, m.act = .pollEncode w budget) ∧ m.dst.polled.getLast? = some .pending

/-- The moves `qs` follow the pending poll `m` and hold no other poll. -/
structure PendsOver (ms : List (Move (Connection C) Act)) (m : Move (Connection C) Act)
    (qs : List (Move (Connection C) Act)) (w : Nat) : Prop where
  stretch : m :: qs <:+: ms
  pends : EncodePends m w
  last : ∀ n ∈ qs, ∀ w' budget, n.act ≠ .pollEncode w' budget

/-- Since `s` a message was pushed or the queue was closed. -/
def Due (s u : Connection C) : Prop :=
  u.pushed ≠ s.pushed ∨ (s.isClosed = false ∧ u.isClosed = true)

def Woken (s u : Connection C) (w : Nat) : Prop := w ∈ u.wakes.drop s.wakes.length

def NoLostWake (ms : List (Move (Connection C) Act)) : Prop :=
  ∀ m qs w u, PendsOver ms m qs w → Path step m.dst qs u → Due m.dst u → Woken m.dst u w

/-- When the last clone of the queue goes, the pending poll has been woken before. -/
def ClosedAwake (ms : List (Move (Connection C) Act)) : Prop :=
  ∀ m qs n w, PendsOver ms m (qs ++ [n]) w → n.act = .dropQueue → n.src.handles = 1 →
    Woken m.dst n.src w

theorem drain_closed (s : Connection C) (msgs : List Message) (h : s.rx.closed = true) :
    (s.drain msgs).1.rx.closed = true := by
  induction msgs generalizing s with
  | nil => exact h
  | cons msg rest ih =>
    simp only [Connection.drain]
    split
    · apply ih
      split
      · rfl
      · exact h
    · dsimp only
      split
      · rfl
      · exact h

theorem pause_pending {s t : Connection C} (h : s.pause = (t, .pending)) :
    t = s ∧ s.writeBuf = [] := by
  simp only [Connection.pause] at h
  split at h
  · rename_i hempty
    cases h
    exact ⟨rfl, List.isEmpty_iff.mp hempty⟩
  · cases h

theorem flush_pending {s t : Connection C} {w : Nat} {spent : Bool}
    (h : s.flush w spent = (t, .pending)) : (spent = false → s.rx.closed = false) ∧
      t.inner = s.inner ∧ t.handles = s.handles := by
  simp only [Connection.flush] at h
  split at h
  · rename_i hspent
    obtain ⟨rfl, _⟩ := pause_pending h
    exact ⟨fun hnot => Bool.noConfusion (hspent.symm.trans hnot), rfl, rfl⟩
  · split at h
    · split at h <;> simp at h
    · rename_i hopen
      obtain ⟨rfl, _⟩ := pause_pending h
      refine ⟨fun _ => ?_, rfl, rfl⟩
      cases hc : s.rx.closed with
      | false => rfl
      | true => simp [hc] at hopen

/-- A poll that answers `Pending` has registered with the queue unless that is
closed, which only a poll whose budget is spent can find. -/
theorem pollEncode_pending {s t : Connection C} {w budget : Nat}
    (h : s.pollEncode w budget = (t, .pending)) :
    (t.isClosed = false → t.inner.waker = some w) ∧
      (s.spends budget = false → t.isClosed = false) := by
  cases EncodeMove.of_poll h with
  | @flushed s₁ s₂ _ _ _ hchannel hflush =>
    obtain ⟨hopen, hinner, hhandles⟩ := flush_pending hflush
    have hframe := drain_frame (s₁.register w) ((s₁.register w).rx.buffer.take budget)
    have hdrain := drain_closed (s₁.register w) ((s₁.register w).rx.buffer.take budget)
    simp only [Connection.drainChannel, Prod.mk.injEq] at hchannel
    obtain ⟨rfl, _⟩ := hchannel
    dsimp only at hinner hhandles hopen
    rw [hframe] at hinner hhandles
    have hsame : t.isClosed = s₁.isClosed := by
      rw [Connection.isClosed, hhandles]
      simp only [Connection.register]
      split <;> rfl
    constructor
    · intro hclosed
      rw [hsame] at hclosed
      rw [hinner]
      simp [Connection.register, hclosed]
    · intro hspent
      rw [hsame]
      cases hc : s₁.isClosed with
      | false => rfl
      | true =>
        have hclosed : (s₁.register w).rx.closed = true := by simp [Connection.register, hc]
        have hrx := hopen hspent
        rw [hdrain hclosed] at hrx
        cases hrx

inductive WakerStep (s : Connection C) (act : Act) (t : Connection C) (woken : List Nat) : Prop
  | taken (waker : ∀ w, s.inner.waker = some w → w ∈ woken)
  | kept (waker : t.inner.waker = s.inner.waker) (pushed : t.pushed = s.pushed)
      (handles : s.handles ≤ t.handles)
  | dropped (drop : act = .dropQueue) (waker : t.inner.waker = s.inner.waker)
      (pushed : t.pushed = s.pushed) (handles : t.handles = s.handles - 1)

theorem step_waker {s t : Connection C} {act : Act} (h : step s act = some t)
    (hact : ∀ w budget, act ≠ .pollEncode w budget) :
    ∃ woken, t.wakes = s.wakes ++ woken ∧ WakerStep s act t woken := by
  cases ConnectionMove.of_step h with
  | pollEncode w budget => exact absurd rfl (hact w budget)
  | push => exact ⟨_, rfl, .taken fun w hw => by simp [hw]⟩
  | dropStream | pollDecodePush =>
    exact ⟨_, List.append_assoc _ _ _, .taken fun w hw => by simp [hw]⟩
  | cloneQueue => exact ⟨[], (List.append_nil _).symm, .kept rfl rfl (Nat.le_succ _)⟩
  | dropQueue => exact ⟨[], (List.append_nil _).symm, .dropped rfl rfl rfl rfl⟩
  | send | dropSender | pollDecode => exact ⟨_, rfl, .kept rfl rfl (Nat.le_refl _)⟩
  | tick woken _ htick =>
    rw [htick]
    exact ⟨woken, rfl, .kept rfl rfl (Nat.le_refl _)⟩
  | sendRefused | cloneSender | arrive =>
    exact ⟨[], (List.append_nil _).symm, .kept rfl rfl (Nat.le_refl _)⟩

structure Registered (s u : Connection C) (w : Nat) : Prop where
  waker : u.inner.waker = some w
  pushed : u.pushed = s.pushed
  handles : 0 < u.handles

/-- A property of the waker that every step keeps, or ends by waking it, holds
until the waker is woken. -/
theorem woken_or_of_step {s u : Connection C} {qs : List (Move (Connection C) Act)} {w : Nat}
    {P : Connection C → Prop} (h : Path step s qs u)
    (hlast : ∀ n ∈ qs, ∀ w' budget, n.act ≠ .pollEncode w' budget) (hs : P s)
    (hP : ∀ ps n, ps ++ [n] <+: qs → step n.src n.act = some n.dst → P n.src →
      Woken s n.src w ∨ ∃ woken, n.dst.wakes = n.src.wakes ++ woken ∧ (w ∈ woken ∨ P n.dst)) :
    s.wakes <+: u.wakes ∧ (Woken s u w ∨ P u) := by
  induction h with
  | nil => exact ⟨List.prefix_refl _, .inr hs⟩
  | @snoc qs u v act h hstep ih =>
    obtain ⟨hwakes, hu⟩ := ih (fun n hn => hlast n (List.mem_append_left _ hn))
      fun ps n hps => hP ps n (hps.trans (List.prefix_append _ _))
    obtain ⟨grown, hgrown, _⟩ := step_waker hstep (hlast ⟨u, act, v⟩ (List.mem_concat_self))
    have hgrow : u.wakes <+: v.wakes := ⟨grown, hgrown.symm⟩
    refine ⟨hwakes.trans hgrow, ?_⟩
    rcases hu with hu | hu
    · exact .inl ((List.IsPrefix.drop hgrow _).subset hu)
    · obtain hu' | ⟨woken, hwoken, hw | hv⟩ := hP qs ⟨u, act, v⟩ (List.prefix_refl _) hstep hu
      · exact .inl ((List.IsPrefix.drop hgrow _).subset hu')
      · left
        rw [Woken, hwoken, List.drop_append_of_le_length hwakes.length_le]
        exact List.mem_append_right _ hw
      · exact .inr hv

theorem woken_or_registered {s u : Connection C} {qs : List (Move (Connection C) Act)} {w : Nat}
    (h : Path step s qs u) (hlast : ∀ n ∈ qs, ∀ w' budget, n.act ≠ .pollEncode w' budget)
    (hclose : ∀ ps n, ps ++ [n] <+: qs → n.act = .dropQueue → n.src.handles = 1 →
      Woken s n.src w)
    (hs : Registered s s w) :
    s.wakes <+: u.wakes ∧ (Woken s u w ∨ Registered s u w) := by
  apply woken_or_of_step h hlast hs
  intro ps n hps hstep hu
  obtain ⟨woken, hwoken, hwaker⟩ := step_waker hstep (hlast n (hps.subset (by simp)))
  cases hwaker with
  | taken hall => exact .inr ⟨woken, hwoken, .inl (hall w hu.waker)⟩
  | kept hwaker hpushed hhandles =>
    have hv : Registered s n.dst w := ⟨hwaker.trans hu.waker, hpushed.trans hu.pushed,
      Nat.lt_of_lt_of_le hu.handles hhandles⟩
    exact .inr ⟨woken, hwoken, .inr hv⟩
  | dropped hdrop hwaker hpushed hhandles =>
    by_cases hone : n.src.handles = 1
    · exact .inl (hclose ps n hps hdrop hone)
    · have := hu.handles
      have hv : Registered s n.dst w :=
        ⟨hwaker.trans hu.waker, hpushed.trans hu.pushed, by omega⟩
      exact .inr ⟨woken, hwoken, .inr hv⟩

theorem EncodePends.exists_poll {m : Move (Connection C) Act} {w : Nat} (h : EncodePends m w)
    (hstep : step m.src m.act = some m.dst) : ∃ budget u, m.act = .pollEncode w budget ∧
      m.src.pollEncode w budget = (u, .pending) ∧
      m.dst = { u with polled := u.polled ++ [.pending] } := by
  obtain ⟨⟨budget, hact⟩, hpolled⟩ := h
  rw [hact] at hstep
  rcases hpoll : m.src.pollEncode w budget with ⟨u, polled⟩
  simp only [step, hpoll, Option.some.injEq] at hstep
  rw [← hstep] at hpolled ⊢
  obtain rfl : polled = .pending := by simpa using hpolled
  exact ⟨budget, u, hact, hpoll, rfl⟩

theorem EncodePends.registered {m : Move (Connection C) Act} {w : Nat} (h : EncodePends m w)
    (hstep : step m.src m.act = some m.dst) (hopen : m.dst.isClosed = false) :
    Registered m.dst m.dst w := by
  obtain ⟨budget, u, _, hpoll, hdst⟩ := h.exists_poll hstep
  rw [hdst] at hopen ⊢
  have hhandles : u.handles ≠ 0 := by simpa [Connection.isClosed] using hopen
  exact ⟨(pollEncode_pending hpoll).1 hopen, rfl, Nat.pos_of_ne_zero hhandles⟩

/-- The `WebSocketStream` holds the queue. -/
def HoldsQueue (s : Connection C) : Prop := s.decode.isSome = true → 0 < s.handles

theorem step_holdsQueue {s t : Connection C} {act : Act} (h : step s act = some t)
    (hs : HoldsQueue s) : HoldsQueue t := by
  cases ConnectionMove.of_step h with
  | dropStream => exact nofun
  | cloneQueue => exact fun _ => Nat.succ_pos _
  | dropQueue hfree =>
    intro hsome
    rw [Connection.owned, if_pos hsome] at hfree
    exact Nat.sub_pos_of_lt hfree
  | tick woken hnow htick =>
    intro hsome
    rw [tick_isSome] at hsome
    rw [htick]
    exact hs hsome
  | pollEncode w budget =>
    have hsame := pollEncode_sameReader s w budget
    intro hsome
    exact hsame.handles ▸ hs (hsame.decode ▸ hsome)
  | arrive incoming hd | pollDecode _ _ hd | pollDecodePush _ _ _ hd =>
    exact fun _ => hs (by rw [hd]; rfl)
  | push | send | sendRefused | cloneSender | dropSender => exact hs

structure Shut (s : Connection C) : Prop where
  handles : s.handles = 0
  decode : s.decode = none

theorem step_shut {s t : Connection C} {act : Act} (h : step s act = some t)
    (hact : ∀ w budget, act ≠ .pollEncode w budget) (hs : Shut s) :
    Shut t ∧ t.pushed = s.pushed := by
  obtain ⟨hhandles, hdecode⟩ := hs
  cases ConnectionMove.of_step h with
  | pollEncode w budget => exact absurd rfl (hact w budget)
  | push _ hopen | cloneQueue hopen => omega
  | dropQueue hfree => omega
  | dropStream _ _ hsome =>
    rw [hdecode] at hsome
    cases hsome
  | arrive _ hd | pollDecode _ _ hd | pollDecodePush _ _ _ hd =>
    rw [hdecode] at hd
    cases hd
  | @tick now woken hnow htick =>
    have hnone : (s.tick now).decode = none := by
      rw [← Option.isNone_iff_eq_none, ← Option.isSome_eq_false_iff, tick_isSome, hdecode]
      rfl
    rw [htick]
    exact ⟨⟨hhandles, hnone⟩, rfl⟩
  | send | sendRefused | cloneSender | dropSender => exact ⟨⟨hhandles, hdecode⟩, rfl⟩

theorem pushed_of_shut {s u : Connection C} {qs : List (Move (Connection C) Act)}
    (h : Path step s qs u) (hlast : ∀ n ∈ qs, ∀ w' budget, n.act ≠ .pollEncode w' budget)
    (hs : Shut s) : Shut u ∧ u.pushed = s.pushed := by
  apply h.invariant_of (I := fun u => Shut u ∧ u.pushed = s.pushed) hlast ⟨hs, rfl⟩
  intro u act v hact hstep ⟨hu, hpushed⟩
  obtain ⟨hv, hkept⟩ := step_shut hstep hact hu
  exact ⟨hv, hkept.trans hpushed⟩

theorem step_handles {s t : Connection C} {act : Act} (h : step s act = some t)
    (hs : s.handles = 0) : t.handles = 0 := by
  cases ConnectionMove.of_step h with
  | cloneQueue hopen => omega
  | dropQueue | dropStream => simp [hs]
  | tick _ _ htick =>
    rw [htick]
    exact hs
  | pollEncode w budget => exact (pollEncode_sameReader s w budget).handles.trans hs
  | _ => exact hs

theorem handles_of_path {s u : Connection C} {qs : List (Move (Connection C) Act)}
    (h : Path step s qs u) (hu : u.handles ≠ 0) : s.handles ≠ 0 := by
  intro hs
  exact hu (h.invariant (I := fun u => u.handles = 0) hs fun _ _ _ => step_handles)

section Runs
variable {cfg : WsConfig C} {now now' : Nat} {t : Connection C}
  {ms : List (Move (Connection C) Act)}

theorem PendsOver.exists_path {m : Move (Connection C) Act} {qs : List (Move (Connection C) Act)}
    {w : Nat} (hpends : PendsOver ms m qs w) (h : Path step (splitStream cfg now now') ms t) :
    step m.src m.act = some m.dst ∧ ∃ u, Path step m.dst qs u := by
  obtain ⟨ps, rs, rfl⟩ := hpends.stretch
  obtain ⟨u, hu, _⟩ := h.exists_between
  obtain ⟨v, _, hv⟩ := hu.exists_between
  obtain ⟨_, hstep, hqs⟩ := hv.first
  exact ⟨hstep, u, hqs⟩

theorem PendsOver.shorten {m : Move (Connection C) Act} {qs ps : List (Move (Connection C) Act)}
    {w : Nat} (h : PendsOver ms m qs w) (hps : ps <+: qs) : PendsOver ms m ps w := by
  refine ⟨?_, h.pends, fun n hn => h.last n (hps.subset hn)⟩
  exact (List.prefix_cons_inj m |>.mpr hps).isInfix.trans h.stretch

theorem pendsOver_snoc {s u : Connection C} {w budget : Nat} {act : Act}
    (hpolled : t.polled.getLast?.any Poll.isPending = true)
    (hact : ∀ w' budget, act ≠ .pollEncode w' budget) :
    PendsOver (ms ++ [⟨s, .pollEncode w budget, t⟩] ++ [⟨t, act, u⟩])
      ⟨s, .pollEncode w budget, t⟩ [⟨t, act, u⟩] w := by
  obtain ⟨p, hlast, hp⟩ := (Option.any_eq_true _ _).mp hpolled
  rw [Poll.eq_pending hp] at hlast
  refine ⟨⟨ms, [], by simp⟩, ⟨⟨budget, rfl⟩, hlast⟩, ?_⟩
  simpa using hact

theorem holdsQueue_of_path (h : Path step (splitStream cfg now now') ms t) : HoldsQueue t :=
  h.invariant (I := HoldsQueue) (fun _ => Nat.one_pos) fun _ _ _ => step_holdsQueue

theorem PendsOver.shut {m : Move (Connection C) Act} {qs : List (Move (Connection C) Act)}
    {w : Nat} (hpends : PendsOver ms m qs w) (h : Path step (splitStream cfg now now') ms t)
    (hclosed : m.dst.isClosed = true) : Shut m.dst := by
  obtain ⟨ps, rs, rfl⟩ := hpends.stretch
  obtain ⟨u, hu, _⟩ := h.exists_between
  obtain ⟨v, hv, hm⟩ := hu.exists_between
  obtain ⟨hsrc, hstep, _⟩ := hm.first
  have hhandles : m.dst.handles = 0 := by simpa [Connection.isClosed] using hclosed
  refine ⟨hhandles, ?_⟩
  have hholds := step_holdsQueue hstep (hsrc ▸ holdsQueue_of_path hv)
  cases hd : m.dst.decode with
  | none => rfl
  | some d =>
    have hpos := hholds (by rw [hd]; rfl)
    omega

/-- No wake-up is lost exactly if the queue is never closed by the drop of a
clone while a pending poll waits for it. -/
theorem no_lost_wake_iff (h : Path step (splitStream cfg now now') ms t) :
    NoLostWake ms ↔ ClosedAwake ms := by
  constructor
  · intro hwake m qs n w hpends hact hone
    obtain ⟨_, u, hu⟩ := hpends.exists_path h
    obtain ⟨v, hv, hstep, hn⟩ := hu.last
    rw [hact] at hstep
    obtain rfl : u = { v with handles := v.handles - 1 } := by
      cases ConnectionMove.of_step hstep
      rfl
    rw [hn] at hone
    have hone : v.handles = 1 := hone
    have hdst : m.dst.handles ≠ 0 := handles_of_path hv (by omega)
    have hclosed : Due m.dst { v with handles := v.handles - 1 } := by
      refine .inr ⟨?_, ?_⟩
      · simpa [Connection.isClosed] using hdst
      · simp [Connection.isClosed, hone]
    have hwoken := hwake m _ w _ hpends hu hclosed
    rw [hn]
    exact hwoken
  · intro hclose m qs w u hpends hu hdue
    obtain ⟨hstep, _⟩ := hpends.exists_path h
    cases hdst : m.dst.isClosed with
    | false =>
      obtain ⟨_, hwoken | hregistered⟩ := woken_or_registered hu hpends.last
        (fun ps n hps => hclose m ps n w (hpends.shorten hps))
        (hpends.pends.registered hstep hdst)
      · exact hwoken
      · rcases hdue with hpushed | ⟨_, hclosed⟩
        · exact absurd hregistered.pushed hpushed
        · have hpos := hregistered.handles
          have hzero : u.handles = 0 := by simpa [Connection.isClosed] using hclosed
          omega
    | true =>
      -- The queue was closed before the poll: nobody is left to push or to close it.
      obtain ⟨_, hnone⟩ := pushed_of_shut hu hpends.last (hpends.shut h hdst)
      rcases hdue with hpushed | ⟨hopen, _⟩
      · exact absurd hnone hpushed
      · rw [hdst] at hopen
        cases hopen

theorem push_wakes_poll : ∃ ms t,
    Path step (splitStream (WsConfig.default shortCodec) 0 0) ms t ∧
      ms.map Move.act = [.pollEncode 0 128, .push (.text "a")] ∧ t.wakes = [0] ∧ NoLostWake ms := by
  obtain ⟨ms, t, h, hacts, _, ht⟩ := exists_path_of_checkedRun step
    (splitStream (WsConfig.default shortCodec) 0 0) [.pollEncode 0 128, .push (.text "a")]
    (fun _ _ _ => true) (fun t => decide (t.wakes = [0])) (by decide)
  refine ⟨ms, t, h, hacts, of_decide_eq_true ht, (no_lost_wake_iff h).2 ?_⟩
  intro m qs n w hpends hdrop
  have hn : n ∈ ms := hpends.stretch.subset (by simp)
  have hmem := List.mem_map_of_mem (f := Move.act) hn
  rw [hacts, hdrop] at hmem
  simp at hmem

/-- The last clone of the queue outlives the `WebSocketStream`; its drop closes
the queue and wakes nobody. -/
theorem last_clone_wakes_nobody : ¬∀ ms t,
    Path step (splitStream (WsConfig.default shortCodec) 0 0) ms t → NoLostWake ms := by
  intro hall
  obtain ⟨ms, s, t, h, _, hp⟩ := exists_path_of_eval step
    (splitStream (WsConfig.default shortCodec) 0 0)
    [.cloneQueue, .cloneSender, .dropStream] (.pollEncode 0 128)
    (fun _ t => t.polled.getLast?.any Poll.isPending && !t.isClosed &&
      (step t .dropQueue).any fun u => u.isClosed && u.wakes.isEmpty) (by decide)
  simp only [Bool.and_eq_true, Bool.not_eq_true'] at hp
  obtain ⟨⟨hpolled, hopen⟩, hdrop⟩ := hp
  obtain ⟨u, hstep, hu⟩ := (Option.any_eq_true _ _).mp hdrop
  simp only [Bool.and_eq_true, List.isEmpty_iff] at hu
  have hpends : PendsOver (ms ++ [⟨s, .pollEncode 0 128, t⟩] ++ [⟨t, .dropQueue, u⟩])
      ⟨s, .pollEncode 0 128, t⟩ [⟨t, .dropQueue, u⟩] 0 := pendsOver_snoc hpolled nofun
  have hwoken := hall _ u (h.snoc hstep) _ _ 0 u hpends (.single hstep) (.inr ⟨hopen, hu.1⟩)
  rw [Woken, hu.2, List.drop_nil] at hwoken
  cases hwoken

end Runs

end ActixSend.WebSocket
