import Mathlib.Data.List.Perm.Subperm
import ActixSend.Delivery

/-! # The end of an actor set

Once the last sender is gone nothing enters the channels any more. A context
takes what is left, leaves its loop when its channels are empty, and stops:
every step of a context uses up some of a finite amount of work, and some
context can always take one. All this fails with `restart_on_err`. The loop's
end by a closed channel counts as an error unless the set is shut down, and it
is never shut down; the context restarts on the closed channel for ever.
-/

namespace ActixSend

open Transition
set_option autoImplicit false

variable {A : Actor}

/-- How many steps a context can take without a new message, at most. -/
def Position.rank : Position A → Nat
  | .build => 6
  | .onStart => 5
  | .incActive => 4
  | .recv => 3
  | .handle _ => 8
  | .insert _ _ _ => 7
  | .pushCheck _ _ => 6
  | .pushExtend _ _ => 5
  | .reply _ _ _ => 4
  | .intervalRun _ _ => 4
  | .decActive => 2
  | .onStop => 1
  | .stopped => 0
  | .panicked => 0

/-- The work left for the contexts; a message adds what its handling takes. -/
def State.work (s : State A) : Nat :=
  (s.contexts.map fun c => c.pos.rank).sum +
    6 * (s.accepted.length - s.taken.length)

def Act.isContext : Act A → Bool
  | .context _ _ _ => true
  | _ => false

def State.drainedFor (s : State A) (c : Context A) : Bool :=
  s.ended c.rx && c.selector.all fun chan => s.ended chan

/-- What becomes of the contexts of a set whose last sender is gone, as long as
no code panics: they take finitely many steps and can take one until they are
gone; they stop, once, with every message of a channel they served handled; and
after their channels are closed and drained they do not start again. -/
structure WindsDown (t : State A) : Prop where
  bounded : ∃ n, ∀ ms u, Path step t ms u → (∀ m ∈ ms, Calm m) →
    ms.countP (fun m => m.act.isContext) ≤ n
  progress : ∀ ms u, Path step t ms u → (∀ m ∈ ms, Calm m) →
    (∀ c ∈ u.contexts, c.pos.gone = true) ∨
      ∃ i chan await v, step u (.context i chan await) = some v
  stopped : ∀ ms u, Path step t ms u → (∀ m ∈ ms, Calm m) →
    ∀ c ∈ u.contexts, c.pos.gone = true → c.pos = .stopped ∧ c.stops = 1
  handled : ∀ ms u, Path step t ms u → (∀ m ∈ ms, Calm m) →
    (∀ c ∈ u.contexts, c.pos.gone = true) → ∀ (i chan : Nat) (c : Context A) (env : Envelope A),
    t.contexts[i]? = some c → c.pos.left = false → c.ListensOn chan → (chan, env) ∈ t.accepted →
    u.timesHandled env = 1
  settled : ∀ ms u, Path step t ms u → (∀ m ∈ ms, Calm m) → ∀ (i : Nat) (c c' : Context A),
    t.contexts[i]? = some c → u.contexts[i]? = some c' → t.drainedFor c = true →
    c'.generation = c.generation ∧ (0 < c.starts → c'.starts = c.starts)

theorem sharedSender_of_sender {s : State A} {chan : Nat} (h : s.sender chan = true) :
    s.sharedSender = true := by
  unfold State.sender at h
  split at h
  · exact h
  · obtain ⟨addr, haddr, hgroup⟩ := List.any_eq_true.mp h
    obtain ⟨a, ha⟩ := List.mem_iff_getElem?.mp haddr
    rw [Address.inGroup, Bool.and_eq_true] at hgroup
    exact sharedSender_of_address ha hgroup.1

theorem sender_of_closed {s : State A} (h : s.sharedSender = false) (chan : Nat) :
    s.sender chan = false := by
  by_contra hopen
  rw [sharedSender_of_sender (by simpa using hopen)] at h
  cases h

theorem Moves.closed_stable {s t : State A} {act : Act A} (hmove : Moves s act t)
    (hs : HolderInv s) (h : s.sharedSender = false) : t.sharedSender = false := by
  by_contra hopen
  rw [hmove.sharedSender_stable hs (by simpa using hopen)] at h
  cases h

theorem Moves.accepted_closed {s t : State A} {act : Act A} (hmove : Moves s act t)
    (hs : HolderInv s) (h : s.sharedSender = false) : t.accepted = s.accepted := by
  rcases hmove.channelMove.accepted_cases with hsame | ⟨chan, msg, hsends, _⟩
  · exact hsame
  · have hsender := sender_of_sends hs hsends
    rw [sender_of_closed h] at hsender
    cases hsender

theorem OneshotInv.not_open_of_closed {s : State A} (hs : OneshotInv s)
    (h : s.sharedSender = false) {i tx : Nat} {c : Context A} {env : Envelope A}
    (hc : s.contexts[i]? = some c) (hpos : c.pos = .handle env)
    (hmsg : env.msg = .manualShutDown tx) : s.oneShotOpen tx = false := by
  obtain ⟨chan, haccepted⟩ := hs.accepted_of_hand hc (by rw [hpos]; rfl)
  obtain ⟨call, hcall, _, hreq, _⟩ :=
    hs.request.sent chan env haccepted tx (by rw [hmsg]; rfl)
  rw [hmsg] at hreq
  have hclose := eq_closeOne hreq.symm
  by_contra hopen
  have hpending : call.pending = true := by
    simp only [State.oneShotOpen, hcall] at hopen
    split at hopen
    · simp [Call.pending, *]
    · cases hopen rfl
  rcases hs.holder.borrowed call (List.mem_of_getElem? hcall) hpending with
    ⟨⟨_, _, hitem⟩, _⟩ | hborrow
  · rw [hclose] at hitem
    cases hitem
  · obtain ⟨a, addr, _, ha, hlive, _⟩ := hborrow
    rw [sharedSender_of_address ha (holdsFields_of_isLive hlive)] at h
    cases h

structure Context.Lived (c : Context A) : Prop where
  fresh : c.pos = .build ∨ c.pos = .onStart → c.starts = 0
  running : c.pos ≠ .stopped → c.stops = 0
  stopped : c.pos = .stopped → c.stops = 1
  calm : c.pos ≠ .panicked

theorem Turn.lived {s : State A} {c c' : Context A} (h : Turn s c c') (hc : c.Lived)
    (hcfg : s.cfg.restartOnErr = false) (hassert : ¬AtAssertion s c) : c'.Lived := by
  obtain ⟨hfresh, hrunning, _, _⟩ := hc
  cases h with
  | build hpos =>
    exact ⟨fun _ => hfresh (.inl hpos), fun _ => hrunning (by simp [hpos]), nofun, nofun⟩
  | onStop hpos =>
    have hzero := hrunning (by simp [hpos])
    refine ⟨by simp, by simp, fun _ => ?_, nofun⟩
    simp only
    omega
  | hold hhand hhand' =>
    have hzero := hrunning (by rintro heq; rw [heq] at hhand; cases hhand)
    refine ⟨?_, fun _ => hzero, ?_, (left_of_hand hhand').2⟩
    · rintro (heq | heq) <;> simp only at heq <;> rw [heq] at hhand' <;> cases hhand'
    · intro heq
      simp only at heq
      rw [heq] at hhand'
      cases hhand'
  | finish hhand =>
    have hzero := hrunning (by rintro heq; rw [heq] at hhand; cases hhand)
    exact ⟨by simp, fun _ => hzero, nofun, nofun⟩
  | lose hat => exact absurd hat hassert
  | restart _ _ hrestart =>
    rw [hcfg] at hrestart
    cases hrestart
  | onStart hpos | incActive hpos | take hpos | leave hpos | close hpos | stop hpos =>
    exact ⟨by simp, fun _ => hrunning (by simp [hpos]), nofun, nofun⟩

def LockHeld (s : State A) : Prop :=
  ∀ j, s.futuresLock = some j →
    ∃ (c : Context A) (env : Envelope A) (index : Nat), s.contexts[j]? = some c ∧
      c.pos = .intervalRun env index

structure WinddownInv (s : State A) : Prop where
  oneshot : OneshotInv s
  counts : CountInv s
  unlocked : s.handlersLocked = false
  lock : LockHeld s
  lived : ∀ c ∈ s.contexts, c.Lived
  cfg : s.cfg.restartOnErr = false

theorem Moves.unlocked {s t : State A} {act : Act A} (h : Moves s act t) (hs : CountInv s)
    (hlocked : s.handlersLocked = false) : t.handlersLocked = false := by
  rcases h.address_or_same with ⟨_, _, hmove⟩ | ⟨_, _, _, _, hsame⟩
  · cases hmove with
    | lock ha hpos | marker ha hpos | cancel ha hpos | unlock ha hpos =>
      exact absurd hpos (hs.noShutdown _ (List.mem_of_getElem? ha) _)
    | _ => exact hlocked
  · rwa [hsame]

/-- A context takes the lock where nobody has it, and only its holder gives it back. -/
theorem ContextMove.lock_cases {s t : State A} {i : Nat} {c : Context A}
    (h : ContextMove s i c t) : ∃ c' : Context A, t.contexts = s.contexts.set i c' ∧
      ((∃ env index, c.pos = .intervalRun env index) ∧ t.futuresLock = none ∧ c'.pos = .recv ∨
        s.futuresLock = none ∧ t.futuresLock = some i ∧
          (∃ env index, c'.pos = .intervalRun env index) ∨
        t.futuresLock = s.futuresLock ∧ (∀ env index, c.pos ≠ .intervalRun env index) ∧
          ∀ env index, c'.pos ≠ .intervalRun env index) := by
  cases h with
  | lockRun _ _ hlock => exact ⟨_, rfl, .inr (.inl ⟨hlock, rfl, _, _, rfl⟩)⟩
  | intervalRun hpos =>
    simp only [State.runInterval]
    split <;> exact ⟨_, rfl, .inl ⟨⟨_, _, hpos⟩, rfl, rfl⟩⟩
  | close hpos | reply hpos =>
    rw [sendReply_frame]
    exact ⟨_, rfl, .inr (.inr ⟨rfl, by simp [hpos], by simp⟩)⟩
  | static hpos | dynamic hpos =>
    rw [sendReplyTo_frame]
    exact ⟨_, rfl, .inr (.inr ⟨rfl, by simp [hpos], by simp⟩)⟩
  | pushRefused hpos | pushExtend hpos =>
    simp only [State.afterPush]
    split <;> exact ⟨_, rfl, .inr (.inr ⟨rfl, by simp [hpos], by simp⟩)⟩
  | register hpos =>
    refine ⟨_, rfl, .inr (.inr ⟨rfl, by simp [hpos], ?_⟩)⟩
    simp only
    split <;> simp
  | build hpos | onStart hpos | incActive hpos | take hpos | leave hpos | closeRefused hpos
  | delayed hpos | delayedLost hpos | remove hpos | insert hpos | insertPanic hpos
  | pushCheck hpos | restart hpos | stop hpos | onStop hpos =>
    exact ⟨_, rfl, .inr (.inr ⟨rfl, by simp [hpos], by simp⟩)⟩

theorem LockHeld.step {s t : State A} {act : Act A} (h : Moves s act t)
    (hact : ∀ i, act ≠ .panic i) (hs : LockHeld s) : LockHeld t := by
  intro j hj
  cases h with
  | address h =>
    rw [h.frame] at hj ⊢
    exact hs j hj
  | request h =>
    rw [h.frame] at hj ⊢
    exact hs j hj
  | poll h =>
    rw [h.frame] at hj ⊢
    exact hs j hj
  | elapseDelayed | elapseInterval => exact hs j hj
  | panic => exact absurd rfl (hact _)
  | @context i _ _ c _ hc h =>
    obtain ⟨c', hset, ⟨_, hnone, _⟩ | ⟨_, hsome, env, index, hpos⟩ | ⟨hsame, hother, _⟩⟩ :=
      h.lock_cases
    · rw [hnone] at hj
      cases hj
    · rw [hsome] at hj
      cases hj
      exact ⟨c', env, index, by rw [hset, getElem?_set_self_of hc], hpos⟩
    · rw [hsame] at hj
      obtain ⟨cj, env, index, hcj, hpos⟩ := hs j hj
      have hji : j ≠ i := by
        rintro rfl
        obtain rfl := Option.some.inj (hc.symm.trans hcj)
        exact hother env index hpos
      exact ⟨cj, env, index, by rwa [hset, List.getElem?_set_ne (Ne.symm hji)], hpos⟩

theorem WinddownInv.step {s t : State A} {act : Act A} (h : step s act = some t)
    (hact : Calm ⟨s, act, t⟩) (hs : WinddownInv s) : WinddownInv t := by
  have hmove := Moves.of_step h
  refine ⟨hs.oneshot.step h, hs.counts.step h, hmove.unlocked hs.counts hs.unlocked,
    hs.lock.step hmove hact.noPanic, ?_, by rw [hmove.cfg_eq, hs.cfg]⟩
  rcases hmove.contexts_cases with
    hsame | ⟨i, c, c', hc, _, hset, _, _, ⟨chan, await, rfl, hctx⟩ | ⟨rfl, _⟩⟩
  · rw [hsame]
    exact hs.lived
  · obtain ⟨c'', hset', hturn⟩ := hctx.turn
    rw [hset']
    intro x hx
    rcases List.mem_or_eq_of_mem_set hx with hx | rfl
    · exact hs.lived x hx
    · exact hturn.lived (hs.lived c (List.mem_of_getElem? hc)) hs.cfg
        (hact.noAssertion i chan await c rfl hc)
  · exact absurd rfl (hact.noPanic i)

theorem Started.winddownInv {cfg : Config} {build : Nat → A.State} {s : State A}
    (h : Started cfg build s) (hcfg : cfg.restartOnErr = false) : WinddownInv s := by
  have honeshot := h.oneshotInv
  have hcounts := h.countInv
  obtain ⟨w, rfl, hnew⟩ := h.exists_wiring
  refine ⟨honeshot, hcounts, rfl, nofun, ?_, hcfg⟩
  intro c hc
  obtain ⟨_, _, _, pos, rfl, rfl | rfl⟩ := hnew c hc <;>
    exact ⟨fun _ => rfl, fun _ => rfl, nofun, nofun⟩

theorem ContextMove.rank_cases {s t : State A} {i : Nat} {c : Context A}
    (h : ContextMove s i c t) : (∃ c', t.contexts = s.contexts.set i c' ∧
      (c'.pos.rank < c.pos.rank ∧ t.taken = s.taken ∨
        c'.pos.rank < c.pos.rank + 6 ∧ ∃ x, t.taken = s.taken ++ [x])) ∨
      c.pos = .decActive ∧ s.cfg.restartOnErr = true ∧ c.manualShutdown = false := by
  cases h with
  | restart hpos _ hrestart hmanual => exact .inr ⟨hpos, hrestart, hmanual⟩
  | take hpos => exact .inl ⟨_, rfl, .inr ⟨by simp [hpos, Position.rank], _, rfl⟩⟩
  | close hpos | reply hpos =>
    rw [sendReply_frame]
    exact .inl ⟨_, rfl, .inl ⟨by simp [hpos, Position.rank], rfl⟩⟩
  | static hpos | dynamic hpos =>
    rw [sendReplyTo_frame]
    exact .inl ⟨_, rfl, .inl ⟨by simp [hpos, Position.rank], rfl⟩⟩
  | register hpos =>
    refine .inl ⟨_, rfl, .inl ⟨?_, rfl⟩⟩
    simp only [hpos]
    split <;> simp [Position.rank]
  | pushRefused hpos | pushExtend hpos =>
    simp only [State.afterPush]
    split <;> exact .inl ⟨_, rfl, .inl ⟨by simp [hpos, Position.rank], rfl⟩⟩
  | intervalRun hpos =>
    simp only [State.runInterval]
    split <;> exact .inl ⟨_, rfl, .inl ⟨by simp [hpos, Position.rank], rfl⟩⟩
  | build hpos | onStart hpos | incActive hpos | leave hpos | closeRefused hpos | delayed hpos
  | delayedLost hpos | lockRun hpos | remove hpos | insert hpos | insertPanic hpos
  | pushCheck hpos | stop hpos | onStop hpos =>
    exact .inl ⟨_, rfl, .inl ⟨by simp [hpos, Position.rank], rfl⟩⟩

theorem ContextMove.rank_lt {s t : State A} {i : Nat} {c : Context A} (h : ContextMove s i c t)
    (hcfg : s.cfg.restartOnErr = false) : ∃ c', t.contexts = s.contexts.set i c' ∧
      (c'.pos.rank < c.pos.rank ∧ t.taken = s.taken ∨
        c'.pos.rank < c.pos.rank + 6 ∧ ∃ x, t.taken = s.taken ++ [x]) := by
  rcases h.rank_cases with hrank | ⟨_, hrestart, _⟩
  · exact hrank
  · rw [hcfg] at hrestart
    cases hrestart

theorem ChannelInv.taken_le {s : State A} (hs : ChannelInv s) :
    s.taken.length ≤ s.accepted.length := by
  have hsub : s.ledger.taken.map (fun x => x.2.2) ⊆ s.ledger.accepted.map Prod.snd := by
    intro env henv
    obtain ⟨⟨i, chan, _⟩, htaken, rfl⟩ := List.mem_map.mp henv
    exact List.mem_map.mpr ⟨_, hs.sound.accepted_of_taken htaken, rfl⟩
  have hle := (List.Nodup.subperm hs.sound.taken_nodup hsub).length_le
  simpa [State.ledger] using hle

theorem Moves.idle {s t : State A} {act : Act A} (h : Moves s act t)
    (hact : act.isContext = false) (hpanic : ∀ i, act ≠ .panic i) :
    t.contexts = s.contexts ∧ t.taken = s.taken := by
  cases h with
  | address h | request h | poll h =>
    rw [h.frame]
    exact ⟨rfl, rfl⟩
  | elapseDelayed | elapseInterval => exact ⟨rfl, rfl⟩
  | context => cases hact
  | panic => exact absurd rfl (hpanic _)

theorem work_le {s t : State A} {act : Act A} (h : step s act = some t) (hs : WinddownInv s)
    (hclosed : s.sharedSender = false) (hpanic : ∀ i, act ≠ .panic i) :
    t.work + (if act.isContext then 1 else 0) ≤ s.work := by
  have hmove := Moves.of_step h
  have haccepted := hmove.accepted_closed hs.oneshot.holder hclosed
  have hle := (hs.oneshot.channel.step h).taken_le
  by_cases hact : act.isContext = true
  · cases hmove with
    | context hc hctx =>
      obtain ⟨c', hset, hrank⟩ := hctx.rank_lt hs.cfg
      have hsum := sum_map_set (b := c') (f := fun c => c.pos.rank) hc
      rw [← hset] at hsum
      simp only [State.work, haccepted, hact, if_true] at hle ⊢
      rcases hrank with ⟨hrank, htaken⟩ | ⟨hrank, x, htaken⟩
      · rw [htaken] at hle ⊢
        omega
      · rw [htaken, List.length_append, List.length_singleton] at hle ⊢
        omega
    | _ => cases hact
  · obtain ⟨hcontexts, htaken⟩ := hmove.idle (by simpa using hact) hpanic
    simp [State.work, hcontexts, htaken, haccepted, hact]

theorem recv_enabled {s : State A} (hclosed : s.sharedSender = false) {i : Nat}
    {c : Context A} (hpos : c.pos = .recv) : ∃ chan t, s.recv i c chan = some t := by
  have hgone : c.pos.gone = false := by rw [hpos]; rfl
  by_cases hqueue : ∃ chan, c.ListensOn chan ∧ s.queue chan ≠ []
  · obtain ⟨chan, hlistens, hne⟩ := hqueue
    obtain ⟨env, rest, hcons⟩ := List.exists_cons_of_ne_nil hne
    refine ⟨chan, ?_⟩
    simp only [State.recv, if_pos (receives_iff.mpr ⟨hgone, hlistens⟩), hcons]
    exact ⟨_, rfl⟩
  · have hempty : ∀ chan, c.ListensOn chan → s.queue chan = [] := fun chan hlistens => by
      by_contra hne
      exact hqueue ⟨chan, hlistens, hne⟩
    have hended : ∀ chan, c.ListensOn chan → s.ended chan = true := fun chan hlistens =>
      ended_iff.mpr ⟨hempty chan hlistens, sender_of_closed hclosed chan⟩
    have hselector : (c.selector.all fun chan => s.ended chan) = true := by
      cases hsel : c.selector with
      | none => rfl
      | some chan => exact hended chan (.inr hsel)
    refine ⟨c.rx, ?_⟩
    simp only [State.recv, if_pos (receives_iff.mpr ⟨hgone, .inl rfl⟩), hempty c.rx (.inl rfl),
      hended c.rx (.inl rfl), hselector]
    exact ⟨_, rfl⟩

theorem WinddownInv.context_enabled {s : State A} (hs : WinddownInv s)
    (hclosed : s.sharedSender = false) (hlock : s.futuresLock = none) (await : A.Await) {i : Nat}
    {c : Context A} (hc : s.contexts[i]? = some c) (hgone : c.pos.gone = false) :
    ∃ chan t, s.contextStep i chan await = some t := by
  simp only [State.contextStep, hc]
  cases hpos : c.pos with
  | build | onStart | incActive | reply | intervalRun | decActive | onStop =>
    exact ⟨0, _, rfl⟩
  | recv => exact recv_enabled hclosed hpos
  | handle env =>
    simp only [State.handleMsg]
    cases env.msg with
    | manualShutDown tx =>
      simp only
      split <;> exact ⟨0, _, rfl⟩
    | instant msg | delayed msg => exact ⟨0, _, rfl⟩
    | interval msg => cases msg <;> simp [State.handleIntervalMsg, hlock]
  | insert env fut key => exact ⟨0, insertInterval_enabled hlock i c env fut key⟩
  | pushCheck =>
    simp only
    split <;> exact ⟨0, _, rfl⟩
  | pushExtend => simp [hs.unlocked]
  | stopped | panicked =>
    rw [hpos] at hgone
    cases hgone

theorem progress_of_closed {s : State A} (hs : WinddownInv s) (hclosed : s.sharedSender = false)
    (await : A.Await) : (∀ c ∈ s.contexts, c.pos.gone = true) ∨
      ∃ i chan await t, step s (.context i chan await) = some t := by
  by_cases hall : ∀ c ∈ s.contexts, c.pos.gone = true
  · exact .inl hall
  · right
    cases hlock : s.futuresLock with
    | some j =>
      -- the holder of the lock is never blocked
      obtain ⟨c, env, index, hc, hpos⟩ := hs.lock j hlock
      refine ⟨j, 0, await, ?_⟩
      simp only [step, State.contextStep, hc, hpos]
      exact ⟨_, rfl⟩
    | none =>
      push Not at hall
      obtain ⟨c, hmem, hgone⟩ := hall
      obtain ⟨i, hc⟩ := List.mem_iff_getElem?.mp hmem
      obtain ⟨chan, t, hstep⟩ :=
        hs.context_enabled hclosed hlock await hc (by simpa using hgone)
      exact ⟨i, chan, await, t, hstep⟩

def Served (s : State A) (i chan : Nat) : Prop :=
  ∃ c : Context A, s.contexts[i]? = some c ∧ c.ListensOn chan ∧
    (c.pos.left = true → s.ended chan = true)

theorem Turn.left_ended {s : State A} {c c' : Context A} (h : Turn s c c') {chan : Nat}
    (hlistens : c.ListensOn chan) (hleft : c.pos.left = true → s.ended chan = true)
    (hclose : ∀ env tx, c.pos = .handle env → env.msg = .manualShutDown tx →
      s.oneShotOpen tx = false) : c'.pos.left = true → s.ended chan = true := by
  cases h with
  | leave hpos hrx hselector =>
    rintro -
    rcases hlistens with rfl | hsel
    · exact hrx
    · rw [hsel] at hselector
      exact hselector
  | close hpos hmsg hopen =>
    rw [hclose _ _ hpos hmsg] at hopen
    cases hopen
  | hold _ hhand' =>
    intro hl
    simp only [(left_of_hand hhand').1] at hl
    cases hl
  | stop hpos | onStop hpos => exact fun _ => hleft (by rw [hpos]; rfl)
  | build | onStart | incActive | take | finish | lose | restart => exact nofun

theorem Served.step {s t : State A} {act : Act A} {i chan : Nat} (h : step s act = some t)
    (hact : Calm ⟨s, act, t⟩) (hinv : WinddownInv s) (hclosed : s.sharedSender = false)
    (hs : Served s i chan) : Served t i chan := by
  have hmove := Moves.of_step h
  obtain ⟨c, hc, hlistens, hleft⟩ := hs
  have hended : s.ended chan = true → t.ended chan = true :=
    hmove.ended_stable hinv.oneshot.holder
  rcases hmove.contexts_cases with
    hsame | ⟨j, cj, c', hcj, _, hset, hrx, hselector, hcases⟩
  · exact ⟨c, by rwa [hsame], hlistens, fun hl => hended (hleft hl)⟩
  · by_cases hij : i = j
    · subst hij
      obtain rfl := Option.some.inj (hc.symm.trans hcj)
      refine ⟨c', by rw [hset, getElem?_set_self_of hc], ?_, ?_⟩
      · rwa [Context.ListensOn, hrx, hselector]
      · rcases hcases with ⟨_, _, rfl, hctx⟩ | ⟨rfl, _⟩
        · obtain ⟨c'', hset', hturn⟩ := hctx.turn
          have hself : t.contexts[i]? = some c'' := by rw [hset', getElem?_set_self_of hc]
          rw [hset, getElem?_set_self_of hc] at hself
          obtain rfl := Option.some.inj hself
          intro hl
          exact hended (hturn.left_ended hlistens hleft
            (fun env tx => hinv.oneshot.not_open_of_closed hclosed hc) hl)
        · exact absurd rfl (hact.noPanic i)
    · exact ⟨c, by rwa [hset, List.getElem?_set_ne (Ne.symm hij)], hlistens,
        fun hl => hended (hleft hl)⟩

theorem WinddownInv.handled {s : State A} (hs : WinddownInv s) {i chan : Nat}
    (hserved : Served s i chan) (hgone : ∀ c ∈ s.contexts, c.pos.gone = true) {env : Envelope A}
    (haccepted : (chan, env) ∈ s.accepted) : s.timesHandled env = 1 := by
  obtain ⟨c, hc, _, hleft⟩ := hserved
  have hmem := List.mem_of_getElem? hc
  have hcalm : ∀ c ∈ s.contexts, c.pos ≠ .panicked := fun c hc => (hs.lived c hc).calm
  have hempty : s.queue chan = [] := by
    apply (ended_iff.mp (hleft ?_)).1
    have hstopped := hgone c hmem
    have hpanicked := hcalm c hmem
    cases hpos : c.pos <;> simp_all [Position.gone, Position.left]
  rcases hs.oneshot.kept hcalm haccepted with hone | ⟨_, hqueue | ⟨c', hc', hhand⟩⟩
  · exact hone
  · rw [hempty] at hqueue
    cases hqueue
  · have hstays := gone_of_hand hhand
    rw [hgone c' hc'] at hstays
    cases hstays

def SettledAs (s : State A) (i : Nat) (c : Context A) : Prop :=
  ∃ c' : Context A, s.contexts[i]? = some c' ∧ c'.generation = c.generation ∧
    (0 < c.starts → c'.starts = c.starts)

theorem SettledAs.step {s t : State A} {act : Act A} {i : Nat} {c : Context A}
    (h : step s act = some t) (hact : Calm ⟨s, act, t⟩) (hinv : WinddownInv s)
    (hs : SettledAs s i c) : SettledAs t i c := by
  have hmove := Moves.of_step h
  obtain ⟨c', hc', hgeneration, hstarts⟩ := hs
  cases hmove with
  | @context j chan await cj _ hcj hctx =>
    obtain ⟨c'', hset, hturn⟩ := hctx.turn
    by_cases hij : i = j
    · subst hij
      obtain rfl := Option.some.inj (hc'.symm.trans hcj)
      refine ⟨c'', by rw [hset, getElem?_set_self_of hc'], ?_⟩
      cases hturn with
      | onStart hpos =>
        have hfresh := (hinv.lived c' (List.mem_of_getElem? hc')).fresh (.inr hpos)
        refine ⟨hgeneration, fun hpositive => ?_⟩
        rw [← hstarts hpositive] at hpositive
        omega
      | restart _ _ hrestart =>
        rw [hinv.cfg] at hrestart
        cases hrestart
      | _ => exact ⟨hgeneration, hstarts⟩
    · exact ⟨c', by rwa [hset, List.getElem?_set_ne (Ne.symm hij)], hgeneration, hstarts⟩
  | panic => exact absurd rfl (hact.noPanic _)
  | address h | request h | poll h =>
    rw [h.frame]
    exact ⟨c', hc', hgeneration, hstarts⟩
  | elapseDelayed | elapseInterval => exact ⟨c', hc', hgeneration, hstarts⟩

def Closed (s : State A) : Prop := WinddownInv s ∧ s.sharedSender = false

theorem Closed.next {s t : State A} {act : Act A} (hact : Calm ⟨s, act, t⟩)
    (h : step s act = some t) (hs : Closed s) : Closed t :=
  ⟨hs.1.step h hact, (Moves.of_step h).closed_stable hs.1.oneshot.holder hs.2⟩

theorem Closed.of_path {s t : State A} {ms : List (Move (State A) (Act A))}
    (h : Path step s ms t) (hms : ∀ m ∈ ms, Calm m) (hs : Closed s) : Closed t :=
  h.invariant_of (I := Closed) hms hs fun _ _ _ hact hstep hu => hu.next hact hstep

theorem Closed.windsDown {t : State A} (ht : Closed t) (await : A.Await) : WindsDown t := by
  constructor
  · refine ⟨t.work, fun ms u h hms => ?_⟩
    have hle := h.countP_add_le (I := Closed) (μ := State.work) (p := fun m => m.act.isContext)
      hms ht (fun _ _ _ hact hstep hv => hv.next hact hstep)
      fun _ _ _ hact hstep hv => work_le hstep hv.1 hv.2 hact.noPanic
    omega
  · intro ms u h hms
    obtain ⟨hinv, hclosed⟩ := ht.of_path h hms
    exact progress_of_closed hinv hclosed await
  · intro ms u h hms c hc hgone
    have hlived := (ht.of_path h hms).1.lived c hc
    have hpos : c.pos = .stopped := by
      have hpanicked := hlived.calm
      cases hpos : c.pos <;> simp_all [Position.gone]
    exact ⟨hpos, hlived.stopped hpos⟩
  · intro ms u h hms hgone i chan c env hc hleft hlistens haccepted
    have hu := h.invariant_of (I := fun v => Closed v ∧ Served v i chan ∧ v.accepted = t.accepted)
      hms ⟨ht, ⟨c, hc, hlistens, by simp [hleft]⟩, rfl⟩ ?_
    · obtain ⟨⟨hinv, _⟩, hserved, hsame⟩ := hu
      exact hinv.handled hserved hgone (by rwa [hsame])
    · rintro v act w hact hstep ⟨hv, hserved, hsame⟩
      refine ⟨hv.next hact hstep, hserved.step hstep hact hv.1 hv.2, ?_⟩
      rw [(Moves.of_step hstep).accepted_closed hv.1.oneshot.holder hv.2, hsame]
  · intro ms u h hms i c c' hc hc' _
    obtain ⟨c'', hc'', hsettled⟩ := (h.invariant_of
      (I := fun v => WinddownInv v ∧ SettledAs v i c) hms
      ⟨ht.1, c, hc, rfl, fun _ => rfl⟩ fun v act w hact hstep hv =>
        ⟨hv.1.step hstep hact, hv.2.step hstep hact hv.1⟩).2
    obtain rfl := Option.some.inj (hc'.symm.trans hc'')
    exact hsettled

theorem calm_address {s t : State A} {act : AddressAct} : Calm ⟨s, .address act, t⟩ :=
  ⟨nofun, nofun⟩

theorem calm_context {s t : State A} {i chan : Nat} {await : A.Await} {c : Context A}
    (hc : s.contexts[i]? = some c) (hhand : c.pos.hand = none) :
    Calm ⟨s, .context i chan await, t⟩ := by
  refine ⟨nofun, ?_⟩
  intro j chan' await' c' heq hc' hassert
  cases heq
  obtain rfl := Option.some.inj (hc.symm.trans hc')
  obtain ⟨env, hhand', _⟩ := hassert.exists_hand
  rw [hhand'] at hhand
  cases hhand

theorem exists_restart {s : State A} {i : Nat} {c : Context A} (hc : s.contexts[i]? = some c)
    (hpos : c.pos = .onStart) (hdrained : s.drainedFor c = true) (hrunning : s.isRunning = true)
    (hcfg : s.cfg.restartOnErr = true) (hmanual : c.manualShutdown = false) (await : A.Await) :
    ∃ (ms : List (Move (State A) (Act A))) (t : State A) (c' : Context A), Path step s ms t ∧
      (∀ m ∈ ms, Calm m) ∧ t.contexts[i]? = some c' ∧ c'.generation = c.generation + 1 := by
  let act : Act A := .context i c.rx await
  let c₁ : Context A := { c with pos := .incActive, starts := c.starts + 1 }
  let c₂ : Context A := { c₁ with pos := .recv }
  let c₃ : Context A := { c₂ with pos := .decActive }
  let s₁ := s.setContext i c₁
  let s₂ := { s₁ with active := (incActive s₁.active).2 }.setContext i c₂
  let s₃ := s₂.setContext i c₃
  have hc₁ : s₁.contexts[i]? = some c₁ := getElem?_set_self_of hc
  have hc₂ : s₂.contexts[i]? = some c₂ := getElem?_set_self_of hc₁
  have hc₃ : s₃.contexts[i]? = some c₃ := getElem?_set_self_of hc₂
  have h₁ : step s act = some s₁ := by simp [act, step, State.contextStep, hc, hpos, s₁, c₁]
  have h₂ : step s₁ act = some s₂ := by simp only [act, step, State.contextStep, hc₁]; rfl
  have h₃ : step s₂ act = some s₃ := by
    have hreceives : c₂.receives c.rx = true := receives_iff.mpr ⟨rfl, .inl rfl⟩
    have hempty : s₂.queue c.rx = [] := by
      rw [State.drainedFor, Bool.and_eq_true] at hdrained
      exact (ended_iff.mp hdrained.1).1
    have hguard : (s₂.ended c₂.rx && c₂.selector.all fun chan => s₂.ended chan) = true := hdrained
    simp only [act, step, State.contextStep, hc₂]
    change s₂.recv i c₂ c.rx = some s₃
    simp only [State.recv, if_pos hreceives, hempty, hguard, if_true]
    rfl
  have heven : s₃.isRunning = true := by
    rw [isRunning_iff] at hrunning ⊢
    change (incActive s.active).2 % 2 = 0
    rw [incActive_even hrunning]
    omega
  have h₄ : step s₃ act = some (s₃.leaveLoop i c₃) := by
    simp only [act, step, State.contextStep, hc₃]
    rfl
  have hleave : s₃.leaveLoop i c₃ = ({ s₃ with active := (decActive s₃.active).2 }.setContext i
      { c₃ with generation := c.generation + 1, pos := .onStart }) := by
    have hrestart : ((decActive s₃.active).1 && s₃.cfg.restartOnErr && !c₃.manualShutdown) =
        true := by
      rw [decActive_fst, heven]
      change (true && s.cfg.restartOnErr && !c.manualShutdown) = true
      rw [hcfg, hmanual]
      rfl
    simp only [State.leaveLoop]
    rw [if_pos hrestart]
  refine ⟨_, _, { c₃ with generation := c.generation + 1, pos := .onStart },
    .cons h₁ (.cons h₂ (.cons h₃ (.single h₄))), ?_, ?_, rfl⟩
  · rintro m (_ | ⟨_, _ | ⟨_, _ | ⟨_, _ | ⟨_, ⟨⟩⟩⟩⟩⟩)
    · exact calm_context hc (by rw [hpos]; rfl)
    · exact calm_context hc₁ rfl
    · exact calm_context hc₂ rfl
    · exact calm_context hc₃ rfl
  · rw [hleave]
    exact getElem?_set_self_of hc₃

section Runs
variable {cfg : Config} {build : Nat → A.State} {s : State A}

theorem Started.exists_closed (hstart : Started cfg build s) :
    ∃ (ms : List (Move (State A) (Act A))) (t : State A), Path step s ms t ∧ (∀ m ∈ ms, Calm m) ∧
      t.sharedSender = false ∧ t.contexts = s.contexts ∧ t.cfg = cfg ∧ t.isRunning = true ∧
      ∀ c, t.drainedFor c = true := by
  obtain ⟨w, rfl, _⟩ := hstart.exists_wiring
  let addr : Address := .new cfg w.broadcastSenders
  let s₁ : State A := { w.finish cfg with
    strongCount := 0, addresses := [{ addr with phase := .fields }] }
  let t : State A := { s₁ with addresses := [{ addr with phase := .dropped }] }
  have h₁ : step (w.finish cfg) (.address (.drop 0)) = some s₁ := rfl
  have h₂ : step s₁ (.address (.release 0)) = some t := rfl
  have hsender : t.sharedSender = false := rfl
  have hrunning : t.isRunning = true := by simp [State.isRunning, t, s₁, Wiring.finish]
  refine ⟨_, t, .cons h₁ (.single h₂), ?_, hsender, rfl, rfl, hrunning, ?_⟩
  · rintro m (_ | ⟨_, _ | ⟨_, ⟨⟩⟩⟩) <;> exact calm_address
  · have hended : ∀ chan, t.ended chan = true := fun chan =>
      ended_iff.mpr ⟨rfl, sender_of_closed hsender chan⟩
    intro c
    simp only [State.drainedFor, hended, Bool.true_and]
    cases c.selector <;> rfl

/-- With `restart_on_err` the contexts of a closed set start again. -/
theorem Started.not_windsDown (hstart : Started cfg build s) (hnum : 0 < cfg.num)
    (hcfg : cfg.restartOnErr = true) (await : A.Await) :
    ∃ (ms : List (Move (State A) (Act A))) (t : State A), Path step s ms t ∧ (∀ m ∈ ms, Calm m) ∧
      t.sharedSender = false ∧ ¬WindsDown t := by
  obtain ⟨ms, t, hpath, hms, hclosed, hcontexts, rfl, hrunning, hdrained⟩ := hstart.exists_closed
  refine ⟨ms, t, hpath, hms, hclosed, fun hdown => ?_⟩
  obtain ⟨c, hc⟩ : ∃ c : Context A, t.contexts[0]? = some c := by
    rw [hcontexts]
    exact ⟨_, List.getElem?_eq_getElem (by rw [hstart.length_contexts]; exact hnum)⟩
  have hnew : c.manualShutdown = false ∧ (c.pos = .onStart ∨ c.pos = .build) := by
    obtain ⟨w, rfl, hnew⟩ := hstart.exists_wiring
    rw [hcontexts] at hc
    obtain ⟨_, _, _, pos, rfl, hpos⟩ := hnew c (List.mem_of_getElem? hc)
    exact ⟨rfl, hpos⟩
  obtain ⟨hmanual, hpos | hpos⟩ := hnew
  · obtain ⟨ns, u, c', hrestart, hns, hc', hgeneration⟩ :=
      exists_restart hc hpos (hdrained c) hrunning hcfg hmanual await
    have hsettled := (hdown.settled ns u hrestart hns 0 c c' hc hc' (hdrained c)).1
    omega
  · let c₀ : Context A := { c with pos := .onStart }
    have hbuild : step t (.context 0 0 await) = some (t.setContext 0 c₀) := by
      simp [step, State.contextStep, hc, hpos, c₀]
    have hc₀ : (t.setContext 0 c₀).contexts[0]? = some c₀ := getElem?_set_self_of hc
    obtain ⟨ns, u, c', hrestart, hns, hc', hgeneration⟩ :=
      exists_restart hc₀ rfl (hdrained c) hrunning hcfg hmanual await
    have hcalm : ∀ m ∈ ⟨t, .context 0 0 await, t.setContext 0 c₀⟩ :: ns, Calm m := by
      rintro m (_ | ⟨_, hm⟩)
      · exact calm_context hc (by rw [hpos]; rfl)
      · exact hns m hm
    have hsettled := (hdown.settled _ u (.cons hbuild hrestart) hcalm 0 c c' hc hc' (hdrained c)).1
    change c'.generation = c.generation + 1 at hgeneration
    omega

theorem winds_down_iff (await : A.Await) (hstart : Started cfg build s) (hnum : 0 < cfg.num) :
    (∀ ms t, Path step s ms t → (∀ m ∈ ms, Calm m) → t.sharedSender = false → WindsDown t) ↔
      cfg.restartOnErr = false := by
  constructor
  · intro hall
    by_contra hcfg
    obtain ⟨ms, t, hpath, hms, hclosed, hdown⟩ :=
      hstart.not_windsDown hnum (by simpa using hcfg) await
    exact hdown (hall ms t hpath hms hclosed)
  · intro hcfg ms t h hms hclosed
    have hinv : WinddownInv t := h.invariant_of (I := WinddownInv) hms
      (hstart.winddownInv hcfg) fun _ _ _ hact hstep hu => hu.step hstep hact
    exact Closed.windsDown ⟨hinv, hclosed⟩ await

theorem winds_down_iff_default :
    (∀ ms t, Path step (echoStart .default) ms t → (∀ m ∈ ms, Calm m) → t.sharedSender = false →
      WindsDown t) ↔ Config.default.restartOnErr = false :=
  winds_down_iff (A := echoActor) () .start (by decide)

/-- One context with `restart_on_err`: dropping its address lets it restart for ever. -/
theorem dropped_set_restarts : ¬∀ cfg : Config, 0 < cfg.num → ∀ ms t,
    Path step (echoStart cfg) ms t → (∀ m ∈ ms, Calm m) → t.sharedSender = false → WindsDown t := by
  intro hall
  have hstart : Started { Config.default with restartOnErr := true } (fun _ => ())
      (echoStart { Config.default with restartOnErr := true }) := .start
  obtain ⟨ms, t, hpath, hms, hclosed, hdown⟩ := hstart.not_windsDown (by decide) rfl ()
  exact hdown (hall _ (by decide) ms t hpath hms hclosed)

end Runs

end ActixSend
