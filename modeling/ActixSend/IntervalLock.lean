import ActixSend.Calls
import ActixSend.ManualShutdown

/-! # The lock of the interval futures

`handle_interval_msg` keeps the guard of the lock while it awaits the closure
of an interval. The other contexts reach the lock by `Run`, `Remove` and
`Register`, and wait for it in the same way.
-/

namespace ActixSend

open Transition
set_option autoImplicit false

variable {A : Actor}

/-- The context has the guard, and what it awaits is the closure of an interval. -/
def InClosure (s : State A) (i : Nat) : Prop :=
  ∃ (c : Context A) (env : Envelope A) (index : Nat), s.contexts[i]? = some c ∧
    c.pos = .intervalRun env index

def RunsClosure (s : State A) (i index : Nat) : Prop :=
  ∃ (c : Context A) (env : Envelope A), s.contexts[i]? = some c ∧
    c.pos = .intervalRun env index ∧ (s.futures index).isSome = true

def Position.needsLock : Position A → Bool
  | .handle env =>
    match env.msg with
    | .interval (.run _) => true
    | .interval (.remove _) => true
    | _ => false
  | .insert _ _ _ => true
  | _ => false

def Position.inserted : Position A → Bool
  | .pushCheck _ _ => true
  | .pushExtend _ _ => true
  | .reply _ _ _ => true
  | _ => false

/-- A closure of context `i` that awaits the `run_interval` call `tx` awaits it forever. -/
structure Deadlock (s : State A) (i tx : Nat) : Prop where
  closure : InClosure s i
  awaits : ∃ (call : Call A) (dur : Nat) (fut : A.Future), s.calls[tx]? = some call ∧
    call.req = .runInterval dur fut ∧ call.phase = .waiting none
  stuck : ∀ ns u, Path step s ns u → (∀ n ∈ ns, n.act.isOf i = false) → u.answered tx = false

structure ClosuresBlockNobody (s : State A) : Prop where
  others : ∀ (i j : Nat) (c : Context A), i ≠ j → InClosure s i → s.contexts[j]? = some c →
    c.pos.hand.isSome = true → ∃ chan await v, step s (.context j chan await) = some v
  noDeadlock : ∀ i tx, ¬Deadlock s i tx

structure Beside (s : State A) (i j : Nat) (c : Context A) : Prop where
  free : c.pos.needsLock = false →
    ∀ chan await, ∃ v, step s (.context j chan await) = some v
  waits : c.pos.needsLock = true → ∀ ns u, Path step s ns u →
    (∀ n ∈ ns, n.act.isOf i = false) →
    u.contexts[j]? = some c ∧ ∀ chan await, step u (.context j chan await) = none
  passedOn : c.pos.needsLock = true → ∀ act u, act.isOf i = true → step s act = some u →
    ∃ (k : Nat) (ck : Context A), k ≠ i ∧ u.contexts[k]? = some ck ∧ ck.pos.needsLock = true ∧
      ∀ chan await, ∃ v, step u (.context k chan await) = some v
  deadlock : ∀ (env : Envelope A) (fut : A.Future) (key tx : Nat) (call : Call A),
    c.pos = .insert env fut key → env.msg.tx = some tx → s.calls[tx]? = some call →
    call.phase = .waiting none → Deadlock s i tx
  answered : ∀ (_ : A.Await) (env : Envelope A) (tx : Nat) (call : Call A),
    c.pos.hand = some env → c.pos.inserted = true → env.msg.tx = some tx →
    s.calls[tx]? = some call → call.phase = .waiting none →
    ∃ ns u, Path step s ns u ∧ (∀ n ∈ ns, n.act.isOf i = false) ∧ u.answered tx = true

structure GuardInv (s : State A) : Prop where
  oneshot : OneshotInv s
  counts : CountInv s
  unlocked : s.handlersLocked = false
  held : ∀ i, InClosure s i → s.futuresLock = some i

theorem inClosure_set {s t : State A} {i j : Nat} {c c' : Context A}
    (hset : t.contexts = s.contexts.set i c') (hc : s.contexts[i]? = some c)
    (h : InClosure t j) :
    j ≠ i ∧ InClosure s j ∨ j = i ∧ ∃ env index, c'.pos = .intervalRun env index := by
  obtain ⟨cj, env, index, hcj, hpos⟩ := h
  rw [hset] at hcj
  rcases getElem?_set_cases hcj with ⟨rfl, rfl⟩ | ⟨_, hcj⟩
  · exact .inr ⟨rfl, env, index, hpos⟩
  · exact .inl ⟨‹_›, cj, env, index, hcj, hpos⟩

theorem GuardInv.step {s t : State A} {act : Act A} (h : step s act = some t)
    (hs : GuardInv s) : GuardInv t := by
  have hmove := Moves.of_step h
  refine ⟨hs.oneshot.step h, hs.counts.step h, hmove.unlocked hs.counts hs.unlocked, ?_⟩
  intro j hj
  cases hmove with
  | address h | request h | poll h =>
    rw [h.frame] at hj ⊢
    exact hs.held j hj
  | elapseDelayed | elapseInterval => exact hs.held j hj
  | @context i _ _ c _ hc h =>
    obtain ⟨c', hset, hcases⟩ := h.lock_cases
    rcases hcases with ⟨hpos, _, hpos'⟩ | ⟨hnone, hsome, _⟩ | ⟨hsame, _, hpos'⟩
    · -- the guard that is given back was the only one
      obtain ⟨env, index, hpos⟩ := hpos
      have hi := hs.held i ⟨c, env, index, hc, hpos⟩
      rcases inClosure_set hset hc hj with ⟨hji, hj⟩ | ⟨_, _, _, hpos⟩
      · exact absurd (Option.some.inj ((hs.held j hj).symm.trans hi)) hji
      · rw [hpos'] at hpos
        cases hpos
    · rcases inClosure_set hset hc hj with ⟨_, hj⟩ | ⟨rfl, _⟩
      · exact absurd ((hs.held j hj).symm.trans hnone) nofun
      · exact hsome
    · rw [hsame]
      rcases inClosure_set hset hc hj with ⟨_, hj⟩ | ⟨_, env, index, hpos⟩
      · exact hs.held j hj
      · exact absurd hpos (hpos' env index)
  | @panic i c _ hc h =>
    cases h
    rcases inClosure_set rfl hc hj with ⟨hji, hj⟩ | ⟨_, _, _, hpos⟩
    · have hheld := hs.held j hj
      simp [State.setContext, hheld, hji]
    · cases hpos

theorem Started.guardInv {cfg : Config} {build : Nat → A.State} {s : State A}
    (h : Started cfg build s) : GuardInv s := by
  have honeshot := h.oneshotInv
  have hcounts := h.countInv
  obtain ⟨w, rfl, hnew⟩ := h.exists_wiring
  refine ⟨honeshot, hcounts, rfl, ?_⟩
  rintro i ⟨c, env, index, hc, hpos⟩
  obtain ⟨_, _, _, _, rfl, rfl | rfl⟩ := hnew c (List.mem_of_getElem? hc) <;> cases hpos

theorem hand_enabled {s : State A} (hunlocked : s.handlersLocked = false) {j : Nat} {c : Context A}
    (hc : s.contexts[j]? = some c) (hhand : c.pos.hand.isSome = true)
    (hlock : c.pos.needsLock = true → s.futuresLock = none) (chan : Nat) (await : A.Await) :
    ∃ v, step s (.context j chan await) = some v := by
  simp only [step, State.contextStep, hc]
  cases hpos : c.pos with
  | handle env =>
    rw [hpos] at hlock
    simp only [State.handleMsg]
    cases hmsg : env.msg with
    | manualShutDown =>
      simp only
      split <;> exact ⟨_, rfl⟩
    | instant | delayed => exact ⟨_, rfl⟩
    | interval msg =>
      cases msg with
      | run | remove =>
        have hfree := hlock (by simp only [Position.needsLock, hmsg])
        simp [State.handleIntervalMsg, hfree]
      | register => exact ⟨_, rfl⟩
  | insert env fut key =>
    exact insertInterval_enabled (hlock (by rw [hpos]; rfl)) j c env fut key
  | pushCheck =>
    simp only
    split <;> exact ⟨_, rfl⟩
  | pushExtend => simp [hunlocked]
  | reply | intervalRun => exact ⟨_, rfl⟩
  | build | onStart | incActive | recv | decActive | onStop | stopped | panicked =>
    rw [hpos] at hhand
    cases hhand

theorem step_blocked {s : State A} {i j : Nat} {c : Context A} (hlock : s.futuresLock = some i)
    (hc : s.contexts[j]? = some c) (hneeds : c.pos.needsLock = true) (chan : Nat)
    (await : A.Await) : step s (.context j chan await) = none := by
  simp only [step, State.contextStep, hc]
  cases hpos : c.pos with
  | handle env =>
    rw [hpos, Position.needsLock] at hneeds
    split at hneeds
    · rename_i hmsg
      simp [State.handleMsg, hmsg, State.handleIntervalMsg, hlock]
    · rename_i hmsg
      simp [State.handleMsg, hmsg, State.handleIntervalMsg, hlock]
    · cases hneeds
  | insert => simp [State.insertInterval, hlock]
  | stopped | panicked => rfl
  | build | onStart | incActive | recv | pushCheck | pushExtend | reply | intervalRun | decActive
  | onStop =>
    rw [hpos] at hneeds
    cases hneeds

theorem not_inUserCode_of_needsLock {s : State A} {pos : Position A}
    (h : pos.needsLock = true) : s.inUserCode pos = false := by
  cases pos with
  | handle env =>
    rw [Position.needsLock] at h
    split at h
    · rename_i hmsg
      simp only [State.inUserCode, hmsg]
    · rename_i hmsg
      simp only [State.inUserCode, hmsg]
    · cases h
  | insert => rfl
  | build | onStart | incActive | recv | pushCheck | pushExtend | reply | intervalRun | decActive
  | onStop | stopped | panicked => cases h

structure Waiting (s : State A) (i j : Nat) (c : Context A) : Prop where
  lock : s.futuresLock = some i
  context : s.contexts[j]? = some c

theorem Waiting.other {s t : State A} {act : Act A} {i j : Nat} {c : Context A}
    (h : step s act = some t) (hneeds : c.pos.needsLock = true) (hs : Waiting s i j c) :
    act.isOf j = false := by
  by_contra hown
  cases act with
  | context k chan await =>
    obtain rfl : k = j := by simpa [isOf_context] using hown
    rw [step_blocked hs.lock hs.context hneeds] at h
    cases h
  | panic k =>
    obtain rfl : k = j := by simpa [isOf_panic] using hown
    simp [step, State.panicStep, hs.context, not_inUserCode_of_needsLock hneeds] at h
  | _ => exact hown rfl

theorem Waiting.step {s t : State A} {act : Act A} {i j : Nat} {c : Context A}
    (h : step s act = some t) (hneeds : c.pos.needsLock = true) (hact : act.isOf i = false)
    (hinv : GuardInv s) (hs : Waiting s i j c) : Waiting t i j c := by
  have hmove := Moves.of_step h
  refine ⟨?_, (hmove.other (hs.other h hneeds)).1.trans hs.context⟩
  cases hmove with
  | address h | request h | poll h =>
    rw [h.frame]
    exact hs.lock
  | elapseDelayed | elapseInterval => exact hs.lock
  | @context k _ _ ck _ hck h =>
    have hki : k ≠ i := by simpa [isOf_context] using hact
    obtain ⟨_, _, hcases⟩ := h.lock_cases
    rcases hcases with ⟨⟨env, index, hpos⟩, _, _⟩ | ⟨hnone, _, _⟩ | ⟨hsame, _, _⟩
    · have hheld := hinv.held k ⟨ck, env, index, hck, hpos⟩
      rw [hs.lock] at hheld
      exact absurd (Option.some.inj hheld).symm hki
    · rw [hs.lock] at hnone
      cases hnone
    · rw [hsame, hs.lock]
  | @panic k ck _ hck h =>
    have hki : k ≠ i := by simpa [isOf_panic] using hact
    cases h
    simp [State.setContext, hs.lock, Ne.symm hki]

theorem waiting_of_path {s t : State A} {ns : List (Move (State A) (Act A))} {i j : Nat}
    {c : Context A} (h : Path step s ns t) (hneeds : c.pos.needsLock = true)
    (hns : ∀ n ∈ ns, n.act.isOf i = false) (hinv : GuardInv s) (hs : Waiting s i j c) :
    GuardInv t ∧ Waiting t i j c :=
  h.invariant_of (I := fun u => GuardInv u ∧ Waiting u i j c) hns ⟨hinv, hs⟩
    fun _ _ _ hact hstep hu => ⟨hu.1.step hstep, hu.2.step hstep hneeds hact hu.1⟩

theorem OneshotInv.hand_unique {s : State A} (hs : OneshotInv s) {i j tx : Nat}
    {c c' : Context A} {env env' : Envelope A} (hc : s.contexts[i]? = some c)
    (hhand : c.pos.hand = some env) (htx : env.msg.tx = some tx) (hc' : s.contexts[j]? = some c')
    (hhand' : c'.pos.hand = some env') (htx' : env'.msg.tx = some tx) : i = j := by
  have hbusy : s.ledger.worker i = .busy env := by rw [ledger_worker hc, worker_of_hand hhand]
  have hbusy' : s.ledger.worker j = .busy env' := by
    rw [ledger_worker hc', worker_of_hand hhand']
  obtain ⟨chan, htaken⟩ := hs.channel.sound.taken_of_busy hbusy
  obtain ⟨chan', htaken'⟩ := hs.channel.sound.taken_of_busy hbusy'
  have haccepted : (chan, env) ∈ s.accepted := hs.channel.sound.accepted_of_taken htaken
  have haccepted' : (chan', env') ∈ s.accepted := hs.channel.sound.accepted_of_taken htaken'
  cases hs.request.once _ haccepted _ haccepted' tx htx htx'
  exact hs.channel.sound.worker_unique htaken htaken'

def Unanswered (s : State A) (tx : Nat) : Prop :=
  ∃ call : Call A, s.calls[tx]? = some call ∧
    (call.phase = .waiting none ∨ call.phase = .abandoned)

theorem Unanswered.not_answered {s : State A} {tx : Nat} (h : Unanswered s tx) :
    s.answered tx = false := by
  obtain ⟨call, hcall, hphase | hphase⟩ := h <;>
    simp [State.answered, hcall, hphase, CallPhase.answered]

theorem Unanswered.step {s t : State A} {act : Act A} {j tx : Nat} {c : Context A}
    {env : Envelope A} (h : step s act = some t) (hinv : OneshotInv s)
    (hc : s.contexts[j]? = some c) (hhand : c.pos.hand = some env)
    (htx : env.msg.tx = some tx) (hact : act.isOf j = false) (hs : Unanswered s tx) :
    Unanswered t tx := by
  have hmove := Moves.of_step h
  obtain ⟨call, hcall, hphase⟩ := hs
  obtain ⟨call', hcall', _⟩ := hmove.continues tx call hcall
  obtain ⟨hlt, _⟩ := List.getElem?_eq_some_iff.mp hcall
  refine ⟨call', hcall', ?_⟩
  cases hmove.callOrigin hcall' with
  | new hlen => omega
  | item hlen => omega
  | old hcall₀ hturn =>
    obtain rfl := Option.some.inj (hcall.symm.trans hcall₀)
    cases hturn with
    | keep => exact hphase
    | abandon => exact .inr rfl
    | refuse hsending | send hsending | timeout hsending =>
      rw [hsending] at hphase
      rcases hphase with hphase | hphase <;> cases hphase
    | receive _ hwaiting =>
      rw [hwaiting] at hphase
      rcases hphase with hphase | hphase <;> cases hphase
    | canceled _ hheld =>
      have hany : (s.contexts.any fun c => c.pos.hand.any fun env => env.msg.tx == some tx) =
          true := by
        refine List.any_eq_true.mpr ⟨c, List.mem_of_getElem? hc, ?_⟩
        simp [hhand, htx]
      simp [State.oneShotSender, hcall, hany] at hheld
    | @answered k reply _ hanswers =>
      obtain ⟨ck, envk, hck, hhandk, htxk, hhandled⟩ := hanswers.hand_tx hinv.request
      obtain rfl := hinv.hand_unique hck hhandk htxk hc hhand htx
      have hsame := (hmove.other hact).2.2
      rw [State.handledBy, hhandled, List.filter_append, ← State.handledBy] at hsame
      simp at hsame

theorem eq_runInterval {req : Request A} {tx tx' dur : Nat} {fut : A.Future}
    (h : req.message tx = .interval (.register tx' fut dur)) : req = .runInterval dur fut := by
  cases req <;> cases h
  rfl

theorem register_of_fits {pos : Position A} {env : Envelope A} {tx : Nat} (hfits : pos.Fits)
    (hpos : pos.inserted = true ∨ ∃ fut key, pos = .insert env fut key)
    (hhand : pos.hand = some env) (htx : env.msg.tx = some tx) :
    ∃ fut dur, env.msg = .interval (.register tx fut dur) := by
  have hregister : ∀ tx' fut dur, env.msg = .interval (.register tx' fut dur) →
      ∃ fut dur, env.msg = .interval (.register tx fut dur) := by
    intro tx' fut dur hmsg
    rw [hmsg] at htx
    cases htx
    exact ⟨fut, dur, hmsg⟩
  have hnone : ∀ msg, env.msg ≠ .delayed msg := by
    intro msg hmsg
    rw [hmsg] at htx
    cases htx
  cases pos with
  | insert =>
    cases hhand
    obtain ⟨tx', fut, dur, hmsg⟩ := hfits
    exact hregister tx' fut dur hmsg
  | pushCheck | pushExtend =>
    cases hhand
    rcases hfits with ⟨msg, hmsg⟩ | ⟨tx', fut, dur, hmsg⟩
    · exact absurd hmsg (hnone msg)
    · exact hregister tx' fut dur hmsg
  | reply =>
    cases hhand
    obtain ⟨fut, dur, hmsg⟩ := hfits
    exact hregister _ fut dur hmsg
  | _ => simp [Position.inserted] at hpos

theorem GuardInv.deadlock {s : State A} (hs : GuardInv s) {i j tx key : Nat} {c : Context A}
    {env : Envelope A} {fut : A.Future} {call : Call A} (hclosure : InClosure s i)
    (hc : s.contexts[j]? = some c) (hpos : c.pos = .insert env fut key)
    (htx : env.msg.tx = some tx) (hcall : s.calls[tx]? = some call)
    (hphase : call.phase = .waiting none) : Deadlock s i tx := by
  have hhand : c.pos.hand = some env := by rw [hpos]; rfl
  have hneeds : c.pos.needsLock = true := by rw [hpos]; rfl
  refine ⟨hclosure, ?_, ?_⟩
  · obtain ⟨fut, dur, hmsg⟩ := register_of_fits
      (hs.oneshot.request.fits c (List.mem_of_getElem? hc)) (.inr ⟨fut, key, hpos⟩) hhand htx
    obtain ⟨chan, haccepted⟩ := hs.oneshot.accepted_of_hand hc hhand
    obtain ⟨call', hcall', _, hmessage, _⟩ := hs.oneshot.request.sent chan env haccepted tx htx
    obtain rfl := Option.some.inj (hcall.symm.trans hcall')
    rw [hmsg] at hmessage
    exact ⟨call, dur, fut, hcall, eq_runInterval hmessage.symm, hphase⟩
  · intro ns u hpath hns
    have hinv : GuardInv u ∧ Waiting u i j c ∧ Unanswered u tx := by
      refine hpath.invariant_of (I := fun u => GuardInv u ∧ Waiting u i j c ∧ Unanswered u tx) hns
        ⟨hs, ⟨hs.held i hclosure, hc⟩, call, hcall, .inl hphase⟩ ?_
      rintro u act v hact hstep ⟨hu, hwaiting, hunanswered⟩
      exact ⟨hu.step hstep, hwaiting.step hstep hneeds hact hu,
        hunanswered.step hstep hu.oneshot hwaiting.context hhand htx (hwaiting.other hstep hneeds)⟩
    exact hinv.2.2.not_answered

/-- The context gets on with `handle_msg` until the request is answered. -/
def Replies (s : State A) (j tx : Nat) (await : A.Await) : Prop :=
  ∃ ns u, Path step s ns u ∧ (∀ n ∈ ns, n.act = .context j 0 await) ∧ u.answered tx = true

theorem Replies.cons {s t : State A} {j tx : Nat} {await : A.Await}
    (hstep : step s (.context j 0 await) = some t) (h : Replies t j tx await) :
    Replies s j tx await := by
  obtain ⟨ns, u, hpath, hns, hanswered⟩ := h
  refine ⟨_, u, hpath.cons hstep, ?_, hanswered⟩
  intro n hn
  rcases List.mem_cons.mp hn with rfl | hn
  · rfl
  · exact hns n hn

section Replies
variable {s : State A} {j tx : Nat} {c : Context A} {env : Envelope A} {h : FutureHandler}
  {call : Call A}

theorem replies_of_reply (await : A.Await) (hc : s.contexts[j]? = some c)
    (hpos : c.pos = .reply env tx h) (hcall : s.calls[tx]? = some call)
    (hphase : call.phase = .waiting none) : Replies s j tx await := by
  have hstep : step s (.context j 0 await) = some ((s.sendReply tx (.handler h)).finish j
      { c with pos := .recv } env (some (.handler h))) := by
    simp only [step, State.contextStep, hc, hpos]
  refine ⟨_, _, Path.single hstep, by simp, ?_⟩
  simp [State.answered, State.finish, State.setContext, State.sendReply, hcall, hphase,
    State.setCall, getElem?_set_self_of hcall, CallPhase.answered]

theorem afterPush_register {fut : A.Future} {dur : Nat}
    (hmsg : env.msg = .interval (.register tx fut dur)) :
    s.afterPush j c env h = s.setContext j { c with pos := .reply env tx h } := by
  simp only [State.afterPush, hmsg]

theorem replies_of_pushExtend (await : A.Await) (hunlocked : s.handlersLocked = false)
    (hc : s.contexts[j]? = some c) (hpos : c.pos = .pushExtend env h) {fut : A.Future} {dur : Nat}
    (hmsg : env.msg = .interval (.register tx fut dur)) (hcall : s.calls[tx]? = some call)
    (hphase : call.phase = .waiting none) : Replies s j tx await := by
  have hstep : step s (.context j 0 await) =
      some ({ s with handlers := s.handlers ++ [h] }.setContext j
        { c with pos := .reply env tx h }) := by
    simp [step, State.contextStep, hc, hpos, hunlocked, afterPush_register hmsg]
  exact .cons hstep (replies_of_reply await (getElem?_set_self_of hc) rfl hcall hphase)

/-- Nothing between the insertion and the reply waits for the interval futures. -/
theorem exists_reply (await : A.Await) (hunlocked : s.handlersLocked = false)
    (hc : s.contexts[j]? = some c) (hfits : c.pos.Fits) (hhand : c.pos.hand = some env)
    (hinserted : c.pos.inserted = true) (htx : env.msg.tx = some tx)
    (hcall : s.calls[tx]? = some call) (hphase : call.phase = .waiting none) :
    Replies s j tx await := by
  obtain ⟨fut, dur, hmsg⟩ := register_of_fits hfits (.inl hinserted) hhand htx
  cases hpos : c.pos with
  | pushCheck env' h =>
    rw [hpos] at hhand
    cases hhand
    cases hrunning : s.isRunning with
    | true =>
      have hstep : step s (.context j 0 await) =
          some (s.setContext j { c with pos := .pushExtend env h }) := by
        simp [step, State.contextStep, hc, hpos, hrunning]
      exact .cons hstep
        (replies_of_pushExtend await hunlocked (getElem?_set_self_of hc) rfl hmsg hcall hphase)
    | false =>
      have hstep : step s (.context j 0 await) =
          some (s.setContext j { c with pos := .reply env tx h }) := by
        simp [step, State.contextStep, hc, hpos, hrunning, afterPush_register hmsg]
      exact .cons hstep (replies_of_reply await (getElem?_set_self_of hc) rfl hcall hphase)
  | pushExtend env' h =>
    rw [hpos] at hhand
    cases hhand
    exact replies_of_pushExtend await hunlocked hc hpos hmsg hcall hphase
  | reply env' tx' h =>
    rw [hpos] at hhand hfits
    cases hhand
    obtain ⟨_, _, hmsg'⟩ := hfits
    rw [hmsg'] at hmsg
    cases hmsg
    exact replies_of_reply await hc hpos hcall hphase
  | _ =>
    rw [hpos] at hinserted
    cases hinserted

end Replies

section Runs
variable {cfg : Config} {build : Nat → A.State} {s t : State A} {ms : List (Move (State A) (Act A))}

theorem isOf_other {act : Act A} {i j : Nat} (hact : act.isOf i = true) (hij : i ≠ j) :
    act.isOf j = false := by
  cases act with
  | context | panic => exact beq_eq_false_iff_ne.mpr (beq_iff_eq.mp hact ▸ hij)
  | _ => rfl

/-- The closure ends by its last step or by a panic. -/
theorem released_of_closure {act : Act A} {u : State A} {i j : Nat} {c : Context A} (hij : i ≠ j)
    (hclosure : InClosure s i) (hlock : s.futuresLock = some i) (hc : s.contexts[j]? = some c)
    (hact : act.isOf i = true) (hstep : step s act = some u) :
    u.contexts[j]? = some c ∧ u.futuresLock = none := by
  refine ⟨((Moves.of_step hstep).other (isOf_other hact hij)).1.trans hc, ?_⟩
  obtain ⟨ci, env, index, hci, hpos⟩ := hclosure
  cases act with
  | context k chan await =>
    obtain rfl : k = i := beq_iff_eq.mp hact
    simp only [step, State.contextStep, hci, hpos, Option.some.injEq] at hstep
    rw [← hstep, State.runInterval]
    simp only
    split <;> rfl
  | panic k =>
    obtain rfl : k = i := beq_iff_eq.mp hact
    simp only [step, State.panicStep, hci] at hstep
    split at hstep
    · cases hstep
      simp [State.setContext, hlock]
    · cases hstep
  | _ => cases hact

theorem closure_blocks_lock (hstart : Started cfg build s) (h : Path step s ms t) {i j : Nat}
    {c : Context A} (hij : i ≠ j) (hclosure : InClosure t i) (hc : t.contexts[j]? = some c)
    (hhand : c.pos.hand.isSome = true) : Beside t i j c := by
  have hinv : GuardInv t := h.invariant hstart.guardInv fun _ _ _ hstep hu => hu.step hstep
  have hlock := hinv.held i hclosure
  constructor
  · intro hfree chan await
    exact hand_enabled hinv.unlocked hc hhand (by simp [hfree]) chan await
  · intro hneeds ns u hpath hns
    obtain ⟨_, hwaiting⟩ := waiting_of_path hpath hneeds hns hinv ⟨hlock, hc⟩
    exact ⟨hwaiting.context, step_blocked hwaiting.lock hwaiting.context hneeds⟩
  · intro hneeds act u hact hstep
    obtain ⟨hcu, hnone⟩ := released_of_closure hij hclosure hlock hc hact hstep
    have hu := hinv.step hstep
    exact ⟨j, c, hij.symm, hcu, hneeds, hand_enabled hu.unlocked hcu hhand fun _ => hnone⟩
  · intro env fut key tx call hpos htx hcall hphase
    exact hinv.deadlock hclosure hc hpos htx hcall hphase
  · intro await env tx call hhand hinserted htx hcall hphase
    obtain ⟨ns, u, hpath, hns, hanswered⟩ := exists_reply await hinv.unlocked hc
      (hinv.oneshot.request.fits c (List.mem_of_getElem? hc)) hhand hinserted htx hcall hphase
    refine ⟨ns, u, hpath, fun n hn => ?_, hanswered⟩
    rw [hns n hn, isOf_context]
    simpa using Ne.symm hij

/-- Context 0 runs an interval's closure, and context 1 comes to insert another one. -/
def closureActs : List (Act echoActor) :=
  [.context 0 0 (), .context 0 0 (), .context 1 0 (), .context 1 0 (),
    .request (.call 0 (.runInterval 1 (5 : Nat))), .request (.send 0), .context 0 0 (),
    .context 0 0 (),
    .context 0 0 (), .context 0 0 (), .context 0 0 (), .context 0 0 (), .elapse 0, .poll 0,
    .poll 0, .context 0 0 (), .context 0 0 (), .request (.call 0 (.runInterval 1 (6 : Nat))),
    .request (.send 1), .context 1 0 (), .context 1 0 ()]

/-- The closure is under way, and the message of request 1 stands before its insertion. -/
def beforeInsert (s : State echoActor) : Bool :=
  (s.contexts[0]?.any fun c => c.pos matches .intervalRun _ _) &&
    (s.contexts[1]?.any fun c => match c.pos with
      | .insert env _ _ => env.msg.tx == some 1
      | _ => false) &&
    s.oneShotOpen 1

theorem exists_beforeInsert : ∃ ms t,
    Path step (echoStart { Config.default with num := 2 }) ms t ∧ InClosure t 0 ∧
      ∃ (c : Context echoActor) (env : Envelope echoActor) (fut : echoActor.Future) (key : Nat)
        (call : Call echoActor), t.contexts[1]? = some c ∧ c.pos = .insert env fut key ∧
        env.msg.tx = some 1 ∧
        t.calls[1]? = some call ∧ call.phase = .waiting none := by
  obtain ⟨ms, t, hpath, _, _, hq⟩ := exists_path_of_checkedRun step
    (echoStart { Config.default with num := 2 }) closureActs (fun _ _ _ => true) beforeInsert
    (by decide)
  simp only [beforeInsert, Bool.and_eq_true, Option.any_eq_true] at hq
  obtain ⟨⟨⟨c₀, hc₀, hpos₀⟩, c, hc, hpos⟩, hopen⟩ := hq
  refine ⟨ms, t, hpath, ?_, ?_⟩
  · split at hpos₀
    · exact ⟨c₀, _, _, hc₀, ‹_›⟩
    · cases hpos₀
  · rw [State.oneShotOpen] at hopen
    split at hopen
    · cases hopen
    · rename_i call hcall
      split at hopen
      · split at hpos
        · exact ⟨c, _, _, _, call, hc, ‹_›, by simpa using hpos, hcall, ‹_›⟩
        · cases hpos
      · cases hopen

theorem closure_blocks_insert : ∃ ms t,
    Path step (echoStart { Config.default with num := 2 }) ms t ∧ InClosure t 0 ∧
      ∃ c : Context echoActor, t.contexts[1]? = some c ∧ c.pos.needsLock = true ∧
        Beside t 0 1 c := by
  obtain ⟨ms, t, hpath, hclosure, c, env, fut, key, _, hc, hpos, _⟩ := exists_beforeInsert
  refine ⟨ms, t, hpath, hclosure, c, hc, by rw [hpos]; rfl, ?_⟩
  exact closure_blocks_lock .start hpath (by decide) hclosure hc (by rw [hpos]; rfl)

/-- The closure awaits its own `run_interval`, whose message context 1 cannot process. -/
theorem registering_closure_deadlocks : ¬∀ ms t,
    Path step (echoStart { Config.default with num := 2 }) ms t → ClosuresBlockNobody t := by
  intro hall
  obtain ⟨ms, t, hpath, hclosure, c, env, fut, key, call, hc, hpos, htx, hcall, hphase⟩ :=
    exists_beforeInsert
  have hinv : GuardInv t :=
    hpath.invariant Started.start.guardInv fun _ _ _ hstep hu => hu.step hstep
  exact (hall ms t hpath).noDeadlock 0 1 (hinv.deadlock hclosure hc hpos htx hcall hphase)

end Runs

end ActixSend
