import ActixSend.Active
import ActixSend.Transition.Ledger

/-! # The channels of an actor set

The actor set keeps a ledger: every channel is a queue that many contexts
consume, every context holds one message at a time. Each step of the set is an
event of the ledger, so the ledger of every reachable state is sound. Once the
last sender or the last receiver of a channel is gone no new one appears.
-/

namespace ActixSend

open Function Transition
set_option autoImplicit false

variable {A : Actor}

def Position.worker : Position A → Worker (Envelope A)
  | .panicked => .lost
  | .handle env => .busy env
  | .insert env _ _ => .busy env
  | .pushCheck env _ => .busy env
  | .pushExtend env _ => .busy env
  | .reply env _ _ => .busy env
  | .intervalRun env _ => .busy env
  | _ => .idle

def State.ledger (s : State A) : Ledger Nat Nat (Envelope A) where
  accepted := s.accepted
  queue := s.queue
  taken := s.taken.map fun x => (x.context, x.chan, x.env)
  handled := s.handled.map fun x => (x.context, x.env)
  worker := fun i => (s.contexts[i]?).elim .idle fun c => c.pos.worker

@[simp] theorem ledger_accepted (s : State A) : s.ledger.accepted = s.accepted := rfl

@[simp] theorem ledger_queue (s : State A) : s.ledger.queue = s.queue := rfl

theorem worker_of_hand {pos : Position A} {env : Envelope A} (h : pos.hand = some env) :
    pos.worker = .busy env := by
  cases pos <;> simp_all [Position.hand, Position.worker]

theorem ledger_worker {s : State A} {i : Nat} {c : Context A} (hc : s.contexts[i]? = some c) :
    s.ledger.worker i = c.pos.worker := by
  simp [State.ledger, hc]

theorem worker_set {s t : State A} {i : Nat} {c c' : Context A} (hc : s.contexts[i]? = some c)
    (ht : t.contexts = s.contexts.set i c') :
    t.ledger.worker = update s.ledger.worker i c'.pos.worker := by
  funext j
  by_cases hij : j = i
  · subst hij
    rw [update_self]
    apply ledger_worker
    rw [ht, getElem?_set_self_of hc]
  · rw [update_of_ne hij]
    simp [State.ledger, ht, List.getElem?_set_ne (Ne.symm hij)]

theorem ledger_same {s t : State A} {i : Nat} {c c' : Context A} (hc : s.contexts[i]? = some c)
    (ht : t.contexts = s.contexts.set i c') (hworker : c'.pos.worker = c.pos.worker)
    (haccepted : t.accepted = s.accepted) (hqueue : t.queue = s.queue)
    (htaken : t.taken = s.taken) (hhandled : t.handled = s.handled) : t.ledger = s.ledger := by
  have hset := worker_set hc ht
  rw [hworker, ← ledger_worker hc, update_eq_self] at hset
  exact Ledger.ext haccepted hqueue (by simp [State.ledger, htaken])
    (by simp [State.ledger, hhandled]) hset

theorem ledger_finish {s t : State A} {i : Nat} {c c' : Context A} {env : Envelope A}
    {reply : Option (Reply A)} (hc : s.contexts[i]? = some c)
    (ht : t.contexts = s.contexts.set i c') (hworker : c'.pos.worker = .idle)
    (haccepted : t.accepted = s.accepted) (hqueue : t.queue = s.queue)
    (htaken : t.taken = s.taken) (hhandled : t.handled = s.handled ++ [⟨i, env, reply⟩]) :
    t.ledger = s.ledger.finish i env := by
  have hset := worker_set hc ht
  rw [hworker] at hset
  exact Ledger.ext haccepted hqueue (by simp [State.ledger, htaken, Ledger.finish])
    (by simp [State.ledger, hhandled, Ledger.finish]) hset

theorem ledger_take {s t : State A} {i chan : Nat} {c c' : Context A} {env : Envelope A}
    {rest : List (Envelope A)} (hc : s.contexts[i]? = some c)
    (ht : t.contexts = s.contexts.set i c') (hworker : c'.pos.worker = .busy env)
    (haccepted : t.accepted = s.accepted) (hqueue : t.queue = update s.queue chan rest)
    (htaken : t.taken = s.taken ++ [⟨i, chan, env⟩]) (hhandled : t.handled = s.handled) :
    t.ledger = s.ledger.take i chan env rest := by
  have hset := worker_set hc ht
  rw [hworker] at hset
  exact Ledger.ext haccepted hqueue (by simp [State.ledger, htaken, Ledger.take])
    (by simp [State.ledger, hhandled, Ledger.take]) hset

theorem ledger_lose {s t : State A} {i : Nat} {c c' : Context A} (hc : s.contexts[i]? = some c)
    (ht : t.contexts = s.contexts.set i c') (hworker : c'.pos.worker = .lost)
    (haccepted : t.accepted = s.accepted) (hqueue : t.queue = s.queue)
    (htaken : t.taken = s.taken) (hhandled : t.handled = s.handled) :
    t.ledger = s.ledger.lose i := by
  have hset := worker_set hc ht
  rw [hworker] at hset
  exact Ledger.ext haccepted hqueue (by simp [State.ledger, htaken, Ledger.lose])
    (by simp [State.ledger, hhandled, Ledger.lose]) hset

/-- What a context's step is to the ledger. -/
inductive LedgerMove (s : State A) (i : Nat) (c : Context A) (t : State A) : Prop
  | same (h : t.ledger = s.ledger) (htaken : t.taken = s.taken) (hhandled : t.handled = s.handled)
  | take {chan : Nat} {env : Envelope A} {rest : List (Envelope A)} (hpos : c.pos = .recv)
      (hrecv : c.receives chan = true) (hqueue : s.queue chan = env :: rest)
      (h : t.ledger = s.ledger.take i chan env rest) (hhandled : t.handled = s.handled)
  | finish {env : Envelope A} (reply : Option (Reply A)) (hhand : c.pos.hand = some env)
      (h : t.ledger = s.ledger.finish i env) (htaken : t.taken = s.taken)
      (hhandled : t.handled = s.handled ++ [⟨i, env, reply⟩])
  | lose (hassert : AtAssertion s c) (h : t.ledger = s.ledger.lose i) (htaken : t.taken = s.taken)
      (hhandled : t.handled = s.handled)

theorem afterPush_ledgerMove {s : State A} {i : Nat} {c : Context A} {env : Envelope A}
    {h : FutureHandler} {handlers : List FutureHandler} (hc : s.contexts[i]? = some c)
    (hhand : c.pos.hand = some env) :
    LedgerMove s i c ({ s with handlers := handlers }.afterPush i c env h) := by
  simp only [State.afterPush]
  split
  · exact .same (ledger_same hc rfl (worker_of_hand hhand).symm rfl rfl rfl rfl) rfl rfl
  · exact .finish none hhand (ledger_finish hc rfl rfl rfl rfl rfl rfl) rfl rfl

theorem ContextMove.ledgerMove {s t : State A} {i : Nat} {c : Context A} (h : ContextMove s i c t)
    (hc : s.contexts[i]? = some c) : LedgerMove s i c t := by
  cases h with
  | take hpos hrecv hqueue =>
    exact .take hpos hrecv hqueue (ledger_take hc rfl rfl rfl rfl rfl rfl) rfl
  | close hpos | reply hpos =>
    rw [sendReply_frame]
    refine .finish _ (by rw [hpos]; rfl) ?_ rfl rfl
    exact ledger_finish hc rfl rfl rfl rfl rfl rfl
  | static hpos | dynamic hpos =>
    rw [sendReplyTo_frame]
    refine .finish _ (by rw [hpos]; rfl) ?_ rfl rfl
    exact ledger_finish hc rfl rfl rfl rfl rfl rfl
  | closeRefused hpos | delayedLost hpos | remove hpos =>
    exact .finish _ (by rw [hpos]; rfl) (ledger_finish hc rfl rfl rfl rfl rfl rfl) rfl rfl
  | intervalRun hpos =>
    simp only [State.runInterval]
    split
    · exact .finish _ (by rw [hpos]; rfl) (ledger_finish hc rfl rfl rfl rfl rfl rfl) rfl rfl
    · exact .finish _ (by rw [hpos]; rfl) (ledger_finish hc rfl rfl rfl rfl rfl rfl) rfl rfl
  | register hpos hmsg =>
    by_cases hkey : s.nextKey < usizeMax
    · refine .same (ledger_same hc rfl ?_ rfl rfl rfl rfl) rfl rfl
      simp [hkey, hpos, Position.worker]
    · refine .lose (atAssertion_register hpos hmsg hkey) ?_ rfl rfl
      simp only [hkey, if_false]
      exact ledger_lose hc rfl rfl rfl rfl rfl rfl
  | insertPanic hpos hlock hperiod =>
    refine .lose (atAssertion_insert hpos hlock hperiod) ?_ rfl rfl
    exact ledger_lose hc rfl rfl rfl rfl rfl rfl
  | pushRefused hpos | pushExtend hpos =>
    exact afterPush_ledgerMove hc (by rw [hpos]; rfl)
  | build hpos | onStart hpos | incActive hpos | leave hpos | delayed hpos | lockRun hpos
  | insert hpos | pushCheck hpos | restart hpos | stop hpos | onStop hpos =>
    exact .same (ledger_same hc rfl (by rw [hpos]; rfl) rfl rfl rfl rfl) rfl rfl

theorem PanicMove.ledger_eq {s t : State A} {i : Nat} {c : Context A} (h : PanicMove s i c t)
    (hc : s.contexts[i]? = some c) : t.ledger = s.ledger.lose i := by
  cases h
  exact ledger_lose hc rfl rfl rfl rfl rfl rfl

/-- The message a task sends when its turn comes. -/
def Task.message : Task A → Option (ContextMessage A)
  | .send msg => some msg
  | .delayed _ msg _ => some (.instant msg)
  | .interval _ index _ _ => some (.interval (.run index))
  | .finished => none

/-- Somebody who holds a sender of channel `chan` sends `msg`. -/
inductive Sends (s t : State A) : Nat → ContextMessage A → Prop
  | task {k : Nat} {task : Task A} {msg : ContextMessage A} (hk : s.tasks[k]? = some task)
      (hmsg : task.message = some msg) (hholds : task.holdsSender = true)
      (hcalls : t.calls = s.calls) : Sends s t 0 msg
  | call {c : Nat} {call : Call A} {phase : CallPhase A} (hc : s.calls[c]? = some call)
      (hphase : call.phase = .sending)
      (hnext : phase = if call.req.awaitsReply then .waiting none else .done (.ok .unit))
      (hcalls : t.calls = s.calls.set c { call with phase := phase }) :
      Sends s t call.req.channel (call.req.message c)
  | item {st : Nat} {msg : A.Message} (hst : s.streams[st]? = some .next)
      (hcalls : t.calls = s.calls ++ [⟨none, .item st msg, .waiting none⟩]) :
      Sends s t 0 ((Request.item st msg).message s.calls.length)

inductive ChannelMove (s : State A) (act : Act A) (t : State A) : Prop
  | same (h : t.ledger = s.ledger) (hhandled : t.handled = s.handled) (hnext : t.nextId = s.nextId)
  | accept {chan : Nat} {msg : ContextMessage A} (hopen : s.receiver chan = true)
      (hsends : Sends s t chan msg) (hhandled : t.handled = s.handled)
      (hnext : t.nextId = s.nextId + 1) (h : t.ledger = s.ledger.accept chan ⟨s.nextId, msg⟩)
  | context {i chan : Nat} {await : A.Await} {c : Context A} (hact : act = .context i chan await)
      (hc : s.contexts[i]? = some c) (hmove : ContextMove s i c t) (h : LedgerMove s i c t)
      (hnext : t.nextId = s.nextId)
  | panic {i : Nat} {c : Context A} (hact : act = .panic i) (hc : s.contexts[i]? = some c)
      (hmove : PanicMove s i c t) (hhandled : t.handled = s.handled) (hnext : t.nextId = s.nextId)
      (h : t.ledger = s.ledger.lose i)

theorem sendShared_channelMove {s s' t : State A} {act : Act A} {k : Nat} {task : Task A}
    {msg : ContextMessage A} (hk : s.tasks[k]? = some task) (hmsg : task.message = some msg)
    (hholds : task.holdsSender = true) (hs' : s' = { s with cells := s'.cells })
    (ht : t = { s'.sendShared msg with tasks := t.tasks }) : ChannelMove s act t := by
  rw [hs'] at ht
  unfold State.sendShared at ht
  split at ht
  · rename_i hopen
    rw [ht]
    exact .accept hopen (.task hk hmsg hholds rfl) rfl rfl rfl
  · rw [ht]
    exact .same rfl rfl rfl

theorem TaskMove.channelMove {s u : State A} {act : Act A} {t : Nat} (h : TaskMove s t u) :
    ChannelMove s act u := by
  cases h with
  | send ht => exact sendShared_channelMove ht rfl rfl rfl rfl
  | delayedSend ht => exact sendShared_channelMove ht rfl rfl rfl rfl
  | intervalSend ht => exact sendShared_channelMove ht rfl rfl rfl rfl
  | _ => exact .same rfl rfl rfl

theorem RequestMove.channelMove {s t : State A} {act : Act A} {ract : RequestAct A}
    (h : RequestMove s ract t) : ChannelMove s act t := by
  cases h with
  | send hc hphase hopen => exact .accept hopen (.call hc hphase rfl rfl) rfl rfl rfl
  | item hst hopen => exact .accept hopen (.item hst rfl) rfl rfl rfl
  | @answer _ call | @canceled _ call =>
    obtain ⟨address, req, phase⟩ := call
    cases req <;> exact .same rfl rfl rfl
  | cancel =>
    rw [cancelHandler_frame]
    exact .same rfl rfl rfl
  | _ => exact .same rfl rfl rfl

theorem Moves.channelMove {s t : State A} {act : Act A} (h : Moves s act t) :
    ChannelMove s act t := by
  cases h with
  | address h =>
    rw [h.frame]
    exact .same rfl rfl rfl
  | request h => exact h.channelMove
  | poll h => exact h.channelMove
  | elapseDelayed | elapseInterval => exact .same rfl rfl rfl
  | context hc h =>
    refine .context rfl hc h (h.ledgerMove hc) ?_
    rw [h.frame]
  | panic hc h =>
    have hframe := h.frame
    refine .panic rfl hc h ?_ ?_ (h.ledger_eq hc)
    · rw [hframe]
    · rw [hframe]

/-- Messages are numbered in the order of their acceptance. -/
structure ChannelInv (s : State A) : Prop where
  ids : s.accepted.map (fun x => x.2.id) = List.range s.nextId
  sound : s.ledger.Sound

theorem LedgerMove.event {s t : State A} {i : Nat} {c : Context A} (h : LedgerMove s i c t)
    (hc : s.contexts[i]? = some c) : Ledger.Event s.ledger t.ledger := by
  cases h with
  | same h =>
    rw [h]
    exact .same
  | take hpos hrecv hqueue h =>
    rw [h]
    refine .take ?_ hqueue
    rw [ledger_worker hc, hpos]
    rfl
  | finish reply hhand h =>
    rw [h]
    refine .finish ?_
    rw [ledger_worker hc, worker_of_hand hhand]
  | lose hassert h =>
    rw [h]
    exact .lose

theorem LedgerMove.accepted_eq {s t : State A} {i : Nat} {c : Context A}
    (h : LedgerMove s i c t) : t.accepted = s.accepted := by
  cases h with
  | same h | take _ _ _ h | finish _ _ h | lose _ h => exact congrArg Ledger.accepted h

theorem ChannelMove.event {s t : State A} {act : Act A} (h : ChannelMove s act t)
    (hids : ∀ x ∈ s.accepted, x.2.id < s.nextId) : Ledger.Event s.ledger t.ledger := by
  cases h with
  | same h =>
    rw [h]
    exact .same
  | accept hopen hsends hhandled hnext h =>
    rw [h]
    refine .accept ?_
    intro x hx heq
    have hlt := hids x hx
    rw [heq] at hlt
    exact Nat.lt_irrefl _ hlt
  | context hact hc hmove h => exact h.event hc
  | panic hact hc hmove hhandled hnext h =>
    rw [h]
    exact .lose

theorem ChannelInv.lt_nextId {s : State A} (hs : ChannelInv s) {x : Nat × Envelope A}
    (hx : x ∈ s.accepted) : x.2.id < s.nextId := by
  have hmem : x.2.id ∈ s.accepted.map (fun x => x.2.id) := List.mem_map.mpr ⟨x, hx, rfl⟩
  rw [hs.ids] at hmem
  exact List.mem_range.mp hmem

theorem ChannelInv.step {s t : State A} {act : Act A} (h : step s act = some t)
    (hs : ChannelInv s) : ChannelInv t := by
  have hmove := (Moves.of_step h).channelMove
  refine ⟨?_, (hmove.event fun _ => hs.lt_nextId).sound hs.sound⟩
  cases hmove with
  | same h hhandled hnext =>
    rw [hnext, show t.accepted = s.accepted from congrArg Ledger.accepted h]
    exact hs.ids
  | accept hopen hsends hhandled hnext h =>
    rw [hnext, show t.accepted = s.accepted ++ _ from congrArg Ledger.accepted h, List.map_append,
      hs.ids, List.range_succ]
    rfl
  | context hact hc hmove h hnext =>
    rw [hnext, h.accepted_eq]
    exact hs.ids
  | panic hact hc hmove hhandled hnext h =>
    rw [hnext, show t.accepted = s.accepted from congrArg Ledger.accepted h]
    exact hs.ids

theorem Started.channelInv {cfg : Config} {build : Nat → A.State} {s : State A}
    (h : Started cfg build s) : ChannelInv s := by
  obtain ⟨w, rfl, hnew⟩ := h.exists_wiring
  have hledger : (w.finish cfg).ledger = Ledger.start := by
    refine Ledger.ext rfl rfl rfl rfl ?_
    funext i
    cases hi : w.contexts[i]? with
    | none => simp [State.ledger, Wiring.finish, hi, Ledger.start]
    | some c =>
      obtain ⟨_, _, _, pos, rfl, rfl | rfl⟩ := hnew c (List.mem_of_getElem? hi) <;>
        simp [State.ledger, Wiring.finish, hi, Ledger.start, Context.new, Position.worker]
  refine ⟨?_, hledger ▸ Ledger.start_sound⟩
  simp [Wiring.finish]

end ActixSend
