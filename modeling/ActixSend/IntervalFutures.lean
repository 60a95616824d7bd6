import ActixSend.Cancellation
import ActixSend.IntervalLock
import ActixSend.Transition.Slots

/-! # The interval futures of an actor set

A registration takes an index from one counter and puts its closure under that
index into a map. From then on the index travels: in the interval's task, in
the handlers of that task, and in the messages both send. Whoever names an
index has it from the registration, so the closure is in the map until a
message removes it.
-/

namespace ActixSend

open Function Transition
set_option autoImplicit false

variable {A : Actor}

/-- What the context's next action does with the interval futures when `key` is
the next index. -/
def Context.event (c : Context A) (key : Nat) (await : A.Await) : Option (SlotEvent A.Future) :=
  match c.pos with
  | .handle env =>
    match env.msg with
    | .interval (.register _ fut _) => some (.reserve key fut)
    | .interval (.remove index) => some (.remove index)
    | _ => none
  | .insert _ fut key => some (.insert key fut)
  | .intervalRun _ index => some (.modify index fun fut => (A.runFuture c.actor fut await).2.1)
  | _ => none

def State.event (s : State A) : Act A → Option (SlotEvent A.Future)
  | .context i _ await => s.contexts[i]?.bind fun c => c.event s.nextKey await
  | _ => none

def events (ms : List (Move (State A) (Act A))) : List (SlotEvent A.Future) :=
  ms.filterMap fun m => m.src.event m.act

/-- The move of context `i` is one run of `fut` under `index`, and nothing else. -/
structure RunsOnce (m : Move (State A) (Act A)) (i index : Nat) (c : Context A) (env : Envelope A)
    (fut : A.Future) (await : A.Await) : Prop where
  context : m.dst.contexts =
    m.src.contexts.set i { c with actor := (A.runFuture c.actor fut await).1, pos := .recv }
  futures : m.dst.futures = update m.src.futures index (some (A.runFuture c.actor fut await).2.1)
  handled : m.dst.handled =
    m.src.handled ++ [⟨i, env, some (.object (A.runFuture c.actor fut await).2.2)⟩]

/-- What holds of the interval futures in a run from `s`. -/
structure IntervalLaws (s : State A) (ms : List (Move (State A) (Act A))) : Prop where
  unique : ((reservations (events ms)).map Prod.fst).Nodup ∧ (insertedKeys (events ms)).Nodup
  vacant : ∀ ms₁ m ms₂, ms = ms₁ ++ m :: ms₂ → ∀ key fut,
    m.src.event m.act = some (.insert key fut) →
    (key, fut) ∈ reservations (events ms₁) ∧ m.src.futures key = none
  runs : ∀ ms₁ m ms₂, ms = ms₁ ++ m :: ms₂ → ∀ (i chan : Nat) (await : A.Await) (c : Context A)
    (env : Envelope A) (index : Nat), m.act = .context i chan await →
    m.src.contexts[i]? = some c → c.pos = .intervalRun env index →
    index ∉ removals (events ms₁) →
    env.msg = .interval (.run index) ∧
      ∃ fut₀ fut, (index, fut₀) ∈ insertions (events ms₁) ∧
        valueOf index (events ms₁) = some fut ∧ RunsOnce m i index c env fut await
  handled : ∀ ms₁ m ms₂, ms = ms₁ ++ m :: ms₂ → ∀ (x : Handled A) (index : Nat),
    m.dst.handled = m.src.handled ++ [x] → x.env.msg = .interval (.run index) →
    index ∉ removals (events ms₁) →
    ∃ (chan : Nat) (await : A.Await) (c : Context A) (fut₀ fut : A.Future),
      m.act = .context x.context chan await ∧ m.src.contexts[x.context]? = some c ∧
        (index, fut₀) ∈ insertions (events ms₁) ∧ valueOf index (events ms₁) = some fut ∧
        RunsOnce m x.context index c x.env fut await
  removed : ∀ ms₁ m ms₂, ms = ms₁ ++ m :: ms₂ → ∀ index,
    m.src.event m.act = some (.remove index) →
    ∀ u ∈ visited m.dst ms₂, ∀ i, ¬RunsClosure u i index
  exclusive : ∀ u ∈ visited s ms, ∀ i j index index',
    RunsClosure u i index → RunsClosure u j index' → i = j

def ContextMessage.index : ContextMessage A → Option Nat
  | .interval (.run index) => some index
  | .interval (.remove index) => some index
  | _ => none

def Position.index : Position A → Option Nat
  | .handle env => env.msg.index
  | .intervalRun _ index => some index
  | .pushCheck _ h => h.index
  | .pushExtend _ h => h.index
  | .reply _ _ h => h.index
  | _ => none

def Reply.index : Reply A → Option Nat
  | .handler h => h.index
  | _ => none

def CallPhase.index : CallPhase A → Option Nat
  | .waiting (some reply) => reply.index
  | .done (.ok (.handler h)) => h.index
  | _ => none

def AddressPhase.handlers : AddressPhase → List FutureHandler
  | .shutdown (.cancel rest) => rest
  | _ => []

inductive Names (s : State A) (index : Nat) : Prop
  | queue {chan : Nat} {env : Envelope A} (henv : env ∈ s.queue chan)
      (hindex : env.msg.index = some index) : Names s index
  | task {task : Task A} {msg : ContextMessage A} (htask : task ∈ s.tasks)
      (hmsg : task.message = some msg) (hindex : msg.index = some index) : Names s index
  | context {c : Context A} (hc : c ∈ s.contexts) (hindex : c.pos.index = some index) :
      Names s index
  | handler {h : FutureHandler} (hh : h ∈ s.handlers) (hindex : h.index = some index) :
      Names s index
  | address {addr : Address} {h : FutureHandler} (ha : addr ∈ s.addresses)
      (hh : h ∈ addr.phase.handlers) (hindex : h.index = some index) : Names s index
  | call {call : Call A} (hc : call ∈ s.calls) (hindex : call.phase.index = some index) :
      Names s index

theorem event_context {s : State A} {i : Nat} {c : Context A} (hc : s.contexts[i]? = some c)
    (chan : Nat) (await : A.Await) :
    s.event (.context i chan await) = c.event s.nextKey await := by
  simp only [State.event, hc, Option.bind_some]

theorem event_insert {s : State A} {i key : Nat} {c : Context A} {env : Envelope A}
    {fut : A.Future} (hc : s.contexts[i]? = some c) (hpos : c.pos = .insert env fut key)
    (chan : Nat) (await : A.Await) :
    s.event (.context i chan await) = some (.insert key fut) := by
  rw [event_context hc, Context.event, hpos]

theorem Request.message_index (req : Request A) (tx : Nat) : (req.message tx).index = none := by
  cases req <;> rfl

theorem CancelHeld.names {s : State A} {h : FutureHandler} {index : Nat} (hh : CancelHeld s h)
    (hindex : h.index = some index) : Names s index := by
  cases hh with
  | shutdown ha hphase hh => exact .address ha (by rw [hphase]; exact hh) hindex
  | caller hc hphase => exact .call hc (by rw [hphase]; exact hindex)

theorem Sends.names {s t : State A} {chan index : Nat} {msg : ContextMessage A}
    (h : Sends s t chan msg) (hindex : msg.index = some index) : Names s index := by
  cases h with
  | task hk hmsg => exact .task (List.mem_of_getElem? hk) hmsg hindex
  | call =>
    rw [Request.message_index] at hindex
    cases hindex
  | item =>
    rw [Request.message_index] at hindex
    cases hindex

theorem Spawned.names {s t : State A} {act : Act A} {task : Task A} {msg : ContextMessage A}
    {index : Nat} (h : Spawned s act t task) (hmsg : task.message = some msg)
    (hindex : msg.index = some index) :
    Names s index ∨ ∃ fut, s.event act = some (.insert index fut) := by
  cases h with
  | send | delayed =>
    cases hmsg
    cases hindex
  | removal hheld hh =>
    cases hmsg
    cases hindex
    exact .inl (hheld.names hh)
  | interval hact hc hpos =>
    cases hmsg
    cases hindex
    rw [hact]
    exact .inr ⟨_, event_insert hc hpos _ _⟩

theorem afterPush_index (s : State A) {i : Nat} {c : Context A} {env : Envelope A}
    {h : FutureHandler} : ∃ c', (s.afterPush i c env h).contexts = s.contexts.set i c' ∧
      (c'.pos.index = h.index ∨ c'.pos.index = none) := by
  simp only [State.afterPush]
  split
  · exact ⟨_, rfl, .inl rfl⟩
  · exact ⟨_, rfl, .inr rfl⟩

/-- What a context names after an action it has named before, or it has it from
a queue or from its own insertion. -/
theorem ContextMove.index_cases {s t : State A} {i : Nat} {c : Context A} (h : ContextMove s i c t)
    (hc : s.contexts[i]? = some c) : ∃ c', t.contexts = s.contexts.set i c' ∧
      ∀ index, c'.pos.index = some index →
        Names s index ∨ ∃ env fut, c.pos = Position.insert env fut index := by
  have hmem := List.mem_of_getElem? hc
  have hown : ∀ {pos : Position A} {index : Nat}, c.pos = pos → pos.index = some index →
      Names s index ∨ ∃ env fut, c.pos = Position.insert env fut index := by
    rintro pos index rfl hindex
    exact .inl (.context hmem hindex)
  cases h with
  | @take chan env rest hpos hrecv hqueue =>
    have henv : env ∈ s.queue chan := by
      rw [hqueue]
      exact List.mem_cons_self
    exact ⟨_, rfl, fun index hindex => .inl (.queue henv hindex)⟩
  | lockRun hpos hmsg =>
    refine ⟨_, rfl, fun index hindex => hown hpos ?_⟩
    cases hindex
    simp only [Position.index, hmsg, ContextMessage.index]
  | insert hpos =>
    refine ⟨_, rfl, fun index hindex => .inr ?_⟩
    cases hindex
    exact ⟨_, _, hpos⟩
  | register =>
    refine ⟨_, rfl, fun index hindex => ?_⟩
    simp only at hindex
    split at hindex <;> cases hindex
  | pushCheck hpos => exact ⟨_, rfl, fun index hindex => hown hpos hindex⟩
  | @pushRefused env h hpos =>
    obtain ⟨c', hset, hsame | hnone⟩ := afterPush_index s (i := i) (c := c) (h := h)
    · exact ⟨c', hset, fun index hindex => hown hpos (hsame.symm.trans hindex)⟩
    · exact ⟨c', hset, by simp [hnone]⟩
  | @pushExtend env h hpos =>
    obtain ⟨c', hset, hsame | hnone⟩ :=
      afterPush_index { s with handlers := s.handlers ++ [h] } (i := i) (c := c) (h := h)
    · exact ⟨c', hset, fun index hindex => hown hpos (hsame.symm.trans hindex)⟩
    · exact ⟨c', hset, by simp [hnone]⟩
  | close | reply =>
    rw [sendReply_frame]
    exact ⟨_, rfl, by simp [Position.index]⟩
  | static | dynamic =>
    rw [sendReplyTo_frame]
    exact ⟨_, rfl, by simp [Position.index]⟩
  | intervalRun =>
    simp only [State.runInterval]
    split <;> exact ⟨_, rfl, by simp [Position.index]⟩
  | build | onStart | incActive | leave | closeRefused | delayed | delayedLost | remove
  | insertPanic | restart | stop | onStop => exact ⟨_, rfl, by simp [Position.index]⟩

theorem ContextMove.handlers_cases {s t : State A} {i : Nat} {c : Context A}
    (h : ContextMove s i c t) : t.handlers = s.handlers ∨ ∃ env handler,
      c.pos = .pushExtend env handler ∧ t.handlers = s.handlers ++ [handler] := by
  cases h with
  | @pushExtend env handler hpos =>
    refine .inr ⟨env, handler, hpos, ?_⟩
    simp only [State.afterPush]
    split <;> rfl
  | pushRefused =>
    simp only [State.afterPush]
    split <;> exact .inl rfl
  | close | reply =>
    rw [sendReply_frame]
    exact .inl rfl
  | static | dynamic =>
    rw [sendReplyTo_frame]
    exact .inl rfl
  | intervalRun =>
    simp only [State.runInterval]
    split <;> exact .inl rfl
  | _ => exact .inl rfl

theorem sendReply_index {s : State A} {tx index : Nat} {reply : Reply A} {call : Call A}
    (hcall : call ∈ (s.sendReply tx reply).calls) (hindex : call.phase.index = some index) :
    call ∈ s.calls ∨ reply.index = some index := by
  rcases sendReply_calls s tx reply with hsame | ⟨call₀, _, _, hset⟩
  · rw [hsame] at hcall
    exact .inl hcall
  · rw [hset] at hcall
    rcases List.mem_or_eq_of_mem_set hcall with hcall | rfl
    · exact .inl hcall
    · exact .inr hindex

theorem ContextMove.call_index {s t : State A} {i index : Nat} {c : Context A}
    (h : ContextMove s i c t) {call : Call A} (hcall : call ∈ t.calls)
    (hindex : call.phase.index = some index) : call ∈ s.calls ∨ c.pos.index = some index := by
  cases h with
  | close =>
    rcases sendReply_index hcall hindex with hcall | hindex
    · exact .inl hcall
    · cases hindex
  | reply hpos =>
    rcases sendReply_index hcall hindex with hcall | hindex
    · exact .inl hcall
    · exact .inr (by rw [hpos]; exact hindex)
  | @static env tx | @dynamic env tx =>
    cases tx with
    | none => exact .inl hcall
    | some tx =>
      rcases sendReply_index hcall hindex with hcall | hindex
      · exact .inl hcall
      · cases hindex
  | pushRefused | pushExtend =>
    simp only [State.afterPush] at hcall
    split at hcall <;> exact .inl hcall
  | intervalRun =>
    simp only [State.runInterval] at hcall
    split at hcall <;> exact .inl hcall
  | _ => exact .inl hcall

theorem AddressMove.handlers_cases {s t : State A} {act : AddressAct} (h : AddressMove s act t)
    {addr : Address} (haddr : addr ∈ t.addresses) {handler : FutureHandler}
    (hh : handler ∈ addr.phase.handlers) :
    handler ∈ s.handlers ∨ ∃ addr ∈ s.addresses, handler ∈ addr.phase.handlers := by
  have hset : ∀ {a : Nat} {new : Address}, addr ∈ s.addresses.set a new →
      (handler ∈ new.phase.handlers →
        handler ∈ s.handlers ∨ ∃ addr ∈ s.addresses, handler ∈ addr.phase.handlers) →
      handler ∈ s.handlers ∨ ∃ addr ∈ s.addresses, handler ∈ addr.phase.handlers := by
    intro a new haddr hnew
    rcases List.mem_or_eq_of_mem_set haddr with haddr | rfl
    · exact .inr ⟨addr, haddr, hh⟩
    · exact hnew hh
  cases h with
  | clone ha =>
    rcases List.mem_append.mp haddr with haddr | haddr
    · exact .inr ⟨addr, haddr, hh⟩
    · obtain rfl := List.mem_singleton.mp haddr
      exact .inr ⟨addr, List.mem_of_getElem? ha, hh⟩
  | drop =>
    refine hset haddr fun hnew => ?_
    simp only at hnew
    split at hnew <;> cases hnew
  | marker | unlock | release => exact hset haddr nofun
  | lock => exact hset haddr .inl
  | cancel ha hpos =>
    rw [cancelHandler_frame] at haddr
    refine hset haddr fun hnew => .inr ⟨_, List.mem_of_getElem? ha, ?_⟩
    rw [hpos]
    exact List.mem_cons_of_mem _ hnew
  | upgradeReturn =>
    rcases List.mem_append.mp haddr with haddr | haddr
    · exact .inr ⟨addr, haddr, hh⟩
    · obtain rfl := List.mem_singleton.mp haddr
      cases hh
  | downgrade | upgradeSender | upgradeCount | upgradePanic => exact .inr ⟨addr, haddr, hh⟩

theorem Request.answer_index {req : Request A} {reply : Reply A} {index : Nat}
    (h : (CallPhase.done (req.answer reply)).index = some index) : reply.index = some index := by
  cases req with
  | send | entry | item =>
    cases reply with
    | result r =>
      simp only [Request.answer, Outcome.ofMap] at h
      split at h <;> cases h
    | _ => cases h
  | run =>
    cases reply with
    | object o =>
      simp only [Request.answer] at h
      split at h <;> cases h
    | _ => cases h
  | runInterval =>
    cases reply with
    | handler handler => exact h
    | _ => cases h
  | closeOne => cases reply <;> cases h
  | sendLater | runLater => cases reply <;> cases h

theorem RequestMove.call_index {s t : State A} {act : RequestAct A} (h : RequestMove s act t)
    {call : Call A} (hcall : call ∈ t.calls) {index : Nat}
    (hindex : call.phase.index = some index) :
    ∃ call ∈ s.calls, call.phase.index = some index := by
  obtain ⟨tx, htx⟩ := List.getElem?_of_mem hcall
  cases h.callOrigin htx with
  | new _ hphase =>
    rw [hphase] at hindex
    cases hindex
  | item _ _ hphase =>
    rcases hphase with hphase | hphase <;> rw [hphase] at hindex <;> cases hindex
  | old hold hturn =>
    have hmem := List.mem_of_getElem? hold
    cases hturn with
    | keep => exact ⟨call, hmem, hindex⟩
    | send =>
      simp only at hindex
      split at hindex <;> cases hindex
    | answered hphase hanswers =>
      obtain ⟨_, _, _, _, _, hhandled⟩ := hanswers.hand
      rw [h.frame] at hhandled
      simp at hhandled
    | receive _ hphase =>
      refine ⟨_, hmem, ?_⟩
      rw [hphase]
      exact Request.answer_index hindex
    | refuse | timeout | canceled | abandon => cases hindex

theorem Moves.task_names {s t : State A} {act : Act A} (h : Moves s act t) {task : Task A}
    {msg : ContextMessage A} {index : Nat} (htask : task ∈ t.tasks)
    (hmsg : task.message = some msg) (hindex : msg.index = some index) :
    Names s index ∨ ∃ fut, s.event act = some (.insert index fut) := by
  rcases h.tasks_cases with ⟨new, htasks, hnew⟩ | ⟨k, before, after, hk, htasks, hafter⟩
  · rw [htasks] at htask
    rcases List.mem_append.mp htask with htask | htask
    · exact .inl (.task htask hmsg hindex)
    · exact (hnew _ htask).names hmsg hindex
  · rw [htasks] at htask
    rcases List.mem_or_eq_of_mem_set htask with htask | rfl
    · exact .inl (.task htask hmsg hindex)
    · rcases hafter with ⟨_, rfl⟩ | ⟨_, hsame⟩
      · cases hmsg
      · exact .inl (.task (List.mem_of_getElem? hk) (hsame.symm.trans hmsg) hindex)

theorem Moves.context_names {s t : State A} {act : Act A} (h : Moves s act t) {c : Context A}
    {index : Nat} (hc : c ∈ t.contexts) (hindex : c.pos.index = some index) :
    Names s index ∨ ∃ fut, s.event act = some (.insert index fut) := by
  cases h with
  | address h | request h | poll h =>
    rw [h.frame] at hc
    exact .inl (.context hc hindex)
  | elapseDelayed | elapseInterval => exact .inl (.context hc hindex)
  | context hc₀ h =>
    obtain ⟨c', hset, hcases⟩ := h.index_cases hc₀
    rw [hset] at hc
    rcases List.mem_or_eq_of_mem_set hc with hc | rfl
    · exact .inl (.context hc hindex)
    · rcases hcases index hindex with hnames | ⟨env, fut, hpos⟩
      · exact .inl hnames
      · exact .inr ⟨fut, event_insert hc₀ hpos _ _⟩
  | panic hc₀ h =>
    cases h
    rcases List.mem_or_eq_of_mem_set hc with hc | rfl
    · exact .inl (.context hc hindex)
    · cases hindex

theorem Moves.handler_names {s t : State A} {act : Act A} (h : Moves s act t)
    {handler : FutureHandler} {index : Nat} (hh : handler ∈ t.handlers)
    (hindex : handler.index = some index) : Names s index := by
  cases h with
  | address h | request h | poll h =>
    rw [h.frame] at hh
    exact .handler hh hindex
  | elapseDelayed | elapseInterval => exact .handler hh hindex
  | context hc h =>
    rcases h.handlers_cases with hsame | ⟨env, handler, hpos, hset⟩
    · rw [hsame] at hh
      exact .handler hh hindex
    · rw [hset] at hh
      rcases List.mem_append.mp hh with hh | hh
      · exact .handler hh hindex
      · obtain rfl := List.mem_singleton.mp hh
        exact .context (List.mem_of_getElem? hc) (by rw [hpos]; exact hindex)
  | panic hc h =>
    rw [h.frame] at hh
    exact .handler hh hindex

theorem Moves.address_names {s t : State A} {act : Act A} (h : Moves s act t) {addr : Address}
    {handler : FutureHandler} {index : Nat} (ha : addr ∈ t.addresses)
    (hh : handler ∈ addr.phase.handlers) (hindex : handler.index = some index) :
    Names s index := by
  cases h with
  | address h =>
    rcases h.handlers_cases ha hh with hh | ⟨addr, ha, hh⟩
    · exact .handler hh hindex
    · exact .address ha hh hindex
  | request h | poll h =>
    rw [h.frame] at ha
    exact .address ha hh hindex
  | elapseDelayed | elapseInterval => exact .address ha hh hindex
  | context _ h =>
    rw [h.frame] at ha
    exact .address ha hh hindex
  | panic _ h =>
    rw [h.frame] at ha
    exact .address ha hh hindex

theorem Moves.call_names {s t : State A} {act : Act A} (h : Moves s act t) {call : Call A}
    {index : Nat} (hc : call ∈ t.calls) (hindex : call.phase.index = some index) :
    Names s index := by
  cases h with
  | address h =>
    rw [h.frame] at hc
    exact .call hc hindex
  | request h =>
    obtain ⟨call, hc, hindex⟩ := h.call_index hc hindex
    exact .call hc hindex
  | poll h =>
    rw [h.frame] at hc
    exact .call hc hindex
  | elapseDelayed | elapseInterval => exact .call hc hindex
  | context hc₀ h =>
    rcases h.call_index hc hindex with hc | hpos
    · exact .call hc hindex
    · exact .context (List.mem_of_getElem? hc₀) hpos
  | panic _ h =>
    rw [h.frame] at hc
    exact .call hc hindex

theorem Moves.names {s t : State A} {act : Act A} (h : Moves s act t) {index : Nat}
    (hn : Names t index) : Names s index ∨ ∃ fut, s.event act = some (.insert index fut) := by
  cases hn with
  | queue henv hindex =>
    rcases h.channelMove.queue_cases henv with henv | ⟨_, msg, hsends, rfl⟩
    · exact .inl (.queue henv hindex)
    · exact .inl (hsends.names hindex)
  | task htask hmsg hindex => exact h.task_names htask hmsg hindex
  | context hc hindex => exact h.context_names hc hindex
  | handler hh hindex => exact .inl (h.handler_names hh hindex)
  | address ha hh hindex => exact .inl (h.address_names ha hh hindex)
  | call hc hindex => exact .inl (h.call_names hc hindex)

def InsertsAt (s : State A) (i key : Nat) (fut : A.Future) : Prop :=
  ∃ (c : Context A) (env : Envelope A), s.contexts[i]? = some c ∧ c.pos = .insert env fut key

inductive IntervalMove (s : State A) (act : Act A) (t : State A) : Prop
  | quiet (hevent : s.event act = none) (hkey : t.nextKey = s.nextKey)
      (hfutures : t.futures = s.futures)
      (hinserts : ∀ j key fut, InsertsAt t j key fut → InsertsAt s j key fut)
  | register {i : Nat} {fut : A.Future} (hevent : s.event act = some (.reserve s.nextKey fut))
      (hkey : t.nextKey = (s.nextKey + 1) % 2 ^ 64) (hfutures : t.futures = s.futures)
      (hinserts : ∀ j key fut', InsertsAt t j key fut' →
        InsertsAt s j key fut' ∧ j ≠ i ∨ j = i ∧ key = s.nextKey ∧ fut' = fut)
  | insert {i key : Nat} {fut : A.Future} (hat : InsertsAt s i key fut)
      (hevent : s.event act = some (.insert key fut)) (hkey : t.nextKey = s.nextKey)
      (hfutures : t.futures = update s.futures key (some fut))
      (hinserts : ∀ j key fut, InsertsAt t j key fut → InsertsAt s j key fut ∧ j ≠ i)
  | remove {index : Nat} (hnames : Names s index) (hevent : s.event act = some (.remove index))
      (hkey : t.nextKey = s.nextKey) (hfutures : t.futures = update s.futures index none)
      (hinserts : ∀ j key fut, InsertsAt t j key fut → InsertsAt s j key fut)
  | run {index : Nat} {actor : A.State} {await : A.Await} (hnames : Names s index)
      (hevent : s.event act =
        some (.modify index fun fut => (A.runFuture actor fut await).2.1))
      (hkey : t.nextKey = s.nextKey)
      (hfutures : t.futures = update s.futures index
        ((s.futures index).map fun fut => (A.runFuture actor fut await).2.1))
      (hinserts : ∀ j key fut, InsertsAt t j key fut → InsertsAt s j key fut)

theorem insertsAt_same {s t : State A} (h : t.contexts = s.contexts) (j key : Nat)
    (fut : A.Future) (hat : InsertsAt t j key fut) : InsertsAt s j key fut := by
  obtain ⟨c, env, hc, hpos⟩ := hat
  exact ⟨c, env, h ▸ hc, hpos⟩

theorem insertsAt_set {s t : State A} {i : Nat} {c' : Context A}
    (h : t.contexts = s.contexts.set i c') (hpos' : ∀ env fut key, c'.pos ≠ .insert env fut key)
    (j key : Nat) (fut : A.Future) (hat : InsertsAt t j key fut) :
    InsertsAt s j key fut ∧ j ≠ i := by
  obtain ⟨c, env, hc, hpos⟩ := hat
  rw [h] at hc
  rcases getElem?_set_cases hc with ⟨_, rfl⟩ | ⟨hne, hc⟩
  · exact absurd hpos (hpos' env fut key)
  · exact ⟨⟨c, env, hc, hpos⟩, hne⟩

theorem insertsAt_of_set {s t : State A} {i : Nat} {c' : Context A}
    (h : t.contexts = s.contexts.set i c') (hpos' : ∀ env fut key, c'.pos ≠ .insert env fut key)
    (j key : Nat) (fut : A.Future) (hat : InsertsAt t j key fut) : InsertsAt s j key fut :=
  (insertsAt_set h hpos' j key fut hat).1

theorem intervalMove_quiet {s t : State A} {i chan : Nat} {await : A.Await} {c c' : Context A}
    (hc : s.contexts[i]? = some c) (hevent : c.event s.nextKey await = none)
    (hset : t.contexts = s.contexts.set i c') (hpos' : ∀ env fut key, c'.pos ≠ .insert env fut key)
    (hkey : t.nextKey = s.nextKey) (hfutures : t.futures = s.futures) :
    IntervalMove s (.context i chan await) t :=
  .quiet ((event_context hc chan await).trans hevent) hkey hfutures (insertsAt_of_set hset hpos')

theorem insertsAt_register {s t : State A} {i : Nat} {c : Context A} {env : Envelope A}
    {fut : A.Future} (hset : t.contexts = s.contexts.set i
      { c with pos := if s.nextKey < usizeMax then .insert env fut s.nextKey else .panicked })
    (j key : Nat) (fut' : A.Future) (hat : InsertsAt t j key fut') :
    InsertsAt s j key fut' ∧ j ≠ i ∨ j = i ∧ key = s.nextKey ∧ fut' = fut := by
  obtain ⟨c', env', hc', hpos'⟩ := hat
  rw [hset] at hc'
  rcases getElem?_set_cases hc' with ⟨rfl, rfl⟩ | ⟨hne, hc'⟩
  · refine .inr ⟨rfl, ?_⟩
    simp only at hpos'
    split at hpos' <;> cases hpos'
    exact ⟨rfl, rfl⟩
  · exact .inl ⟨⟨c', env', hc', hpos'⟩, hne⟩

theorem IntervalMove.of_run {s : State A} {i chan index : Nat} {await : A.Await} {c : Context A}
    {env : Envelope A} (hc : s.contexts[i]? = some c) (hpos : c.pos = .intervalRun env index) :
    IntervalMove s (.context i chan await) (s.runInterval i c env index await) := by
  have hevent : c.event s.nextKey await =
      some (.modify index fun fut => (A.runFuture c.actor fut await).2.1) := by
    simp only [Context.event, hpos]
  refine .run (.context (List.mem_of_getElem? hc) (by rw [hpos]; rfl))
    ((event_context hc chan await).trans hevent) ?_ ?_ ?_
  · simp only [State.runInterval]
    split <;> rfl
  · simp only [State.runInterval]
    split
    · rename_i fut hfut
      simp only [State.finish, State.setContext, hfut, Option.map_some]
    · rename_i hnone
      simp only [State.finish, State.setContext, hnone, Option.map_none]
      exact (update_eq_self_iff.mpr hnone.symm).symm
  · have hset : ∃ c', (s.runInterval i c env index await).contexts = s.contexts.set i c' ∧
        ∀ env fut key, c'.pos ≠ .insert env fut key := by
      simp only [State.runInterval]
      split <;> exact ⟨_, rfl, by simp⟩
    obtain ⟨c', hset, hpos'⟩ := hset
    exact insertsAt_of_set hset hpos'

theorem IntervalMove.of_context {s t : State A} {i chan : Nat} {await : A.Await} {c : Context A}
    (hc : s.contexts[i]? = some c) (h : ContextMove s i c t)
    (hstep : step s (.context i chan await) = some t) :
    IntervalMove s (.context i chan await) t := by
  have hevent := event_context hc chan await
  cases h with
  | register hpos hmsg =>
    exact .register (hevent.trans (by simp only [Context.event, hpos, hmsg])) rfl rfl
      (insertsAt_register rfl)
  | insert hpos | insertPanic hpos =>
    exact .insert ⟨c, _, hc, hpos⟩ (hevent.trans (by simp only [Context.event, hpos])) rfl rfl
      (insertsAt_set rfl (by simp))
  | @remove env index hpos hmsg =>
    have hindex : c.pos.index = some index := by
      simp only [hpos, Position.index, hmsg, ContextMessage.index]
    exact .remove (.context (List.mem_of_getElem? hc) hindex)
      (hevent.trans (by simp only [Context.event, hpos, hmsg])) rfl rfl
      (insertsAt_of_set rfl (by simp))
  | intervalRun hpos =>
    simp only [step, State.contextStep, hc, hpos, Option.some.injEq] at hstep
    rw [← hstep]
    exact .of_run hc hpos
  | static hpos hmsg | dynamic hpos hmsg =>
    rw [sendReplyTo_frame]
    exact intervalMove_quiet hc (by simp only [Context.event, hpos, hmsg]) rfl (by simp) rfl rfl
  | close hpos hmsg =>
    rw [sendReply_frame]
    exact intervalMove_quiet hc (by simp only [Context.event, hpos, hmsg]) rfl (by simp) rfl rfl
  | reply hpos =>
    rw [sendReply_frame]
    exact intervalMove_quiet hc (by simp only [Context.event, hpos]) rfl (by simp) rfl rfl
  | closeRefused hpos hmsg | delayed hpos hmsg | delayedLost hpos hmsg | lockRun hpos hmsg =>
    exact intervalMove_quiet hc (by simp only [Context.event, hpos, hmsg]) rfl (by simp) rfl rfl
  | pushRefused hpos | pushExtend hpos =>
    have hnone : c.event s.nextKey await = none := by simp only [Context.event, hpos]
    simp only [State.afterPush]
    split <;> exact intervalMove_quiet hc hnone rfl (by simp) rfl rfl
  | build hpos | onStart hpos | incActive hpos | take hpos | leave hpos | pushCheck hpos
  | restart hpos | stop hpos | onStop hpos =>
    exact intervalMove_quiet hc (by simp only [Context.event, hpos]) rfl (by simp) rfl rfl

theorem IntervalMove.of_step {s t : State A} {act : Act A} (h : step s act = some t) :
    IntervalMove s act t := by
  cases Moves.of_step h with
  | address h | request h | poll h =>
    rw [h.frame]
    exact .quiet rfl rfl rfl (insertsAt_same rfl)
  | elapseDelayed | elapseInterval => exact .quiet rfl rfl rfl (insertsAt_same rfl)
  | context hc hmove => exact .of_context hc hmove h
  | panic hc h =>
    cases h
    exact .quiet rfl rfl rfl (insertsAt_of_set rfl nofun)

/-- The map is the store of the events, and an index is named or about to be
inserted only as they say. -/
structure FuturesInv (s : State A) (es : List (SlotEvent A.Future)) : Prop where
  legal : Legal es
  counter : s.nextKey = (reservations es).length
  contents : s.futures = contents es
  names : ∀ index, Names s index → index ∈ insertedKeys es
  pending : ∀ i key fut, InsertsAt s i key fut →
    (key, fut) ∈ reservations es ∧ key ∉ insertedKeys es
  apart : ∀ i j key fut fut', InsertsAt s i key fut → InsertsAt s j key fut' → i = j

theorem FuturesInv.kept {s t : State A} {act : Act A} {es es' : List (SlotEvent A.Future)}
    (h : step s act = some t) (hs : FuturesInv s es) (hlegal : Legal es')
    (hreserved : reservations es' = reservations es)
    (hinserted : insertedKeys es' = insertedKeys es)
    (hnone : ∀ key fut, s.event act ≠ some (.insert key fut)) (hkey : t.nextKey = s.nextKey)
    (hfutures : t.futures = Transition.contents es')
    (hinserts : ∀ j key fut, InsertsAt t j key fut → InsertsAt s j key fut) :
    FuturesInv t es' := by
  refine ⟨hlegal, ?_, hfutures, ?_, ?_, ?_⟩
  · rw [hkey, hs.counter, hreserved]
  · intro index hn
    rw [hinserted]
    rcases (Moves.of_step h).names hn with hn | ⟨fut, hinsert⟩
    · exact hs.names index hn
    · exact absurd hinsert (hnone index fut)
  · intro i key fut hat
    rw [hreserved, hinserted]
    exact hs.pending i key fut (hinserts i key fut hat)
  · intro i j key fut fut' hi hj
    exact hs.apart i j key fut fut' (hinserts i key fut hi) (hinserts j key fut' hj)

theorem FuturesInv.register {s t : State A} {act : Act A} {es : List (SlotEvent A.Future)}
    {i : Nat} {fut : A.Future} (h : step s act = some t) (hs : FuturesInv s es)
    (hevent : s.event act = some (.reserve s.nextKey fut)) (hkey : t.nextKey = s.nextKey + 1)
    (hfutures : t.futures = s.futures)
    (hinserts : ∀ j key fut', InsertsAt t j key fut' →
      InsertsAt s j key fut' ∧ j ≠ i ∨ j = i ∧ key = s.nextKey ∧ fut' = fut) :
    FuturesInv t (es ++ [.reserve s.nextKey fut]) := by
  have hinserted : insertedKeys (es ++ [.reserve s.nextKey fut]) = insertedKeys es := by
    simp [insertedKeys_concat, SlotEvent.inserted]
  have hreserved : reservations (es ++ [.reserve s.nextKey fut]) =
      reservations es ++ [(s.nextKey, fut)] := reservations_concat es _
  have hfresh : ∀ j fut', ¬InsertsAt s j s.nextKey fut' := by
    intro j fut' hat
    have hlt := hs.legal.key_lt (hs.pending j _ fut' hat).1
    have hcounter := hs.counter
    omega
  refine ⟨hs.legal.snoc hs.counter, ?_, ?_, ?_, ?_, ?_⟩
  · rw [hkey, hreserved, hs.counter, List.length_append, List.length_singleton]
  · rw [contents_concat, ← hs.contents]
    exact hfutures
  · intro index hn
    rw [hinserted]
    rcases (Moves.of_step h).names hn with hn | ⟨_, hinsert⟩
    · exact hs.names index hn
    · rw [hevent] at hinsert
      cases hinsert
  · intro j key fut' hat
    rw [hreserved, hinserted, List.mem_append]
    rcases hinserts j key fut' hat with ⟨hat, _⟩ | ⟨_, rfl, rfl⟩
    · obtain ⟨hmem, hvacant⟩ := hs.pending j key fut' hat
      exact ⟨.inl hmem, hvacant⟩
    · refine ⟨.inr (List.mem_singleton.mpr rfl), fun hmem => ?_⟩
      have hlt := hs.legal.insertedKeys_lt _ hmem
      have hcounter := hs.counter
      omega
  · intro j k key fut₁ fut₂ hj hk
    rcases hinserts j key fut₁ hj with ⟨hj, _⟩ | ⟨rfl, rfl, rfl⟩
    · rcases hinserts k key fut₂ hk with ⟨hk, _⟩ | ⟨_, rfl, _⟩
      · exact hs.apart j k key fut₁ fut₂ hj hk
      · exact absurd hj (hfresh j fut₁)
    · rcases hinserts k _ fut₂ hk with ⟨hk, _⟩ | ⟨rfl, _⟩
      · exact absurd hk (hfresh k fut₂)
      · rfl

theorem FuturesInv.insert {s t : State A} {act : Act A} {es : List (SlotEvent A.Future)}
    {i key : Nat} {fut : A.Future} (h : step s act = some t) (hs : FuturesInv s es)
    (hat : InsertsAt s i key fut) (hevent : s.event act = some (.insert key fut))
    (hkey : t.nextKey = s.nextKey) (hfutures : t.futures = update s.futures key (some fut))
    (hinserts : ∀ j key fut, InsertsAt t j key fut → InsertsAt s j key fut ∧ j ≠ i) :
    FuturesInv t (es ++ [.insert key fut]) := by
  have hinserted : insertedKeys (es ++ [.insert key fut]) = insertedKeys es ++ [key] :=
    insertedKeys_concat es _
  have hreserved : reservations (es ++ [.insert key fut]) = reservations es := by
    simp [reservations_concat, SlotEvent.reserved]
  refine ⟨hs.legal.snoc (hs.pending i key fut hat), ?_, ?_, ?_, ?_, ?_⟩
  · rw [hkey, hreserved, hs.counter]
  · rw [contents_concat, ← hs.contents]
    exact hfutures
  · intro index hn
    rw [hinserted, List.mem_append]
    rcases (Moves.of_step h).names hn with hn | ⟨_, hinsert⟩
    · exact .inl (hs.names index hn)
    · rw [hevent] at hinsert
      cases hinsert
      exact .inr (List.mem_singleton.mpr rfl)
  · intro j key' fut' hj
    obtain ⟨hj, hne⟩ := hinserts j key' fut' hj
    obtain ⟨hmem, hvacant⟩ := hs.pending j key' fut' hj
    rw [hreserved, hinserted, List.mem_append, List.mem_singleton]
    refine ⟨hmem, ?_⟩
    rintro (hmem | rfl)
    · exact hvacant hmem
    · exact hne (hs.apart j i key' fut' fut hj hat)
  · intro j k key' fut₁ fut₂ hj hk
    exact hs.apart j k key' fut₁ fut₂ (hinserts j key' fut₁ hj).1 (hinserts k key' fut₂ hk).1

theorem FuturesInv.step {s t : State A} {act : Act A} {es : List (SlotEvent A.Future)}
    (h : step s act = some t) (hs : FuturesInv s es)
    (hbound : (reservations (es ++ (s.event act).toList)).length < usizeMax) :
    FuturesInv t (es ++ (s.event act).toList) := by
  cases IntervalMove.of_step h with
  | quiet hevent hkey hfutures hinserts =>
    rw [hevent, Option.toList_none, List.append_nil]
    exact hs.kept h hs.legal rfl rfl (by simp [hevent]) hkey (hfutures.trans hs.contents) hinserts
  | register hevent hkey hfutures hinserts =>
    rw [hevent, Option.toList_some] at hbound ⊢
    rw [reservations_concat, List.length_append, ← hs.counter] at hbound
    have hlt : s.nextKey + 1 < 2 ^ 64 := by
      rw [SlotEvent.reserved, Option.toList_some, List.length_singleton, usizeMax] at hbound
      omega
    exact hs.register h hevent (hkey.trans (Nat.mod_eq_of_lt hlt)) hfutures hinserts
  | insert hat hevent hkey hfutures hinserts =>
    rw [hevent, Option.toList_some]
    exact hs.insert h hat hevent hkey hfutures hinserts
  | @remove index hn hevent hkey hfutures hinserts =>
    rw [hevent, Option.toList_some]
    refine hs.kept h (hs.legal.snoc (hs.names _ hn)) ?_ ?_ (by simp [hevent]) hkey ?_ hinserts
    · simp [reservations_concat, SlotEvent.reserved]
    · simp [insertedKeys_concat, SlotEvent.inserted]
    · rw [contents_concat, ← hs.contents]
      exact hfutures
  | run hn hevent hkey hfutures hinserts =>
    rw [hevent, Option.toList_some]
    refine hs.kept h (hs.legal.snoc (hs.names _ hn)) ?_ ?_ (by simp [hevent]) hkey ?_ hinserts
    · simp [reservations_concat, SlotEvent.reserved]
    · simp [insertedKeys_concat, SlotEvent.inserted]
    · rw [contents_concat, ← hs.contents]
      exact hfutures

theorem Started.futuresInv {cfg : Config} {build : Nat → A.State} {s : State A}
    (h : Started cfg build s) : FuturesInv s [] := by
  obtain ⟨w, rfl, hnew⟩ := h.exists_wiring
  have hinserts : ∀ i key fut, ¬InsertsAt (w.finish cfg) i key fut := by
    rintro i key fut ⟨c, env, hc, hpos⟩
    obtain ⟨_, _, _, _, rfl, rfl | rfl⟩ := hnew c (List.mem_of_getElem? hc) <;> cases hpos
  refine ⟨.nil, rfl, rfl, ?_, ?_, ?_⟩
  · intro index hn
    cases hn with
    | queue henv | task henv | handler henv | call henv => cases henv
    | context hc hindex =>
      obtain ⟨_, _, _, _, rfl, rfl | rfl⟩ := hnew _ hc <;> cases hindex
    | address ha hh =>
      obtain rfl := List.mem_singleton.mp ha
      cases hh
  · exact fun i key fut hat => absurd hat (hinserts i key fut)
  · exact fun i j key fut fut' hat => absurd hat (hinserts i key fut)

theorem events_append (ms ns : List (Move (State A) (Act A))) :
    events (ms ++ ns) = events ms ++ events ns := List.filterMap_append

theorem events_concat (ms : List (Move (State A) (Act A))) (m : Move (State A) (Act A)) :
    events (ms ++ [m]) = events ms ++ (m.src.event m.act).toList := by
  rw [events_append, events, events, List.filterMap_cons, List.filterMap_nil]
  split <;> simp [*]

section Runs
variable {cfg : Config} {build : Nat → A.State} {s t : State A} {ms : List (Move (State A) (Act A))}

theorem futuresInv_of_path (hstart : Started cfg build s) (h : Path step s ms t)
    (hbound : (reservations (events ms)).length < usizeMax) : FuturesInv t (events ms) := by
  induction h with
  | nil => exact hstart.futuresInv
  | @snoc ms u v act _ hstep ih =>
    rw [events_concat] at hbound ⊢
    exact (ih ((reservations_append_length_le _ _).trans_lt hbound)).step hstep hbound

theorem insertsAt_of_event {act : Act A} {key : Nat} {fut : A.Future} (h : step s act = some t)
    (hevent : s.event act = some (.insert key fut)) : ∃ i, InsertsAt s i key fut := by
  cases IntervalMove.of_step h with
  | insert hat hevent' =>
    rw [hevent] at hevent'
    cases hevent'
    exact ⟨_, hat⟩
  | quiet hevent' | register hevent' | remove _ hevent' | run _ hevent' =>
    rw [hevent] at hevent'
    cases hevent'

theorem runsOnce_of_step {i chan index : Nat} {await : A.Await} {c : Context A}
    {env : Envelope A} {fut : A.Future} (h : step s (.context i chan await) = some t)
    (hc : s.contexts[i]? = some c) (hpos : c.pos = .intervalRun env index)
    (hfut : s.futures index = some fut) :
    RunsOnce ⟨s, .context i chan await, t⟩ i index c env fut await := by
  simp only [step, State.contextStep, hc, hpos, State.runInterval, hfut, Option.some.injEq] at h
  subst h
  exact ⟨rfl, rfl, rfl⟩

theorem inserted_runs {es : List (SlotEvent A.Future)} (hs : FuturesInv s es)
    {i chan index : Nat} {await : A.Await} {c : Context A} {env : Envelope A} (hfits : c.pos.Fits)
    (h : step s (.context i chan await) = some t) (hc : s.contexts[i]? = some c)
    (hpos : c.pos = .intervalRun env index) (hkept : index ∉ removals es) :
    env.msg = .interval (.run index) ∧
      ∃ fut₀ fut, (index, fut₀) ∈ insertions es ∧ valueOf index es = some fut ∧
        RunsOnce ⟨s, .context i chan await, t⟩ i index c env fut await := by
  have hinserted := hs.names index (.context (List.mem_of_getElem? hc) (by rw [hpos]; rfl))
  obtain ⟨⟨_, fut₀⟩, hfut₀, rfl⟩ := List.mem_map.mp hinserted
  obtain ⟨fut, hvalue, hfut⟩ := hs.legal.exists_entry hinserted hkept
  rw [← hs.contents] at hfut
  rw [hpos] at hfits
  exact ⟨hfits, fut₀, fut, hfut₀, hvalue, runsOnce_of_step h hc hpos hfut⟩

theorem afterPush_handled {i : Nat} {c : Context A} {env : Envelope A} {h : FutureHandler}
    {x : Handled A} (hx : (s.afterPush i c env h).handled = s.handled ++ [x]) : x.env = env := by
  simp only [State.afterPush] at hx
  split at hx
  · exact absurd (show s.handled = s.handled ++ [x] from hx) (by simp)
  · obtain rfl := List.singleton_inj.mp (List.append_cancel_left hx)
    rfl

theorem ContextMove.run_position {i index : Nat} {c : Context A} {x : Handled A}
    (h : ContextMove s i c t) (hfits : c.pos.Fits) (hx : t.handled = s.handled ++ [x])
    (hmsg : x.env.msg = .interval (.run index)) :
    x.context = i ∧ c.pos = .intervalRun x.env index := by
  have hlast : ∀ {y : Handled A}, s.handled ++ [y] = s.handled ++ [x] → y = x := fun heq =>
    List.singleton_inj.mp (List.append_cancel_left heq)
  have hnone : s.handled ≠ s.handled ++ [x] := by simp
  cases h with
  | close hpos hmsg' =>
    rw [sendReply_frame] at hx
    obtain rfl := hlast hx
    cases hmsg'.symm.trans hmsg
  | static hpos hmsg' | dynamic hpos hmsg' =>
    rw [sendReplyTo_frame] at hx
    obtain rfl := hlast hx
    cases hmsg'.symm.trans hmsg
  | closeRefused hpos hmsg' | delayedLost hpos hmsg' | remove hpos hmsg' =>
    obtain rfl := hlast hx
    cases hmsg'.symm.trans hmsg
  | reply hpos =>
    rw [sendReply_frame] at hx
    obtain rfl := hlast hx
    rw [hpos] at hfits
    obtain ⟨fut, dur, hregister⟩ := hfits
    cases hregister.symm.trans hmsg
  | pushRefused hpos | pushExtend hpos =>
    obtain rfl := afterPush_handled hx
    rw [hpos] at hfits
    rcases hfits with ⟨_, hother⟩ | ⟨_, _, _, hother⟩ <;> cases hother.symm.trans hmsg
  | @intervalRun env index' await hpos =>
    rw [hpos] at hfits ⊢
    simp only [State.runInterval] at hx
    split at hx
    all_goals
      obtain rfl := hlast hx
      cases hfits.symm.trans hmsg
      exact ⟨rfl, rfl⟩
  | build | onStart | incActive | take | leave | delayed | register | lockRun | insert
  | insertPanic | pushCheck | restart | stop | onStop => exact absurd hx hnone

theorem interval_laws (hstart : Started cfg build s) (h : Path step s ms t)
    (hbound : (reservations (events ms)).length < usizeMax) : IntervalLaws s ms := by
  have hfutures : ∀ {ps qs : List (Move (State A) (Act A))} {u : State A}, ms = ps ++ qs →
      Path step s ps u → FuturesInv u (events ps) := by
    rintro ps qs u rfl hpath
    rw [events_append] at hbound
    exact futuresInv_of_path hstart hpath ((reservations_append_length_le _ _).trans_lt hbound)
  have hguard : ∀ {ps : List (Move (State A) (Act A))} {u : State A}, Path step s ps u →
      GuardInv u :=
    fun hpath => hpath.invariant hstart.guardInv fun _ _ _ hstep hu => hu.step hstep
  have hlegal := (futuresInv_of_path hstart h hbound).legal
  refine ⟨⟨hlegal.reservations_nodup, hlegal.insertedKeys_nodup⟩, ?_, ?_, ?_, ?_, ?_⟩
  · rintro ms₁ m ms₂ rfl key fut hevent
    obtain ⟨u, hpre, hpost⟩ := h.exists_between
    obtain ⟨rfl, hstep, _⟩ := hpost.first
    have hinv := hfutures rfl hpre
    obtain ⟨i, hat⟩ := insertsAt_of_event hstep hevent
    obtain ⟨hreserved, hvacant⟩ := hinv.pending i key fut hat
    refine ⟨hreserved, ?_⟩
    rw [hinv.contents]
    exact hinv.legal.vacant hvacant
  · rintro ms₁ m ms₂ rfl i chan await c env index hact hc hpos hkept
    obtain ⟨u, hpre, hpost⟩ := h.exists_between
    obtain ⟨rfl, hstep, _⟩ := hpost.first
    obtain ⟨src, act, dst⟩ := m
    obtain rfl : act = .context i chan await := hact
    have hfits := (hguard hpre).oneshot.request.fits c (List.mem_of_getElem? hc)
    exact inserted_runs (hfutures rfl hpre) hfits hstep hc hpos hkept
  · rintro ms₁ m ms₂ rfl x index hsnoc hmsg hkept
    obtain ⟨u, hpre, hpost⟩ := h.exists_between
    obtain ⟨rfl, hstep, _⟩ := hpost.first
    obtain ⟨src, act, dst⟩ := m
    rcases (Moves.of_step hstep).handled_cases with
      hsame | ⟨i, chan, await, c, rfl, hc, hmove, _⟩
    · rw [hsame] at hsnoc
      simp at hsnoc
    · have hfits := (hguard hpre).oneshot.request.fits c (List.mem_of_getElem? hc)
      obtain ⟨rfl, hpos⟩ := hmove.run_position hfits hsnoc hmsg
      obtain ⟨_, fut₀, fut, hfut₀, hvalue, hruns⟩ :=
        inserted_runs (hfutures rfl hpre) hfits hstep hc hpos hkept
      exact ⟨chan, await, c, fut₀, fut, rfl, hc, hfut₀, hvalue, hruns⟩
  · rintro ms₁ m ms₂ rfl index hevent u hu i ⟨c, env, hc, hpos, hsome⟩
    obtain ⟨v, hpre, hpost⟩ := h.exists_between
    obtain ⟨rfl, hstep, hrest⟩ := hpost.first
    obtain ⟨ps, qs, rfl, hps, _⟩ := hrest.exists_split_at hu
    have heq : ms₁ ++ m :: (ps ++ qs) = (ms₁ ++ m :: ps) ++ qs := by simp
    have hinv := hfutures heq (hpre.trans (hps.cons hstep))
    have hremoved : index ∈ removals (events (ms₁ ++ m :: ps)) := by
      refine List.mem_filterMap.mpr ⟨.remove index, ?_, rfl⟩
      exact List.mem_filterMap.mpr ⟨m, by simp, hevent⟩
    rw [hinv.contents, hinv.legal.removed hremoved] at hsome
    cases hsome
  · intro u hu i j index index' hi hj
    obtain ⟨ps, _, _, hps, _⟩ := h.exists_split_at hu
    obtain ⟨ci, envi, hci, hposi, _⟩ := hi
    obtain ⟨cj, envj, hcj, hposj, _⟩ := hj
    have hheldi := (hguard hps).held i ⟨ci, envi, index, hci, hposi⟩
    have hheldj := (hguard hps).held j ⟨cj, envj, index', hcj, hposj⟩
    exact Option.some.inj (hheldi.symm.trans hheldj)

theorem reservations_length_le (ms : List (Move (State A) (Act A))) :
    (reservations (events ms)).length ≤ ms.length :=
  (List.length_filterMap_le _ _).trans (List.length_filterMap_le _ _)

/-- The first interval has run once, and the second one has been inserted. -/
theorem interval_laws_two : ∃ ms t, Path step (echoStart { Config.default with num := 2 }) ms t ∧
    (∃ x ∈ t.handled, x.env.msg = .interval (.run 0)) ∧ t.futuresLock = none ∧
    (t.futures 0).isSome = true ∧ (t.futures 1).isSome = true ∧
    IntervalLaws (echoStart { Config.default with num := 2 }) ms := by
  obtain ⟨ms, t, hpath, hacts, _, hq⟩ := exists_path_of_checkedRun step
    (echoStart { Config.default with num := 2 })
    (closureActs ++ [.context 0 0 (), .context 1 0 ()]) (fun _ _ _ => true)
    (fun u => (u.handled.any fun x => x.env.msg.runs 0) &&
      (u.futuresLock == none && ((u.futures 0).isSome && (u.futures 1).isSome))) (by decide)
  rw [Bool.and_eq_true, Bool.and_eq_true, Bool.and_eq_true, beq_iff_eq] at hq
  have hran : ∃ x ∈ t.handled, x.env.msg = .interval (.run 0) := by
    obtain ⟨x, hx, hrun⟩ := List.any_eq_true.mp hq.1
    exact ⟨x, hx, ContextMessage.eq_run hrun⟩
  have hlength : ms.length = 23 := by
    rw [← List.length_map (f := Move.act), hacts]
    rfl
  have hle := reservations_length_le ms
  refine ⟨ms, t, hpath, hran, hq.2.1, hq.2.2.1, hq.2.2.2, interval_laws .start hpath ?_⟩
  rw [hlength] at hle
  exact hle.trans_lt (by decide)

end Runs

end ActixSend
