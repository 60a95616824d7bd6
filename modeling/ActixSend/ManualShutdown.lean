import ActixSend.Winddown

/-! # Contexts closed one at a time

A `ManualShutDown` is taken by one context, which acknowledges it to a caller
that still waits and then leaves its loop for good: the flag it sets keeps it
from restarting. So every acknowledgement is another context's.
-/

namespace ActixSend

open Transition
set_option autoImplicit false

variable {A : Actor}

/-- The handling of a `ManualShutDown` ends the loop of the context at index `i`. -/
structure Stops (m : Move (State A) (Act A)) (i tx : Nat) (env : Envelope A) : Prop where
  act : ∃ chan await, m.act = .context i chan await
  hand : ∃ c : Context A, m.src.contexts[i]? = some c ∧ c.pos = .handle env
  msg : env.msg = .manualShutDown tx
  left : ∃ c : Context A, m.dst.contexts[i]? = some c ∧ c.pos = .decActive

def Act.isOf (i : Nat) : Act A → Bool
  | .context j _ _ => j == i
  | .panic j => j == i
  | _ => false

/-- The move runs `on_stop` of the context at index `i`, to its end or to a panic. -/
def runsOnStop (i : Nat) (m : Move (State A) (Act A)) : Bool :=
  m.act.isOf i && m.src.contexts[i]?.any fun c => c.pos matches .onStop

/-- The reply went to a caller that was waiting for it. -/
def Acknowledged (m : Move (State A) (Act A)) (i tx : Nat) : Prop :=
  ∃ (call : Call A) (c : Context A), m.src.calls[tx]? = some call ∧ call.phase = .waiting none ∧
    m.src.contexts[i]? = some c ∧
    m.dst.calls[tx]? = some { call with phase := .waiting (some (.contextState c.id c.generation)) }

def State.handledBy (s : State A) (i : Nat) : List (Handled A) :=
  s.handled.filter fun h => h.context == i

def State.takenBy (s : State A) (i : Nat) : List (Taken A) :=
  s.taken.filter fun x => x.context == i

/-- From `s` on the context at index `i` only stops: it takes and handles no
message, does not start again, and has two steps left, `on_stop` the last. -/
structure StopsForGood (s : State A) (i : Nat) (ms : List (Move (State A) (Act A)))
    (t : State A) : Prop where
  taken : t.takenBy i = s.takenBy i
  handled : t.handledBy i = s.handledBy i
  kept : ∃ c c' : Context A, s.contexts[i]? = some c ∧ t.contexts[i]? = some c' ∧
    c'.generation = c.generation ∧ c'.starts = c.starts ∧
    ms.countP (fun m => m.act.isOf i) + c'.pos.rank = 2 ∧
    (c'.pos.gone = true ∨ ∀ chan await, ∃ v, step t (.context i chan await) = some v)

structure CloseLaws (num : Nat) (ms : List (Move (State A) (Act A))) (t : State A) : Prop where
  once : ∀ ps m qs n i tx env j tx' env', ms = ps ++ m :: qs → n ∈ qs → Stops m i tx env →
    Stops n j tx' env' → env'.id ≠ env.id
  acknowledged : ∀ m ∈ ms, ∀ i tx env, Stops m i tx env → Acknowledged m i tx
  distinct : ∀ (tx tx' : Nat) (call call' : Call A) (id generation id' generation' : Nat),
    t.calls[tx]? = some call → t.calls[tx']? = some call' →
    call.phase = .done (.ok (.contextState id generation)) →
    call'.phase = .done (.ok (.contextState id' generation')) → tx ≠ tx' → id ≠ id'
  below : ∀ call ∈ t.calls, ∀ id generation,
    call.phase = .done (.ok (.contextState id generation)) → id < num
  forGood : ∀ ps m qs i tx env, ms = ps ++ m :: qs → Stops m i tx env →
    StopsForGood m.dst i qs t
  onStop : ∀ m ∈ ms, ∀ i tx env, Stops m i tx env → ∀ c : Context A, t.contexts[i]? = some c →
    ms.countP (runsOnStop i) = if c.pos.gone then 1 else 0

theorem ContextMove.taken_cases {s t : State A} {i : Nat} {c : Context A}
    (h : ContextMove s i c t) : t.taken = s.taken ∨
      ∃ chan env, c.pos = .recv ∧ t.taken = s.taken ++ [⟨i, chan, env⟩] := by
  cases h with
  | take hpos => exact .inr ⟨_, _, hpos, rfl⟩
  | close | reply =>
    rw [sendReply_frame]
    exact .inl rfl
  | static | dynamic =>
    rw [sendReplyTo_frame]
    exact .inl rfl
  | pushRefused | pushExtend =>
    simp only [State.afterPush]
    split <;> exact .inl rfl
  | intervalRun =>
    simp only [State.runInterval]
    split <;> exact .inl rfl
  | _ => exact .inl rfl

theorem ContextMove.handled_cases {s t : State A} {i : Nat} {c : Context A}
    (h : ContextMove s i c t) (hc : s.contexts[i]? = some c) : t.handled = s.handled ∨
      ∃ env reply, c.pos.hand = some env ∧ t.handled = s.handled ++ [⟨i, env, reply⟩] := by
  cases h.ledgerMove hc with
  | same _ _ hhandled | take _ _ _ _ hhandled | lose _ _ _ hhandled => exact .inl hhandled
  | finish reply hhand _ _ hhandled => exact .inr ⟨_, reply, hhand, hhandled⟩

structure Closing (s : State A) (i : Nat) (c : Context A) (env : Envelope A) (tx : Nat)
    (t : State A) : Prop where
  hand : c.pos = .handle env
  msg : env.msg = .manualShutDown tx
  isOpen : s.oneShotOpen tx = true
  contexts : t.contexts = s.contexts.set i { c with manualShutdown := true, pos := .decActive }
  calls : t.calls = (s.sendReply tx (.contextState c.id c.generation)).calls
  handled : t.handled = s.handled ++ [⟨i, env, some (.contextState c.id c.generation)⟩]

/-- No other action replies so, sets the flag or ends the loop with a message in hand. -/
structure Ordinary (s : State A) (i : Nat) (c : Context A) (t : State A) : Prop where
  context : ∃ c' : Context A, t.contexts = s.contexts.set i c' ∧
    c'.manualShutdown = c.manualShutdown ∧ (c'.pos = .decActive → c.pos = .recv)
  handled : t.handled = s.handled ∨ ∃ entry, t.handled = s.handled ++ [entry] ∧
    ∀ id generation, entry.reply ≠ some (.contextState id generation)

theorem afterPush_ordinary {s : State A} {i : Nat} {c : Context A} {env : Envelope A}
    {h : FutureHandler} {handlers : List FutureHandler} :
    Ordinary s i c ({ s with handlers := handlers }.afterPush i c env h) := by
  simp only [State.afterPush]
  split
  · exact ⟨⟨_, rfl, rfl, by simp⟩, .inl rfl⟩
  · exact ⟨⟨_, rfl, rfl, by simp⟩, .inr ⟨_, rfl, by simp⟩⟩

theorem ContextMove.close_cases {s t : State A} {i : Nat} {c : Context A}
    (h : ContextMove s i c t) : (∃ env tx, Closing s i c env tx t) ∨ Ordinary s i c t := by
  cases h with
  | @close env tx hpos hmsg hopen =>
    refine .inl ⟨env, tx, hpos, hmsg, hopen, ?_, rfl, ?_⟩
    · rw [sendReply_frame]
      rfl
    · rw [sendReply_frame]
      rfl
  | static | dynamic =>
    rw [sendReplyTo_frame]
    exact .inr ⟨⟨_, rfl, rfl, by simp⟩, .inr ⟨_, rfl, by simp⟩⟩
  | reply =>
    rw [sendReply_frame]
    exact .inr ⟨⟨_, rfl, rfl, by simp⟩, .inr ⟨_, rfl, by simp⟩⟩
  | closeRefused | delayedLost | remove =>
    exact .inr ⟨⟨_, rfl, rfl, by simp⟩, .inr ⟨_, rfl, by simp⟩⟩
  | pushRefused | pushExtend => exact .inr afterPush_ordinary
  | intervalRun =>
    simp only [State.runInterval]
    split <;> exact .inr ⟨⟨_, rfl, rfl, by simp⟩, .inr ⟨_, rfl, by simp⟩⟩
  | register =>
    refine .inr ⟨⟨_, rfl, rfl, fun hpos => ?_⟩, .inl rfl⟩
    simp only at hpos
    split at hpos <;> cases hpos
  | leave hpos => exact .inr ⟨⟨_, rfl, rfl, fun _ => hpos⟩, .inl rfl⟩
  | build | onStart | incActive | take | delayed | lockRun | insert | insertPanic | pushCheck
  | restart | stop | onStop => exact .inr ⟨⟨_, rfl, rfl, by simp⟩, .inl rfl⟩

/-- Only the acknowledgement of a close ends the loop with a message in hand. -/
theorem Stops.closing {m : Move (State A) (Act A)} {i tx : Nat} {env : Envelope A}
    (h : Stops m i tx env) (hstep : step m.src m.act = some m.dst) :
    ∃ c, m.src.contexts[i]? = some c ∧ Closing m.src i c env tx m.dst := by
  obtain ⟨chan, await, hact⟩ := h.act
  obtain ⟨c, hc, hpos⟩ := h.hand
  obtain ⟨c', hc', hpos'⟩ := h.left
  rw [hact] at hstep
  obtain ⟨c₁, hc₁, hmove⟩ := ContextMove.of_step hstep
  obtain rfl := Option.some.inj (hc.symm.trans hc₁)
  refine ⟨c, hc, ?_⟩
  rcases hmove.close_cases with ⟨env', tx', hclosing⟩ | hordinary
  · have hhand := hclosing.hand
    rw [hpos] at hhand
    cases hhand
    have hmsg := hclosing.msg
    rw [h.msg] at hmsg
    cases hmsg
    exact hclosing
  · obtain ⟨c'', hset, _, hrecv⟩ := hordinary.context
    rw [hset, getElem?_set_self_of hc] at hc'
    cases hc'
    rw [hrecv hpos'] at hpos
    cases hpos

theorem Closing.acknowledged {m : Move (State A) (Act A)} {i tx : Nat} {c : Context A}
    {env : Envelope A} (h : Closing m.src i c env tx m.dst) (hc : m.src.contexts[i]? = some c) :
    Acknowledged m i tx := by
  have hopen := h.isOpen
  rw [State.oneShotOpen] at hopen
  split at hopen
  · cases hopen
  · rename_i call hcall
    split at hopen
    · rename_i hphase
      refine ⟨call, c, hcall, hphase, hc, ?_⟩
      rw [h.calls, State.sendReply, hcall]
      simp only [hphase, State.setCall]
      rw [getElem?_set_self_of hcall]
    · cases hopen

def Position.over : Position A → Bool
  | .decActive => true
  | .onStop => true
  | pos => pos.gone

def Apart (h h' : Handled A) : Prop :=
  ∀ id generation id' generation', h.reply = some (.contextState id generation) →
    h'.reply = some (.contextState id' generation') → h.context ≠ h'.context

instance : Std.Symm (Apart (A := A)) :=
  ⟨fun _ _ h id generation id' generation' hreply hreply' =>
    (h id' generation' id generation hreply' hreply).symm⟩

/-- A closed context stays closed, and each acknowledgement closed another one. -/
structure CloseInv (s : State A) : Prop where
  oneshot : OneshotInv s
  answer : AnswerInv s
  ids : s.contexts.map Context.id = List.range s.cfg.num
  behind : ∀ c ∈ s.contexts, c.manualShutdown = true → c.pos.over = true
  closed : ∀ h ∈ s.handled, ∀ id generation, h.reply = some (.contextState id generation) →
    ∃ c : Context A, s.contexts[h.context]? = some c ∧ c.manualShutdown = true ∧ c.id = id
  once : s.handled.Pairwise Apart

theorem Turn.closed {s : State A} {c c' : Context A} (h : Turn s c c')
    (hmanual : c.manualShutdown = true) (hover : c.pos.over = true) :
    c.pos = .decActive ∧ c' = { c with pos := .onStop } ∨
      c.pos = .onStop ∧ c' = { c with pos := .stopped, stops := c.stops + 1 } := by
  have hhand : ∀ env, c.pos.hand ≠ some env := by
    intro env hhand
    cases hpos : c.pos <;> simp_all [Position.over, Position.gone, Position.hand]
  cases h with
  | build hpos | onStart hpos | incActive hpos | take hpos | leave hpos =>
    rw [hpos] at hover
    cases hover
  | close hpos => exact absurd (by rw [hpos]; rfl) (hhand _)
  | hold hhand' | finish hhand' => exact absurd hhand' (hhand _)
  | lose hassert =>
    obtain ⟨env, hhand', _⟩ := hassert.exists_hand
    exact absurd hhand' (hhand env)
  | restart _ _ _ hmanual' =>
    rw [hmanual] at hmanual'
    cases hmanual'
  | stop hpos => exact .inl ⟨hpos, rfl⟩
  | onStop hpos => exact .inr ⟨hpos, rfl⟩

structure Context.Persists (c c' : Context A) : Prop where
  id : c'.id = c.id
  manual : c.manualShutdown = true → c'.manualShutdown = true
  behind : (c.manualShutdown = true → c.pos.over = true) →
    c'.manualShutdown = true → c'.pos.over = true

theorem Turn.persists {s : State A} {c c' : Context A} (h : Turn s c c') : c.Persists c' := by
  have hover : (c.manualShutdown = true → c.pos.over = true) → c.manualShutdown = true →
      c'.pos.over = true := by
    intro hc hmanual
    rcases h.closed hmanual (hc hmanual) with ⟨_, rfl⟩ | ⟨_, rfl⟩ <;> rfl
  cases h with
  | close => exact ⟨rfl, fun _ => rfl, fun _ _ => rfl⟩
  | _ => exact ⟨rfl, fun hmanual => hmanual, hover⟩

theorem Moves.persists {s t : State A} {act : Act A} (h : Moves s act t) {k : Nat}
    {c : Context A} (hc : s.contexts[k]? = some c) :
    ∃ c' : Context A, t.contexts[k]? = some c' ∧ c.Persists c' := by
  rcases h.contexts_cases with hsame |
    ⟨i, ci, c', hci, _, hset, _, _, ⟨_, _, _, hctx⟩ | ⟨_, hpanic⟩⟩
  · exact ⟨c, by rwa [hsame], rfl, fun hmanual => hmanual, fun hover => hover⟩
  · obtain ⟨c'', hset', hturn⟩ := hctx.turn
    by_cases hki : k = i
    · subst hki
      obtain rfl := Option.some.inj (hc.symm.trans hci)
      exact ⟨c'', by rw [hset', getElem?_set_self_of hc], hturn.persists⟩
    · exact ⟨c, by rwa [hset', List.getElem?_set_ne (Ne.symm hki)], rfl,
        fun hmanual => hmanual, fun hover => hover⟩
  · cases hpanic
    by_cases hki : k = i
    · subst hki
      obtain rfl := Option.some.inj (hc.symm.trans hci)
      exact ⟨_, getElem?_set_self_of hc, rfl, fun hmanual => hmanual, fun _ _ => rfl⟩
    · exact ⟨c, by rwa [State.setContext, List.getElem?_set_ne (Ne.symm hki)], rfl,
        fun hmanual => hmanual, fun hover => hover⟩

theorem Moves.length_contexts {s t : State A} {act : Act A} (h : Moves s act t) :
    t.contexts.length = s.contexts.length := by
  rcases h.contexts_cases with hsame | ⟨_, _, _, _, _, hset, _⟩
  · rw [hsame]
  · rw [hset, List.length_set]

theorem Moves.ids {s t : State A} {act : Act A} (h : Moves s act t) :
    t.contexts.map Context.id = s.contexts.map Context.id := by
  apply List.ext_getElem?
  intro k
  rw [List.getElem?_map, List.getElem?_map]
  cases hc : s.contexts[k]? with
  | none =>
    have hlen : t.contexts[k]? = none := by
      rw [List.getElem?_eq_none_iff] at hc ⊢
      rwa [h.length_contexts]
    rw [hlen]
  | some c =>
    obtain ⟨c', hc', hid, _⟩ := h.persists hc
    rw [hc', Option.map_some, Option.map_some, hid]

def HasClosed (s : State A) (h : Handled A) : Prop :=
  ∀ id generation, h.reply = some (.contextState id generation) →
    ∃ c : Context A, s.contexts[h.context]? = some c ∧ c.manualShutdown = true ∧ c.id = id

theorem CloseInv.still_closed {s t : State A} {act : Act A} (hs : CloseInv s)
    (h : Moves s act t) {x : Handled A} (hx : x ∈ s.handled) : HasClosed t x := by
  intro id generation hreply
  obtain ⟨c, hc, hmanual, hid⟩ := hs.closed x hx id generation hreply
  obtain ⟨c', hc', hpersists⟩ := h.persists hc
  exact ⟨c', hc', hpersists.manual hmanual, hpersists.id.trans hid⟩

theorem CloseInv.still_behind {s t : State A} {act : Act A} (hs : CloseInv s)
    (h : Moves s act t) {c' : Context A} (hc' : c' ∈ t.contexts)
    (hmanual : c'.manualShutdown = true) : c'.pos.over = true := by
  obtain ⟨k, hk⟩ := List.mem_iff_getElem?.mp hc'
  obtain ⟨hlt, _⟩ := List.getElem?_eq_some_iff.mp hk
  rw [h.length_contexts] at hlt
  have hc : s.contexts[k]? = some s.contexts[k] := List.getElem?_eq_getElem hlt
  obtain ⟨c'', hc'', hpersists⟩ := h.persists hc
  obtain rfl := Option.some.inj (hk.symm.trans hc'')
  exact hpersists.behind (hs.behind _ (List.mem_of_getElem? hc)) hmanual

theorem CloseInv.apart_closing {s t : State A} (hs : CloseInv s) {i tx : Nat} {c : Context A}
    {env : Envelope A} (hc : s.contexts[i]? = some c) (hclosing : Closing s i c env tx t)
    {x : Handled A} (hx : x ∈ s.handled) (reply : Option (Reply A)) : Apart x ⟨i, env, reply⟩ := by
  intro id generation id' generation' hreply _ hcontext
  obtain ⟨c', hc', hmanual, _⟩ := hs.closed x hx id generation hreply
  rw [hcontext] at hc'
  obtain rfl := Option.some.inj (hc.symm.trans hc')
  have hloop := hs.behind c (List.mem_of_getElem? hc) hmanual
  rw [hclosing.hand] at hloop
  cases hloop

theorem CloseInv.record {s t : State A} {act : Act A} (hs : CloseInv s) (h : Moves s act t)
    {entry : Handled A} (hsnoc : t.handled = s.handled ++ [entry]) (hclosed : HasClosed t entry)
    (hapart : ∀ x ∈ s.handled, Apart x entry) :
    (∀ x ∈ t.handled, HasClosed t x) ∧ t.handled.Pairwise Apart := by
  rw [hsnoc]
  constructor
  · intro x hx
    rcases List.mem_append.mp hx with hx | hx
    · exact hs.still_closed h hx
    · rwa [List.mem_singleton.mp hx]
  · refine List.pairwise_append.mpr ⟨hs.once, List.pairwise_singleton _ _, fun x hx y hy => ?_⟩
    rw [List.mem_singleton.mp hy]
    exact hapart x hx

theorem CloseInv.records {s t : State A} {act : Act A} (hs : CloseInv s) (h : Moves s act t) :
    (∀ x ∈ t.handled, HasClosed t x) ∧ t.handled.Pairwise Apart := by
  rcases h.handled_cases with hsame | ⟨i, chan, await, c, rfl, hc, hctx, _⟩
  · rw [hsame]
    exact ⟨fun x hx => hs.still_closed h hx, hs.once⟩
  · rcases hctx.close_cases with ⟨env, tx, hclosing⟩ | hordinary
    · refine hs.record h hclosing.handled ?_ fun x hx => hs.apart_closing hc hclosing hx _
      rintro id generation ⟨⟩
      refine ⟨{ c with manualShutdown := true, pos := .decActive }, ?_, rfl, rfl⟩
      rw [hclosing.contexts]
      exact getElem?_set_self_of hc
    · rcases hordinary.handled with hsame | ⟨entry, hsnoc, hreply⟩
      · rw [hsame]
        exact ⟨fun x hx => hs.still_closed h hx, hs.once⟩
      · refine hs.record h hsnoc ?_ fun x _ => ?_
        · exact fun id generation hentry => absurd hentry (hreply id generation)
        · exact fun _ _ id' generation' _ hentry => absurd hentry (hreply id' generation')

theorem CloseInv.step {s t : State A} {act : Act A} (h : step s act = some t)
    (hs : CloseInv s) : CloseInv t := by
  have hmove := Moves.of_step h
  obtain ⟨hclosed, honce⟩ := hs.records hmove
  refine ⟨hs.oneshot.step h, hs.answer.step h hs.oneshot, ?_, fun c hc => hs.still_behind hmove hc,
    hclosed, honce⟩
  rw [hmove.ids, hmove.cfg_eq, hs.ids]

theorem Started.ids {cfg : Config} {build : Nat → A.State} {s : State A}
    (h : Started cfg build s) : s.contexts.map Context.id = List.range cfg.num := by
  cases h with
  | start =>
    rw [start_eq]
    exact (finish_fullyWired cfg build .onStart).ids
  | startWithArbiters h =>
    unfold Builder.startWithArbiters at h
    split at h
    · rename_i hnum
      split at h
      · cases h
        rw [hnum]
        rfl
      · cases h
    · simp only at h
      split at h
      · cases h
        exact (finish_fullyWired cfg build .build).ids
      · cases h

theorem Started.closeInv {cfg : Config} {build : Nat → A.State} {s : State A}
    (h : Started cfg build s) : CloseInv s := by
  have honeshot := h.oneshotInv
  have hanswer := h.answerInv
  have hids := h.ids
  obtain ⟨w, rfl, hnew⟩ := h.exists_wiring
  refine ⟨honeshot, hanswer, hids, ?_, by simp [Wiring.finish], by simp [Wiring.finish]⟩
  intro c hc hmanual
  obtain ⟨_, _, _, pos, rfl, _⟩ := hnew c hc
  cases hmanual

theorem CloseInv.index {s : State A} (hs : CloseInv s) {k : Nat} {c : Context A}
    (hc : s.contexts[k]? = some c) : c.id = k ∧ k < s.cfg.num := by
  have hid : (s.contexts.map Context.id)[k]? = some c.id := by
    rw [List.getElem?_map, hc]
    rfl
  rw [hs.ids] at hid
  obtain ⟨hlt, heq⟩ := List.getElem?_eq_some_iff.mp hid
  rw [List.getElem_range] at heq
  exact ⟨heq.symm, by simpa using hlt⟩

theorem answer_contextState {req : Request A} {r : Reply A} {id generation : Nat}
    (h : req.answer r = .ok (.contextState id generation)) :
    req = .closeOne ∧ r = .contextState id generation := by
  have hofMap : ∀ res : Option (Except ActixSendError A.Output),
      (Outcome.ofMap res : Outcome A) ≠ .ok (.contextState id generation) := by
    intro res
    rcases res with _ | (_ | _) <;> nofun
  cases req with
  | send | entry | item =>
    cases r with
    | result => exact absurd h (hofMap _)
    | object | contextState | handler => cases h
  | run =>
    cases r with
    | object =>
      simp only [Request.answer] at h
      split at h <;> cases h
    | result | contextState | handler => cases h
  | closeOne =>
    cases r with
    | contextState =>
      cases h
      exact ⟨rfl, rfl⟩
    | result | object | handler => cases h
  | runInterval => cases r <;> cases h
  | sendLater | runLater => cases r <;> cases h

theorem CloseInv.of_result {s : State A} (hs : CloseInv s) {tx : Nat} {call : Call A}
    {id generation : Nat} (hcall : s.calls[tx]? = some call)
    (hphase : call.phase = .done (.ok (.contextState id generation))) :
    ∃ h ∈ s.handled, h.env.msg = .manualShutDown tx ∧
      h.reply = some (.contextState id generation) ∧ h.context = id ∧ id < s.cfg.num := by
  have hresolved := hs.answer.resolved tx call hcall
  simp only [Resolved, hphase] at hresolved
  rcases hresolved with ⟨h, hh, hmsg, r, hreply, hout⟩ | ⟨_, hout⟩ | ⟨e, hout⟩
  · obtain ⟨hreq, rfl⟩ := answer_contextState hout.symm
    obtain ⟨c, hc, _, hid⟩ := hs.closed h hh id generation hreply
    obtain ⟨hindex, hlt⟩ := hs.index hc
    rw [← hid, hindex]
    rw [hreq] at hmsg
    exact ⟨h, hh, hmsg, by rw [hreply, ← hid, hindex], rfl, hlt⟩
  · cases hout
  · cases hout

theorem CloseInv.distinct {s : State A} (hs : CloseInv s) {h h' : Handled A}
    {id generation id' generation' : Nat} (hh : h ∈ s.handled) (hh' : h' ∈ s.handled)
    (hne : h ≠ h') (hreply : h.reply = some (.contextState id generation))
    (hreply' : h'.reply = some (.contextState id' generation')) : h.context ≠ h'.context :=
  hs.once.forall hh hh' hne id generation id' generation' hreply hreply'

theorem isOf_context {i j chan : Nat} {await : A.Await} :
    (Act.context j chan await).isOf i = (j == i) := rfl

theorem isOf_panic {i j : Nat} : (Act.panic j : Act A).isOf i = (j == i) := rfl

theorem Moves.records {s t : State A} {act : Act A} (h : Moves s act t) {i : Nat}
    (hidle : act.isOf i = true → ∀ c : Context A, s.contexts[i]? = some c →
      c.pos ≠ .recv ∧ c.pos.hand = none) :
    t.takenBy i = s.takenBy i ∧ t.handledBy i = s.handledBy i := by
  cases h with
  | address h | request h | poll h =>
    rw [h.frame]
    exact ⟨rfl, rfl⟩
  | elapseDelayed | elapseInterval => exact ⟨rfl, rfl⟩
  | @context j _ _ c _ hc h =>
    have hji : c.pos = .recv ∨ c.pos.hand ≠ none → j ≠ i := by
      rintro hbusy rfl
      obtain ⟨hrecv, hhand⟩ := hidle (by simp [isOf_context]) c hc
      exact hbusy.elim hrecv (absurd hhand)
    constructor
    · rcases h.taken_cases with hsame | ⟨chan, env, hpos, hsnoc⟩
      · rw [State.takenBy, hsame, ← State.takenBy]
      · rw [State.takenBy, hsnoc, List.filter_append, ← State.takenBy]
        simp [hji (.inl hpos)]
    · rcases h.handled_cases hc with hsame | ⟨env, reply, hhand, hsnoc⟩
      · rw [State.handledBy, hsame, ← State.handledBy]
      · have hbusy : c.pos.hand ≠ none := by
          rw [hhand]
          nofun
        rw [State.handledBy, hsnoc, List.filter_append, ← State.handledBy]
        simp [hji (.inr hbusy)]
  | panic _ h =>
    cases h
    exact ⟨rfl, rfl⟩

theorem Moves.other {s t : State A} {act : Act A} (h : Moves s act t) {i : Nat}
    (hact : act.isOf i = false) :
    t.contexts[i]? = s.contexts[i]? ∧ t.takenBy i = s.takenBy i ∧
      t.handledBy i = s.handledBy i := by
  refine ⟨?_, h.records fun hown => by simp [hact] at hown⟩
  cases h with
  | address h | request h | poll h => rw [h.frame]
  | elapseDelayed | elapseInterval => rfl
  | @context j _ _ _ _ _ h =>
    have hji : j ≠ i := by simpa [isOf_context] using hact
    obtain ⟨c', hset, _⟩ := h.turn
    rw [hset, List.getElem?_set_ne hji]
  | @panic j _ _ _ h =>
    have hji : j ≠ i := by simpa [isOf_panic] using hact
    cases h
    simp [State.setContext, List.getElem?_set_ne hji]

theorem Moves.own_turn {s t : State A} {act : Act A} (h : Moves s act t) {i : Nat} {c : Context A}
    (hact : act.isOf i = true) (hc : s.contexts[i]? = some c) :
    ∃ c' : Context A, t.contexts[i]? = some c' ∧ c.pos.gone = false ∧
      (Turn s c c' ∨ s.inUserCode c.pos = true ∧ c' = { c with pos := .panicked }) := by
  cases h with
  | address | request | poll | elapseDelayed | elapseInterval => cases hact
  | @context j _ _ cj _ hcj h =>
    obtain rfl : j = i := by simpa [isOf_context] using hact
    obtain rfl := Option.some.inj (hc.symm.trans hcj)
    obtain ⟨c', hset, hturn⟩ := h.turn
    exact ⟨c', by rw [hset, getElem?_set_self_of hc], hturn.receives_of.1, .inl hturn⟩
  | @panic j cj _ hcj h =>
    obtain rfl : j = i := by simpa [isOf_panic] using hact
    obtain rfl := Option.some.inj (hc.symm.trans hcj)
    cases h with
    | panic huser =>
      refine ⟨_, getElem?_set_self_of hc, ?_, .inr ⟨huser, rfl⟩⟩
      cases hpos : c.pos <;> simp_all [State.inUserCode, Position.gone]

theorem Moves.own {s t : State A} {act : Act A} (h : Moves s act t) {i : Nat} {c : Context A}
    (hact : act.isOf i = true) (hc : s.contexts[i]? = some c) (hmanual : c.manualShutdown = true)
    (hover : c.pos.over = true) :
    ∃ c' : Context A, t.contexts[i]? = some c' ∧ c'.generation = c.generation ∧
      c'.starts = c.starts ∧ (c.pos = .decActive ∧ c'.pos = .onStop ∨
        c.pos = .onStop ∧ c'.pos.gone = true) ∧
      t.takenBy i = s.takenBy i ∧ t.handledBy i = s.handledBy i := by
  have hrecords := h.records (i := i) fun _ c₁ hc₁ => by
    obtain rfl := Option.some.inj (hc.symm.trans hc₁)
    cases hpos : c.pos <;> simp_all [Position.over, Position.gone, Position.hand]
  obtain ⟨c', hc', _, hturn | ⟨huser, rfl⟩⟩ := h.own_turn hact hc
  · rcases hturn.closed hmanual hover with ⟨hpos, rfl⟩ | ⟨hpos, rfl⟩
    · exact ⟨_, hc', rfl, rfl, .inl ⟨hpos, rfl⟩, hrecords⟩
    · exact ⟨_, hc', rfl, rfl, .inr ⟨hpos, rfl⟩, hrecords⟩
  · have hpos : c.pos = .onStop := by
      cases hpos : c.pos <;> simp_all [Position.over, Position.gone, State.inUserCode]
    exact ⟨_, hc', rfl, rfl, .inr ⟨hpos, rfl⟩, hrecords⟩

theorem Position.over_cases {pos : Position A} (h : pos.over = true) :
    pos = .decActive ∨ pos = .onStop ∨ pos.gone = true := by
  cases pos <;> simp_all [Position.over, Position.gone]

theorem Position.rank_of_gone {pos : Position A} (h : pos.gone = true) : pos.rank = 0 := by
  cases pos <;> simp_all [Position.gone, Position.rank]

structure Leaving (s : State A) (i n : Nat) (c c' : Context A) (t : State A) : Prop where
  context : t.contexts[i]? = some c'
  manual : c'.manualShutdown = true
  behind : c'.pos.over = true
  generation : c'.generation = c.generation
  starts : c'.starts = c.starts
  steps : n + c'.pos.rank = 2
  taken : t.takenBy i = s.takenBy i
  handled : t.handledBy i = s.handledBy i

theorem stopsForGood_of_path {s t : State A} {ms : List (Move (State A) (Act A))} {i : Nat}
    {c : Context A} (h : Path step s ms t) (hc : s.contexts[i]? = some c)
    (hmanual : c.manualShutdown = true) (hpos : c.pos = .decActive) : StopsForGood s i ms t := by
  obtain ⟨c', hc'⟩ : ∃ c', Leaving s i (ms.countP fun m => m.act.isOf i) c c' t := by
    induction h with
    | nil => exact ⟨c, hc, hmanual, by rw [hpos]; rfl, rfl, rfl, by rw [hpos]; rfl, rfl, rfl⟩
    | @snoc ms u v act h hstep ih =>
      obtain ⟨c', hu⟩ := ih
      have hmove := Moves.of_step hstep
      rw [List.countP_append, List.countP_singleton]
      obtain ⟨c'', hc'', hpersists⟩ := hmove.persists hu.context
      have hover := hpersists.behind (fun _ => hu.behind) (hpersists.manual hu.manual)
      cases hact : act.isOf i with
      | false =>
        obtain ⟨hcontext, htaken, hhandled⟩ := hmove.other hact
        exact ⟨c', hcontext.trans hu.context, hu.manual, hu.behind, hu.generation, hu.starts,
          hu.steps, htaken.trans hu.taken, hhandled.trans hu.handled⟩
      | true =>
        obtain ⟨c₁, hc₁, hgeneration, hstarts, hnext, htaken, hhandled⟩ :=
          hmove.own hact hu.context hu.manual hu.behind
        obtain rfl := Option.some.inj (hc''.symm.trans hc₁)
        refine ⟨c'', hc'', hpersists.manual hu.manual, hover, hgeneration.trans hu.generation,
          hstarts.trans hu.starts, ?_, htaken.trans hu.taken, hhandled.trans hu.handled⟩
        have hsteps := hu.steps
        rcases hnext with ⟨hfrom, hto⟩ | ⟨hfrom, hto⟩
        · rw [hfrom] at hsteps
          rw [hto]
          simp only [Position.rank] at hsteps ⊢
          simp only [if_true]
          omega
        · rw [hfrom] at hsteps
          rw [Position.rank_of_gone hto]
          simp only [Position.rank] at hsteps
          simp only [if_true]
          omega
  refine ⟨hc'.taken, hc'.handled, c, c', hc, hc'.context, hc'.generation, hc'.starts, hc'.steps, ?_⟩
  rcases Position.over_cases hc'.behind with hpos' | hpos' | hgone
  · refine .inr fun chan await => ⟨t.leaveLoop i c', ?_⟩
    simp only [step, State.contextStep, hc'.context, hpos']
  · refine .inr fun chan await =>
      ⟨t.setContext i { c' with pos := .stopped, stops := c'.stops + 1 }, ?_⟩
    simp only [step, State.contextStep, hc'.context, hpos']
  · exact .inl hgone

theorem runsOnStop_of_other {m : Move (State A) (Act A)} {i : Nat} (h : m.act.isOf i = false) :
    runsOnStop i m = false := by
  rw [runsOnStop, h, Bool.false_and]

theorem runsOnStop_of_own {m : Move (State A) (Act A)} {i : Nat} {c : Context A}
    (h : m.act.isOf i = true) (hc : m.src.contexts[i]? = some c) :
    runsOnStop i m = true ↔ c.pos = .onStop := by
  rw [runsOnStop, h, hc, Bool.true_and, Option.any_some]
  split
  · simp [*]
  · simp_all

theorem Turn.of_onStop {s : State A} {c c' : Context A} (h : Turn s c c') (hpos : c.pos = .onStop) :
    c'.pos.gone = true := by
  cases h with
  | onStop => rfl
  | hold hhand | finish hhand =>
    rw [hpos] at hhand
    cases hhand
  | lose => rfl
  | build hpos' | onStart hpos' | incActive hpos' | take hpos' | leave hpos' | close hpos'
  | restart hpos' | stop hpos' =>
    rw [hpos] at hpos'
    cases hpos'

theorem Turn.lost_open {s : State A} {c c' : Context A} (h : Turn s c c') (hpos : c.pos ≠ .onStop)
    (hover : c.manualShutdown = true → c.pos.over = true) (hgone : c'.pos.gone = true) :
    c'.manualShutdown = false := by
  cases h with
  | lose hassert =>
    obtain ⟨env, _, hhandle | ⟨fut, key, hinsert⟩⟩ := hassert.exists_hand
    · by_contra hmanual
      have hloop := hover (by simpa using hmanual)
      rw [hhandle] at hloop
      cases hloop
    · by_contra hmanual
      have hloop := hover (by simpa using hmanual)
      rw [hinsert] at hloop
      cases hloop
  | onStop hpos' => exact absurd hpos' hpos
  | hold _ hhand' =>
    rw [gone_of_hand hhand'] at hgone
    cases hgone
  | build | onStart | incActive | take | leave | close | finish | restart | stop => cases hgone

/-- A context that is still there has not run `on_stop`; one that was closed and
is gone has run it once. -/
structure RanOnStop (n : Nat) (c : Context A) : Prop where
  before : c.pos.gone = false → n = 0
  after : c.pos.gone = true → c.manualShutdown = true → n = 1

theorem ranOnStop_of_path {cfg : Config} {build : Nat → A.State} {s t : State A}
    {ms : List (Move (State A) (Act A))} (hstart : Started cfg build s) (h : Path step s ms t)
    (i : Nat) (c : Context A) (hc : t.contexts[i]? = some c) :
    RanOnStop (ms.countP (runsOnStop i)) c := by
  induction h generalizing c with
  | nil =>
    obtain ⟨w, rfl, hnew⟩ := hstart.exists_wiring
    obtain ⟨_, _, _, pos, rfl, rfl | rfl⟩ := hnew c (List.mem_of_getElem? hc) <;>
      exact ⟨fun _ => rfl, nofun⟩
  | @snoc ms u v act h hstep ih =>
    have hmove := Moves.of_step hstep
    have hinv : CloseInv u := h.invariant hstart.closeInv fun _ _ _ hstep hu => hu.step hstep
    rw [List.countP_append, List.countP_singleton]
    cases hact : act.isOf i with
    | false =>
      rw [runsOnStop_of_other hact]
      rw [(hmove.other hact).1] at hc
      exact ih c hc
    | true =>
      obtain ⟨c₀, hc₀⟩ : ∃ c₀ : Context A, u.contexts[i]? = some c₀ := by
        obtain ⟨hlt, _⟩ := List.getElem?_eq_some_iff.mp hc
        rw [hmove.length_contexts] at hlt
        exact ⟨_, List.getElem?_eq_getElem hlt⟩
      obtain ⟨c', hc', hgone, hturn⟩ := hmove.own_turn hact hc₀
      obtain rfl := Option.some.inj (hc.symm.trans hc')
      have hzero := (ih c₀ hc₀).before hgone
      have hown := runsOnStop_of_own (m := ⟨u, act, v⟩) hact hc₀
      have hover := hinv.behind c₀ (List.mem_of_getElem? hc₀)
      by_cases hpos : c₀.pos = .onStop
      · rw [if_pos (hown.mpr hpos), hzero]
        have hlast : c.pos.gone = true := by
          rcases hturn with hturn | ⟨_, rfl⟩
          · exact hturn.of_onStop hpos
          · rfl
        refine ⟨fun hstays => ?_, fun _ _ => rfl⟩
        rw [hlast] at hstays
        cases hstays
      · rw [if_neg fun hruns => hpos (hown.mp hruns), hzero]
        refine ⟨fun _ => rfl, fun hlast hmanual => ?_⟩
        rcases hturn with hturn | ⟨huser, rfl⟩
        · rw [hturn.lost_open hpos hover hlast] at hmanual
          cases hmanual
        · have hloop := hover hmanual
          cases hpos' : c₀.pos <;> simp_all [Position.over, Position.gone, State.inUserCode]

section Runs
variable {cfg : Config} {build : Nat → A.State} {s t : State A} {ms : List (Move (State A) (Act A))}

theorem closeInv_of_path (hstart : Started cfg build s) (h : Path step s ms t) : CloseInv t :=
  h.invariant hstart.closeInv fun _ _ _ hstep hu => hu.step hstep

theorem Closing.recorded {s u v : State A} {i : Nat} {c : Context A} {env : Envelope A} {tx : Nat}
    (h : Closing s i c env tx u) (hpath : Path step u ms v) :
    (⟨i, env, some (.contextState c.id c.generation)⟩ : Handled A) ∈ v.handled := by
  apply (handled_grows hpath).subset
  rw [h.handled]
  exact List.mem_concat_self

theorem Closing.not_in_hand {s u v : State A} {i j : Nat} {c c' : Context A}
    {env env' : Envelope A} {tx : Nat} (h : Closing s i c env tx u)
    (hpath : Path step u ms v) (hv : CloseInv v) (hc' : v.contexts[j]? = some c')
    (hhand : c'.pos.hand = some env') : env'.id ≠ env.id := by
  intro hid
  have hentry := h.recorded hpath
  obtain ⟨chan, _, haccepted⟩ := hv.oneshot.channel.accepted_of_handled hentry
  obtain ⟨chan', haccepted'⟩ := hv.oneshot.accepted_of_hand hc' hhand
  have heq : env' = env :=
    congrArg Prod.snd (hv.oneshot.channel.eq_of_id haccepted' haccepted hid)
  have hbusy : v.ledger.worker j = .busy env' := by
    rw [ledger_worker hc', worker_of_hand hhand]
  apply hv.oneshot.channel.sound.not_handled_of_busy (j := i) hbusy
  rw [heq]
  exact List.mem_map.mpr ⟨_, hentry, rfl⟩

theorem stops_once {ps qs : List (Move (State A) (Act A))} {m n : Move (State A) (Act A)}
    {i j tx tx' : Nat} {env env' : Envelope A} (hstart : Started cfg build s)
    (h : Path step s (ps ++ m :: qs) t) (hn : n ∈ qs) (hstops : Stops m i tx env)
    (hstops' : Stops n j tx' env') : env'.id ≠ env.id := by
  obtain ⟨u, hps, hrest⟩ := h.exists_between
  obtain ⟨hsrc, hstep, hqs⟩ := hrest.first
  obtain ⟨c, hc, hclosing⟩ := hstops.closing hstep
  obtain ⟨ps', qs', rfl, hps', hstep', _⟩ := hqs.exists_split hn
  obtain ⟨c', hc', hclosing'⟩ := hstops'.closing hstep'
  have hdst : CloseInv m.dst := by
    rw [← hsrc] at hps
    exact (closeInv_of_path hstart hps).step hstep
  have hn' : CloseInv n.src := hps'.invariant hdst fun _ _ _ hstep hu => hu.step hstep
  exact hclosing.not_in_hand hps' hn' hc' (by rw [hclosing'.hand]; rfl)

theorem CloseInv.reports_distinct {tx tx' : Nat} {call call' : Call A}
    {id generation id' generation' : Nat} (hs : CloseInv t) (hcall : t.calls[tx]? = some call)
    (hcall' : t.calls[tx']? = some call')
    (hphase : call.phase = .done (.ok (.contextState id generation)))
    (hphase' : call'.phase = .done (.ok (.contextState id' generation'))) (hne : tx ≠ tx') :
    id ≠ id' := by
  obtain ⟨x, hx, hmsg, hreply, hid, _⟩ := hs.of_result hcall hphase
  obtain ⟨x', hx', hmsg', hreply', hid', _⟩ := hs.of_result hcall' hphase'
  rw [← hid, ← hid']
  refine hs.distinct hx hx' ?_ hreply hreply'
  rintro rfl
  rw [hmsg] at hmsg'
  cases hmsg'
  exact hne rfl

theorem stops_for_good {ps qs : List (Move (State A) (Act A))} {m : Move (State A) (Act A)}
    {i tx : Nat} {env : Envelope A} (h : Path step s (ps ++ m :: qs) t)
    (hstops : Stops m i tx env) : StopsForGood m.dst i qs t := by
  obtain ⟨u, _, hrest⟩ := h.exists_between
  obtain ⟨_, hstep, hqs⟩ := hrest.first
  obtain ⟨c, hc, hclosing⟩ := hstops.closing hstep
  have hclosed : m.dst.contexts[i]? =
      some { c with manualShutdown := true, pos := .decActive } := by
    rw [hclosing.contexts, getElem?_set_self_of hc]
  exact stopsForGood_of_path hqs hclosed rfl rfl

theorem on_stop_once {m : Move (State A) (Act A)} {i tx : Nat} {env : Envelope A} {c : Context A}
    (hstart : Started cfg build s) (h : Path step s ms t) (hm : m ∈ ms)
    (hstops : Stops m i tx env) (hc : t.contexts[i]? = some c) :
    ms.countP (runsOnStop i) = if c.pos.gone then 1 else 0 := by
  have hinv := closeInv_of_path hstart h
  have hran := ranOnStop_of_path hstart h i c hc
  obtain ⟨ps, qs, rfl, _, hstep, hqs⟩ := h.exists_split hm
  obtain ⟨c₀, hc₀, hclosing⟩ := hstops.closing hstep
  obtain ⟨c', hc', hmanual, _⟩ := hinv.closed _ (hclosing.recorded hqs) _ _ rfl
  obtain rfl := Option.some.inj (hc.symm.trans hc')
  cases hgone : c.pos.gone with
  | false => exact hran.before hgone
  | true => exact hran.after hgone hmanual

theorem close_laws (hstart : Started cfg build s) (h : Path step s ms t) :
    CloseLaws cfg.num ms t := by
  have hcfg : t.cfg = cfg := by
    rw [cfg_of_path h]
    obtain ⟨w, rfl, _⟩ := hstart.exists_wiring
    rfl
  have hinv := closeInv_of_path hstart h
  constructor
  · intro ps m qs n i tx env j tx' env' hms hn hstops hstops'
    subst hms
    exact stops_once hstart h hn hstops hstops'
  · intro m hm i tx env hstops
    obtain ⟨c, hc, hclosing⟩ := hstops.closing (h.step_eq hm)
    exact hclosing.acknowledged hc
  · intro tx tx' call call' id generation id' generation' hcall hcall' hphase hphase' hne
    exact hinv.reports_distinct hcall hcall' hphase hphase' hne
  · intro call hcall id generation hphase
    obtain ⟨tx, htx⟩ := List.mem_iff_getElem?.mp hcall
    obtain ⟨_, _, _, _, _, hlt⟩ := hinv.of_result htx hphase
    rwa [← hcfg]
  · intro ps m qs i tx env hms hstops
    subst hms
    exact stops_for_good h hstops
  · intro m hm i tx env hstops c hc
    exact on_stop_once hstart h hm hstops hc

/-- One close that its caller gave up and two that are acknowledged, with restarts on. -/
theorem close_laws_two_contexts : ∃ ms t,
    Path step (echoStart { Config.default with num := 2, restartOnErr := true }) ms t ∧
      t.contexts.map Context.stops = [1, 0] ∧ CloseLaws 2 ms t := by
  obtain ⟨ms, t, hpath, _, _, hq⟩ := exists_path_of_checkedRun step
    (echoStart { Config.default with num := 2, restartOnErr := true })
    [.context 0 0 (), .context 0 0 (), .context 1 0 (), .context 1 0 (),
      .request (.call 0 .closeOne), .request (.call 0 .closeOne), .request (.call 0 .closeOne),
      .request (.send 0), .request (.send 1), .request (.send 2), .request (.abandon 0),
      .context 0 0 (), .context 0 0 (), .context 0 0 (), .context 0 0 (), .context 1 0 (),
      .context 1 0 (), .request (.receive 1), .request (.receive 2), .context 0 0 (),
      .context 0 0 ()]
    (fun _ _ _ => true) (fun t => t.contexts.map Context.stops == [1, 0]) (by decide)
  exact ⟨ms, t, hpath, by simpa using hq, close_laws .start hpath⟩

end Runs

end ActixSend
