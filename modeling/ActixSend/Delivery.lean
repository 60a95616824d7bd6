import ActixSend.Oneshot

/-! # Delivery through the shared channel

Any number of contexts take their messages from one queue. Without a
`ManualShutDown` and without a panic no context leaves its loop before the
channel is empty and closed, so what the channel accepted is handled, and by
the ledger it is handled once. The reply goes to the request whose own message
was handled.
-/

namespace ActixSend

open Transition
set_option autoImplicit false

variable {A : Actor}

def Genuine (h : Handled A) : Prop :=
  match h.env.msg with
  | .manualShutDown _ => ∀ r, h.reply = some r → ∃ id generation, r = .contextState id generation
  | .instant (.static _ msg) => ∃ st await, h.reply = some (.result (A.handle st msg await).2)
  | .instant (.dynamic _ fut) =>
    ∃ st await, h.reply = some (.object (A.runFuture st fut await).2.2)
  | .delayed _ => h.reply = none
  | .interval (.register _ _ _) => ∃ handler, h.reply = some (.handler handler)
  | .interval _ => True

theorem genuine_snoc {l : List (Handled A)} {h : Handled A} (hl : ∀ x ∈ l, Genuine x)
    (hnew : Genuine h) : ∀ x ∈ l ++ [h], Genuine x := by
  intro x hx
  rcases List.mem_append.mp hx with hx | hx
  · exact hl x hx
  · obtain rfl := List.mem_singleton.mp hx
    exact hnew

theorem afterPush_genuine {s : State A} {i : Nat} {c : Context A} {env : Envelope A}
    {h : FutureHandler} (hs : ∀ x ∈ s.handled, Genuine x)
    (hfits : (∃ msg, env.msg = .delayed msg) ∨
      ∃ tx fut dur, env.msg = .interval (.register tx fut dur)) :
    ∀ x ∈ (s.afterPush i c env h).handled, Genuine x := by
  simp only [State.afterPush]
  split
  · exact hs
  · rename_i hother
    rcases hfits with ⟨msg, hmsg⟩ | ⟨tx, fut, dur, hmsg⟩
    · apply genuine_snoc hs
      simp only [Genuine, hmsg]
    · exact absurd hmsg (hother tx fut dur)

theorem ContextMove.genuine {s t : State A} {i : Nat} {c : Context A} (h : ContextMove s i c t)
    (hfits : c.pos.Fits) (hs : ∀ x ∈ s.handled, Genuine x) : ∀ x ∈ t.handled, Genuine x := by
  cases h with
  | close hpos hmsg =>
    rw [sendReply_frame]
    apply genuine_snoc hs
    simp only [Genuine, hmsg]
    rintro r ⟨⟩
    exact ⟨_, _, rfl⟩
  | closeRefused hpos hmsg =>
    apply genuine_snoc hs
    simp only [Genuine, hmsg]
    rintro r ⟨⟩
  | static hpos hmsg | dynamic hpos hmsg =>
    rw [sendReplyTo_frame]
    apply genuine_snoc hs
    simp only [Genuine, hmsg]
    exact ⟨_, _, rfl⟩
  | delayedLost hpos hmsg | remove hpos hmsg =>
    apply genuine_snoc hs
    simp only [Genuine, hmsg]
  | pushRefused hpos | pushExtend hpos =>
    rw [hpos] at hfits
    exact afterPush_genuine hs hfits
  | reply hpos =>
    rw [sendReply_frame]
    rw [hpos] at hfits
    obtain ⟨fut, dur, hmsg⟩ := hfits
    apply genuine_snoc hs
    simp only [Genuine, hmsg]
    exact ⟨_, rfl⟩
  | intervalRun hpos =>
    rw [hpos] at hfits
    simp only [Position.Fits] at hfits
    simp only [State.runInterval]
    split
    · apply genuine_snoc hs
      simp only [Genuine, hfits]
    · apply genuine_snoc hs
      simp only [Genuine, hfits]
  | build | onStart | incActive | take | leave | delayed | lockRun | register | insert
  | insertPanic | pushCheck | restart | stop | onStop => exact hs

def Resolved (handled : List (Handled A)) (tx : Nat) (call : Call A) : Prop :=
  match call.phase with
  | .waiting (some r) => ∃ h ∈ handled, h.env.msg = call.req.message tx ∧ h.reply = some r
  | .done out => (∃ h ∈ handled, h.env.msg = call.req.message tx ∧
      ∃ r, h.reply = some r ∧ out = call.req.answer r) ∨
    (call.req.awaitsReply = false ∧ out = .ok .unit) ∨ ∃ e, out = .err e
  | _ => True

theorem Resolved.mono {handled more : List (Handled A)} {tx : Nat} {call : Call A}
    (h : Resolved handled tx call) : Resolved (handled ++ more) tx call := by
  unfold Resolved at h ⊢
  split
  · rename_i r hphase
    rw [hphase] at h
    obtain ⟨x, hx, hrest⟩ := h
    exact ⟨x, List.mem_append_left _ hx, hrest⟩
  · rename_i out hphase
    rw [hphase] at h
    rcases h with ⟨x, hx, hrest⟩ | h
    · exact .inl ⟨x, List.mem_append_left _ hx, hrest⟩
    · exact .inr h
  · trivial

/-- Replies come from handling the request's message, and outcomes from replies. -/
structure AnswerInv (s : State A) : Prop where
  genuine : ∀ h ∈ s.handled, Genuine h
  resolved : ∀ (tx : Nat) (call : Call A), s.calls[tx]? = some call → Resolved s.handled tx call

theorem Moves.handled_cases {s t : State A} {act : Act A} (h : Moves s act t) :
    t.handled = s.handled ∨ ∃ i chan await c, act = .context i chan await ∧
      s.contexts[i]? = some c ∧ ContextMove s i c t ∧
      ∃ entry, t.handled = s.handled ++ [entry] := by
  cases h.channelMove with
  | same _ hhandled | accept _ _ hhandled | panic _ _ _ hhandled => exact .inl hhandled
  | context hact hc hmove hledger =>
    cases hledger with
    | same _ _ hhandled | take _ _ _ _ hhandled | lose _ _ _ hhandled => exact .inl hhandled
    | finish _ _ _ _ hhandled => exact .inr ⟨_, _, _, _, hact, hc, hmove, _, hhandled⟩

theorem Moves.handled_extends {s t : State A} {act : Act A} (h : Moves s act t) :
    s.handled <+: t.handled := by
  rcases h.handled_cases with hsame | ⟨_, _, _, _, _, _, _, entry, hsnoc⟩
  · exact ⟨[], by rw [hsame, List.append_nil]⟩
  · exact ⟨[entry], hsnoc.symm⟩

theorem handled_grows {s t : State A} {ms : List (Move (State A) (Act A))}
    (h : Path step s ms t) : s.handled <+: t.handled := by
  apply h.invariant (I := fun u => s.handled <+: u.handled) (List.prefix_refl _)
  exact fun _ _ _ hstep hu => hu.trans (Moves.of_step hstep).handled_extends

theorem Moves.resolved_mono {s t : State A} {act : Act A} (h : Moves s act t) {tx : Nat}
    {call : Call A} (hs : Resolved s.handled tx call) : Resolved t.handled tx call := by
  rcases h.handled_cases with hsame | ⟨_, _, _, _, _, _, _, entry, hsnoc⟩
  · rwa [hsame]
  · rw [hsnoc]
    exact hs.mono

theorem resolved_set {handled : List (Handled A)} {calls : List (Call A)} {c : Nat}
    {call : Call A} (hs : ∀ (tx : Nat) (x : Call A), calls[tx]? = some x → Resolved handled tx x)
    (hcall : Resolved handled c call) :
    ∀ (tx : Nat) (x : Call A), (calls.set c call)[tx]? = some x → Resolved handled tx x := by
  intro tx x hx
  rcases getElem?_set_cases hx with ⟨rfl, rfl⟩ | ⟨_, hx⟩
  · exact hcall
  · exact hs tx x hx

theorem resolved_append {handled : List (Handled A)} {calls new : List (Call A)}
    (hs : ∀ (tx : Nat) (x : Call A), calls[tx]? = some x → Resolved handled tx x)
    (hnew : ∀ x ∈ new, ∀ tx, Resolved handled tx x) :
    ∀ (tx : Nat) (x : Call A), (calls ++ new)[tx]? = some x → Resolved handled tx x := by
  intro tx x hx
  rcases Nat.lt_or_ge tx calls.length with hlt | hge
  · rw [List.getElem?_append_left hlt] at hx
    exact hs tx x hx
  · rw [List.getElem?_append_right hge] at hx
    exact hnew x (List.mem_of_getElem? hx) tx

theorem RequestMove.resolved {s t : State A} {act : RequestAct A} (h : RequestMove s act t)
    (hs : ∀ (tx : Nat) (call : Call A), s.calls[tx]? = some call → Resolved s.handled tx call) :
    ∀ (tx : Nat) (call : Call A), t.calls[tx]? = some call → Resolved s.handled tx call := by
  cases h with
  | call =>
    apply resolved_append hs
    intro x hx tx
    obtain rfl := List.mem_singleton.mp hx
    trivial
  | broadcast =>
    apply resolved_append hs
    intro x hx tx
    obtain ⟨chan, _, rfl⟩ := List.mem_map.mp hx
    trivial
  | item =>
    apply resolved_append hs
    intro x hx tx
    obtain rfl := List.mem_singleton.mp hx
    trivial
  | itemRefused =>
    apply resolved_append hs
    intro x hx tx
    obtain rfl := List.mem_singleton.mp hx
    exact .inr (.inr ⟨_, rfl⟩)
  | refuse | timeout => exact resolved_set hs (.inr (.inr ⟨_, rfl⟩))
  | @send c call hc hphase =>
    apply resolved_set hs
    by_cases hawaits : call.req.awaitsReply = true
    · rw [if_pos hawaits]
      trivial
    · rw [if_neg hawaits]
      exact .inr (.inl ⟨by simpa using hawaits, rfl⟩)
  | @answer c call reply hc hphase =>
    rw [resumeStream_calls]
    apply resolved_set hs
    have hbefore := hs c call hc
    simp only [Resolved, hphase] at hbefore
    obtain ⟨h, hh, hmsg, hreply⟩ := hbefore
    exact .inl ⟨h, hh, hmsg, reply, hreply, rfl⟩
  | canceled =>
    rw [resumeStream_calls]
    exact resolved_set hs (.inr (.inr ⟨_, rfl⟩))
  | abandon | dropWaiting => exact resolved_set hs trivial
  | cancel =>
    rw [cancelHandler_frame]
    exact hs
  | doSend | doRun | stream | dropIdle => exact hs

theorem OneshotInv.accepted_of_hand {s : State A} (hs : OneshotInv s) {i : Nat} {c : Context A}
    {env : Envelope A} (hc : s.contexts[i]? = some c) (hhand : c.pos.hand = some env) :
    ∃ chan, (chan, env) ∈ s.accepted := by
  have hbusy : s.ledger.worker i = .busy env := by
    rw [ledger_worker hc, worker_of_hand hhand]
  obtain ⟨chan, htaken⟩ := hs.channel.sound.taken_of_busy hbusy
  exact ⟨chan, hs.channel.sound.accepted_of_taken htaken⟩

theorem AnswerInv.step {s t : State A} {act : Act A} (h : step s act = some t)
    (hinv : OneshotInv s) (hs : AnswerInv s) : AnswerInv t := by
  have hmove := Moves.of_step h
  constructor
  · rcases hmove.handled_cases with hsame | ⟨_, _, _, c, _, hc, hctx, _⟩
    · rw [hsame]
      exact hs.genuine
    · exact hctx.genuine (hinv.request.fits c (List.mem_of_getElem? hc)) hs.genuine
  · rcases hmove.calls_cases with ⟨_, _, hreq⟩ | ⟨_, hsame | ⟨i, tx, reply, hanswer⟩⟩
    · intro tx call hcall
      exact hmove.resolved_mono (hreq.resolved hs.resolved tx call hcall)
    · intro tx call hcall
      rw [hsame] at hcall
      exact hmove.resolved_mono (hs.resolved tx call hcall)
    · obtain ⟨c, env, hc, hhand, henv, hhandled⟩ := hanswer.hand_tx hinv.request
      obtain ⟨call, hcall, hphase, hset⟩ := hanswer.waiting
      obtain ⟨chan, haccepted⟩ := hinv.accepted_of_hand hc hhand
      obtain ⟨call', hcall', _, hmsg, _⟩ := hinv.request.sent chan env haccepted tx henv
      obtain rfl := Option.some.inj (hcall.symm.trans hcall')
      rw [hset, hhandled]
      apply resolved_set
      · intro tx' call' hcall'
        exact (hs.resolved tx' call' hcall').mono
      · exact ⟨⟨i, env, some reply⟩, List.mem_concat_self, hmsg, rfl⟩

theorem Started.answerInv {cfg : Config} {build : Nat → A.State} {s : State A}
    (h : Started cfg build s) : AnswerInv s := by
  obtain ⟨w, rfl, _⟩ := h.exists_wiring
  constructor <;> simp [Wiring.finish]

/-- No code panics in a context. -/
structure Calm (m : Move (State A) (Act A)) : Prop where
  noPanic : ∀ i, m.act ≠ .panic i
  noAssertion : ∀ (i chan : Nat) (await : A.Await) (c : Context A),
    m.act = .context i chan await → m.src.contexts[i]? = some c → ¬AtAssertion m.src c

/-- Besides, nobody closes a context. -/
structure Undisturbed (m : Move (State A) (Act A)) : Prop extends Calm m where
  noClose : ∀ a, m.act ≠ .request (.call a .closeOne)

def Position.left : Position A → Bool
  | .decActive => true
  | .onStop => true
  | .stopped => true
  | _ => false

structure PatientInv (s : State A) : Prop where
  oneshot : OneshotInv s
  answer : AnswerInv s
  noClose : ∀ call ∈ s.calls, call.req ≠ .closeOne
  shared : ∀ c ∈ s.contexts, c.rx = 0
  patient : ∀ c ∈ s.contexts, c.pos ≠ .panicked ∧ (c.pos.left = true → s.ended 0 = true)
  served : s.accepted ≠ [] → s.contexts ≠ []

theorem ended_iff {s : State A} {chan : Nat} :
    s.ended chan = true ↔ s.queue chan = [] ∧ s.sender chan = false := by
  simp [State.ended, List.isEmpty_iff]

theorem Moves.ended_stable {s t : State A} {act : Act A} {chan : Nat} (h : Moves s act t)
    (hs : HolderInv s) (hended : s.ended chan = true) : t.ended chan = true := by
  rw [ended_iff] at hended ⊢
  obtain ⟨hqueue, hsender⟩ := hended
  constructor
  · apply List.eq_nil_iff_forall_not_mem.mpr
    intro env henv
    rcases h.channelMove.queue_cases henv with henv | ⟨_, msg, hsends, _⟩
    · rw [hqueue] at henv
      cases henv
    · rw [sender_of_sends hs hsends] at hsender
      cases hsender
  · by_contra hopen
    rw [h.sender_stable hs (by simpa using hopen)] at hsender
    cases hsender

theorem RequestMove.requests {s t : State A} {act : RequestAct A} {P : Request A → Prop}
    (h : RequestMove s act t) (hentry : ∀ batch chan msg, P (.entry batch chan msg))
    (hitem : ∀ st msg, P (.item st msg)) (hact : ∀ a req, act = .call a req → P req)
    (hs : ∀ call ∈ s.calls, P call.req) : ∀ call ∈ t.calls, P call.req := by
  have hset : ∀ {c : Nat} {call : Call A} {phase : CallPhase A}, s.calls[c]? = some call →
      ∀ x ∈ s.calls.set c { call with phase := phase }, P x.req := by
    intro c call phase hc x hx
    rcases List.mem_or_eq_of_mem_set hx with hx | rfl
    · exact hs x hx
    · exact hs call (List.mem_of_getElem? hc)
  cases h with
  | call =>
    intro x hx
    rcases List.mem_append.mp hx with hx | hx
    · exact hs x hx
    · obtain rfl := List.mem_singleton.mp hx
      exact hact _ _ rfl
  | broadcast =>
    intro x hx
    rcases List.mem_append.mp hx with hx | hx
    · exact hs x hx
    · obtain ⟨chan, _, rfl⟩ := List.mem_map.mp hx
      exact hentry _ _ _
  | item | itemRefused =>
    intro x hx
    rcases List.mem_append.mp hx with hx | hx
    · exact hs x hx
    · obtain rfl := List.mem_singleton.mp hx
      exact hitem _ _
  | refuse hc | send hc | timeout hc | abandon hc | dropWaiting _ hc => exact hset hc
  | answer hc | canceled hc =>
    rw [resumeStream_calls]
    exact hset hc
  | cancel =>
    rw [cancelHandler_frame]
    exact hs
  | doSend | doRun | stream | dropIdle => exact hs

theorem Moves.requests {s t : State A} {act : Act A} {P : Request A → Prop} (h : Moves s act t)
    (hentry : ∀ batch chan msg, P (.entry batch chan msg)) (hitem : ∀ st msg, P (.item st msg))
    (hact : ∀ a req, act = .request (.call a req) → P req) (hs : ∀ call ∈ s.calls, P call.req) :
    ∀ call ∈ t.calls, P call.req := by
  rcases h.calls_cases with ⟨ract, rfl, hreq⟩ | ⟨_, hsame | ⟨_, _, _, hanswer⟩⟩
  · exact hreq.requests hentry hitem (fun a req heq => hact a req (by rw [heq])) hs
  · rwa [hsame]
  · obtain ⟨call, hc, _, hset⟩ := hanswer.waiting
    rw [hset]
    intro x hx
    rcases List.mem_or_eq_of_mem_set hx with hx | rfl
    · exact hs x hx
    · exact hs call (List.mem_of_getElem? hc)

theorem left_of_hand {pos : Position A} {env : Envelope A} (h : pos.hand = some env) :
    pos.left = false ∧ pos ≠ .panicked := by
  cases pos <;> simp_all [Position.hand, Position.left]

theorem eq_closeOne {req : Request A} {tx tx' : Nat} (h : req.message tx = .manualShutDown tx') :
    req = .closeOne := by
  cases req <;> first | rfl | cases h

theorem Turn.patient {s : State A} {i : Nat} {c c' : Context A} (h : Turn s c c')
    (hc : s.contexts[i]? = some c) (hs : PatientInv s) (hassert : ¬AtAssertion s c) :
    c'.pos ≠ .panicked ∧ (c'.pos.left = true → s.ended 0 = true) := by
  obtain ⟨_, hleft⟩ := hs.patient c (List.mem_of_getElem? hc)
  cases h with
  | leave hpos hrx =>
    refine ⟨nofun, fun _ => ?_⟩
    rwa [hs.shared c (List.mem_of_getElem? hc)] at hrx
  | @close env tx hpos hmsg =>
    obtain ⟨chan, haccepted⟩ := hs.oneshot.accepted_of_hand hc (by rw [hpos]; rfl)
    have htx : env.msg.tx = some tx := by rw [hmsg]; rfl
    obtain ⟨call, hcall, _, hreq, _⟩ := hs.oneshot.request.sent chan env haccepted tx htx
    rw [hmsg] at hreq
    exact absurd (eq_closeOne hreq.symm) (hs.noClose call (List.mem_of_getElem? hcall))
  | hold _ hhand' =>
    obtain ⟨hstays, hpanic⟩ := left_of_hand hhand'
    exact ⟨hpanic, fun hl => by rw [hstays] at hl; cases hl⟩
  | lose hat => exact absurd hat hassert
  | stop hpos | onStop hpos => exact ⟨nofun, fun _ => hleft (by rw [hpos]; rfl)⟩
  | build | onStart | incActive | take | finish | restart => exact ⟨nofun, nofun⟩

theorem PatientInv.step {s t : State A} {act : Act A} (h : step s act = some t)
    (hact : Undisturbed ⟨s, act, t⟩) (hs : PatientInv s) : PatientInv t := by
  have hmove := Moves.of_step h
  have hended : s.ended 0 = true → t.ended 0 = true := hmove.ended_stable hs.oneshot.holder
  have hkeep : ∀ c ∈ s.contexts, c.pos ≠ .panicked ∧ (c.pos.left = true → t.ended 0 = true) :=
    fun c hc => ⟨(hs.patient c hc).1, fun hl => hended ((hs.patient c hc).2 hl)⟩
  have hcontexts := hmove.contexts_cases
  refine ⟨hs.oneshot.step h, hs.answer.step h hs.oneshot, ?_, ?_, ?_, ?_⟩
  · apply hmove.requests (P := fun req => req ≠ .closeOne) nofun nofun ?_ hs.noClose
    rintro a req heq rfl
    exact hact.noClose a heq
  · rcases hcontexts with hsame | ⟨i, c, c', hc, _, hset, hrx, _⟩
    · rw [hsame]
      exact hs.shared
    · rw [hset]
      intro x hx
      rcases List.mem_or_eq_of_mem_set hx with hx | rfl
      · exact hs.shared x hx
      · rw [hrx]
        exact hs.shared c (List.mem_of_getElem? hc)
  · rcases hcontexts with hsame | ⟨i, c, c', hc, _, hset, _, _, ⟨chan, await, rfl, hctx⟩ | ⟨rfl, _⟩⟩
    · rw [hsame]
      exact hkeep
    · obtain ⟨c'', hset', hturn⟩ := hctx.turn
      rw [hset']
      intro x hx
      rcases List.mem_or_eq_of_mem_set hx with hx | rfl
      · exact hkeep x hx
      · obtain ⟨hpanic, hleft⟩ := hturn.patient hc hs (hact.noAssertion i chan await c rfl hc)
        exact ⟨hpanic, fun hl => hended (hleft hl)⟩
    · exact absurd rfl (hact.noPanic i)
  · intro haccepted
    have hnonempty : s.contexts ≠ [] := by
      cases hmove.channelMove with
      | same hl => exact hs.served fun hnil => haccepted (by
          rw [show t.accepted = s.accepted from congrArg Ledger.accepted hl, hnil])
      | accept hopen =>
        intro hnil
        rw [State.receiver, hnil] at hopen
        cases hopen
      | context _ hc =>
        intro hnil
        rw [hnil] at hc
        cases hc
      | panic _ hc =>
        intro hnil
        rw [hnil] at hc
        cases hc
    rcases hcontexts with hsame | ⟨_, _, _, _, _, hset, _⟩
    · rwa [hsame]
    · rw [hset]
      simpa using hnonempty

theorem Started.patientInv {cfg : Config} {build : Nat → A.State} {s : State A}
    (h : Started cfg build s) : PatientInv s := by
  have honeshot := h.oneshotInv
  have hanswer := h.answerInv
  obtain ⟨w, rfl, hnew⟩ := h.exists_wiring
  refine ⟨honeshot, hanswer, by simp [Wiring.finish], ?_, ?_, by simp [Wiring.finish]⟩
  · intro c hc
    obtain ⟨_, _, _, pos, rfl, _⟩ := hnew c hc
    rfl
  · intro c hc
    obtain ⟨_, _, _, pos, rfl, rfl | rfl⟩ := hnew c hc <;> simp [Context.new, Position.left]

/-- How often the message has been handled, by all contexts together. -/
def State.timesHandled (s : State A) (env : Envelope A) : Nat :=
  (s.handled.map fun h => h.env.id).count env.id

/-- Every context that is not gone waits for a message, and none comes. -/
def State.AtRest (s : State A) : Prop :=
  ∀ (i : Nat) (c : Context A), s.contexts[i]? = some c →
    c.pos.gone = true ∨ c.pos = .recv ∧ ∀ chan, s.recv i c chan = none

/-- What the shared channel accepted is handled once, and the answers are the
answers to one's own messages. -/
structure Delivered (s : State A) : Prop where
  atMostOnce : ∀ env, (0, env) ∈ s.accepted → s.timesHandled env ≤ 1
  kept : ∀ env, (0, env) ∈ s.accepted → s.timesHandled env = 1 ∨
    s.timesHandled env = 0 ∧ (env ∈ s.queue 0 ∨ ∃ c ∈ s.contexts, c.pos.hand = some env)
  stopped : (∀ c ∈ s.contexts, c.pos.gone = true) →
    ∀ env, (0, env) ∈ s.accepted → s.timesHandled env = 1
  atRest : s.AtRest → ∀ env, (0, env) ∈ s.accepted → s.timesHandled env = 1
  genuine : ∀ h ∈ s.handled, Genuine h
  own : ∀ (tx : Nat) (call : Call A) (v : Value A), s.calls[tx]? = some call →
    call.phase = .done (.ok v) → call.req.awaitsReply = true →
    ∃ h ∈ s.handled, h.env.msg = call.req.message tx ∧
      ∃ r, h.reply = some r ∧ call.req.answer r = .ok v
  mapped : ∀ call ∈ s.calls, call.phase ≠ .done .unreachable

theorem ChannelInv.eq_of_id {s : State A} (hs : ChannelInv s) {x y : Nat × Envelope A}
    (hx : x ∈ s.accepted) (hy : y ∈ s.accepted) (hid : x.2.id = y.2.id) : x = y := by
  have hnodup : (s.accepted.map fun x => x.2.id).Nodup := hs.ids ▸ List.nodup_range
  exact List.inj_on_of_nodup_map hnodup hx hy hid

theorem ChannelInv.accepted_of_handled {s : State A} (hs : ChannelInv s) {h : Handled A}
    (hh : h ∈ s.handled) : ∃ chan, (h.context, chan, h.env) ∈ s.ledger.taken ∧
      (chan, h.env) ∈ s.accepted := by
  obtain ⟨chan, htaken⟩ := hs.sound.taken_of_handled (List.mem_map.mpr ⟨h, hh, rfl⟩)
  exact ⟨chan, htaken, hs.sound.accepted_of_taken htaken⟩

theorem ChannelInv.handled_nodup {s : State A} (hs : ChannelInv s) :
    (s.handled.map fun h => h.env.id).Nodup := by
  have hnodup : (s.handled.map Handled.env).Nodup := by
    simpa [State.ledger, Function.comp_def] using hs.sound.handled_nodup
  have hids : ((s.handled.map Handled.env).map Envelope.id).Nodup := by
    apply hnodup.map_on
    intro x hx y hy hid
    obtain ⟨h, hh, rfl⟩ := List.mem_map.mp hx
    obtain ⟨h', hh', rfl⟩ := List.mem_map.mp hy
    obtain ⟨_, _, haccepted⟩ := hs.accepted_of_handled hh
    obtain ⟨_, _, haccepted'⟩ := hs.accepted_of_handled hh'
    exact congrArg Prod.snd (hs.eq_of_id haccepted haccepted' hid)
  simpa [Function.comp_def] using hids

theorem ChannelInv.timesHandled_le {s : State A} (hs : ChannelInv s) (env : Envelope A) :
    s.timesHandled env ≤ 1 :=
  List.nodup_iff_count_le_one.mp hs.handled_nodup _

theorem ChannelInv.timesHandled_eq_one {s : State A} (hs : ChannelInv s) {i : Nat}
    {env : Envelope A} (h : (i, env) ∈ s.ledger.handled) : s.timesHandled env = 1 := by
  obtain ⟨x, hx, heq⟩ := List.mem_map.mp h
  cases heq
  exact List.count_eq_one_of_mem hs.handled_nodup (List.mem_map.mpr ⟨x, hx, rfl⟩)

theorem ChannelInv.timesHandled_eq_zero {s : State A} (hs : ChannelInv s) {chan : Nat}
    {env : Envelope A} (haccepted : (chan, env) ∈ s.accepted)
    (h : ∀ i, (i, env) ∉ s.ledger.handled) : s.timesHandled env = 0 := by
  apply List.count_eq_zero.mpr
  intro hmem
  obtain ⟨x, hx, hid⟩ := List.mem_map.mp hmem
  obtain ⟨_, _, haccepted'⟩ := hs.accepted_of_handled hx
  have henv : x.env = env := congrArg Prod.snd (hs.eq_of_id haccepted' haccepted hid)
  exact h x.context (List.mem_map.mpr ⟨x, hx, by rw [henv]⟩)

theorem hand_of_busy {s : State A} {i : Nat} {env : Envelope A}
    (h : s.ledger.worker i = .busy env) :
    ∃ c : Context A, s.contexts[i]? = some c ∧ c.pos.hand = some env := by
  cases hc : s.contexts[i]? with
  | none => simp [State.ledger, hc] at h
  | some c =>
    rw [ledger_worker hc] at h
    refine ⟨c, rfl, ?_⟩
    cases hpos : c.pos <;> simp_all [Position.worker, Position.hand]

theorem panicked_of_lost {s : State A} {i : Nat} (h : s.ledger.worker i = .lost) :
    ∃ c : Context A, s.contexts[i]? = some c ∧ c.pos = .panicked := by
  cases hc : s.contexts[i]? with
  | none => simp [State.ledger, hc] at h
  | some c =>
    rw [ledger_worker hc] at h
    refine ⟨c, rfl, ?_⟩
    cases hpos : c.pos <;> simp_all [Position.worker]

theorem OneshotInv.kept {s : State A} (hs : OneshotInv s)
    (hcalm : ∀ c ∈ s.contexts, c.pos ≠ .panicked) {chan : Nat} {env : Envelope A}
    (haccepted : (chan, env) ∈ s.accepted) : s.timesHandled env = 1 ∨
      s.timesHandled env = 0 ∧ (env ∈ s.queue chan ∨ ∃ c ∈ s.contexts, c.pos.hand = some env) := by
  have hchannel := hs.channel
  rcases hchannel.sound.queue_or_taken haccepted with hqueue | ⟨i, htaken⟩
  · refine .inr ⟨hchannel.timesHandled_eq_zero haccepted ?_, .inl hqueue⟩
    intro i hhandled
    obtain ⟨_, htaken⟩ := hchannel.sound.taken_of_handled hhandled
    exact hchannel.sound.not_taken_of_queue hqueue htaken
  · rcases hchannel.sound.handled_of_taken htaken with hhandled | hbusy | hlost
    · exact .inl (hchannel.timesHandled_eq_one hhandled)
    · obtain ⟨c, hc, hhand⟩ := hand_of_busy hbusy
      refine .inr ⟨hchannel.timesHandled_eq_zero haccepted ?_, .inr ⟨c, ?_, hhand⟩⟩
      · intro j
        exact hchannel.sound.not_handled_of_busy hbusy
      · exact List.mem_of_getElem? hc
    · obtain ⟨c, hc, hpos⟩ := panicked_of_lost hlost
      exact absurd hpos (hcalm c (List.mem_of_getElem? hc))

theorem PatientInv.kept {s : State A} (hs : PatientInv s) {env : Envelope A}
    (haccepted : (0, env) ∈ s.accepted) : s.timesHandled env = 1 ∨
      s.timesHandled env = 0 ∧ (env ∈ s.queue 0 ∨ ∃ c ∈ s.contexts, c.pos.hand = some env) :=
  hs.oneshot.kept (fun c hc => (hs.patient c hc).1) haccepted

/-- The last context to stop finds the shared channel empty and closed. -/
theorem PatientInv.queue_of_stopped {s : State A} (hs : PatientInv s)
    (hgone : ∀ c ∈ s.contexts, c.pos.gone = true) : s.queue 0 = [] := by
  by_contra hqueue
  obtain ⟨env, rest, hqueue⟩ := List.exists_cons_of_ne_nil hqueue
  have haccepted : (0, env) ∈ s.accepted :=
    hs.oneshot.channel.sound.accepted_of_queue (by simp [hqueue])
  obtain ⟨c, _, hcons⟩ := List.exists_cons_of_ne_nil (hs.served (List.ne_nil_of_mem haccepted))
  have hc : c ∈ s.contexts := by simp [hcons]
  obtain ⟨hpanic, hleft⟩ := hs.patient c hc
  have hended : s.ended 0 = true := by
    apply hleft
    have hcgone := hgone c hc
    cases hpos : c.pos <;> simp_all [Position.gone, Position.left]
  rw [ended_iff, hqueue] at hended
  cases hended.1

theorem PatientInv.stopped {s : State A} (hs : PatientInv s)
    (hgone : ∀ c ∈ s.contexts, c.pos.gone = true) {env : Envelope A}
    (haccepted : (0, env) ∈ s.accepted) : s.timesHandled env = 1 := by
  rcases hs.kept haccepted with hone | ⟨_, hqueue | ⟨c, hc, hhand⟩⟩
  · exact hone
  · rw [hs.queue_of_stopped hgone] at hqueue
    cases hqueue
  · have hstays := gone_of_hand hhand
    rw [hgone c hc] at hstays
    cases hstays

theorem PatientInv.atRest {s : State A} (hs : PatientInv s) (hrest : s.AtRest)
    {env : Envelope A} (haccepted : (0, env) ∈ s.accepted) : s.timesHandled env = 1 := by
  by_cases hqueue : s.queue 0 = []
  · rcases hs.kept haccepted with hone | ⟨_, hmem | ⟨c, hc, hhand⟩⟩
    · exact hone
    · rw [hqueue] at hmem
      cases hmem
    · obtain ⟨i, hi⟩ := List.mem_iff_getElem?.mp hc
      rcases hrest i c hi with hgone | ⟨hpos, _⟩
      · rw [gone_of_hand hhand] at hgone
        cases hgone
      · rw [hpos] at hhand
        cases hhand
  · apply hs.stopped ?_ haccepted
    intro c hc
    obtain ⟨i, hi⟩ := List.mem_iff_getElem?.mp hc
    rcases hrest i c hi with hgone | ⟨hpos, hnone⟩
    · exact hgone
    · obtain ⟨first, rest, hcons⟩ := List.exists_cons_of_ne_nil hqueue
      have hreceives : c.receives 0 = true :=
        receives_iff.mpr ⟨by rw [hpos]; rfl, .inl (hs.shared c hc)⟩
      have htake := hnone 0
      simp only [State.recv, if_pos hreceives, hcons] at htake
      cases htake

theorem Genuine.answer_ne {h : Handled A} (hgenuine : Genuine h)
    (hmatch : ∀ st msg await, A.map (A.kind msg) (A.handle st msg await).2 ≠ none)
    {tx : Nat} {req : Request A} {r : Reply A} (hmsg : h.env.msg = req.message tx)
    (hreply : h.reply = some r) : req.answer r ≠ .unreachable := by
  have hofMap : ∀ (st : A.State) (msg : A.Message) (await : A.Await),
      Outcome.ofMap (A.map (A.kind msg) (A.handle st msg await).2) ≠ .unreachable := by
    intro st msg await
    cases hmap : A.map (A.kind msg) (A.handle st msg await).2 with
    | none => exact absurd hmap (hmatch st msg await)
    | some out => cases out <;> simp [Outcome.ofMap]
  cases req with
  | send msg | entry _ _ msg | item _ msg =>
    simp only [Genuine, hmsg, Request.message, hreply] at hgenuine
    obtain ⟨st, await, heq⟩ := hgenuine
    cases heq
    exact hofMap st msg await
  | run ret fut =>
    simp only [Genuine, hmsg, Request.message, hreply] at hgenuine
    obtain ⟨st, await, heq⟩ := hgenuine
    cases heq
    simp only [Request.answer]
    split <;> simp
  | sendLater | runLater =>
    simp only [Genuine, hmsg, Request.message, hreply] at hgenuine
    cases hgenuine
  | runInterval =>
    simp only [Genuine, hmsg, Request.message, hreply] at hgenuine
    obtain ⟨handler, heq⟩ := hgenuine
    cases heq
    simp [Request.answer]
  | closeOne =>
    simp only [Genuine, hmsg, Request.message] at hgenuine
    obtain ⟨id, generation, rfl⟩ := hgenuine r hreply
    simp [Request.answer]

section Runs
variable {cfg : Config} {build : Nat → A.State} {s t : State A} {ms : List (Move (State A) (Act A))}

theorem patientInv_of_path (hstart : Started cfg build s) (h : Path step s ms t)
    (hms : ∀ m ∈ ms, Undisturbed m) : PatientInv t :=
  h.invariant_of hms hstart.patientInv fun _ _ _ hact hstep hu => hu.step hstep hact

theorem undisturbed_of_clients (hstart : Started cfg build s) (h : Path step s ms t)
    (hclose : ∀ m ∈ ms, ∀ a, m.act ≠ .request (.call a .closeOne))
    (hpanic : ∀ m ∈ ms, ∀ i, m.act ≠ .panic i)
    (hinterval : ∀ m ∈ ms, ∀ a dur fut, m.act ≠ .request (.call a (.runInterval dur fut))) :
    ∀ m ∈ ms, Undisturbed m := by
  intro m hm
  refine ⟨⟨hpanic m hm, ?_⟩, hclose m hm⟩
  intro i chan await c hact hc hassert
  obtain ⟨env, tx, fut, dur, hhand, hmsg⟩ := hassert.exists_register
  obtain ⟨ps, qs, rfl, hps, _⟩ := h.exists_prefix hm
  have hinv : OneshotInv m.src ∧
      ∀ call ∈ m.src.calls, ∀ dur fut, call.req ≠ .runInterval dur fut := by
    apply hps.invariant_of (I := fun u => OneshotInv u ∧
      ∀ call ∈ u.calls, ∀ dur fut, call.req ≠ .runInterval dur fut)
      (C := fun m => ∀ a dur fut, m.act ≠ .request (.call a (.runInterval dur fut)))
    · exact fun n hn => hinterval n (List.mem_append_left _ hn)
    · refine ⟨hstart.oneshotInv, ?_⟩
      obtain ⟨w, rfl, _⟩ := hstart.exists_wiring
      simp [Wiring.finish]
    · intro u act v hquiet hstep hu
      refine ⟨hu.1.step hstep, ?_⟩
      apply (Moves.of_step hstep).requests (P := fun req => ∀ dur fut, req ≠ .runInterval dur fut)
        (by simp) (by simp) ?_ hu.2
      rintro a req rfl dur fut rfl
      exact hquiet a dur fut rfl
  obtain ⟨chan', haccepted⟩ := hinv.1.accepted_of_hand hc hhand
  obtain ⟨call, hcall, _, hreq, _⟩ :=
    hinv.1.request.sent chan' env haccepted tx (by rw [hmsg]; rfl)
  rw [hmsg] at hreq
  cases hr : call.req with
  | runInterval dur' fut' => exact hinv.2 call (List.mem_of_getElem? hcall) dur' fut' hr
  | _ =>
    rw [hr] at hreq
    cases hreq

theorem delivered_once (hstart : Started cfg build s) (h : Path step s ms t)
    (hms : ∀ m ∈ ms, Undisturbed m)
    (hmatch : ∀ st msg await, A.map (A.kind msg) (A.handle st msg await).2 ≠ none) :
    Delivered t := by
  have hinv := patientInv_of_path hstart h hms
  refine ⟨fun env _ => hinv.oneshot.channel.timesHandled_le env, fun env => hinv.kept,
    fun hgone env => hinv.stopped hgone, fun hrest env => hinv.atRest hrest,
    hinv.answer.genuine, ?_, ?_⟩
  · intro tx call v hcall hphase hawaits
    have hresolved := hinv.answer.resolved tx call hcall
    simp only [Resolved, hphase] at hresolved
    rcases hresolved with ⟨h, hh, hmsg, r, hreply, hout⟩ | ⟨hnone, _⟩ | ⟨e, herr⟩
    · exact ⟨h, hh, hmsg, r, hreply, hout.symm⟩
    · rw [hawaits] at hnone
      cases hnone
    · cases herr
  · intro call hcall hphase
    obtain ⟨tx, htx⟩ := List.mem_iff_getElem?.mp hcall
    have hresolved := hinv.answer.resolved tx call htx
    simp only [Resolved, hphase] at hresolved
    rcases hresolved with ⟨h, hh, hmsg, r, hreply, hout⟩ | ⟨_, hout⟩ | ⟨e, hout⟩
    · exact (hinv.answer.genuine h hh).answer_ne hmatch hmsg hreply hout.symm
    · cases hout
    · cases hout

/-- Two contexts, an awaited message for one and an unawaited one for the other. -/
theorem delivered_once_two_contexts :
    ∃ ms t, Path step (echoStart { Config.default with num := 2 }) ms t ∧
      t.handled.map Handled.context = [1, 0] ∧ Delivered t := by
  obtain ⟨ms, t, hpath, _, hp, hq⟩ := exists_path_of_checkedRun step
    (echoStart { Config.default with num := 2 })
    [.context 0 0 (), .context 0 0 (), .context 1 0 (), .context 1 0 (),
      .request (.call 0 (.send (true, 7))), .request (.doSend 0 (false, 5)), .request (.send 0),
      .context 0 0 (), .poll 0, .context 1 0 (), .context 1 0 (), .context 0 0 (),
      .request (.receive 0)]
    (fun _ act _ => match act with
      | .request (.call _ .closeOne) => false
      | .request (.call _ (.runInterval _ _)) => false
      | .panic _ => false
      | _ => true)
    (fun t => t.handled.map Handled.context == [1, 0]) (by decide)
  refine ⟨ms, t, hpath, by simpa using hq, delivered_once .start hpath ?_ ?_⟩
  · apply undisturbed_of_clients .start hpath
    · intro m hm a hact
      simpa [hact] using hp m hm
    · intro m hm i hact
      simpa [hact] using hp m hm
    · intro m hm a dur fut hact
      simpa [hact] using hp m hm
  · intro st msg await
    simp [echoActor]

end Runs

end ActixSend
