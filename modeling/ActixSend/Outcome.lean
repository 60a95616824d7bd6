import ActixSend.Calls
import ActixSend.Delivery

/-! # What an outcome tells

A caller that gets an error of the channels knows that its message has not been
handled and will not be; any other outcome is made of the reply.
-/

namespace ActixSend

open Transition
set_option autoImplicit false

variable {A : Actor}

def State.Handles (s : State A) (tx : Nat) : Prop := ∃ h ∈ s.handled, h.env.msg.tx = some tx

/-- The message of request `tx` is gone without having been handled. -/
structure Dead (s : State A) (tx : Nat) : Prop where
  handled : ¬s.Handles tx
  hand : ∀ c ∈ s.contexts, ∀ env, c.pos.hand = some env → env.msg.tx ≠ some tx
  queue : ∀ chan, ∀ env ∈ s.queue chan, env.msg.tx = some tx → s.receiver chan = false

/-- The errors with which the channels end a request. -/
def ActixSendError.ofChannel : ActixSendError → Bool
  | .closed => true
  | .timeout => true
  | .canceled => true
  | _ => false

def Outcome.ofChannel : Outcome A → Bool
  | .err e => e.ofChannel
  | _ => false

/-- What the phase of request `tx` says about its message. -/
def Fate (s : State A) (tx : Nat) (call : Call A) : Prop :=
  match call.phase with
  | .waiting none => ¬s.Handles tx
  | .done out => (∃ h ∈ s.handled, h.env.msg.tx = some tx ∧
      ∃ r, h.reply = some r ∧ out = call.req.answer r) ∨ out.ofChannel = true ∧ Dead s tx
  | _ => True

structure OutcomeInv (s : State A) : Prop where
  oneshot : OneshotInv s
  answer : AnswerInv s
  fate : ∀ (tx : Nat) (call : Call A), s.calls[tx]? = some call →
    call.req.awaitsReply = true → Fate s tx call

theorem OneshotInv.accepted_of_handled {s : State A} (hs : OneshotInv s) {h : Handled A}
    (hh : h ∈ s.handled) : ∃ chan, (chan, h.env) ∈ s.accepted := by
  obtain ⟨chan, _, haccepted⟩ := hs.channel.accepted_of_handled hh
  exact ⟨chan, haccepted⟩

theorem Moves.handled_or_hand {s t : State A} {act : Act A} (h : Moves s act t) {x : Handled A}
    (hx : x ∈ t.handled) : x ∈ s.handled ∨ ∃ c ∈ s.contexts, c.pos.hand = some x.env := by
  cases h.channelMove with
  | same _ hhandled | accept _ _ hhandled | panic _ _ _ hhandled =>
    rw [hhandled] at hx
    exact .inl hx
  | context _ hc _ hledger =>
    cases hledger with
    | same _ _ hhandled | take _ _ _ _ hhandled | lose _ _ _ hhandled =>
      rw [hhandled] at hx
      exact .inl hx
    | finish _ hhand _ _ hhandled =>
      rw [hhandled] at hx
      rcases List.mem_append.mp hx with hx | hx
      · exact .inl hx
      · obtain rfl := List.mem_singleton.mp hx
        exact .inr ⟨_, List.mem_of_getElem? hc, hhand⟩

theorem Moves.hand_or_queue {s t : State A} {act : Act A} (h : Moves s act t) {c : Context A}
    {env : Envelope A} (hc : c ∈ t.contexts) (hhand : c.pos.hand = some env) :
    (∃ c ∈ s.contexts, c.pos.hand = some env) ∨
      ∃ chan, env ∈ s.queue chan ∧ s.receiver chan = true := by
  obtain ⟨i, hi⟩ := List.mem_iff_getElem?.mp hc
  have hbusy : t.ledger.worker i = .busy env := by rw [ledger_worker hi, worker_of_hand hhand]
  have hbefore : ∀ {j : Nat}, s.ledger.worker j = .busy env →
      ∃ c ∈ s.contexts, c.pos.hand = some env := by
    intro j hj
    obtain ⟨c', hc', hhand'⟩ := hand_of_busy hj
    exact ⟨c', List.mem_of_getElem? hc', hhand'⟩
  cases h.channelMove with
  | same hledger | accept _ _ _ _ hledger =>
    rw [hledger] at hbusy
    exact .inl (hbefore hbusy)
  | @panic j _ _ _ _ _ _ hledger =>
    rw [hledger] at hbusy
    by_cases hij : i = j
    · simp [Ledger.lose, hij] at hbusy
    · exact .inl (hbefore (by simpa [Ledger.lose, hij] using hbusy))
  | @context j _ _ cj _ hcj _ hledger =>
    cases hledger with
    | same hledger =>
      rw [hledger] at hbusy
      exact .inl (hbefore hbusy)
    | @take chan env' rest hpos hrecv hqueue hledger =>
      rw [hledger] at hbusy
      by_cases hij : i = j
      · obtain rfl : env' = env := by simpa [Ledger.take, hij] using hbusy
        have hopen : s.receiver chan = true :=
          List.any_eq_true.mpr ⟨cj, List.mem_of_getElem? hcj, hrecv⟩
        exact .inr ⟨chan, by rw [hqueue]; exact List.mem_cons_self, hopen⟩
      · exact .inl (hbefore (by simpa [Ledger.take, hij] using hbusy))
    | finish _ _ hledger | lose _ hledger =>
      rw [hledger] at hbusy
      by_cases hij : i = j
      · simp [Ledger.finish, Ledger.lose, hij] at hbusy
      · exact .inl (hbefore (by simpa [Ledger.finish, Ledger.lose, hij] using hbusy))

def Unsent (s : State A) (tx : Nat) : Prop := ∀ x ∈ s.accepted, x.2.msg.tx ≠ some tx

theorem OneshotInv.unsent {s : State A} (hs : OneshotInv s) {tx : Nat}
    (h : ∀ call : Call A, s.calls[tx]? = some call → call.phase = .sending) : Unsent s tx := by
  rintro ⟨chan, env⟩ hx htx
  obtain ⟨call, hcall, _, _, hphase⟩ := hs.request.sent chan env hx tx htx
  exact hphase (h call hcall)

theorem Unsent.dead {s : State A} {tx : Nat} (h : Unsent s tx) (hs : OneshotInv s) :
    Dead s tx := by
  refine ⟨?_, ?_, ?_⟩
  · rintro ⟨x, hx, htx⟩
    obtain ⟨chan, haccepted⟩ := hs.accepted_of_handled hx
    exact h _ haccepted htx
  · intro c hc env hhand htx
    obtain ⟨i, hi⟩ := List.mem_iff_getElem?.mp hc
    obtain ⟨chan, haccepted⟩ := hs.accepted_of_hand hi hhand
    exact h _ haccepted htx
  · intro chan env henv htx
    exact absurd htx (h _ (hs.channel.sound.accepted_of_queue henv))

/-- A caller that finds its oneshot closed has lost its message. -/
theorem dead_of_oneShotSender {s : State A} {tx : Nat} {call : Call A} (hs : OneshotInv s)
    (hcall : s.calls[tx]? = some call) (hheld : s.oneShotSender tx = false)
    (hnone : ¬s.Handles tx) : Dead s tx := by
  simp only [State.oneShotSender, hcall, Bool.or_eq_false_iff, Bool.and_eq_false_iff,
    List.any_eq_false, beq_iff_eq] at hheld
  obtain ⟨⟨_, hqueue⟩, hhands⟩ := hheld
  refine ⟨hnone, ?_, ?_⟩
  · intro c hc env hhand htx
    exact hhands c hc (by simp [hhand, htx])
  · intro chan env henv htx
    obtain ⟨call', hcall', hchan, _⟩ :=
      hs.request.sent chan env (hs.channel.sound.accepted_of_queue henv) tx htx
    obtain rfl := Option.some.inj (hcall.symm.trans hcall')
    rw [hchan] at hqueue
    rcases hqueue with hclosed | hnone
    · exact hclosed.2
    · exact absurd htx (hnone env henv)

/-- Only a send of the request's own brings its message back. -/
theorem Dead.lasts {s t : State A} {act : Act A} {tx : Nat} (h : step s act = some t)
    (hs : OneshotInv s) (hdead : Dead s tx)
    (hover : ∀ call : Call A, t.calls[tx]? = some call → call.phase ≠ .waiting none) :
    Dead t tx := by
  have hmove := Moves.of_step h
  refine ⟨?_, ?_, ?_⟩
  · rintro ⟨x, hx, htx⟩
    rcases hmove.handled_or_hand hx with hx | ⟨c, hc, hhand⟩
    · exact hdead.handled ⟨x, hx, htx⟩
    · exact hdead.hand c hc _ hhand htx
  · intro c hc env hhand htx
    rcases hmove.hand_or_queue hc hhand with ⟨c', hc', hhand'⟩ | ⟨chan, henv, hopen⟩
    · exact hdead.hand c' hc' env hhand' htx
    · rw [hdead.queue chan env henv htx] at hopen
      cases hopen
  · intro chan env henv htx
    rcases hmove.channelMove.queue_cases henv with henv | ⟨_, msg, hsends, rfl⟩
    · have hclosed := hdead.queue chan env henv htx
      by_contra hopen
      rw [hmove.receiver_stable (Bool.not_eq_false _ ▸ hopen)] at hclosed
      cases hclosed
    · obtain ⟨_, call, hcall, _, _, hphase⟩ := sends_awaited hsends hs.request htx
      exact absurd hphase (hover call hcall)

theorem sendReply_over {s : State A} {tx : Nat} {reply : Reply A} {call : Call A}
    (hcall : (s.sendReply tx reply).calls[tx]? = some call) : call.phase ≠ .waiting none := by
  unfold State.sendReply at hcall
  split at hcall
  · rename_i call' hcall'
    split at hcall
    · simp only [State.setCall, getElem?_set_self_of hcall'] at hcall
      obtain rfl := Option.some.inj hcall
      simp
    · rename_i hphase
      obtain rfl := Option.some.inj (hcall'.symm.trans hcall)
      exact hphase
  · rename_i hnone
    rw [hnone] at hcall
    cases hcall

theorem afterPush_over {s : State A} {i tx : Nat} {c : Context A} {env : Envelope A}
    {h : FutureHandler} {handlers : List FutureHandler} {entry : Handled A}
    (hfits : (∃ msg, env.msg = .delayed msg) ∨
      ∃ tx fut dur, env.msg = .interval (.register tx fut dur))
    (hsnoc : ({ s with handlers := handlers }.afterPush i c env h).handled = s.handled ++ [entry]) :
    entry.env.msg.tx ≠ some tx := by
  simp only [State.afterPush] at hsnoc
  split at hsnoc
  · exact absurd hsnoc.symm (by simp [State.setContext])
  · rename_i hother
    obtain rfl : _ = entry := by simpa [State.finish] using hsnoc
    rcases hfits with ⟨msg, hmsg⟩ | ⟨tx, fut, dur, hmsg⟩
    · simp [hmsg, ContextMessage.tx]
    · exact absurd hmsg (hother tx fut dur)

theorem ContextMove.over {s t : State A} {i tx : Nat} {c : Context A} {entry : Handled A}
    (h : ContextMove s i c t) (hfits : c.pos.Fits) (hsnoc : t.handled = s.handled ++ [entry])
    (htx : entry.env.msg.tx = some tx) {call : Call A} (hcall : t.calls[tx]? = some call) :
    call.phase ≠ .waiting none := by
  cases h with
  | @close env tx' hpos hmsg =>
    rw [sendReply_frame] at hsnoc hcall
    obtain rfl : _ = entry := by simpa [State.finish] using hsnoc
    obtain rfl : tx' = tx := by simpa [hmsg, ContextMessage.tx] using htx
    exact sendReply_over hcall
  | @closeRefused env tx' hpos hmsg hopen =>
    obtain rfl : _ = entry := by simpa [State.finish] using hsnoc
    obtain rfl : tx' = tx := by simpa [hmsg, ContextMessage.tx] using htx
    change s.calls[tx']? = some call at hcall
    intro hphase
    simp [State.oneShotOpen, hcall, hphase] at hopen
  | @static env tx' _ _ hpos hmsg | @dynamic env tx' _ _ hpos hmsg =>
    rw [sendReplyTo_frame] at hsnoc hcall
    obtain rfl : _ = entry := by simpa [State.finish] using hsnoc
    obtain rfl : tx' = some tx := by simpa [hmsg, ContextMessage.tx] using htx
    exact sendReply_over hcall
  | delayedLost hpos hmsg | remove hpos hmsg =>
    obtain rfl : _ = entry := by simpa [State.finish] using hsnoc
    rw [hmsg] at htx
    cases htx
  | pushRefused hpos | pushExtend hpos =>
    rw [hpos] at hfits
    exact absurd htx (afterPush_over hfits hsnoc)
  | @reply env tx' _ hpos =>
    rw [hpos] at hfits
    obtain ⟨fut, dur, hmsg⟩ := hfits
    rw [sendReply_frame] at hsnoc hcall
    obtain rfl : _ = entry := by simpa [State.finish] using hsnoc
    obtain rfl : tx' = tx := by simpa [hmsg, ContextMessage.tx] using htx
    exact sendReply_over hcall
  | intervalRun hpos =>
    rw [hpos] at hfits
    simp only [State.runInterval] at hsnoc
    split at hsnoc
    · obtain rfl : _ = entry := by simpa [State.finish] using hsnoc
      rw [hfits] at htx
      cases htx
    · obtain rfl : _ = entry := by simpa [State.finish] using hsnoc
      rw [hfits] at htx
      cases htx
  | build | onStart | incActive | take | leave | delayed | lockRun | register | insert
  | insertPanic | pushCheck | restart | stop | onStop =>
    exact absurd hsnoc.symm (by simp [State.setContext, State.spawnCancelable])

theorem Moves.not_handles {s t : State A} {act : Act A} {tx : Nat} {call : Call A}
    (h : Moves s act t) (hs : OneshotInv s) (hnone : ¬s.Handles tx)
    (hcall : t.calls[tx]? = some call) (hphase : call.phase = .waiting none) : ¬t.Handles tx := by
  rintro ⟨x, hx, htx⟩
  rcases h.handled_cases with hsame | ⟨i, _, _, c, _, hc, hmove, entry, hsnoc⟩
  · rw [hsame] at hx
    exact hnone ⟨x, hx, htx⟩
  · rw [hsnoc] at hx
    rcases List.mem_append.mp hx with hx | hx
    · exact hnone ⟨x, hx, htx⟩
    · obtain rfl := List.mem_singleton.mp hx
      have hfits := hs.request.fits c (List.mem_of_getElem? hc)
      exact hmove.over hfits hsnoc htx hcall hphase

theorem Dead.fate {s t : State A} {act : Act A} {tx : Nat} {call : Call A} {out : Outcome A}
    (h : step s act = some t) (hs : OneshotInv s) (hdead : Dead s tx)
    (hcall : t.calls[tx]? = some call) (hphase : call.phase = .done out)
    (hout : out.ofChannel = true) : Fate t tx call := by
  simp only [Fate, hphase]
  refine .inr ⟨hout, hdead.lasts h hs fun call' hcall' => ?_⟩
  obtain rfl := Option.some.inj (hcall.symm.trans hcall')
  rw [hphase]
  nofun

theorem Fate.keep {s t : State A} {act : Act A} {tx : Nat} {call : Call A}
    (h : step s act = some t) (hs : OneshotInv s) (hfate : Fate s tx call)
    (hcall : t.calls[tx]? = some call) : Fate t tx call := by
  have hmove := Moves.of_step h
  cases hphase : call.phase with
  | waiting reply =>
    cases reply with
    | none =>
      simp only [Fate, hphase] at hfate ⊢
      exact hmove.not_handles hs hfate hcall hphase
    | some r => simp only [Fate, hphase]
  | done out =>
    have hbefore := hfate
    simp only [Fate, hphase] at hbefore
    rcases hbefore with ⟨x, hx, hrest⟩ | ⟨hout, hdead⟩
    · simp only [Fate, hphase]
      exact .inl ⟨x, hmove.handled_extends.subset hx, hrest⟩
    · exact hdead.fate h hs hcall hphase hout
  | sending | abandoned => simp only [Fate, hphase]

theorem fate_step {s t : State A} {act : Act A} {tx : Nat} {call' : Call A}
    (h : step s act = some t) (hs : OutcomeInv s) (hcall' : t.calls[tx]? = some call')
    (hawaits : call'.req.awaitsReply = true) : Fate t tx call' := by
  have hmove := Moves.of_step h
  cases hmove.callOrigin hcall' with
  | new _ hphase => simp only [Fate, hphase]
  | item hlen _ hphase =>
    have hunsent : Unsent s tx := hs.oneshot.unsent fun call hcall => by
      rw [List.getElem?_eq_none hlen] at hcall
      cases hcall
    rcases hphase with hphase | hphase
    · simp only [Fate, hphase]
      exact hmove.not_handles hs.oneshot (hunsent.dead hs.oneshot).handled hcall' hphase
    · exact (hunsent.dead hs.oneshot).fate h hs.oneshot hcall' hphase rfl
  | @old call hcall hturn =>
    have hsending : call.phase = .sending → Dead s tx := fun hphase =>
      (hs.oneshot.unsent fun call'' hcall'' => by
        rwa [← Option.some.inj (hcall.symm.trans hcall'')]).dead hs.oneshot
    cases hturn with
    | keep => exact (hs.fate tx _ hcall hawaits).keep h hs.oneshot hcall'
    | refuse hphase | timeout hphase =>
      exact (hsending hphase).fate h hs.oneshot hcall' rfl rfl
    | send hphase =>
      have hwaiting : (if call.req.awaitsReply = true then .waiting none else .done (.ok .unit)) =
          (.waiting none : CallPhase A) := if_pos hawaits
      simp only [Fate, hwaiting]
      exact hmove.not_handles hs.oneshot (hsending hphase).handled hcall' hwaiting
    | answered => trivial
    | @receive reply _ hphase =>
      have hresolved := hs.answer.resolved tx call hcall
      simp only [Resolved, hphase] at hresolved
      obtain ⟨x, hx, hmsg, hreply⟩ := hresolved
      refine .inl ⟨x, hmove.handled_extends.subset hx, ?_, reply, hreply, rfl⟩
      rw [hmsg, Request.message_tx, if_pos hawaits]
    | canceled hphase hheld =>
      have hfate := hs.fate tx call hcall hawaits
      simp only [Fate, hphase] at hfate
      exact (dead_of_oneShotSender hs.oneshot hcall hheld hfate).fate h hs.oneshot hcall' rfl rfl
    | abandon => trivial

theorem OutcomeInv.step {s t : State A} {act : Act A} (h : step s act = some t)
    (hs : OutcomeInv s) : OutcomeInv t :=
  ⟨hs.oneshot.step h, hs.answer.step h hs.oneshot, fun _ _ hcall hawaits =>
    fate_step h hs hcall hawaits⟩

theorem Started.outcomeInv {cfg : Config} {build : Nat → A.State} {s : State A}
    (h : Started cfg build s) : OutcomeInv s := by
  have honeshot := h.oneshotInv
  have hanswer := h.answerInv
  obtain ⟨w, rfl, _⟩ := h.exists_wiring
  exact ⟨honeshot, hanswer, fun _ _ hcall => by cases hcall⟩

end ActixSend
