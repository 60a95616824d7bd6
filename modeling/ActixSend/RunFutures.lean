import ActixSend.Broadcast
import ActixSend.Object

/-! # The results of boxed futures

`run` gets a box back from whichever context ran its future. The oneshot leads
from the box to the request, and the request's own future has the type that the
request asks for.
-/

namespace ActixSend

open Transition
set_option autoImplicit false

section Contexts
variable {A : Actor} {s t : State A} {ms : List (Move (State A) (Act A))}

/-- A context runs the boxed future of the message on its actor and gets `o`. -/
def Runs (m : Move (State A) (Act A)) (env : Envelope A) (o : A.Object) : Prop :=
  ∃ i chan await c tx fut, m.act = .context i chan await ∧ m.src.contexts[i]? = some c ∧
    c.pos = .handle env ∧ env.msg = .instant (.dynamic tx fut) ∧
    (A.runFuture c.actor fut await).2.2 = o

theorem Runs.handled {m : Move (State A) (Act A)} {env : Envelope A} {o : A.Object}
    (h : Runs m env o) (hstep : step m.src m.act = some m.dst) :
    ∃ i, m.dst.handled = m.src.handled ++ [⟨i, env, some (.object o)⟩] := by
  obtain ⟨i, chan, await, c, tx, fut, hact, hc, hpos, hmsg, rfl⟩ := h
  refine ⟨i, ?_⟩
  rw [hact] at hstep
  simp only [step, State.contextStep, hc, hpos, State.handleMsg, hmsg, State.handleInstantMsg,
    Option.some.injEq] at hstep
  rw [← hstep, sendReplyTo_frame]
  rfl

theorem hand_of_dynamic {c : Context A} {env : Envelope A} {tx : Option Nat} {fut : A.Future}
    (hfits : c.pos.Fits) (hhand : c.pos.hand = some env)
    (hmsg : env.msg = .instant (.dynamic tx fut)) : c.pos = .handle env := by
  cases hpos : c.pos with
  | handle e =>
    rw [hpos] at hhand
    cases hhand
    rfl
  | insert e | pushCheck e | pushExtend e | reply e | intervalRun e =>
    rw [hpos] at hfits hhand
    cases hhand
    simp [Position.Fits, hmsg] at hfits
  | _ =>
    rw [hpos] at hhand
    cases hhand

theorem runs_of_handled {act : Act A} (hstep : step s act = some t) (hs : OneshotInv s)
    {x : Handled A} (hx : x ∈ t.handled) (hnew : x ∉ s.handled) {tx : Option Nat} {fut : A.Future}
    (hmsg : x.env.msg = .instant (.dynamic tx fut)) :
    ∃ o, Runs ⟨s, act, t⟩ x.env o ∧ x.reply = some (.object o) := by
  cases (Moves.of_step hstep).channelMove with
  | same _ hhandled | accept _ _ hhandled | panic _ _ _ hhandled =>
    rw [hhandled] at hx
    exact absurd hx hnew
  | @context i chan await c hact hc _ hledger =>
    cases hledger with
    | same _ _ hhandled | take _ _ _ _ hhandled | lose _ _ _ hhandled =>
      rw [hhandled] at hx
      exact absurd hx hnew
    | @finish env reply hhand _ _ hhandled =>
      rw [hhandled] at hx
      rcases List.mem_append.mp hx with hx | hx
      · exact absurd hx hnew
      · obtain rfl := List.mem_singleton.mp hx
        have hpos := hand_of_dynamic (hs.request.fits c (List.mem_of_getElem? hc)) hhand hmsg
        have hruns : Runs ⟨s, act, t⟩ env (A.runFuture c.actor fut await).2.2 :=
          ⟨i, chan, await, c, tx, fut, hact, hc, hpos, hmsg, rfl⟩
        obtain ⟨j, hhandled'⟩ := hruns.handled hstep
        rw [hhandled] at hhandled'
        obtain ⟨_, hentry⟩ := List.append_inj' hhandled' rfl
        cases hentry
        exact ⟨_, hruns, rfl⟩

theorem exists_runs (hs : OneshotInv s) (h : Path step s ms t) {x : Handled A}
    (hnone : s.handled = []) (hx : x ∈ t.handled) {tx : Option Nat} {fut : A.Future}
    (hmsg : x.env.msg = .instant (.dynamic tx fut)) :
    ∃ m ∈ ms, ∃ o, Runs m x.env o ∧ x.reply = some (.object o) := by
  induction h with
  | nil =>
    rw [hnone] at hx
    cases hx
  | @snoc ms u v act hpath hstep ih =>
    by_cases hold : x ∈ u.handled
    · obtain ⟨m, hm, hruns⟩ := ih hold
      exact ⟨m, List.mem_append_left _ hm, hruns⟩
    · have hu : OneshotInv u := hpath.invariant hs fun _ _ _ hstep hu => hu.step hstep
      exact ⟨_, List.mem_concat_self, runs_of_handled hstep hu hx hold hmsg⟩

end Contexts

section Results
variable {B : Actor} {C : Closures B.State B.Await} {R : C.Ty}

/-- A context calls the closure of request `tx` with its actor and gets `r`. -/
def Yields (tx : Nat) (f : C.Fn R)
    (m : Move (State (B.withClosures C)) (Act (B.withClosures C))) (r : C.Val R) : Prop :=
  ∃ i chan await c id, m.act = .context i chan await ∧ m.src.contexts[i]? = some c ∧
    c.pos = .handle ⟨id, .instant (.dynamic (some tx) (FutureObject.pack ⟨f⟩))⟩ ∧
    (C.call f c.actor await).2.2 = r

/-- What a request made by `run` with the closure `f` may rely on. -/
structure RunLaws (ms : List (Move (State (B.withClosures C)) (Act (B.withClosures C))))
    (t : State (B.withClosures C)) (tx : Nat) (call : Call (B.withClosures C)) (f : C.Fn R) :
    Prop where
  sent : ∀ x ∈ t.accepted, x.2.msg.tx = some tx →
    x.2.msg = .instant (.dynamic (some tx) (FutureObject.pack ⟨f⟩))
  once : ∀ m ∈ ms, ∀ m' ∈ ms, ∀ r r', Yields tx f m r → Yields tx f m' r' → r = r'
  packed : ∀ reply, call.phase = .waiting (some reply) →
    ∃ r, reply = .object (.pack R r) ∧ ∃ m ∈ ms, Yields tx f m r
  unpacks : ∀ r, call.phase = .waiting (some (.object (.pack R r))) →
    ∃ u, step t (.request (.receive tx)) = some u ∧
      u.calls[tx]? = some { call with phase := .done (.ok (.output (.inr ⟨R, r⟩))) }
  noTypeCast : call.phase ≠ .done (.err .typeCast)
  returns : ∀ v, call.phase = .done (.ok v) →
    ∃ r, v = .output (.inr ⟨R, r⟩) ∧ ∃ m ∈ ms, Yields tx f m r
  fails : ∀ out, call.phase = .done out → (∃ v, out = .ok v) ∨
    out.ofChannel = true ∧ ∀ m ∈ ms, ∀ r, ¬Yields tx f m r
  kept : ∀ m ∈ ms, ∀ r, Yields tx f m r → call.phase = .abandoned ∨
    call.phase = .waiting (some (.object (.pack R r))) ∨
    call.phase = .done (.ok (.output (.inr ⟨R, r⟩)))

theorem Yields.runs {tx : Nat} {f : C.Fn R}
    {m : Move (State (B.withClosures C)) (Act (B.withClosures C))} {r : C.Val R}
    (h : Yields tx f m r) :
    ∃ env, env.msg = (Address.run f).message tx ∧ Runs m env (.pack R r) := by
  obtain ⟨i, chan, await, c, id, hact, hc, hpos, rfl⟩ := h
  exact ⟨_, rfl, i, chan, await, c, some tx, FutureObject.pack ⟨f⟩, hact, hc, hpos, rfl, rfl⟩

theorem Runs.yields {tx : Nat} {f : C.Fn R}
    {m : Move (State (B.withClosures C)) (Act (B.withClosures C))}
    {env : Envelope (B.withClosures C)} {o : (B.withClosures C).Object} (h : Runs m env o)
    (hmsg : env.msg = (Address.run f).message tx) : ∃ r, o = .pack R r ∧ Yields tx f m r := by
  obtain ⟨id, msg⟩ := env
  obtain rfl : msg = (Address.run f).message tx := hmsg
  obtain ⟨i, chan, await, c, tx', fut, hact, hc, hpos, heq, rfl⟩ := h
  cases heq
  exact ⟨_, rfl, i, chan, await, c, id, hact, hc, hpos, rfl⟩

theorem answer_run (f : C.Fn R) (r : C.Val R) :
    (Address.run f).answer (.object (.pack R r)) = .ok (.output (.inr ⟨R, r⟩)) := by
  simp [Address.run, Request.answer, Actor.withClosures, unpack_pack_self]

variable {cfg : Config} {build : Nat → (B.withClosures C).State}
  {s t : State (B.withClosures C)}
  {ms : List (Move (State (B.withClosures C)) (Act (B.withClosures C)))}
  {tx : Nat} {call : Call (B.withClosures C)} {f : C.Fn R}

theorem exists_yields (hstart : Started cfg build s) (h : Path step s ms t)
    {x : Handled (B.withClosures C)} (hx : x ∈ t.handled)
    (hmsg : x.env.msg = (Address.run f).message tx) :
    ∃ r, x.reply = some (.object (.pack R r)) ∧ ∃ m ∈ ms, Yields tx f m r := by
  have hnone : s.handled = [] := by
    obtain ⟨w, rfl, _⟩ := hstart.exists_wiring
    rfl
  obtain ⟨m, hm, o, hruns, hreply⟩ := exists_runs hstart.oneshotInv h hnone hx hmsg
  obtain ⟨r, rfl, hyields⟩ := hruns.yields hmsg
  exact ⟨r, hreply, m, hm, hyields⟩

theorem Yields.handled {m : Move (State (B.withClosures C)) (Act (B.withClosures C))}
    {r : C.Val R} (hyields : Yields tx f m r) (h : Path step s ms t) (hm : m ∈ ms) :
    ∃ x ∈ t.handled, x.env.msg.tx = some tx ∧ x.reply = some (.object (.pack R r)) := by
  obtain ⟨env, hmsg, hruns⟩ := hyields.runs
  obtain ⟨_, _, _, _, hstep, hrest⟩ := h.exists_split hm
  obtain ⟨i, hhandled⟩ := hruns.handled hstep
  refine ⟨⟨i, env, some (.object (.pack R r))⟩, (handled_grows hrest).subset ?_, ?_, rfl⟩
  · rw [hhandled]
    exact List.mem_concat_self
  · rw [hmsg]
    rfl

theorem reply_of_handled (hstart : Started cfg build s) (h : Path step s ms t)
    (hs : OneshotInv t) (hc : t.calls[tx]? = some call) (hreq : call.req = Address.run f)
    {x : Handled (B.withClosures C)} (hx : x ∈ t.handled) (htx : x.env.msg.tx = some tx) :
    ∃ r, x.reply = some (.object (.pack R r)) ∧ ∃ m ∈ ms, Yields tx f m r := by
  obtain ⟨chan, haccepted⟩ := hs.accepted_of_handled hx
  obtain ⟨call', hc', _, hmsg, _⟩ := hs.request.sent chan x.env haccepted tx htx
  obtain rfl := Option.some.inj (hc.symm.trans hc')
  rw [hreq] at hmsg
  exact exists_yields hstart h hx hmsg

theorem outcome_of_run (hstart : Started cfg build s) (h : Path step s ms t)
    (hs : OutcomeInv t) (hc : t.calls[tx]? = some call) (hreq : call.req = Address.run f)
    {out : Outcome (B.withClosures C)} (hphase : call.phase = .done out) :
    (∃ r, out = .ok (.output (.inr ⟨R, r⟩)) ∧ ∃ m ∈ ms, Yields tx f m r) ∨
      out.ofChannel = true ∧ ¬t.Handles tx := by
  have hfate := hs.fate tx call hc (by rw [hreq]; rfl)
  simp only [Fate, hphase] at hfate
  rcases hfate with ⟨x, hx, htx, reply, hreply, hout⟩ | ⟨hout, hdead⟩
  · obtain ⟨r, hreply', hyields⟩ := reply_of_handled hstart h hs.oneshot hc hreq hx htx
    rw [hreply] at hreply'
    cases hreply'
    rw [hreq, answer_run] at hout
    exact .inl ⟨r, hout, hyields⟩
  · exact .inr ⟨hout, hdead.handled⟩

theorem phase_of_handled (hs : OutcomeInv t) (hc : t.calls[tx]? = some call)
    (hreq : call.req = Address.run f) {x : Handled (B.withClosures C)} {r : C.Val R}
    (hx : x ∈ t.handled) (htx : x.env.msg.tx = some tx)
    (hreply : x.reply = some (.object (.pack R r))) :
    call.phase = .abandoned ∨ call.phase = .waiting (some (.object (.pack R r))) ∨
      call.phase = .done (.ok (.output (.inr ⟨R, r⟩))) := by
  have hfate := hs.fate tx call hc (by rw [hreq]; rfl)
  cases hphase : call.phase with
  | sending =>
    obtain ⟨chan, haccepted⟩ := hs.oneshot.accepted_of_handled hx
    obtain ⟨call', hc', _, _, hsent⟩ := hs.oneshot.request.sent chan x.env haccepted tx htx
    obtain rfl := Option.some.inj (hc.symm.trans hc')
    exact absurd hphase hsent
  | waiting reply =>
    cases reply with
    | none =>
      simp only [Fate, hphase] at hfate
      exact absurd ⟨x, hx, htx⟩ hfate
    | some reply =>
      have hresolved := hs.answer.resolved tx call hc
      simp only [Resolved, hphase] at hresolved
      obtain ⟨y, hy, hmsg, hreply'⟩ := hresolved
      have hty : y.env.msg.tx = some tx := by
        rw [hmsg, hreq]
        rfl
      obtain rfl := hs.oneshot.handled_unique hx hy htx hty
      rw [hreply] at hreply'
      cases hreply'
      exact .inr (.inl rfl)
  | done out =>
    simp only [Fate, hphase] at hfate
    rcases hfate with ⟨y, hy, hty, reply, hreply', hout⟩ | ⟨_, hdead⟩
    · obtain rfl := hs.oneshot.handled_unique hx hy htx hty
      rw [hreply] at hreply'
      cases hreply'
      rw [hreq, answer_run] at hout
      rw [hout]
      exact .inr (.inr rfl)
    · exact absurd ⟨x, hx, htx⟩ hdead.handled
  | abandoned => exact .inl rfl

theorem exists_receive (hc : t.calls[tx]? = some call) (hreq : call.req = Address.run f)
    {r : C.Val R} (hphase : call.phase = .waiting (some (.object (.pack R r)))) :
    ∃ u, step t (.request (.receive tx)) = some u ∧
      u.calls[tx]? = some { call with phase := .done (.ok (.output (.inr ⟨R, r⟩))) } := by
  refine ⟨t.setCall tx { call with phase := .done (.ok (.output (.inr ⟨R, r⟩))) }, ?_,
    getElem?_set_self_of hc⟩
  simp only [step, State.requestStep, State.receiveCall, hc, hphase, hreq, answer_run]
  rfl

theorem runLaws (hstart : Started cfg build s) (h : Path step s ms t)
    (hc : t.calls[tx]? = some call) (hreq : call.req = Address.run f) :
    RunLaws ms t tx call f := by
  have hs : OutcomeInv t := h.invariant hstart.outcomeInv fun _ _ _ hstep hu => hu.step hstep
  constructor
  · intro x hx htx
    obtain ⟨call', hc', _, hmsg, _⟩ := hs.oneshot.request.sent x.1 x.2 hx tx htx
    obtain rfl := Option.some.inj (hc.symm.trans hc')
    rw [hmsg, hreq]
    rfl
  · intro m hm m' hm' r r' hyields hyields'
    obtain ⟨x, hx, htx, hreply⟩ := hyields.handled h hm
    obtain ⟨y, hy, hty, hreply'⟩ := hyields'.handled h hm'
    obtain rfl := hs.oneshot.handled_unique hx hy htx hty
    rw [hreply] at hreply'
    cases hreply'
    rfl
  · intro reply hphase
    have hresolved := hs.answer.resolved tx call hc
    simp only [Resolved, hphase] at hresolved
    obtain ⟨x, hx, hmsg, hreply⟩ := hresolved
    rw [hreq] at hmsg
    obtain ⟨r, hreply', hyields⟩ := exists_yields hstart h hx hmsg
    rw [hreply] at hreply'
    exact ⟨r, Option.some.inj hreply', hyields⟩
  · exact fun r hphase => exists_receive hc hreq hphase
  · intro hphase
    rcases outcome_of_run hstart h hs hc hreq hphase with ⟨_, hout, _⟩ | ⟨hout, _⟩ <;> cases hout
  · intro v hphase
    rcases outcome_of_run hstart h hs hc hreq hphase with ⟨r, hout, hyields⟩ | ⟨hout, _⟩
    · cases hout
      exact ⟨r, rfl, hyields⟩
    · cases hout
  · intro out hphase
    rcases outcome_of_run hstart h hs hc hreq hphase with ⟨r, hout, _⟩ | ⟨hout, hnone⟩
    · exact .inl ⟨_, hout⟩
    · refine .inr ⟨hout, fun m hm r hyields => hnone ?_⟩
      obtain ⟨x, hx, htx, _⟩ := hyields.handled h hm
      exact ⟨x, hx, htx⟩
  · intro m hm r hyields
    obtain ⟨x, hx, htx, hreply⟩ := hyields.handled h hm
    exact phase_of_handled hs hc hreq hx htx hreply

/-- Nothing of what a type was forgotten for comes back as another type. -/
theorem run_futures_laws (hstart : Started cfg build s) (h : Path step s ms t) :
    (∀ (R : C.Ty) (r : C.Val R) (tys : List C.Ty), UnpackLaws r tys) ∧
    ∀ (R : C.Ty) (f : C.Fn R) (tx : Nat) (call : Call (B.withClosures C)),
      t.calls[tx]? = some call → call.req = Address.run f → RunLaws ms t tx call f :=
  ⟨fun _ r tys => unpackLaws r tys, fun _ _ _ _ hc hreq => runLaws hstart h hc hreq⟩

end Results

/-- Closures that yield what they were made with, a number or a flag. -/
def echoClosures : Closures Unit Unit where
  Ty := Bool
  Val := fun
    | true => Nat
    | false => Bool
  Fn := fun
    | true => Nat
    | false => Bool
  call {R} f act _ := match R with
    | true => (act, f, f)
    | false => (act, f, f)

def typedActor : Actor := echoActor.withClosures echoClosures

def runActs : List (Act typedActor) :=
  [.context 0 0 (), .context 0 0 (), .request (.call 0 (Address.run (R := true) (7 : Nat))),
    .request (.call 0 (Address.run (R := false) true)), .request (.send 1), .request (.send 0),
    .context 0 0 (), .context 0 0 (), .context 0 0 (), .context 0 0 (), .request (.receive 0),
    .request (.receive 1)]

def gotSeven (call : Call typedActor) : Bool :=
  match call.req, call.phase with
  | .run true (@FutureObjectContainer.mk _ _ _ true ⟨f⟩),
    .done (.ok (.output (.inr ⟨true, r⟩))) => Nat.beq f 7 && Nat.beq r 7
  | _, _ => false

theorem req_of_gotSeven {call : Call typedActor} (h : gotSeven call = true) :
    call.req = Address.run (R := true) (7 : Nat) ∧
      call.phase = .done (.ok (.output (.inr ⟨true, (7 : Nat)⟩))) := by
  unfold gotSeven at h
  split at h
  · rename_i f r hreq hdone
    obtain ⟨hf, hr⟩ := Bool.and_eq_true_iff.mp h
    rw [hreq, hdone, Nat.eq_of_beq_eq_true hf, Nat.eq_of_beq_eq_true hr]
    exact ⟨rfl, rfl⟩
  · cases h

theorem run_futures_laws_typed : ∃ ms t, Path step (Builder.start Config.default fun _ => ()) ms t ∧
    (∃ call : Call typedActor, t.calls[0]? = some call ∧
      call.req = Address.run (R := true) (7 : Nat) ∧
      call.phase = .done (.ok (.output (.inr ⟨true, (7 : Nat)⟩)))) ∧
    (∀ (R : Bool) (r : echoClosures.Val R) (tys : List Bool), UnpackLaws r tys) ∧
    ∀ (R : Bool) (f : echoClosures.Fn R) (tx : Nat) (call : Call typedActor),
      t.calls[tx]? = some call → call.req = Address.run f → RunLaws ms t tx call f := by
  obtain ⟨ms, t, hpath, _, _, hq⟩ := exists_path_of_checkedRun step
    (Builder.start (A := typedActor) Config.default fun _ => ()) runActs (fun _ _ _ => true)
    (fun t => t.calls[0]?.any gotSeven) (by decide)
  obtain ⟨call, hcall, hphase⟩ := (Option.any_eq_true _ _).mp hq
  exact ⟨ms, t, hpath, ⟨call, hcall, req_of_gotSeven hphase⟩, run_futures_laws .start hpath⟩

end ActixSend
