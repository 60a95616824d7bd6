import ActixSend.Broadcast
import ActixSend.Sequential

/-! # Real time

A request takes effect when its message is handled, at one moment between the
call and the answer. So the order in which messages are handled never
contradicts the order in which callers see their requests begin and end, and a
request that failed in a channel has no effect at all.
-/

namespace ActixSend

open Transition
set_option autoImplicit false

variable {A : Actor}

def Ended (s : State A) (tx : Nat) (call : Call A) (out : Outcome A) : Prop :=
  s.calls[tx]? = some call ∧ call.req.awaitsReply = true ∧ call.phase = .done out

def EffectOf (x : Handled A) (tx : Nat) (call : Call A) (out : Outcome A) : Prop :=
  x.env.msg = call.req.message tx ∧ ∃ reply, x.reply = some reply ∧ out = call.req.answer reply

structure RealTime (s : State A) (ms : List (Move (State A) (Act A))) (t : State A) : Prop where
  once : ∀ tx, (t.handled.countP fun x => x.env.msg.tx == some tx) ≤ 1
  ended : ∀ u ∈ visited s ms, ∀ tx call out, Ended u tx call out →
    (∃ x ∈ u.handled, EffectOf x tx call out) ∨ out.ofChannel = true ∧ ¬t.Handles tx
  ordered : ∀ u ∈ visited s ms, ∀ tx call out, Ended u tx call out → out.ofChannel = false →
    ∀ tx', u.calls.length ≤ tx' → ∀ y ∈ t.handled, y.env.msg.tx = some tx' →
    ∃ before x between after, t.handled = before ++ x :: (between ++ y :: after) ∧
      EffectOf x tx call out

theorem OutcomeInv.effect_or_dead {s : State A} (hs : OutcomeInv s) {tx : Nat} {call : Call A}
    {out : Outcome A} (h : Ended s tx call out) :
    (∃ x ∈ s.handled, EffectOf x tx call out) ∨ out.ofChannel = true ∧ Dead s tx := by
  obtain ⟨hc, hawaits, hphase⟩ := h
  exact hs.answered_or_dead hc hawaits hphase

theorem OneshotInv.made {s : State A} (hs : OneshotInv s) {x : Handled A} (hx : x ∈ s.handled)
    {tx : Nat} (htx : x.env.msg.tx = some tx) : tx < s.calls.length := by
  obtain ⟨chan, haccepted⟩ := hs.accepted_of_handled hx
  obtain ⟨call, hc, _⟩ := hs.request.sent chan x.env haccepted tx htx
  exact (List.getElem?_eq_some_iff.mp hc).1

theorem OneshotInv.countP_le_one {s : State A} (hs : OneshotInv s) (tx : Nat) :
    (s.handled.countP fun x => x.env.msg.tx == some tx) ≤ 1 := by
  apply countP_le_one_of_nodup hs.channel.handled_nodup
  intro x hx y hy htx hty
  rw [beq_iff_eq] at htx hty
  rw [hs.handled_unique hx hy htx hty]

theorem CallTurn.over {s t : State A} {act : Act A} {tx : Nat} {call call' : Call A}
    (h : CallTurn s t act tx call call') (hover : call.pending = false) :
    call'.pending = false := by
  cases h with
  | keep => exact hover
  | refuse | timeout | receive | canceled | abandon => rfl
  | send hphase | answered hphase =>
    simp only [Call.pending, hphase] at hover
    cases hover

def State.Over (s : State A) (tx : Nat) : Prop :=
  ∃ call : Call A, s.calls[tx]? = some call ∧ call.pending = false

theorem Moves.over {s t : State A} {act : Act A} (h : Moves s act t) {tx : Nat}
    (hs : s.Over tx) : t.Over tx := by
  obtain ⟨call, hc, hover⟩ := hs
  obtain ⟨call', hc', _⟩ := h.continues tx call hc
  refine ⟨call', hc', ?_⟩
  obtain ⟨hlt, _⟩ := List.getElem?_eq_some_iff.mp hc
  cases h.callOrigin hc' with
  | old hold hturn =>
    obtain rfl := Option.some.inj (hc.symm.trans hold)
    exact hturn.over hover
  | new hlen | item hlen => omega

theorem State.Over.not_waiting {s : State A} {tx : Nat} (hs : s.Over tx) :
    ∀ call : Call A, s.calls[tx]? = some call → call.phase ≠ .waiting none := by
  obtain ⟨call, hc, hover⟩ := hs
  intro call' hc' hphase
  obtain rfl := Option.some.inj (hc.symm.trans hc')
  simp only [Call.pending, hphase] at hover
  cases hover

theorem Dead.along {u t : State A} {ns : List (Move (State A) (Act A))} {tx : Nat}
    (hdead : Dead u tx) (hu : OneshotInv u) (hover : u.Over tx) (h : Path step u ns t) :
    Dead t tx := by
  have hinv : OneshotInv t ∧ t.Over tx ∧ Dead t tx := by
    refine h.invariant (I := fun v => OneshotInv v ∧ v.Over tx ∧ Dead v tx) ⟨hu, hover, hdead⟩ ?_
    rintro v act w hstep ⟨hv, hvover, hvdead⟩
    have hwover := (Moves.of_step hstep).over hvover
    exact ⟨hv.step hstep, hwover, hvdead.lasts hstep hv hwover.not_waiting⟩
  exact hinv.2.2

section Runs
variable {cfg : Config} {build : Nat → A.State} {s t : State A} {ms : List (Move (State A) (Act A))}

theorem exists_between_of_prefix {α : Type} {l l' : List α} (h : l <+: l') {x y : α} (hx : x ∈ l)
    (hy : y ∈ l') (hnew : y ∉ l) :
    ∃ before between after, l' = before ++ x :: (between ++ y :: after) := by
  obtain ⟨rest, rfl⟩ := h
  obtain ⟨before, middle, rfl⟩ := List.append_of_mem hx
  have hrest : y ∈ rest := (List.mem_append.mp hy).resolve_left hnew
  obtain ⟨between, after, rfl⟩ := List.append_of_mem hrest
  exact ⟨before, middle ++ between, after, by simp⟩

theorem effects_in_real_time (hstart : Started cfg build s) (h : Path step s ms t) :
    RealTime s ms t := by
  have hvisited : ∀ u ∈ visited s ms, OutcomeInv u ∧ ∃ ns, Path step u ns t := by
    intro u hu
    obtain ⟨ps, qs, _, hps, hqs⟩ := h.exists_split_at hu
    exact ⟨outcomeInv_of_path hstart hps, qs, hqs⟩
  refine ⟨(outcomeInv_of_path hstart h).oneshot.countP_le_one, ?_, ?_⟩
  · intro u hu tx call out hended
    obtain ⟨hinv, ns, hns⟩ := hvisited u hu
    rcases hinv.effect_or_dead hended with heffect | ⟨hout, hdead⟩
    · exact .inl heffect
    · obtain ⟨hc, _, hphase⟩ := hended
      have hover : u.Over tx := ⟨call, hc, by rw [Call.pending, hphase]⟩
      exact .inr ⟨hout, (hdead.along hinv.oneshot hover hns).handled⟩
  · intro u hu tx call out hended hout tx' hlen y hy hty
    obtain ⟨hinv, ns, hns⟩ := hvisited u hu
    rcases hinv.effect_or_dead hended with ⟨x, hx, heffect⟩ | ⟨hchannel, _⟩
    · have hnew : y ∉ u.handled := fun hmem => by
        have hlt := hinv.oneshot.made hmem hty
        omega
      obtain ⟨before, between, after, hsplit⟩ :=
        exists_between_of_prefix (handled_grows hns) hx hy hnew
      exact ⟨before, x, between, after, hsplit, heffect⟩
    · rw [hchannel] at hout
      cases hout

/-- The first of two requests is answered before the second one is made. -/
theorem effects_in_real_time_two : ∃ ms t, Path step tallyStart ms t ∧ t.handled.length = 2 ∧
    (∃ call : Call tallyActor, t.calls[1]? = some call ∧ gotTotal 7 call = true) ∧
    RealTime tallyStart ms t := by
  obtain ⟨ms, t, hpath, _, _, hq⟩ := exists_path_of_checkedRun step tallyStart
    [.context 0 0 (), .context 0 0 (), .request (.call 0 (.send (3 : Nat))), .request (.send 0),
      .context 0 0 (), .context 0 0 (), .request (.receive 0),
      .request (.call 0 (.send (4 : Nat))), .request (.send 1), .context 0 0 (),
      .context 0 0 (), .request (.receive 1)]
    (fun _ _ _ => true)
    (fun t => t.handled.length == 2 && t.calls[1]?.any (gotTotal 7)) (by decide)
  simp only [Bool.and_eq_true, beq_iff_eq] at hq
  obtain ⟨call, hcall, hgot⟩ := (Option.any_eq_true _ _).mp hq.2
  exact ⟨ms, t, hpath, hq.1, ⟨call, hcall, hgot⟩, effects_in_real_time .start hpath⟩

end Runs

end ActixSend
