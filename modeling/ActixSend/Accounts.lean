import ActixSend.Delivery
import ActixSend.Transition.Accounts

/-! # Where every message is

In any run, whatever is closed, abandoned or panics, a message that was accepted
is in its channel, in the hand of a context, handled, or gone with the one
context that had it in hand when it panicked. A context handles what reaches it
through one channel in the order in which the channel accepted it.
-/

namespace ActixSend

open Transition
set_option autoImplicit false

variable {A : Actor}

/-- Each accepted message is in one place; `lost` names the messages that
contexts have taken with them, and which context took which. -/
structure Accounted (s : State A) (lost : List (Nat × Envelope A)) : Prop where
  once : (s.accepted.map Prod.snd).Nodup
  channels : ∀ chan, entriesOf chan s.accepted =
    entriesOf chan (s.taken.map fun x => (x.chan, x.env)) ++ s.queue chan
  contexts : (s.taken.map Taken.env).Perm (s.handled.map Handled.env ++
    s.contexts.filterMap (fun c => c.pos.hand) ++ lost.map Prod.snd)
  apart : (lost.map Prod.fst).Nodup
  panicked : ∀ x ∈ lost, ∃ c, s.contexts[x.1]? = some c ∧ c.pos = .panicked

/-- What a context handles of one channel it handles in the order of acceptance. -/
def InOrder (s : State A) : Prop :=
  s.handled.Pairwise fun x y => x.context = y.context →
    ∀ chan, (chan, x.env) ∈ s.accepted → (chan, y.env) ∈ s.accepted → x.env.id < y.env.id

theorem worker_hand (pos : Position A) : pos.worker.hand = pos.hand.toList := by
  cases pos <;> rfl

theorem flatMap_range_getElem? {α β : Type} (l : List α) (f : α → List β) :
    ((List.range l.length).flatMap fun i => (l[i]?).elim [] f) = l.flatMap f := by
  have hmap : (List.range l.length).map (fun i => (l[i]?).elim [] f) = l.map f := by
    apply List.ext_getElem
    · simp
    · intro i hi _
      have hlt : i < l.length := by simpa using hi
      simp [hlt]
  rw [List.flatMap_def, hmap, List.flatMap_def]

theorem hands_eq (s : State A) :
    ((List.range s.contexts.length).flatMap fun i => (s.ledger.worker i).hand) =
      s.contexts.filterMap fun c => c.pos.hand := by
  have hworker : ∀ i, (s.ledger.worker i).hand =
      (s.contexts[i]?).elim [] fun c => c.pos.hand.toList := by
    intro i
    simp only [State.ledger]
    cases s.contexts[i]? with
    | none => rfl
    | some c => exact worker_hand c.pos
  simp only [hworker, flatMap_range_getElem?, List.filterMap_eq_flatMap_toList]

theorem ChannelInv.accepted_pairwise {s : State A} (hs : ChannelInv s) :
    s.accepted.Pairwise fun x y => x.2.id < y.2.id := by
  have hids : (s.accepted.map fun x => x.2.id).Pairwise (· < ·) := by
    rw [hs.ids]
    exact List.pairwise_lt_range
  exact List.pairwise_map.mp hids

theorem ChannelInv.inOrder {s : State A} (hs : ChannelInv s) : InOrder s := by
  have hpairwise := hs.sound.handled_pairwise
    (r := fun env env' : Envelope A => env.id < env'.id) hs.accepted_pairwise
  exact List.pairwise_map.mp hpairwise

theorem OneshotInv.taken_lt {s : State A} (hs : OneshotInv s) :
    ∀ x ∈ s.ledger.taken, x.1 < s.contexts.length := by
  rintro ⟨i, chan, env⟩ hx
  obtain ⟨c, hc, _⟩ := hs.listens i chan env hx
  exact (List.getElem?_eq_some_iff.mp hc).1

theorem ChannelInv.accounted {s : State A} (hs : ChannelInv s)
    (htaken : ∀ x ∈ s.ledger.taken, x.1 < s.contexts.length) (hfew : s.ledger.Few) :
    ∃ lost, Accounted s lost := by
  have hsound := hs.sound
  have hall : ∀ x ∈ s.ledger.taken, x.1 ∈ List.range s.contexts.length := fun x hx =>
    List.mem_range.mpr (htaken x hx)
  have hperm := hsound.taken_perm List.nodup_range hall
  refine ⟨(List.range s.contexts.length).flatMap fun i =>
    (s.ledger.lostBy i).map fun env => (i, env), hsound.fresh, ?_, ?_, ?_, ?_⟩
  · intro chan
    have hfifo := hsound.fifo chan
    simp only [Ledger.takenFrom, State.ledger, List.map_map] at hfifo
    exact hfifo
  · rw [hands_eq] at hperm
    simp only [State.ledger, List.map_map] at hperm
    rw [List.map_flatMap]
    simp only [List.map_map, Function.comp_def, List.map_id']
    exact hperm
  · rw [List.map_flatMap]
    simp only [List.map_map, Function.comp_def]
    refine List.nodup_flatMap.mpr ⟨fun i _ => ?_, ?_⟩
    · have hle := hfew.lostBy_le i
      rw [List.map_const', List.nodup_replicate]
      exact hle
    · refine List.nodup_range.imp fun hne => ?_
      intro k hk hk'
      obtain ⟨_, _, rfl⟩ := List.mem_map.mp hk
      obtain ⟨_, _, rfl⟩ := List.mem_map.mp hk'
      exact hne rfl
  · intro x hx
    obtain ⟨i, hi, hx⟩ := List.mem_flatMap.mp hx
    obtain ⟨env, henv, rfl⟩ := List.mem_map.mp hx
    have hworker : s.ledger.worker i = .lost := by
      by_contra hkept
      rw [hsound.lostBy_eq_nil hkept] at henv
      cases henv
    exact panicked_of_lost hworker

section Runs
variable {cfg : Config} {build : Nat → A.State} {s t : State A} {ms : List (Move (State A) (Act A))}

theorem few_of_path (hstart : Started cfg build s) (h : Path step s ms t) :
    OneshotInv t ∧ t.ledger.Few := by
  refine h.invariant (I := fun u => OneshotInv u ∧ u.ledger.Few) ⟨hstart.oneshotInv, ?_⟩ ?_
  · obtain ⟨w, rfl, _⟩ := hstart.exists_wiring
    exact fun _ => Nat.zero_le _
  · rintro u act v hstep ⟨hinv, hfew⟩
    have hevent := (Moves.of_step hstep).channelMove.event fun _ => hinv.channel.lt_nextId
    exact ⟨hinv.step hstep, hevent.few hinv.channel.sound hfew⟩

/-- Messages are lost by panics only, and by each panic one at most. -/
theorem messages_accounted (hstart : Started cfg build s) (h : Path step s ms t) :
    ∃ lost, Accounted t lost := by
  obtain ⟨hinv, hfew⟩ := few_of_path hstart h
  exact hinv.channel.accounted hinv.taken_lt hfew

/-- The first message is handled and the second one lost. -/
theorem messages_accounted_panic : ∃ ms t, Path step (echoStart Config.default) ms t ∧
    t.accepted.length = 2 ∧ t.handled.length = 1 ∧
    ∃ lost, Accounted t lost ∧ lost.length = 1 := by
  obtain ⟨ms, t, hpath, _, _, hq⟩ := exists_path_of_checkedRun step (echoStart Config.default)
    [.context 0 0 (), .context 0 0 (), .request (.call 0 (.send (true, 7))),
      .request (.call 0 (.send (true, 8))), .request (.send 0), .request (.send 1),
      .context 0 0 (), .context 0 0 (), .context 0 0 (), .panic 0]
    (fun _ _ _ => true)
    (fun t => t.accepted.length == 2 && t.handled.length == 1 && t.taken.length == 2 &&
      (t.contexts.filterMap fun c => c.pos.hand.map Envelope.id).length == 0) (by decide)
  simp only [Bool.and_eq_true, beq_iff_eq] at hq
  obtain ⟨⟨⟨haccepted, hhandled⟩, htaken⟩, hhands⟩ := hq
  obtain ⟨lost, hlost⟩ := messages_accounted .start hpath
  have hlength := hlost.contexts.length_eq
  rw [← List.map_filterMap, List.length_map] at hhands
  simp only [List.length_map, List.length_append, htaken, hhandled, hhands] at hlength
  exact ⟨ms, t, hpath, haccepted, hhandled, lost, hlost, by omega⟩

theorem handled_in_order (hstart : Started cfg build s) (h : Path step s ms t) : InOrder t :=
  (few_of_path hstart h).1.channel.inOrder

theorem handled_in_order_two : ∃ ms t, Path step (echoStart { Config.default with num := 2 }) ms t ∧
    t.handled.map (fun x => (x.context, x.env.id)) = [(1, 1), (0, 0), (1, 2)] ∧ InOrder t := by
  obtain ⟨ms, t, hpath, _, _, hq⟩ := exists_path_of_checkedRun step
    (echoStart { Config.default with num := 2 })
    [.context 0 0 (), .context 0 0 (), .context 1 0 (), .context 1 0 (),
      .request (.doSend 0 (true, 1)), .request (.doSend 0 (true, 2)),
      .request (.doSend 0 (true, 3)), .poll 0, .poll 1, .poll 2, .context 0 0 (), .context 1 0 (),
      .context 1 0 (), .context 0 0 (), .context 1 0 (), .context 1 0 ()]
    (fun _ _ _ => true)
    (fun t => t.handled.map (fun x => (x.context, x.env.id)) == [(1, 1), (0, 0), (1, 2)])
    (by decide)
  exact ⟨ms, t, hpath, beq_iff_eq.mp hq, handled_in_order .start hpath⟩

end Runs

end ActixSend
