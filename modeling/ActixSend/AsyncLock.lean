import ActixSend.IntervalLock
import ActixSend.Transition.Refinement

/-! # The queue of the interval lock

`AsyncLock` is tokio's `Mutex`. A context that finds the lock taken, or others
waiting for it, is put behind them, and a guard that is given back goes to the
first. In `step` it may go to any of them. So the runs with the queue are among
the runs of `step`, and what holds of all these holds of them.
-/

namespace ActixSend

open Transition
set_option autoImplicit false

variable {A : Actor}

/-- An actor set with the contexts that wait for the lock, the first one first. -/
structure Queued (A : Actor) where
  set : State A
  waiters : List Nat

def State.takesLock (s : State A) (i : Nat) : Bool :=
  s.contexts[i]?.any fun c => c.pos.needsLock

namespace Queued

inductive Act (A : Actor)
  | act (act : ActixSend.Act A)
  | wait (i : Nat)

def start (s : State A) : Queued A := ⟨s, []⟩

/-- The queue behind a step, which has to wait while another context is before it. -/
def pass (q : Queued A) : ActixSend.Act A → Option (List Nat)
  | .context i _ _ =>
    if q.set.takesLock i then
      if q.waiters.head?.all (· == i) then some q.waiters.tail else none
    else some q.waiters
  | _ => some q.waiters

def step (q : Queued A) : Act A → Option (Queued A)
  | .act act => (q.pass act).bind fun waiters =>
    (ActixSend.step q.set act).map fun s => ⟨s, waiters⟩
  | .wait i =>
    if q.set.takesLock i && !q.waiters.contains i &&
        (q.set.futuresLock.isSome || !q.waiters.isEmpty) then
      some { q with waiters := q.waiters ++ [i] }
    else none

def acts (m : Move (Queued A) (Act A)) : List (ActixSend.Act A) :=
  match m.act with
  | .act act => [act]
  | .wait _ => []

structure WaitInv (q : Queued A) : Prop where
  guard : GuardInv q.set
  nodup : q.waiters.Nodup
  takes : ∀ i ∈ q.waiters, q.set.takesLock i = true

theorem step_act {q r : Queued A} {act : ActixSend.Act A} (h : step q (.act act) = some r) :
    q.pass act = some r.waiters ∧ ActixSend.step q.set act = some r.set := by
  obtain ⟨waiters, hpass, h⟩ := Option.bind_eq_some_iff.mp h
  obtain ⟨s, hstep, rfl⟩ := Option.map_eq_some_iff.mp h
  exact ⟨hpass, hstep⟩

theorem step_wait {q r : Queued A} {i : Nat} (h : step q (.wait i) = some r) :
    q.set.takesLock i = true ∧ i ∉ q.waiters ∧ r = { q with waiters := q.waiters ++ [i] } := by
  simp only [step] at h
  split at h
  · rename_i hguard
    cases h
    simp only [Bool.and_eq_true, Bool.not_eq_true', List.contains_eq_mem,
      decide_eq_false_iff_not] at hguard
    exact ⟨hguard.1.1, hguard.1.2, rfl⟩
  · cases h

theorem pass_eq {q : Queued A} {act : ActixSend.Act A} {waiters : List Nat}
    (h : q.pass act = some waiters) : waiters = q.waiters ∧
      (∀ i chan await, act = .context i chan await → q.set.takesLock i = false) ∨
    ∃ i chan await, act = .context i chan await ∧ waiters = q.waiters.tail ∧
      ∀ j ∈ q.waiters.head?, j = i := by
  cases act with
  | context i chan await =>
    simp only [pass] at h
    split at h
    · split at h
      · rename_i hfirst
        cases h
        refine .inr ⟨i, chan, await, rfl, rfl, fun j hj => ?_⟩
        rw [Option.mem_def.mp hj, Option.all_some] at hfirst
        exact eq_of_beq hfirst
      · cases h
    · rename_i hfree
      cases h
      refine .inl ⟨rfl, fun i' _ _ heq => ?_⟩
      cases heq
      exact Bool.eq_false_iff.mpr hfree
  | _ =>
    cases h
    exact .inl ⟨rfl, nofun⟩

/-- The queue grows at its end, and only its first context leaves it. -/
theorem waiters_step {q r : Queued A} {act : Act A} (h : step q act = some r) :
    (∃ new, r.waiters = q.waiters ++ new) ∨
      ∃ i chan await, act = .act (.context i chan await) ∧ q.waiters = i :: r.waiters := by
  cases act with
  | wait i =>
    obtain ⟨_, _, rfl⟩ := step_wait h
    exact .inl ⟨[i], rfl⟩
  | act act =>
    obtain ⟨hpass, _⟩ := step_act h
    rcases pass_eq hpass with ⟨hsame, _⟩ | ⟨i, chan, await, rfl, htail, hfirst⟩
    · exact .inl ⟨[], by rw [hsame, List.append_nil]⟩
    · cases hwaiters : q.waiters with
      | nil => exact .inl ⟨[], by rw [htail, hwaiters]; rfl⟩
      | cons j rest =>
        obtain rfl := hfirst j (by rw [hwaiters]; rfl)
        exact .inr ⟨j, chan, await, rfl, by rw [htail, hwaiters]; rfl⟩

theorem takesLock_other {s t : State A} {act : ActixSend.Act A} {i : Nat}
    (h : ActixSend.step s act = some t) (hact : act.isOf i = false) :
    t.takesLock i = s.takesLock i := by
  rw [State.takesLock, State.takesLock, ((Moves.of_step h).other hact).1]

theorem panic_blocked {s : State A} {i : Nat} (h : s.takesLock i = true) :
    ActixSend.step s (.panic i) = none := by
  obtain ⟨c, hc, hneeds⟩ := (Option.any_eq_true _ _).mp h
  simp [ActixSend.step, State.panicStep, hc, not_inUserCode_of_needsLock hneeds]

theorem WaitInv.step {q r : Queued A} {act : Act A} (h : step q act = some r) (hq : WaitInv q) :
    WaitInv r := by
  cases act with
  | wait i =>
    obtain ⟨htakes, hnew, rfl⟩ := step_wait h
    refine ⟨hq.guard, ?_, fun j hj => ?_⟩
    · exact List.Nodup.append hq.nodup (List.nodup_singleton i) (by simpa using hnew)
    · rcases List.mem_append.mp hj with hj | hj
      · exact hq.takes j hj
      · rwa [List.mem_singleton.mp hj]
  | act act =>
    obtain ⟨hpass, hstep⟩ := step_act h
    have hother {i : Nat} (hact : act.isOf i = false) (hi : i ∈ q.waiters) :
        r.set.takesLock i = true := (takesLock_other hstep hact).trans (hq.takes i hi)
    have hpanic {i : Nat} (hi : i ∈ q.waiters) : act ≠ .panic i := by
      rintro rfl
      cases (panic_blocked (hq.takes i hi)).symm.trans hstep
    refine ⟨hq.guard.step hstep, ?_, fun i hi => ?_⟩
    · rcases pass_eq hpass with ⟨hsame, _⟩ | ⟨_, _, _, _, htail, _⟩
      · rw [hsame]
        exact hq.nodup
      · rw [htail]
        exact hq.nodup.sublist (List.tail_sublist _)
    · rcases pass_eq hpass with ⟨hsame, hfree⟩ | ⟨j, chan, await, rfl, htail, hfirst⟩
      · rw [hsame] at hi
        refine hother ?_ hi
        cases act with
        | context j chan await =>
          rw [isOf_context]
          refine beq_false_of_ne fun heq => ?_
          have htakes := hq.takes i hi
          rw [← heq, hfree j chan await rfl] at htakes
          cases htakes
        | panic j =>
          rw [isOf_panic]
          exact beq_false_of_ne fun heq => hpanic hi (by rw [heq])
        | address | request | poll | elapse => rfl
      · rw [htail] at hi
        refine hother ?_ (List.mem_of_mem_tail hi)
        rw [isOf_context]
        refine beq_false_of_ne ?_
        rintro rfl
        cases hwaiters : q.waiters with
        | nil =>
          rw [hwaiters] at hi
          cases hi
        | cons k rest =>
          obtain rfl := hfirst k (by rw [hwaiters]; rfl)
          have hnodup := hq.nodup
          rw [hwaiters] at hnodup hi
          exact (List.nodup_cons.mp hnodup).1 hi

/-- A step with the queue is that step without it; to wait changes nothing else. -/
theorem queue_refines :
    Refines (step (A := A)) ActixSend.step Queued.set (fun _ => True) acts fun m => [m.act] := by
  refine ⟨fun _ _ _ _ _ => trivial, fun q act r h _ => ?_⟩
  cases act with
  | wait i =>
    obtain ⟨_, _, rfl⟩ := step_wait h
    exact .inl ⟨rfl, rfl⟩
  | act act =>
    obtain ⟨_, hstep⟩ := step_act h
    exact .inr ⟨act, hstep, rfl⟩

section Runs
variable {cfg : Config} {build : Nat → A.State} {s : State A} {q : Queued A}
  {ms : List (Move (Queued A) (Act A))}

theorem exists_path (h : Path step (.start s) ms q) :
    ∃ ns, Path ActixSend.step s ns q.set ∧ ns.map Move.act = ms.flatMap acts := by
  obtain ⟨ns, hns, hacts⟩ := queue_refines.exists_path trivial h
  refine ⟨ns, hns, ?_⟩
  rw [← hacts, ← List.map_eq_flatMap]

theorem waitInv_of_path (hstart : Started cfg build s) (h : Path step (.start s) ms q) :
    WaitInv q := by
  apply h.invariant (I := WaitInv)
  · exact ⟨hstart.guardInv, List.nodup_nil, List.forall_mem_nil _⟩
  · exact fun _ _ _ hstep hu => hu.step hstep

/-- The lock that nobody holds goes to the first who waits for it, and to no other. -/
theorem first_takes (hstart : Started cfg build s) (h : Path step (.start s) ms q) {i : Nat}
    {rest : List Nat} (hwaiters : q.waiters = i :: rest) (hlock : q.set.futuresLock = none)
    (chan : Nat) (await : A.Await) :
    (∃ r, step q (.act (.context i chan await)) = some r ∧ r.waiters = rest) ∧
      ∀ j, j ≠ i → q.set.takesLock j = true → step q (.act (.context j chan await)) = none := by
  have hinv := waitInv_of_path hstart h
  have htakes : q.set.takesLock i = true := hinv.takes i (by simp [hwaiters])
  constructor
  · obtain ⟨c, hc, hneeds⟩ := (Option.any_eq_true _ _).mp htakes
    have hhand : c.pos.hand.isSome = true := by
      cases hpos : c.pos <;> rw [hpos] at hneeds <;> first | rfl | cases hneeds
    obtain ⟨t, ht⟩ := hand_enabled hinv.guard.unlocked hc hhand (fun _ => hlock) chan await
    exact ⟨⟨t, rest⟩, by simp [step, pass, htakes, hwaiters, ht], rfl⟩
  · intro j hji hj
    have hnot : (i == j) = false := beq_false_of_ne (Ne.symm hji)
    simp [step, pass, hj, hwaiters, hnot]

end Runs

end Queued

end ActixSend
