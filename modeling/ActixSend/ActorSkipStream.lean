import Mathlib.Data.Nat.Nth
import ActixSend.ActorStream

/-! # Actor streams that skip

`ActorSkipStream::poll_next` polls its inner stream in a loop, past the items
that are `None`. The loop ends because runs of `None` are finite, and what the
stream does is what an `ActorStream` does around the inner stream without them.
-/

namespace ActixSend.ActorStream.Skip

open Transition
set_option autoImplicit false

variable {S : Signature} {I : Type}

/-- An inner stream of optional items, whose `n`-th poll answers `poll n`. -/
structure Sparse (I : Type) where
  poll : Nat → Poll (Option (Option I))
  finite : ∀ n, ∃ d, poll (n + d) ≠ .ready (some none)

namespace Sparse
variable (inner : Sparse I)

def skips (n : Nat) : Bool :=
  match inner.poll n with
  | .ready (some none) => true
  | _ => false

theorem skips_iff {n : Nat} : inner.skips n = true ↔ inner.poll n = .ready (some none) := by
  unfold skips
  split <;> simp_all

theorem exists_skips_false (n : Nat) : ∃ d, inner.skips (n + d) = false := by
  obtain ⟨d, hd⟩ := inner.finite n
  exact ⟨d, Bool.eq_false_iff.mpr fun h => hd (inner.skips_iff.mp h)⟩

/-- How many polls from the `n`-th on answer `None`. -/
def gap (n : Nat) : Nat := Nat.find (inner.exists_skips_false n)

theorem gap_lt {n : Nat} (h : inner.poll n = .ready (some none)) :
    inner.gap (n + 1) < inner.gap n := by
  have hspec : inner.skips (n + inner.gap n) = false := Nat.find_spec (inner.exists_skips_false n)
  cases hgap : inner.gap n with
  | zero =>
    rw [hgap, Nat.add_zero, inner.skips_iff.mpr h] at hspec
    cases hspec
  | succ d =>
    rw [hgap, ← Nat.add_assoc, Nat.add_right_comm] at hspec
    exact Nat.lt_succ_of_le (Nat.find_min' (inner.exists_skips_false (n + 1)) hspec)

def strip : Poll (Option (Option I)) → Poll (Option I)
  | .ready item => .ready item.join
  | .pending => .pending

/-- The inner stream without its `None` items. -/
noncomputable def dense (n : Nat) : Poll (Option I) :=
  strip (inner.poll (Nat.nth (fun k => inner.skips k = false) n))

end Sparse

variable (inner : Sparse S.Item)

/-- The loop of `poll_next`. -/
def loop (s : State S (Option Nat)) (w : Nat) (accepts : Bool) : State S (Option Nat) :=
  match _h : inner.poll s.polls with
  | .pending => .ret { s with polls := s.polls + 1, streamWaker := some w } w .pending
  | .ready none =>
    .ret { s with polls := s.polls + 1, served := s.served ++ [none] } w (.ready none)
  | .ready (some none) => loop { s with polls := s.polls + 1 } w accepts
  | .ready (some (some item)) => .trySend { s with polls := s.polls + 1 } w item accepts
termination_by inner.gap s.polls
decreasing_by exact inner.gap_lt _h

section Loop
variable {inner : Sparse S.Item} {s : State S (Option Nat)} (w : Nat) (accepts : Bool)

theorem loop_pending (h : inner.poll s.polls = .pending) :
    loop inner s w accepts =
      .ret { s with polls := s.polls + 1, streamWaker := some w } w .pending := by
  rw [loop]
  split <;> simp_all

theorem loop_ended (h : inner.poll s.polls = .ready none) :
    loop inner s w accepts =
      .ret { s with polls := s.polls + 1, served := s.served ++ [none] } w (.ready none) := by
  rw [loop]
  split <;> simp_all

theorem loop_skipped (h : inner.poll s.polls = .ready (some none)) :
    loop inner s w accepts = loop inner { s with polls := s.polls + 1 } w accepts := by
  rw [loop]
  split <;> simp_all

theorem loop_item {item : S.Item} (h : inner.poll s.polls = .ready (some (some item))) :
    loop inner s w accepts = .trySend { s with polls := s.polls + 1 } w item accepts := by
  rw [loop]
  split <;> simp_all

end Loop

/-- `poll_next`, up to the first poll of a oneshot it makes. -/
def pollNext (s : State S (Option Nat)) (w : Nat) (accepts spent : Bool) :
    Option (State S (Option Nat)) :=
  match s.state with
  | some rx =>
    match s.oneshots[rx]? with
    | some oneshot =>
      match oneshot.poll w spent with
      | (.pending, oneshot) =>
        some (.wait { s with oneshots := s.oneshots.set rx oneshot } w spent)
      | (.ready res, oneshot) =>
        some (.ret { s with oneshots := s.oneshots.set rx oneshot, state := none } w
          (.ready (some (result res))))
    | none => none
  | none => some (loop inner s w accepts)

def resume (s : State S (Option Nat)) (spent : Bool) : Option (State S (Option Nat)) :=
  match s.sending with
  | some (w, rx) =>
    match s.oneshots[rx]? with
    | some oneshot =>
      match oneshot.poll w spent with
      | (.pending, oneshot) =>
        some (.wait { s with
          oneshots := s.oneshots.set rx oneshot
          sending := none
          state := some rx } w spent)
      | (.ready res, oneshot) =>
        some (.ret { s with oneshots := s.oneshots.set rx oneshot, sending := none } w
          (.ready (some (result res))))
    | none => none
  | none => none

def step (s : State S (Option Nat)) : Act S → Option (State S (Option Nat))
  | .poll w accepts spent =>
    if s.sending.isSome then none else pollNext inner s w accepts spent
  | .resume spent => resume s spent
  | .answer rx res => s.settle rx (some res)
  | .drop rx => s.settle rx none

def streamState : Option Nat → ActorStreamState
  | some rx => .last rx
  | none => .next

def view (s : State S (Option Nat)) : State S ActorStreamState where
  polls := Nat.count (fun k => inner.skips k = false) s.polls
  state := streamState s.state
  sending := s.sending
  oneshots := s.oneshots
  streamWaker := s.streamWaker
  messages := s.messages
  served := s.served
  returned := s.returned
  woken := s.woken

def observed {φ : Type} (s : State S φ) :
    List (Option (Served S)) × List (Nat × S.Message) × List (Nat × Answer S) :=
  (s.served, s.messages, s.returned)

variable {inner}

theorem dense_count {n : Nat} (h : inner.skips n = false) :
    inner.dense (Nat.count (fun k => inner.skips k = false) n) = Sparse.strip (inner.poll n) := by
  rw [Sparse.dense, Nat.nth_count h]

theorem count_skipped {n : Nat} (h : inner.poll n = .ready (some none)) :
    Nat.count (fun k => inner.skips k = false) (n + 1) =
      Nat.count (fun k => inner.skips k = false) n := by
  rw [Nat.count_succ, if_neg (by simp [inner.skips_iff.mpr h]), Nat.add_zero]

theorem count_kept {n : Nat} (h : inner.skips n = false) :
    Nat.count (fun k => inner.skips k = false) (n + 1) =
      Nat.count (fun k => inner.skips k = false) n + 1 := by
  rw [Nat.count_succ, if_pos h]

theorem skips_false {n : Nat} (h : inner.poll n ≠ .ready (some none)) : inner.skips n = false :=
  Bool.eq_false_iff.mpr fun hskips => h (inner.skips_iff.mp hskips)

theorem view_trySend (s : State S (Option Nat)) (w : Nat) (item : S.Item) (accepts : Bool) :
    view inner (s.trySend w item accepts) = (view inner s).trySend w item accepts := by
  cases accepts <;> rfl

theorem view_skipped {s : State S (Option Nat)} (h : inner.poll s.polls = .ready (some none)) :
    view inner { s with polls := s.polls + 1 } = view inner s := by
  simp only [view, count_skipped h]

/-- The whole loop is one poll of the inner stream without its `None` items. -/
theorem view_loop (s : State S (Option Nat)) (w : Nat) (accepts spent : Bool)
    (hstate : s.state = none) :
    ActorStream.pollNext inner.dense (view inner s) w accepts spent =
      some (view inner (loop inner s w accepts)) := by
  induction hgap : inner.gap s.polls using Nat.strong_induction_on generalizing s with
  | _ gap ih =>
    have hnext : (view inner s).state = .next := by
      rw [view, hstate]
      rfl
    have hdense (hskips : inner.skips s.polls = false) :
        inner.dense (view inner s).polls = Sparse.strip (inner.poll s.polls) :=
      dense_count hskips
    cases hpoll : inner.poll s.polls with
    | pending =>
      have hskips : inner.skips s.polls = false := skips_false (by simp [hpoll])
      rw [loop_pending w accepts hpoll]
      simp only [ActorStream.pollNext, hnext, hdense hskips, hpoll, Sparse.strip]
      simp only [view, State.ret, count_kept hskips, hstate, streamState]
    | ready next =>
      cases next with
      | none =>
        have hskips : inner.skips s.polls = false := skips_false (by simp [hpoll])
        rw [loop_ended w accepts hpoll]
        simp only [ActorStream.pollNext, hnext, hdense hskips, hpoll, Sparse.strip,
          Option.join_none]
        simp only [view, State.ret, count_kept hskips, hstate, streamState]
      | some next =>
        cases next with
        | none =>
          rw [loop_skipped w accepts hpoll, ← view_skipped hpoll]
          exact ih _ (hgap ▸ inner.gap_lt hpoll) _ hstate rfl
        | some item =>
          have hskips : inner.skips s.polls = false := skips_false (by simp [hpoll])
          rw [loop_item w accepts hpoll]
          simp only [ActorStream.pollNext, hnext, hdense hskips, hpoll, Sparse.strip,
            Option.join_some]
          rw [view_trySend]
          simp only [view, count_kept hskips, hstate, streamState]

theorem view_pollNext (s : State S (Option Nat)) (w : Nat) (accepts spent : Bool) :
    ActorStream.pollNext inner.dense (view inner s) w accepts spent =
      (pollNext inner s w accepts spent).map (view inner) := by
  cases hstate : s.state with
  | none =>
    simp only [pollNext, hstate]
    exact view_loop s w accepts spent hstate
  | some rx =>
    have hlast : (view inner s).state = .last rx := by
      rw [view, hstate]
      rfl
    have honeshots : (view inner s).oneshots = s.oneshots := rfl
    simp only [pollNext, hstate, ActorStream.pollNext, hlast, honeshots]
    cases hrx : s.oneshots[rx]? with
    | none => rfl
    | some oneshot =>
      obtain ⟨value, waker⟩ := oneshot
      cases spent <;> cases value <;>
        simp [OneShot.poll, State.wait, view, State.ret, hstate, streamState]

theorem view_resume (s : State S (Option Nat)) (spent : Bool) :
    ActorStream.resume (view inner s) spent = (resume s spent).map (view inner) := by
  have hsending : (view inner s).sending = s.sending := rfl
  have honeshots : (view inner s).oneshots = s.oneshots := rfl
  simp only [ActorStream.resume, resume, hsending, honeshots]
  cases s.sending with
  | none => rfl
  | some call =>
    obtain ⟨w, rx⟩ := call
    cases hrx : s.oneshots[rx]? with
    | none => simp only [hrx, Option.map_none]
    | some oneshot =>
      obtain ⟨value, waker⟩ := oneshot
      simp only [hrx]
      cases spent <;> cases value <;> rfl

theorem view_settle (s : State S (Option Nat)) (rx : Nat) (res : Option S.Result) :
    (view inner s).settle rx res = (s.settle rx res).map (view inner) := by
  simp only [State.settle, view]
  split <;> rfl

theorem view_step (s : State S (Option Nat)) (act : Act S) :
    ActorStream.step inner.dense (view inner s) act = (step inner s act).map (view inner) := by
  cases act with
  | poll w accepts spent =>
    have hsending : (view inner s).sending = s.sending := rfl
    simp only [ActorStream.step, step, hsending]
    cases s.sending with
    | some call => rfl
    | none => exact view_pollNext s w accepts spent
  | resume spent => exact view_resume s spent
  | answer rx res => exact view_settle s rx (some res)
  | drop rx => exact view_settle s rx none

theorem view_start : view inner (start none) = start .next := rfl

/-- On every schedule the two adapters do the same. -/
theorem skip_stream_as_stream (inner : Sparse S.Item) (acts : List (Act S)) :
    (run (step inner) (start none) acts).map observed =
      (run (ActorStream.step inner.dense) (start .next) acts).map observed := by
  have hrun : run (ActorStream.step inner.dense) (view inner (start none)) (acts.map id) =
      (run (step inner) (start none) acts).map (view inner) :=
    run_map (I := fun _ => True) (C := fun _ => True) (fun s act _ _ => view_step s act)
      (fun _ _ _ _ _ _ => trivial) trivial fun _ _ => trivial
  rw [List.map_id, view_start] at hrun
  rw [hrun, Option.map_map]
  rfl

/-- Two items, each behind some `None`, and `None` before the end. -/
def sparseItems : Sparse Nat where
  poll n :=
    match n with
    | 2 => .ready (some (some 7))
    | 3 => .pending
    | 5 => .ready (some (some 8))
    | n => if n < 7 then .ready (some none) else .ready none
  finite n := ⟨7, by
    show (match n + 7 with
      | 2 => Poll.ready (some (some 7))
      | 3 => .pending
      | 5 => .ready (some (some 8))
      | n => if n < 7 then .ready (some none) else .ready none) ≠ .ready (some none)
    simp⟩

/-- The first item is answered after a while, and the second one is refused. -/
def sparseActs : List (Act echoSignature) :=
  [.poll 1 true false, .resume false, .poll 2 true true, .answer 0 (70 : Nat), .poll 3 true false,
    .poll 4 true false, .poll 5 false false, .poll 6 true false]

def sparseSeen : List (Option (Served echoSignature)) × List (Nat × Nat) ×
    List (Nat × Answer echoSignature) :=
  ([some ⟨(7 : Nat), 0, true⟩, some ⟨(8 : Nat), 1, false⟩, none], [(0, 7)],
    [(1, .pending), (2, .pending), (3, .ready (some (.ok (70 : Nat)))), (4, .pending),
      (5, .ready (some (.error .closed))), (6, .ready none)])

theorem skip_stream_as_stream_sparse :
    (run (step (S := echoSignature) sparseItems) (start none) sparseActs).map observed =
      some sparseSeen ∧
    (run (ActorStream.step (S := echoSignature) (Sparse.dense (I := Nat) sparseItems)) (start .next)
      sparseActs).map observed = some sparseSeen := by
  have hseen : (run (step (S := echoSignature) sparseItems) (start none) sparseActs).map observed =
      some sparseSeen := by
    simp [run, sparseActs, step, start, pollNext, resume, loop_pending, loop_ended, loop_skipped,
      loop_item, sparseItems, State.trySend, State.settle, State.wait, State.ret, OneShot.poll,
      observed, sparseSeen, result]
  have hsame := skip_stream_as_stream (S := echoSignature) sparseItems sparseActs
  exact ⟨hseen, hsame.symm.trans hseen⟩

end ActixSend.ActorStream.Skip
