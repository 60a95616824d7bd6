import ActixSend.Message
import ActixSend.Transition.Path
import ActixSend.Transition.Table

/-! # Actor streams

`ActorStream::poll_next` around an inner stream that answers its `n`-th poll
with `inner n`. A call is one action up to the first poll of the oneshot it has
made, so that the actor may answer between the two. The channel accepts or
refuses each message as it likes, and a message that was refused is dropped with
the sender of its oneshot.
-/

namespace ActixSend.ActorStream

open Transition
set_option autoImplicit false

/-- The types of a stream and its actor; `into` is `item.into().into()` and
`map` is `M::map`. -/
structure Signature where
  Item : Type
  Message : Type
  Result : Type
  Output : Type
  into : Item → Message
  map : Result → Except ActixSendError Output

inductive Poll (α : Type)
  | ready (a : α)
  | pending
  deriving DecidableEq, Repr

/-- A oneshot channel: what its sender left, an answer or nothing but its drop,
and the waker of the poll that waits for it. -/
structure OneShot (R : Type) where
  value : Option (Option R)
  waker : Option Nat
  deriving DecidableEq, Repr

/-- tokio's receiver takes from its task's budget first. Once that is spent it
does not look at the channel, and the runtime wakes the task. -/
def OneShot.poll {R : Type} (oneshot : OneShot R) (w : Nat) (spent : Bool) :
    Poll (Option R) × OneShot R :=
  if spent then (.pending, oneshot)
  else
    match oneshot.value with
    | some res => (.ready res, oneshot)
    | none => (.pending, { oneshot with waker := some w })

inductive ActorStreamState
  | next
  | last (rx : Nat)
  deriving DecidableEq, Repr

variable (S : Signature)

/-- An item taken from the inner stream, the oneshot made for it, and whether
the channel accepted its message. -/
structure Served where
  item : S.Item
  rx : Nat
  accepted : Bool

abbrev Answer := Poll (Option (Except ActixSendError S.Output))

/-- A stream whose own state is a `φ`. `sending` is a call of `poll_next` between
`try_send` and the first poll of the oneshot, with its waker. `messages` is what
the channel accepted, `served` what the inner stream yielded, its ends included,
`returned` what the calls returned, each with the waker it came with, and `woken`
the wakers of the calls that found the budget of their task spent. -/
structure State (φ : Type) where
  polls : Nat
  state : φ
  sending : Option (Nat × Nat)
  oneshots : List (OneShot S.Result)
  streamWaker : Option Nat
  messages : List (Nat × S.Message)
  served : List (Option (Served S))
  returned : List (Nat × Answer S)
  woken : List Nat

inductive Act
  | poll (w : Nat) (accepts spent : Bool)
  | resume (spent : Bool)
  | answer (rx : Nat) (res : S.Result)
  | drop (rx : Nat)

variable {S : Signature} {φ : Type}

def Act.spent : Act S → Bool
  | .poll _ _ spent => spent
  | .resume spent => spent
  | _ => false

def start (state : φ) : State S φ := ⟨0, state, none, [], none, [], [], [], []⟩

namespace State

def ret (s : State S φ) (w : Nat) (answer : Answer S) : State S φ :=
  { s with returned := s.returned ++ [(w, answer)] }

/-- What is left of a call whose oneshot is pending. -/
def wait (s : State S φ) (w : Nat) (spent : Bool) : State S φ :=
  ret { s with woken := if spent then s.woken ++ [w] else s.woken } w .pending

/-- The oneshot, the message and `try_send`. -/
def trySend (s : State S φ) (w : Nat) (item : S.Item) (accepts : Bool) : State S φ :=
  let rx := s.oneshots.length
  let s : State S φ := { s with served := s.served ++ [some ⟨item, rx, accepts⟩] }
  if accepts then
    { s with
      oneshots := s.oneshots ++ [⟨none, none⟩]
      messages := s.messages ++ [(rx, S.into item)]
      sending := some (w, rx) }
  else
    ret { s with oneshots := s.oneshots ++ [⟨some none, none⟩] } w
      (.ready (some (.error .closed)))

def settle (s : State S φ) (rx : Nat) (res : Option S.Result) : Option (State S φ) :=
  match s.oneshots[rx]? with
  | some ⟨none, _⟩ => some { s with oneshots := s.oneshots.set rx ⟨some res, none⟩ }
  | _ => none

end State

def result : Option S.Result → Except ActixSendError S.Output
  | some res => S.map res
  | none => .error .canceled

section Stream
variable (inner : Nat → Poll (Option S.Item))

/-- `poll_next`, up to the first poll of a oneshot it makes. -/
def pollNext (s : State S ActorStreamState) (w : Nat) (accepts spent : Bool) :
    Option (State S ActorStreamState) :=
  match s.state with
  | .next =>
    match inner s.polls with
    | .ready (some item) => some (.trySend { s with polls := s.polls + 1 } w item accepts)
    | .pending => some (.ret { s with polls := s.polls + 1, streamWaker := some w } w .pending)
    | .ready none =>
      some (.ret { s with polls := s.polls + 1, served := s.served ++ [none] } w (.ready none))
  | .last rx =>
    match s.oneshots[rx]? with
    | some oneshot =>
      match oneshot.poll w spent with
      | (.ready res, oneshot) =>
        some (.ret { s with oneshots := s.oneshots.set rx oneshot, state := .next } w
          (.ready (some (result res))))
      | (.pending, oneshot) =>
        some (.wait { s with oneshots := s.oneshots.set rx oneshot } w spent)
    | none => none

/-- The rest of the call that has sent a message. -/
def resume (s : State S ActorStreamState) (spent : Bool) : Option (State S ActorStreamState) :=
  match s.sending with
  | some (w, rx) =>
    match s.oneshots[rx]? with
    | some oneshot =>
      match oneshot.poll w spent with
      | (.ready res, oneshot) =>
        some (.ret { s with oneshots := s.oneshots.set rx oneshot, sending := none } w
          (.ready (some (result res))))
      | (.pending, oneshot) =>
        some (.wait { s with
          oneshots := s.oneshots.set rx oneshot
          sending := none
          state := .last rx } w spent)
    | none => none
  | none => none

def step (s : State S ActorStreamState) : Act S → Option (State S ActorStreamState)
  | .poll w accepts spent =>
    if s.sending.isSome then none else pollNext inner s w accepts spent
  | .resume spent => resume s spent
  | .answer rx res => s.settle rx (some res)
  | .drop rx => s.settle rx none

/-- What the inner stream yields in its first `n` polls, its ends included. -/
def yielded (n : Nat) : List (Option S.Item) :=
  (List.range n).filterMap fun k => match inner k with
    | .ready item => some item
    | .pending => none

end Stream

namespace State

def answers (s : State S φ) : List (Option (Except ActixSendError S.Output)) :=
  s.returned.filterMap fun x => match x.2 with
    | .ready answer => some answer
    | .pending => none

/-- What has become of something the inner stream yielded. -/
def outcome (s : State S φ) : Option (Served S) → Option (Option (Except ActixSendError S.Output))
  | none => some none
  | some x =>
    if x.accepted then
      ((s.oneshots[x.rx]?).bind OneShot.value).map fun res => some (result res)
    else some (some (.error .closed))

def items (s : State S φ) : List (Served S) := s.served.filterMap id

end State

/-- The waker of the call is with the inner stream or with the oneshot that is
waited for. -/
def WakerRegistered (inner : Nat → Poll (Option S.Item))
    (m : Move (State S ActorStreamState) (Act S)) (w : Nat) : Prop :=
  inner m.src.polls = .pending ∧ m.dst.polls = m.src.polls + 1 ∧ m.dst.streamWaker = some w ∨
    ∃ rx, m.dst.state = .last rx ∧ m.dst.oneshots[rx]? = some ⟨none, some w⟩

/-- The runtime has woken the call's waker, since the task's budget was spent. -/
def WokenAtOnce (m : Move (State S ActorStreamState) (Act S)) (w : Nat) : Prop :=
  m.act.spent = true ∧ (∃ rx, m.dst.state = .last rx) ∧ m.dst.woken = m.src.woken ++ [w]

section Moves
variable {inner : Nat → Poll (Option S.Item)}

inductive StreamMove (inner : Nat → Poll (Option S.Item)) (s : State S ActorStreamState) :
    Act S → State S ActorStreamState → Prop
  | pending {w : Nat} {accepts spent : Bool} (hstate : s.state = .next)
      (hsending : s.sending = none)
      (hinner : inner s.polls = .pending) :
      StreamMove inner s (.poll w accepts spent)
        (.ret { s with polls := s.polls + 1, streamWaker := some w } w .pending)
  | ended {w : Nat} {accepts spent : Bool} (hstate : s.state = .next) (hsending : s.sending = none)
      (hinner : inner s.polls = .ready none) :
      StreamMove inner s (.poll w accepts spent)
        (.ret { s with polls := s.polls + 1, served := s.served ++ [none] } w (.ready none))
  | accepted {w : Nat} {item : S.Item} {spent : Bool} (hstate : s.state = .next)
      (hsending : s.sending = none)
      (hinner : inner s.polls = .ready (some item)) :
      StreamMove inner s (.poll w true spent) { s with
        polls := s.polls + 1
        served := s.served ++ [some ⟨item, s.oneshots.length, true⟩]
        oneshots := s.oneshots ++ [⟨none, none⟩]
        messages := s.messages ++ [(s.oneshots.length, S.into item)]
        sending := some (w, s.oneshots.length) }
  | refused {w : Nat} {item : S.Item} {spent : Bool} (hstate : s.state = .next)
      (hsending : s.sending = none)
      (hinner : inner s.polls = .ready (some item)) :
      StreamMove inner s (.poll w false spent) (.ret { s with
        polls := s.polls + 1
        served := s.served ++ [some ⟨item, s.oneshots.length, false⟩]
        oneshots := s.oneshots ++ [⟨some none, none⟩] } w (.ready (some (.error .closed))))
  | lastReady {w rx : Nat} {accepts : Bool} {res : Option S.Result} {waker : Option Nat}
      (hstate : s.state = .last rx) (hsending : s.sending = none)
      (hrx : s.oneshots[rx]? = some ⟨some res, waker⟩) :
      StreamMove inner s (.poll w accepts false)
        (.ret { s with state := .next } w (.ready (some (result res))))
  | lastPending {w rx : Nat} {accepts : Bool} {waker : Option Nat}
      (hstate : s.state = .last rx) (hsending : s.sending = none)
      (hrx : s.oneshots[rx]? = some ⟨none, waker⟩) :
      StreamMove inner s (.poll w accepts false)
        (.ret { s with oneshots := s.oneshots.set rx ⟨none, some w⟩ } w .pending)
  | lastSpent {w rx : Nat} {accepts : Bool} (hstate : s.state = .last rx)
      (hsending : s.sending = none) :
      StreamMove inner s (.poll w accepts true)
        (.ret { s with woken := s.woken ++ [w] } w .pending)
  | firstReady {w rx : Nat} {res : Option S.Result} {waker : Option Nat}
      (hsending : s.sending = some (w, rx)) (hrx : s.oneshots[rx]? = some ⟨some res, waker⟩) :
      StreamMove inner s (.resume false)
        (.ret { s with sending := none } w (.ready (some (result res))))
  | firstPending {w rx : Nat} {waker : Option Nat} (hsending : s.sending = some (w, rx))
      (hrx : s.oneshots[rx]? = some ⟨none, waker⟩) :
      StreamMove inner s (.resume false) (.ret { s with
        oneshots := s.oneshots.set rx ⟨none, some w⟩
        sending := none
        state := .last rx } w .pending)
  | firstSpent {w rx : Nat} (hsending : s.sending = some (w, rx)) :
      StreamMove inner s (.resume true) (.ret { s with
        sending := none
        state := .last rx
        woken := s.woken ++ [w] } w .pending)
  | settle {act : Act S} {rx : Nat} {res : Option S.Result} {waker : Option Nat}
      (hact : (∃ r, act = .answer rx r) ∨ act = .drop rx)
      (hrx : s.oneshots[rx]? = some ⟨none, waker⟩) :
      StreamMove inner s act { s with oneshots := s.oneshots.set rx ⟨some res, none⟩ }

theorem StreamMove.of_settle {s t : State S ActorStreamState} {act : Act S} {rx : Nat}
    {res : Option S.Result} (hact : (∃ r, act = .answer rx r) ∨ act = .drop rx)
    (h : s.settle rx res = some t) : StreamMove inner s act t := by
  unfold State.settle at h
  split at h
  · cases h
    exact .settle hact ‹_›
  · cases h

theorem StreamMove.of_pollNext {s t : State S ActorStreamState} {w : Nat} {accepts spent : Bool}
    (hsending : s.sending = none) (h : pollNext inner s w accepts spent = some t) :
    StreamMove inner s (.poll w accepts spent) t := by
  unfold pollNext at h
  split at h
  · rename_i hstate
    split at h
    · rename_i item hinner
      cases h
      cases accepts with
      | true => exact .accepted hstate hsending hinner
      | false => exact .refused hstate hsending hinner
    · cases h
      exact .pending hstate hsending ‹_›
    · cases h
      exact .ended hstate hsending ‹_›
  · rename_i rx hstate
    split at h
    · rename_i oneshot hrx
      obtain ⟨value, waker⟩ := oneshot
      cases spent with
      | true =>
        simp only [OneShot.poll, if_pos, set_eq_self_of hrx] at h
        cases h
        exact .lastSpent hstate hsending
      | false =>
        cases value with
        | some res =>
          simp only [OneShot.poll, Bool.false_eq_true, if_false, set_eq_self_of hrx] at h
          cases h
          exact .lastReady hstate hsending hrx
        | none =>
          cases h
          exact .lastPending hstate hsending hrx
    · cases h

theorem StreamMove.of_resume {s t : State S ActorStreamState} {spent : Bool}
    (h : resume s spent = some t) : StreamMove inner s (.resume spent) t := by
  unfold resume at h
  split at h
  · rename_i w rx hsending
    split at h
    · rename_i oneshot hrx
      obtain ⟨value, waker⟩ := oneshot
      cases spent with
      | true =>
        simp only [OneShot.poll, if_pos, set_eq_self_of hrx] at h
        cases h
        exact .firstSpent hsending
      | false =>
        cases value with
        | some res =>
          simp only [OneShot.poll, Bool.false_eq_true, if_false, set_eq_self_of hrx] at h
          cases h
          exact .firstReady hsending hrx
        | none =>
          cases h
          exact .firstPending hsending hrx
    · cases h
  · cases h

theorem StreamMove.of_step {s t : State S ActorStreamState} {act : Act S}
    (h : step inner s act = some t) : StreamMove inner s act t := by
  cases act with
  | poll w accepts spent =>
    simp only [step] at h
    split at h
    · cases h
    · rename_i hsending
      exact .of_pollNext (by simpa using hsending) h
  | resume spent => exact .of_resume h
  | answer rx res => exact .of_settle (.inl ⟨res, rfl⟩) h
  | drop rx => exact .of_settle (.inr rfl) h

end Moves

def Kept {R : Type} (l l' : List (OneShot R)) : Prop :=
  ∀ (rx : Nat) (res : Option R), (l[rx]?).bind OneShot.value = some res →
    (l'[rx]?).bind OneShot.value = some res

theorem kept_refl {R : Type} (l : List (OneShot R)) : Kept l l := fun _ _ h => h

theorem kept_set {R : Type} {l : List (OneShot R)} {rx : Nat} {waker : Option Nat}
    (oneshot : OneShot R) (h : l[rx]? = some ⟨none, waker⟩) : Kept l (l.set rx oneshot) := by
  intro k res hk
  by_cases hkrx : rx = k
  · subst hkrx
    rw [h] at hk
    cases hk
  · rwa [List.getElem?_set_ne hkrx]

theorem kept_append {R : Type} (l : List (OneShot R)) (oneshot : OneShot R) :
    Kept l (l ++ [oneshot]) := by
  intro k res hk
  obtain ⟨o, ho, hres⟩ := Option.bind_eq_some_iff.mp hk
  rw [getElem?_append_of ho]
  exact hres

theorem outcome_kept {s t : State S φ} {x : Option (Served S)}
    {answer : Option (Except ActixSendError S.Output)} (hkept : Kept s.oneshots t.oneshots)
    (h : s.outcome x = some answer) : t.outcome x = some answer := by
  cases x with
  | none => exact h
  | some x =>
    simp only [State.outcome] at h ⊢
    split at h
    · rename_i haccepted
      obtain ⟨res, hres, hanswer⟩ := Option.map_eq_some_iff.mp h
      rw [if_pos haccepted, hkept x.rx res hres]
      exact congrArg some hanswer
    · rename_i haccepted
      rwa [if_neg haccepted]

theorem answers_ready (s : State S φ) (w : Nat)
    (answer : Option (Except ActixSendError S.Output)) :
    (s.ret w (.ready answer)).answers = s.answers ++ [answer] := by
  simp [State.answers, State.ret]

theorem answers_pending (s : State S φ) (w : Nat) : (s.ret w .pending).answers = s.answers := by
  simp [State.answers, State.ret]

def Answered (s : State S φ) : Prop :=
  ∀ (k : Nat) (answer : Option (Except ActixSendError S.Output)), s.answers[k]? = some answer →
    ∃ x : Option (Served S), s.served[k]? = some x ∧ s.outcome x = some answer

theorem Answered.same {s t : State S φ} (hs : Answered s) (hanswers : t.answers = s.answers)
    (hserved : ∀ (k : Nat) (x : Option (Served S)), s.served[k]? = some x → t.served[k]? = some x)
    (hkept : Kept s.oneshots t.oneshots) : Answered t := by
  intro k answer hk
  rw [hanswers] at hk
  obtain ⟨x, hx, houtcome⟩ := hs k answer hk
  exact ⟨x, hserved k x hx, outcome_kept hkept houtcome⟩

theorem Answered.snoc {s t : State S φ} {x : Option (Served S)}
    {answer : Option (Except ActixSendError S.Output)} (hs : Answered s)
    (hanswers : t.answers = s.answers ++ [answer])
    (hserved : ∀ (k : Nat) (x : Option (Served S)), s.served[k]? = some x → t.served[k]? = some x)
    (hkept : Kept s.oneshots t.oneshots) (hx : t.served[s.answers.length]? = some x)
    (houtcome : t.outcome x = some answer) : Answered t := by
  intro k answer' hk
  rw [hanswers] at hk
  rcases getElem?_append_cases hk with ⟨rfl, rfl⟩ | hk
  · exact ⟨x, hx, houtcome⟩
  · obtain ⟨y, hy, hanswer⟩ := hs k answer' hk
    exact ⟨y, hserved k y hy, outcome_kept hkept hanswer⟩

theorem items_snoc {s t : State S φ} {x : Option (Served S)} (h : t.served = s.served ++ [x]) :
    t.items = s.items ++ x.toList := by
  rw [State.items, h, List.filterMap_append]
  cases x <;> rfl

theorem rxs_snoc {s t : State S φ} {item : S.Item} {accepted : Bool}
    {oneshot : OneShot S.Result} (hs : s.items.map Served.rx = List.range s.oneshots.length)
    (hserved : t.served = s.served ++ [some ⟨item, s.oneshots.length, accepted⟩])
    (honeshots : t.oneshots = s.oneshots ++ [oneshot]) :
    t.items.map Served.rx = List.range t.oneshots.length := by
  rw [items_snoc hserved, List.map_append, hs, honeshots, List.length_append,
    List.length_singleton, List.range_succ]
  rfl

theorem items_same {s t : State S φ} (h : t.served = s.served) : t.items = s.items := by
  rw [State.items, h, State.items]

section Invariant
variable {inner : Nat → Poll (Option S.Item)}

/-- The call under way or the stream's state waits for the last item served. -/
inductive Phase (s : State S ActorStreamState) : Prop
  | idle (hstate : s.state = .next) (hsending : s.sending = none)
      (hlength : s.served.length = s.answers.length)
  | waiting {x : Served S} (hlength : s.served.length = s.answers.length + 1)
      (hx : s.served[s.answers.length]? = some (some x)) (haccepted : x.accepted = true)
      (hwaits : s.state = .last x.rx ∧ s.sending = none ∨
        s.state = .next ∧ ∃ w, s.sending = some (w, x.rx))

structure StreamInv (inner : Nat → Poll (Option S.Item)) (s : State S ActorStreamState) :
    Prop where
  inOrder : s.served.map (Option.map Served.item) = yielded inner s.polls
  answered : Answered s
  phase : Phase s
  messages : s.messages =
    (s.items.filter Served.accepted).map fun x => (x.rx, S.into x.item)
  rxs : s.items.map Served.rx = List.range s.oneshots.length

theorem yielded_pending {n : Nat} (h : inner n = .pending) :
    yielded inner (n + 1) = yielded inner n := by
  simp [yielded, List.range_succ, h]

theorem yielded_ready {n : Nat} {item : Option S.Item} (h : inner n = .ready item) :
    yielded inner (n + 1) = yielded inner n ++ [item] := by
  simp [yielded, List.range_succ, h]

theorem Phase.of_next {s : State S ActorStreamState} (h : Phase s) (hstate : s.state = .next)
    (hsending : s.sending = none) : s.served.length = s.answers.length := by
  cases h with
  | idle _ _ hlength => exact hlength
  | waiting _ _ _ hwaits =>
    rcases hwaits with ⟨hlast, _⟩ | ⟨_, w, hsome⟩
    · cases hstate.symm.trans hlast
    · cases hsending.symm.trans hsome

theorem Phase.of_waits {s : State S ActorStreamState} (h : Phase s) {rx : Nat}
    (hwaits : s.state = .last rx ∧ s.sending = none ∨ ∃ w, s.sending = some (w, rx)) :
    s.served.length = s.answers.length + 1 ∧ ∃ x : Served S,
      s.served[s.answers.length]? = some (some x) ∧ x.accepted = true ∧ x.rx = rx ∧
        (s.sending ≠ none → s.state = .next) := by
  cases h with
  | idle hstate hsending =>
    rcases hwaits with ⟨hlast, _⟩ | ⟨w, hsome⟩
    · cases hstate.symm.trans hlast
    · cases hsending.symm.trans hsome
  | @waiting x hlength hx haccepted hwaits' =>
    refine ⟨hlength, x, hx, haccepted, ?_⟩
    rcases hwaits with ⟨hlast, hnone⟩ | ⟨w, hsome⟩ <;>
      rcases hwaits' with ⟨hlast', hnone'⟩ | ⟨hnext', w', hsome'⟩
    · cases hlast.symm.trans hlast'
      exact ⟨rfl, fun h => absurd hnone h⟩
    · cases hlast.symm.trans hnext'
    · cases hsome.symm.trans hnone'
    · cases hsome.symm.trans hsome'
      exact ⟨rfl, fun _ => hnext'⟩

theorem StreamInv.pending {s : State S ActorStreamState} (hs : StreamInv inner s)
    (hstate : s.state = .next) (hsending : s.sending = none) (hinner : inner s.polls = .pending)
    (w : Nat) :
    StreamInv inner (.ret { s with polls := s.polls + 1, streamWaker := some w } w .pending) := by
  have hlength := hs.phase.of_next hstate hsending
  refine ⟨?_, hs.answered.same (answers_pending _ w) (fun _ _ h => h) (kept_refl _), ?_,
    hs.messages, hs.rxs⟩
  · exact hs.inOrder.trans (yielded_pending hinner).symm
  · exact .idle hstate hsending (by rw [answers_pending]; exact hlength)

theorem StreamInv.answeredAtOnce {s t : State S ActorStreamState} (hs : StreamInv inner s)
    {x : Option (Served S)} {answer : Option (Except ActixSendError S.Output)}
    (hstate : s.state = .next) (hsending : s.sending = none)
    (hinner : inner s.polls = .ready (x.map Served.item))
    (hpolls : t.polls = s.polls + 1) (hserved : t.served = s.served ++ [x])
    (hkept : Kept s.oneshots t.oneshots) (hanswers : t.answers = s.answers ++ [answer])
    (houtcome : t.outcome x = some answer) (hstate' : t.state = .next)
    (hsending' : t.sending = none)
    (hmessages : t.messages =
      (t.items.filter Served.accepted).map fun x => (x.rx, S.into x.item))
    (hrxs : t.items.map Served.rx = List.range t.oneshots.length) :
    StreamInv inner t := by
  have hlength := hs.phase.of_next hstate hsending
  refine ⟨?_, ?_, ?_, hmessages, hrxs⟩
  · rw [hserved, hpolls, yielded_ready hinner, List.map_append, hs.inOrder]
    rfl
  · refine hs.answered.snoc hanswers ?_ hkept ?_ houtcome
    · intro k y hy
      rw [hserved]
      exact getElem?_append_of hy
    · rw [hserved, ← hlength]
      exact List.getElem?_concat_length ..
  · refine .idle hstate' hsending' ?_
    rw [hserved, hanswers, List.length_append, List.length_append, hlength]
    rfl

theorem StreamInv.accepted {s : State S ActorStreamState} (hs : StreamInv inner s)
    {item : S.Item} (hstate : s.state = .next) (hsending : s.sending = none)
    (hinner : inner s.polls = .ready (some item)) (w : Nat) :
    StreamInv inner { s with
      polls := s.polls + 1
      served := s.served ++ [some ⟨item, s.oneshots.length, true⟩]
      oneshots := s.oneshots ++ [⟨none, none⟩]
      messages := s.messages ++ [(s.oneshots.length, S.into item)]
      sending := some (w, s.oneshots.length) } := by
  have hlength := hs.phase.of_next hstate hsending
  constructor
  · simp only [yielded_ready hinner, List.map_append, hs.inOrder]
    rfl
  · exact hs.answered.same rfl (fun _ _ h => getElem?_append_of h) (kept_append _ _)
  · refine .waiting (x := ⟨item, s.oneshots.length, true⟩) ?_ ?_ rfl (.inr ⟨hstate, w, rfl⟩)
    · rw [List.length_append, hlength]
      rfl
    · show (s.served ++ [_])[s.answers.length]? = _
      rw [← hlength]
      exact List.getElem?_concat_length ..
  · rw [items_snoc rfl, List.filter_append, List.map_append, ← hs.messages]
    rfl
  · exact rxs_snoc hs.rxs rfl rfl

theorem StreamInv.received {s t : State S ActorStreamState} (hs : StreamInv inner s) {rx : Nat}
    {res : Option S.Result} {waker : Option Nat}
    (hwaits : s.state = .last rx ∧ s.sending = none ∨ ∃ w, s.sending = some (w, rx))
    (hrx : s.oneshots[rx]? = some ⟨some res, waker⟩) (hpolls : t.polls = s.polls)
    (hserved : t.served = s.served) (honeshots : t.oneshots = s.oneshots)
    (hmessages : t.messages = s.messages)
    (hanswers : t.answers = s.answers ++ [some (result res)])
    (hidle : (s.sending ≠ none → s.state = .next) → t.state = .next ∧ t.sending = none) :
    StreamInv inner t := by
  obtain ⟨hlength, x, hx, haccepted, hxrx, hnext⟩ := hs.phase.of_waits hwaits
  obtain ⟨hstate, hsending⟩ := hidle hnext
  constructor
  · rw [hserved, hpolls, hs.inOrder]
  · refine hs.answered.snoc hanswers ?_ ?_ (by rw [hserved, hx]) ?_
    · intro k y hy
      rwa [hserved]
    · rw [honeshots]
      exact kept_refl _
    · simp [State.outcome, haccepted, honeshots, hxrx, hrx]
  · refine .idle hstate hsending ?_
    rw [hserved, hanswers, List.length_append, hlength]
    rfl
  · rw [hmessages, items_same hserved, hs.messages]
  · rw [items_same hserved, honeshots, hs.rxs]

theorem Phase.congr {s t : State S ActorStreamState} (h : Phase s) (hserved : t.served = s.served)
    (hanswers : t.answers = s.answers) (hstate : t.state = s.state)
    (hsending : t.sending = s.sending) : Phase t := by
  cases h with
  | idle h₁ h₂ hlength =>
    exact .idle (hstate.trans h₁) (hsending.trans h₂) (by rw [hserved, hanswers, hlength])
  | @waiting x hlength hx haccepted hwaits =>
    refine .waiting (x := x) ?_ ?_ haccepted ?_
    · rw [hserved, hanswers, hlength]
    · rw [hserved, hanswers, hx]
    · rwa [hstate, hsending]

theorem Phase.suspended {s t : State S ActorStreamState} (h : Phase s) {w rx : Nat}
    (hsending : s.sending = some (w, rx)) (hserved : t.served = s.served)
    (hanswers : t.answers = s.answers) (hstate' : t.state = .last rx)
    (hsending' : t.sending = none) : Phase t := by
  obtain ⟨hlength, x, hx, haccepted, rfl, _⟩ := h.of_waits (.inr ⟨w, hsending⟩)
  refine .waiting (x := x) ?_ ?_ haccepted (.inl ⟨hstate', hsending'⟩)
  · rw [hserved, hanswers, hlength]
  · rw [hserved, hanswers, hx]

theorem StreamInv.unread {s t : State S ActorStreamState} (hs : StreamInv inner s)
    (honeshots : t.oneshots = s.oneshots) (hpolls : t.polls = s.polls)
    (hserved : t.served = s.served) (hmessages : t.messages = s.messages)
    (hanswers : t.answers = s.answers) (hphase : Phase t) : StreamInv inner t := by
  refine ⟨?_, ?_, hphase, ?_, ?_⟩
  · rw [hserved, hpolls, hs.inOrder]
  · refine hs.answered.same hanswers ?_ ?_
    · intro k y hy
      rwa [hserved]
    · rw [honeshots]
      exact kept_refl _
  · rw [hmessages, items_same hserved, hs.messages]
  · rw [items_same hserved, honeshots, hs.rxs]

theorem StreamInv.written {s t : State S ActorStreamState} (hs : StreamInv inner s) {rx : Nat}
    {waker : Option Nat} {oneshot : OneShot S.Result} (hrx : s.oneshots[rx]? = some ⟨none, waker⟩)
    (honeshots : t.oneshots = s.oneshots.set rx oneshot) (hpolls : t.polls = s.polls)
    (hserved : t.served = s.served) (hmessages : t.messages = s.messages)
    (hanswers : t.answers = s.answers) (hphase : Phase t) : StreamInv inner t := by
  refine ⟨?_, ?_, hphase, ?_, ?_⟩
  · rw [hserved, hpolls, hs.inOrder]
  · refine hs.answered.same hanswers ?_ ?_
    · intro k y hy
      rwa [hserved]
    · rw [honeshots]
      exact kept_set oneshot hrx
  · rw [hmessages, items_same hserved, hs.messages]
  · rw [items_same hserved, honeshots, List.length_set, hs.rxs]

theorem StreamInv.step {s t : State S ActorStreamState} {act : Act S}
    (h : step inner s act = some t) (hs : StreamInv inner s) : StreamInv inner t := by
  cases StreamMove.of_step h with
  | @pending w _ _ hstate hsending hinner => exact hs.pending hstate hsending hinner w
  | @ended w _ _ hstate hsending hinner =>
    refine hs.answeredAtOnce (x := none) hstate hsending hinner rfl rfl (kept_refl _)
      (answers_ready _ w none) rfl hstate hsending ?_ ?_
    · rw [items_snoc rfl, Option.toList_none, List.append_nil]
      exact hs.messages
    · rw [items_snoc rfl, Option.toList_none, List.append_nil]
      exact hs.rxs
  | @accepted w item _ hstate hsending hinner => exact hs.accepted hstate hsending hinner w
  | @refused w item _ hstate hsending hinner =>
    refine hs.answeredAtOnce (x := some ⟨item, s.oneshots.length, false⟩) hstate hsending hinner
      rfl rfl (kept_append _ _) (answers_ready _ w _) rfl hstate hsending ?_ ?_
    · rw [items_snoc rfl, List.filter_append, List.map_append, ← hs.messages]
      exact (List.append_nil _).symm
    · exact rxs_snoc hs.rxs rfl rfl
  | @lastReady w rx _ res waker hstate hsending hrx =>
    exact hs.received (.inl ⟨hstate, hsending⟩) hrx rfl rfl rfl rfl (answers_ready _ w _)
      fun _ => ⟨rfl, hsending⟩
  | @lastPending w rx _ waker hstate hsending hrx =>
    exact hs.written hrx rfl rfl rfl rfl (answers_pending _ w)
      (hs.phase.congr rfl (answers_pending _ w) rfl rfl)
  | lastSpent =>
    exact hs.unread rfl rfl rfl rfl (answers_pending _ _)
      (hs.phase.congr rfl (answers_pending _ _) rfl rfl)
  | @firstReady w rx res waker hsending hrx =>
    refine hs.received (.inr ⟨w, hsending⟩) hrx rfl rfl rfl rfl (answers_ready _ w _) ?_
    intro hnext
    exact ⟨hnext (by simp [hsending]), rfl⟩
  | @firstPending w rx waker hsending hrx =>
    exact hs.written hrx rfl rfl rfl rfl (answers_pending _ w)
      (hs.phase.suspended hsending rfl (answers_pending _ w) rfl rfl)
  | @firstSpent w rx hsending =>
    exact hs.unread rfl rfl rfl rfl (answers_pending _ w)
      (hs.phase.suspended hsending rfl (answers_pending _ w) rfl rfl)
  | settle _ hrx => exact hs.written hrx rfl rfl rfl rfl rfl (hs.phase.congr rfl rfl rfl rfl)

theorem StreamMove.registered {s t : State S ActorStreamState} {act : Act S} {w : Nat}
    (h : StreamMove inner s act t) (hreturned : t.returned = s.returned ++ [(w, .pending)]) :
    WakerRegistered inner ⟨s, act, t⟩ w ∨ WokenAtOnce ⟨s, act, t⟩ w := by
  cases h with
  | pending _ _ hinner =>
    cases List.append_cancel_left hreturned
    exact .inl (.inl ⟨hinner, rfl, rfl⟩)
  | lastPending hstate _ hrx =>
    cases List.append_cancel_left hreturned
    exact .inl (.inr ⟨_, hstate, getElem?_set_self_of hrx⟩)
  | firstPending _ hrx =>
    cases List.append_cancel_left hreturned
    exact .inl (.inr ⟨_, rfl, getElem?_set_self_of hrx⟩)
  | lastSpent hstate =>
    cases List.append_cancel_left hreturned
    exact .inr ⟨rfl, ⟨_, hstate⟩, rfl⟩
  | firstSpent =>
    cases List.append_cancel_left hreturned
    exact .inr ⟨rfl, ⟨_, rfl⟩, rfl⟩
  | ended | refused | lastReady | firstReady => cases List.append_cancel_left hreturned
  | accepted | settle => simp at hreturned

/-- A small stream whose actor answers numbers with numbers. -/
abbrev echoSignature : Signature := ⟨Nat, Nat, Nat, Nat, id, .ok⟩

end Invariant

end ActixSend.ActorStream
