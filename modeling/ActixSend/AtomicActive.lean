import ActixSend.ActiveWord
import ActixSend.Transition.Refinement

/-! # `active` as an atomic object

What the loops on `active` are for: a word on which each `inc_active`, each
`dec_active` and the `fetch_or` of `shutdown` is one access. A run of the loops
is one of such accesses that return the same to the same contexts in the same
order, the moment of each being the round that ends its loop.
-/

namespace ActixSend.ActiveWord

open Transition
set_option autoImplicit false

/-- Between two calls a context is as its last one has left it. -/
inductive Client
  | idle
  | running (counted : Bool)
  deriving DecidableEq

structure Counter where
  active : Nat
  clients : List Client

inductive Access
  | modify (i : Nat)
  | shutdown

/-- A call of the context `i` returns `ok`, or the marker is set. -/
inductive Event
  | returned (i : Nat) (inc ok : Bool)
  | marked
  deriving DecidableEq

namespace Counter

def start (n : Nat) : Counter := ⟨0, List.replicate n .idle⟩

def step (s : Counter) : Access → Option Counter
  | .modify i =>
    match s.clients[i]? with
    | some .idle =>
      let (ok, active) := incActive s.active
      some ⟨active, s.clients.set i (.running ok)⟩
    | some (.running _) => some ⟨(decActive s.active).2, s.clients.set i .idle⟩
    | none => none
  | .shutdown => some { s with active := s.active ||| marker }

def seen (m : Move Counter Access) : List Event :=
  match m.act with
  | .modify i =>
    match m.src.clients[i]? with
    | some .idle => [.returned i true (incActive m.src.active).1]
    | some (.running _) => [.returned i false (decActive m.src.active).1]
    | none => []
  | .shutdown => [.marked]

end Counter

def Phase.client : Phase → Client
  | .idle => .idle
  | .loop .inc _ => .idle
  | .loop (.dec counted) _ => .running counted
  | .running counted => .running counted

def State.counter (s : State) : Counter := ⟨s.active.now, s.threads.map fun th => th.phase.client⟩

def seen (m : Move State Act) : List Event :=
  match m.act with
  | .load _ _ => []
  | .exchange i _ =>
    match m.src.threads[i]?, m.dst.threads[i]? with
    | some ⟨_, .loop .inc _⟩, some ⟨_, .running ok⟩ => [.returned i true ok]
    | some ⟨_, .loop (.dec _) active⟩, some ⟨_, .idle⟩ =>
      [.returned i false (active &&& marker == 0)]
    | _, _ => []
  | .shutdown => [.marked]

theorem counter_setThread (s : State) (a : Atomic Nat) (i : Nat) (th : Thread) :
    ({ s with active := a }.setThread i th).counter =
      ⟨a.now, s.counter.clients.set i th.phase.client⟩ := by
  simp only [State.counter, State.setThread, List.map_set]

theorem counter_client {s : State} {i : Nat} {th : Thread} (hi : s.threads[i]? = some th) :
    s.counter.clients[i]? = some th.phase.client := by
  rw [State.counter, List.getElem?_map, hi, Option.map_some]

theorem counter_same {s : State} {i : Nat} {th th' : Thread} (hi : s.threads[i]? = some th)
    (hclient : th'.phase.client = th.phase.client) : (s.setThread i th').counter = s.counter := by
  have hset := counter_setThread s s.active i th'
  rw [hclient, set_eq_self_of (counter_client hi)] at hset
  exact hset

theorem client_of_call {phase : Phase} {call : Call} (active : Nat)
    (h : phase.call = some call ∨ ∃ old, phase = .loop call old) :
    (Phase.loop call active).client = phase.client := by
  rcases h with h | ⟨old, rfl⟩
  · cases phase <;> cases h <;> rfl
  · cases call <;> rfl

def Call.isInc : Call → Bool
  | .inc => true
  | .dec _ => false

theorem counter_modify {s : State} {i seen active : Nat} {call : Call} {ok : Bool} {a : Atomic Nat}
    (th : Thread) (hi : s.threads[i]? = some ⟨seen, .loop call active⟩)
    (hth : th.phase = call.returns ok) (halone : call.alone s.active.now = (ok, a.now)) :
    Counter.step s.counter (.modify i) = some ({ s with active := a }.setThread i th).counter ∧
      Counter.seen ⟨s.counter, .modify i, ({ s with active := a }.setThread i th).counter⟩ =
        [.returned i call.isInc ok] := by
  have hclient := counter_client hi
  rw [counter_setThread, hth]
  cases call with
  | inc =>
    change s.counter.clients[i]? = some .idle at hclient
    change incActive s.counter.active = (ok, a.now) at halone
    simp only [Counter.step, Counter.seen, hclient, halone]
    exact ⟨rfl, rfl⟩
  | dec counted =>
    change s.counter.clients[i]? = some (.running counted) at hclient
    change decActive s.counter.active = (ok, a.now) at halone
    simp only [Counter.step, Counter.seen, hclient, halone]
    exact ⟨rfl, rfl⟩

theorem seen_returned {s t : State} {i seen' active : Nat} {call : Call} {fails : Option Nat}
    {ok : Bool} {th : Thread} (hi : s.threads[i]? = some ⟨seen', .loop call active⟩)
    (ht : t.threads[i]? = some th) (hth : th.phase = call.returns ok)
    (hok : (active &&& marker == 0) = ok) :
    seen ⟨s, .exchange i fails, t⟩ = [.returned i call.isInc ok] := by
  obtain ⟨k, phase⟩ := th
  obtain rfl : phase = call.returns ok := hth
  cases call with
  | inc =>
    simp only [seen, hi, ht, Call.returns, Call.isInc]
  | dec counted =>
    simp only [seen, hi, ht, Call.returns, Call.isInc, hok]

theorem loops_refine : Refines step Counter.step State.counter WordInv seen Counter.seen := by
  constructor
  · intro u act v hstep hu
    exact hu.step hstep
  · intro u act v hstep hu
    cases Moves.of_step hstep with
    | @meet _ i k active th call hact hi hcall hk hload =>
      refine .inl ⟨counter_same hi (client_of_call active hcall), ?_⟩
      rcases hact with rfl | rfl
      · rfl
      · have hset : (u.setThread i ⟨k, .loop call active⟩).threads[i]? =
            some ⟨k, .loop call active⟩ := getElem?_set_self_of hi
        simp only [seen, hset]
        split <;> simp_all
    | @refuse i k active call fails hi hmarker =>
      have hheld := (hu.threads _ (List.mem_of_getElem? hi)).held _ active rfl
      have hnow := hu.sticky.now hheld hmarker
      have hodd : active &&& marker ≠ 0 := (marker_iff active).mpr hmarker
      have halone : call.alone u.active.now = (false, u.active.now) := by
        rw [hnow]
        cases call <;> simp only [Call.alone, incActive, decActive, modifyActive, if_pos hodd]
      obtain ⟨hmodify, hevent⟩ := counter_modify (a := u.active) ⟨k, call.returns false⟩ hi
        rfl halone
      refine .inr ⟨.modify i, hmodify, hevent.trans ?_⟩
      exact (seen_returned hi (getElem?_set_self_of hi) rfl (beq_eq_false_iff_ne.mpr hodd)).symm
    | @exchange i k call hi hmarker =>
      have heven : u.active.now &&& marker = 0 := by
        by_contra hodd
        have := (marker_iff u.active.now).mp hodd
        omega
      have halone : call.alone u.active.now =
          (true, (u.active.write (call.f u.active.now)).now) := by
        cases call <;>
          simp only [Call.alone, incActive, decActive, modifyActive, heven, ne_eq, not_true,
            if_false] <;> rfl
      obtain ⟨hmodify, hevent⟩ := counter_modify
        ⟨u.active.last + 1, call.returns true⟩ hi rfl halone
      refine .inr ⟨.modify i, hmodify, hevent.trans ?_⟩
      exact (seen_returned hi (getElem?_set_self_of hi) rfl (beq_iff_eq.mpr heven)).symm
    | shutdown => exact .inr ⟨.shutdown, rfl, rfl⟩

theorem start_counter (n : Nat) : (State.start n).counter = .start n := by
  simp [State.counter, State.start, Counter.start, Atomic.new, Phase.client]

/-- The calls return what they would return if each of them were one access,
made at the time of its last round. -/
theorem active_atomic {n : Nat} {t : State} {ms : List (Move State Act)}
    (h : Path step (.start n) ms t) :
    ∃ ns, Path Counter.step (.start n) ns t.counter ∧
      ns.flatMap Counter.seen = ms.flatMap seen := by
  have hpath := loops_refine.exists_path (start_wordInv n) h
  rwa [start_counter] at hpath

/-- The second context is refused, its first attempt having failed before the
marker was set. -/
theorem active_atomic_two : ∃ ms t, Path step (.start 2) ms t ∧
    ms.flatMap seen = [.returned 0 true true, .marked, .returned 1 true false,
      .returned 0 false false] ∧
    ∃ ns, Path Counter.step (.start 2) ns t.counter ∧
      ns.flatMap Counter.seen = ms.flatMap seen := by
  have hwatch : ∃ t, watch step seen (State.start 2) [.load 0 0, .load 1 0, .exchange 0 none,
      .exchange 1 (some 1), .shutdown, .exchange 1 (some 2), .exchange 1 none, .load 0 2,
      .exchange 0 none] = some (t, [.returned 0 true true, .marked, .returned 1 true false,
      .returned 0 false false]) := ⟨_, rfl⟩
  obtain ⟨t, hwatch⟩ := hwatch
  obtain ⟨ms, h, _, hseen⟩ := exists_path_of_watch hwatch
  exact ⟨ms, t, h, hseen, active_atomic h⟩

end ActixSend.ActiveWord
