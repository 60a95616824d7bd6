import ActixSend.Primitive
import ActixSend.Transition.Atomic
import ActixSend.Transition.Path

/-! # The loops on `active`

`inc_active` and `dec_active` are `modify_active`, a loop around a weak
compare-exchange; `shutdown` sets `MARKER` by a `fetch_or`. A context loads the
word, tests the marker on what it loaded, and tries to exchange it; the exchange
may fail for no reason, and a load may meet an old value as long as it is none
the context has already seen replaced. Here each access to the word is a step.
-/

namespace ActixSend.ActiveWord

open Transition
set_option autoImplicit false

/-- A call of `modify_active`; a context decrements after its `inc_active` has
returned, whatever that returned. -/
inductive Call
  | inc
  | dec (counted : Bool)

/-- Where a context is: before `inc_active`, in a loop with the value it last
met, or between the two calls with what `inc_active` returned. -/
inductive Phase
  | idle
  | loop (call : Call) (active : Nat)
  | running (counted : Bool)

/-- `seen` is the index of the latest value of the word the context has met. -/
structure Thread where
  seen : Nat
  phase : Phase

structure State where
  active : Atomic Nat
  threads : List Thread

def Call.f : Call → Nat → Nat
  | .inc, active => active + unit
  | .dec _, active => active - unit

/-- A restarted context calls `inc_active` again. -/
def Call.returns : Call → Bool → Phase
  | .inc, ok => .running ok
  | .dec _, _ => .idle

def Phase.call : Phase → Option Call
  | .idle => some .inc
  | .running counted => some (.dec counted)
  | .loop _ _ => none

/-- `exchange` is one round of the loop; `fails` is the index of the value that
a failing exchange answers. -/
inductive Act
  | load (i k : Nat)
  | exchange (i : Nat) (fails : Option Nat)
  | shutdown

namespace State

def start (n : Nat) : State := ⟨.new 0, List.replicate n ⟨0, .idle⟩⟩

def setThread (s : State) (i : Nat) (th : Thread) : State :=
  { s with threads := s.threads.set i th }

/-- The thread meets the value at index `k`, which is none it has seen replaced. -/
def meet (s : State) (i k : Nat) (th : Thread) (call : Call) : Option State :=
  if th.seen ≤ k then (s.active.load k).map fun active => s.setThread i ⟨k, .loop call active⟩
  else none

def modifyActive (s : State) (i : Nat) (th : Thread) (call : Call) (active : Nat)
    (fails : Option Nat) : Option State :=
  if active &&& marker ≠ 0 then some (s.setThread i ⟨th.seen, call.returns false⟩)
  else
    match fails with
    | none =>
      if s.active.now = active then
        some ({ s with active := s.active.write (call.f active) }.setThread i
          ⟨s.active.last + 1, call.returns true⟩)
      else none
    | some k => s.meet i k th call

end State

def step (s : State) : Act → Option State
  | .load i k =>
    match s.threads[i]? with
    | some th =>
      match th.phase.call with
      | some call => s.meet i k th call
      | none => none
    | none => none
  | .exchange i fails =>
    match s.threads[i]? with
    | some ⟨seen, .loop call active⟩ => s.modifyActive i ⟨seen, .loop call active⟩ call active fails
    | _ => none
  | .shutdown => some { s with active := s.active.write (s.active.now ||| marker) }

/-- The context's increment succeeded and it has not decremented. -/
def Phase.counted : Phase → Bool
  | .running counted => counted
  | .loop (.dec counted) _ => counted
  | _ => false

/-- The context's increment was refused and it has not called `dec_active` to its end. -/
def Phase.refused : Phase → Bool
  | .running counted => !counted
  | .loop (.dec counted) _ => !counted
  | _ => false

def State.counted (s : State) : Nat := s.threads.countP fun th => th.phase.counted

theorem marker_iff (active : Nat) : active &&& marker ≠ 0 ↔ active % 2 = 1 := by
  rw [marker, Nat.and_one_is_mod]
  omega

inductive Moves (s : State) : Act → State → Prop
  | meet {act : Act} {i k active : Nat} {th : Thread} {call : Call}
      (hact : act = .load i k ∨ act = .exchange i (some k)) (hi : s.threads[i]? = some th)
      (hcall : th.phase.call = some call ∨ ∃ old, th.phase = .loop call old) (hk : th.seen ≤ k)
      (hload : s.active.load k = some active) :
      Moves s act (s.setThread i ⟨k, .loop call active⟩)
  | refuse {i seen active : Nat} {call : Call} {fails : Option Nat}
      (hi : s.threads[i]? = some ⟨seen, .loop call active⟩) (hmarker : active % 2 = 1) :
      Moves s (.exchange i fails) (s.setThread i ⟨seen, call.returns false⟩)
  | exchange {i seen : Nat} {call : Call}
      (hi : s.threads[i]? = some ⟨seen, .loop call s.active.now⟩) (hmarker : s.active.now % 2 = 0) :
      Moves s (.exchange i none)
        ({ s with active := s.active.write (call.f s.active.now) }.setThread i
          ⟨s.active.last + 1, call.returns true⟩)
  | shutdown : Moves s .shutdown { s with active := s.active.write (s.active.now ||| marker) }

theorem Moves.of_meet {s t : State} {act : Act} {i k : Nat} {th : Thread} {call : Call}
    (hact : act = .load i k ∨ act = .exchange i (some k)) (hi : s.threads[i]? = some th)
    (hcall : th.phase.call = some call ∨ ∃ old, th.phase = .loop call old)
    (h : s.meet i k th call = some t) : Moves s act t := by
  unfold State.meet at h
  split at h
  · rename_i hk
    obtain ⟨active, hload, rfl⟩ := Option.map_eq_some_iff.mp h
    exact .meet hact hi hcall hk hload
  · cases h

theorem Moves.of_step {s t : State} {act : Act} (h : step s act = some t) : Moves s act t := by
  cases act with
  | load i k =>
    simp only [step] at h
    split at h
    · rename_i th hi
      split at h
      · rename_i call hcall
        exact .of_meet (.inl rfl) hi (.inl hcall) h
      · cases h
    · cases h
  | exchange i fails =>
    simp only [step] at h
    split at h
    · rename_i seen call active hi
      simp only [State.modifyActive] at h
      split at h
      · rename_i hmarker
        cases h
        exact .refuse hi ((marker_iff active).mp hmarker)
      · rename_i hmarker
        rw [marker_iff] at hmarker
        cases fails with
        | none =>
          simp only at h
          split at h
          · rename_i hnow
            cases h
            subst hnow
            exact .exchange hi (by omega)
          · cases h
        | some k => exact .of_meet (.inr rfl) hi (.inr ⟨active, rfl⟩) h
    · cases h
  | shutdown =>
    cases h
    exact .shutdown

/-- Every value a counted context can still meet counts it, and every value a
refused one can still meet has the marker. -/
structure Thread.Sound (th : Thread) (a : Atomic Nat) : Prop where
  seen : th.seen ≤ a.last
  held : ∀ call active, th.phase = .loop call active → a.load th.seen = some active
  counted : th.phase.counted = true → a.Since th.seen fun active => unit ≤ active
  refused : th.phase.refused = true → a.Since th.seen fun active => active % 2 = 1

structure WordInv (s : State) : Prop where
  sticky : s.active.Sticky fun active => active % 2 = 1
  count : s.active.now % 2 = 0 → s.active.now / 2 = s.counted
  threads : ∀ th ∈ s.threads, th.Sound s.active

theorem Thread.Sound.write {th : Thread} {a : Atomic Nat} {b : Nat} (h : th.Sound a)
    (hcounted : th.phase.counted = true → unit ≤ b)
    (hrefused : th.phase.refused = true → b % 2 = 1) :
    th.Sound (a.write b) := by
  refine ⟨?_, ?_, ?_, ?_⟩
  · have hseen := h.seen
    rw [Atomic.last_write]
    omega
  · intro call active hphase
    exact Atomic.load_write_of (h.held call active hphase)
  · intro hc
    exact (h.counted hc).write (hcounted hc)
  · intro hr
    exact (h.refused hr).write (hrefused hr)

theorem counted_of_call {phase : Phase} {call : Call} (active : Nat)
    (h : phase.call = some call ∨ ∃ old, phase = .loop call old) :
    (Phase.loop call active).counted = phase.counted ∧
      (Phase.loop call active).refused = phase.refused := by
  rcases h with h | ⟨old, rfl⟩
  · cases phase <;> cases h <;> exact ⟨rfl, rfl⟩
  · cases call <;> exact ⟨rfl, rfl⟩

theorem or_marker (active : Nat) :
    (active ||| marker) % 2 = 1 ∧ (active % 2 = 1 → active ||| marker = active) ∧
      active ≤ active ||| marker := by
  have hodd : (active ||| marker) % 2 = 1 := Nat.or_mod_two_eq_one.mpr (.inr rfl)
  have hdiv : (active ||| marker) / 2 = active / 2 := by simp [Nat.or_div_two, marker]
  omega

theorem sound_set {s : State} {a : Atomic Nat} {i : Nat} {th : Thread}
    (hothers : ∀ j other, j ≠ i → s.threads[j]? = some other → other.Sound a) (hth : th.Sound a) :
    ∀ other ∈ s.threads.set i th, other.Sound a := by
  intro other hmem
  obtain ⟨j, hj⟩ := List.mem_iff_getElem?.mp hmem
  rcases getElem?_set_cases hj with ⟨_, rfl⟩ | ⟨hne, hj⟩
  · exact hth
  · exact hothers j other hne hj

theorem WordInv.not_refused {s : State} (hs : WordInv s) (heven : s.active.now % 2 = 0)
    {th : Thread} (hth : th ∈ s.threads) : th.phase.refused ≠ true := by
  intro hr
  have hsound := hs.threads th hth
  have hodd := (hsound.refused hr).now hsound.seen
  omega

theorem counted_setThread {s : State} {i : Nat} {th th' : Thread} (hi : s.threads[i]? = some th) :
    (s.setThread i th').counted + (if th.phase.counted then 1 else 0) =
      s.counted + (if th'.phase.counted then 1 else 0) :=
  countP_set_add hi

theorem WordInv.exchange {s : State} {i seen : Nat} {call : Call} (hs : WordInv s)
    (hi : s.threads[i]? = some ⟨seen, .loop call s.active.now⟩) (heven : s.active.now % 2 = 0) :
    WordInv ({ s with active := s.active.write (call.f s.active.now) }.setThread i
      ⟨s.active.last + 1, call.returns true⟩) := by
  have hmem := List.mem_of_getElem? hi
  have hsound := hs.threads _ hmem
  have hcount := hs.count heven
  have hothers : ∀ j other, j ≠ i → s.threads[j]? = some other →
      (other.phase.counted = true → unit ≤ call.f s.active.now) →
      other.Sound (s.active.write (call.f s.active.now)) := by
    intro j other _ hj hunit
    have hother := List.mem_of_getElem? hj
    exact (hs.threads other hother).write hunit fun hr => absurd hr (hs.not_refused heven hother)
  have htwo : unit = 2 := rfl
  cases call with
  | inc =>
    have hset : (s.setThread i ⟨s.active.last + 1, .running true⟩).counted + 0 = s.counted + 1 :=
      counted_setThread hi
    simp only [Call.f] at hothers ⊢
    refine ⟨hs.sticky.write fun hodd => by omega, fun _ => ?_, ?_⟩
    · change (s.active.now + unit) / 2 = (s.setThread i ⟨s.active.last + 1, .running true⟩).counted
      omega
    · apply sound_set fun j other hne hj => hothers j other hne hj fun _ => by omega
      exact ⟨Nat.le_of_eq (Atomic.last_write _ _).symm, nofun,
        fun _ => Atomic.since_write_last (by omega), nofun⟩
  | dec counted =>
    obtain rfl : counted = true := by simpa [Phase.refused] using hs.not_refused heven hmem
    have hunit : unit ≤ s.active.now := (hsound.counted rfl).now hsound.seen
    have hset : (s.setThread i ⟨s.active.last + 1, .idle⟩).counted + 1 = s.counted + 0 :=
      counted_setThread hi
    simp only [Call.f] at hothers ⊢
    refine ⟨hs.sticky.write fun hodd => by omega, fun _ => ?_, ?_⟩
    · change (s.active.now - unit) / 2 = (s.setThread i ⟨s.active.last + 1, .idle⟩).counted
      omega
    · apply sound_set
      · intro j other hne hj
        apply hothers j other hne hj
        intro hc
        -- the other context is still counted after the decrement
        have hj' : (s.setThread i ⟨s.active.last + 1, .idle⟩).threads[j]? = some other := by
          rwa [State.setThread, List.getElem?_set_ne (Ne.symm hne)]
        have hpos : 0 < (s.setThread i ⟨s.active.last + 1, .idle⟩).counted :=
          List.countP_pos_iff.mpr ⟨other, List.mem_of_getElem? hj', hc⟩
        omega
      · exact ⟨Nat.le_of_eq (Atomic.last_write _ _).symm, nofun, nofun, nofun⟩

theorem WordInv.step {s t : State} {act : Act} (h : ActiveWord.step s act = some t)
    (hs : WordInv s) : WordInv t := by
  cases Moves.of_step h with
  | @meet _ i k active th call hact hi hcall hk hload =>
    obtain ⟨hcounted, hrefused⟩ := counted_of_call active hcall
    have hth := hs.threads th (List.mem_of_getElem? hi)
    refine ⟨hs.sticky, ?_, ?_⟩
    · intro heven
      rw [State.counted, State.setThread, countP_set_of_eq hi hcounted]
      exact hs.count heven
    · apply sound_set fun j other _ hj => hs.threads other (List.mem_of_getElem? hj)
      refine ⟨Atomic.le_last hload, ?_, ?_, ?_⟩
      · rintro _ _ ⟨⟩
        exact hload
      · intro hc
        rw [hcounted] at hc
        exact (hth.counted hc).later hk
      · intro hr
        rw [hrefused] at hr
        exact (hth.refused hr).later hk
  | @refuse i seen active call fails hi hmarker =>
    have hth := hs.threads _ (List.mem_of_getElem? hi)
    have hload := hth.held call active rfl
    have hnow := hs.sticky.now hload hmarker
    refine ⟨hs.sticky, ?_, ?_⟩
    · intro heven
      change s.active.now % 2 = 0 at heven
      omega
    · apply sound_set fun j other _ hj => hs.threads other (List.mem_of_getElem? hj)
      refine ⟨hth.seen, by cases call <;> nofun, by cases call <;> nofun, fun _ => ?_⟩
      exact (hs.sticky seen active hload hmarker).imp fun b hb => hb ▸ hmarker
  | exchange hi hmarker => exact hs.exchange hi hmarker
  | shutdown =>
    obtain ⟨hodd, hsame, hle⟩ := or_marker s.active.now
    refine ⟨hs.sticky.write hsame, ?_, ?_⟩
    · intro heven
      change (s.active.now ||| marker) % 2 = 0 at heven
      omega
    · intro th hth
      have hsound := hs.threads th hth
      apply hsound.write
      · intro hc
        exact Nat.le_trans ((hsound.counted hc).now hsound.seen) hle
      · exact fun _ => hodd

theorem start_wordInv (n : Nat) : WordInv (.start n) := by
  refine ⟨?_, ?_, ?_⟩
  · intro k b hb hodd
    obtain rfl : b = 0 := by
      simpa [State.start, Atomic.new, Atomic.load] using List.mem_of_getElem? hb
    cases hodd
  · intro _
    have hzero : (State.start n).counted = 0 :=
      List.countP_eq_zero.mpr fun th hth => by
        rw [List.eq_of_mem_replicate hth]
        exact Bool.false_ne_true
    rw [hzero]
    exact Nat.zero_div 2
  · intro th hth
    obtain rfl := List.eq_of_mem_replicate hth
    exact ⟨Nat.zero_le _, by simp, fun h => absurd h Bool.false_ne_true,
      fun h => absurd h Bool.false_ne_true⟩

/-- What a step does to the word, and a call that ends with it to its context. -/
structure StepSound (m : Move State Act) : Prop where
  marked : m.act ≠ .shutdown → m.dst.active.now &&& marker = m.src.active.now &&& marker
  sticky : m.src.active.now &&& marker ≠ 0 → m.dst.active.now = m.src.active.now
  noUnderflow : ∀ i fails seen counted active, m.act = .exchange i fails →
    m.src.threads[i]? = some ⟨seen, .loop (.dec counted) active⟩ → active &&& marker = 0 →
    unit ≤ active
  refused : ∀ i fails seen active, m.act = .exchange i fails →
    m.src.threads[i]? = some ⟨seen, .loop (.dec false) active⟩ →
    active &&& marker ≠ 0 ∧ m.dst.active = m.src.active

/-- While the marker is clear, `active >> 1` counts the contexts. -/
structure ActiveCounts (s : State) (ms : List (Move State Act)) : Prop where
  count : ∀ u ∈ visited s ms, u.active.now &&& marker = 0 → u.active.now >>> 1 = u.counted
  steps : ∀ m ∈ ms, StepSound m

theorem WordInv.stepSound {s t : State} {act : Act} (h : ActiveWord.step s act = some t)
    (hs : WordInv s) : StepSound ⟨s, act, t⟩ := by
  have htwo : unit = 2 := rfl
  refine ⟨?_, ?_, ?_, ?_⟩
  · intro hact
    simp only [marker, Nat.and_one_is_mod]
    cases Moves.of_step h with
    | meet | refuse => rfl
    | @exchange i seen call hi hmarker =>
      change call.f _ % 2 = _
      cases call <;> simp only [Call.f] <;> omega
    | shutdown => exact absurd rfl hact
  · intro hmarker
    simp only [marker_iff] at hmarker
    cases Moves.of_step h with
    | meet | refuse => rfl
    | exchange hi heven => omega
    | shutdown => exact (or_marker _).2.1 hmarker
  · intro i fails seen counted active hact hi hmarker
    have hsound := hs.threads _ (List.mem_of_getElem? hi)
    have hheld := hsound.held _ active rfl
    cases counted with
    | true => exact hsound.counted rfl seen active (Nat.le_refl _) hheld
    | false =>
      have hodd := hsound.refused rfl seen active (Nat.le_refl _) hheld
      exact absurd hmarker ((marker_iff active).mpr hodd)
  · rintro i fails seen active rfl hi
    have hsound := hs.threads _ (List.mem_of_getElem? hi)
    have hodd := hsound.refused rfl seen active (Nat.le_refl _) (hsound.held _ active rfl)
    refine ⟨(marker_iff active).mpr hodd, ?_⟩
    change s.threads[i]? = _ at hi
    simp only [ActiveWord.step, hi, State.modifyActive, if_pos ((marker_iff active).mpr hodd)] at h
    cases h
    rfl

theorem active_counts {n : Nat} {t : State} {ms : List (Move State Act)}
    (h : Path step (.start n) ms t) : ActiveCounts (.start n) ms := by
  have hinv : ∀ u ∈ visited (.start n) ms, WordInv u := by
    intro u hu
    obtain ⟨ps, hps, _⟩ := h.exists_path_to hu
    exact hps.invariant (I := WordInv) (start_wordInv n) fun _ _ _ hstep hu => hu.step hstep
  constructor
  · intro u hu hmarker
    have hcount := (hinv u hu).count (by rwa [marker, Nat.and_one_is_mod] at hmarker)
    rw [Nat.shiftRight_eq_div_pow, Nat.pow_one, hcount]
  · intro m hm
    exact (hinv m.src (h.mem_visited hm).1).stepSound (h.step_eq hm)

/-- Two contexts count themselves, one of them at the second try, and one
discounts itself before the shutdown. -/
theorem active_counts_two : ∃ ms t, Path step (.start 2) ms t ∧
    ms.map Move.act = [.load 0 0, .load 1 0, .exchange 0 none, .exchange 1 (some 1),
      .exchange 1 none, .load 0 2, .exchange 0 none, .shutdown] ∧
    t.active.now = 3 ∧ ActiveCounts (.start 2) ms := by
  obtain ⟨ms, t, h, hacts, _, ht⟩ := exists_path_of_checkedRun step (.start 2)
    [.load 0 0, .load 1 0, .exchange 0 none, .exchange 1 (some 1), .exchange 1 none, .load 0 2,
      .exchange 0 none, .shutdown]
    (fun _ _ _ => true) (fun t => t.active.now == 3) (by decide)
  exact ⟨ms, t, h, hacts, by simpa using ht, active_counts h⟩

/-- What the call answers and leaves of the word, had it run alone. -/
def Call.alone : Call → Nat → Bool × Nat
  | .inc => incActive
  | .dec _ => decActive

/-- The round that ends a call does to the current word what the call would do
alone; the rounds before it do nothing. -/
theorem WordInv.exchange_atomic {s t : State} {i seen active : Nat} {call : Call}
    {fails : Option Nat} (h : ActiveWord.step s (.exchange i fails) = some t) (hs : WordInv s)
    (hi : s.threads[i]? = some ⟨seen, .loop call active⟩) :
    (∃ k active', t.active = s.active ∧ t.threads[i]? = some ⟨k, .loop call active'⟩) ∨
    ∃ ok seen', t.threads[i]? = some ⟨seen', call.returns ok⟩ ∧
      call.alone s.active.now = (ok, t.active.now) := by
  cases Moves.of_step h with
  | meet hwhich hi' hcall hk hload =>
    rcases hwhich with hwhich | hwhich <;> cases hwhich
    cases hi.symm.trans hi'
    rcases hcall with hnone | ⟨old, hloop⟩
    · cases hnone
    · cases hloop
      exact .inl ⟨_, _, rfl, getElem?_set_self_of hi⟩
  | refuse hi' hmarker =>
    cases hi.symm.trans hi'
    have hheld := (hs.threads _ (List.mem_of_getElem? hi)).held _ active rfl
    have hodd : s.active.now &&& marker ≠ 0 := by
      rw [marker_iff, hs.sticky.now hheld hmarker]
      exact hmarker
    refine .inr ⟨false, seen, getElem?_set_self_of hi, ?_⟩
    cases call <;> simp only [Call.alone, incActive, decActive, modifyActive, if_pos hodd] <;> rfl
  | exchange hi' hmarker =>
    cases hi.symm.trans hi'
    have heven : ¬s.active.now &&& marker ≠ 0 := by
      rw [marker_iff]
      omega
    refine .inr ⟨true, _, getElem?_set_self_of hi, ?_⟩
    cases call <;> simp only [Call.alone, incActive, decActive, modifyActive, if_neg heven] <;> rfl

end ActixSend.ActiveWord
