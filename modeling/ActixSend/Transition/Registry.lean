import Mathlib.Data.List.Nodup
import Mathlib.Logic.Function.Basic

/-! # A registry of cancellable tasks and one pass over it

Whoever starts a task holds its handle until it stores it in the registry. One
pass takes what is stored when it begins and cancels that, task by task. A
handle that is thrown away, or stored after the pass began, escapes the pass,
and nothing else does.
-/

namespace Transition

open Function
set_option autoImplicit false

inductive Pass
  | before
  | during (rest : List Nat)
  | after
  deriving DecidableEq, Repr

/-- Tasks are numbered as they are started; `flags` says which are cancelled. -/
@[ext] structure Registry (ι : Type) where
  flags : List Bool
  stored : List Nat
  held : ι → Option Nat
  pass : Pass

namespace Registry

/-- What an event has to do with the pass: `late` takes a handle out of its
reach, `own` is a cancellation by somebody else. -/
inductive Kind
  | timely
  | late
  | own
  deriving DecidableEq, Repr

variable {ι : Type}

section Events
variable [DecidableEq ι]

def spawn (R : Registry ι) (i : ι) : Registry ι :=
  { R with flags := R.flags ++ [false], held := update R.held i (some R.flags.length) }

def store (R : Registry ι) (i : ι) (k : Nat) : Registry ι :=
  { R with stored := R.stored ++ [k], held := update R.held i none }

def discard (R : Registry ι) (i : ι) : Registry ι := { R with held := update R.held i none }

def cancel (R : Registry ι) (k : Nat) : Registry ι := { R with flags := R.flags.set k true }

def withPass (R : Registry ι) (pass : Pass) : Registry ι := { R with pass := pass }

inductive Event (R : Registry ι) : Kind → Registry ι → Prop
  | same : Event R .timely R
  | spawn {i : ι} (hfree : R.held i = none) : Event R .timely (R.spawn i)
  | store {i : ι} {k : Nat} (hheld : R.held i = some k) (hpass : R.pass = .before) :
      Event R .timely (R.store i k)
  | storeLate {i : ι} {k : Nat} (hheld : R.held i = some k) (hpass : R.pass ≠ .before) :
      Event R .late (R.store i k)
  | discard {i : ι} {k : Nat} (hheld : R.held i = some k) : Event R .late (R.discard i)
  | own {k : Nat} : Event R .own (R.cancel k)
  | take (hpass : R.pass = .before) : Event R .timely (R.withPass (.during R.stored))
  | cancel {k : Nat} {rest : List Nat} (hpass : R.pass = .during (k :: rest)) :
      Event R .timely ((R.cancel k).withPass (.during rest))
  | finish (hpass : R.pass = .during []) : Event R .timely (R.withPass .after)

end Events

def pending (R : Registry ι) : List Nat :=
  match R.pass with
  | .before => R.stored
  | .during rest => rest
  | .after => []

def Covered (R : Registry ι) : Prop :=
  ∀ k, R.flags[k]? = some false → k ∈ R.pending ∨ ∃ i, R.held i = some k

/-- A running task that the pass will not see. -/
structure Escaped (R : Registry ι) (k : Nat) : Prop where
  running : R.flags[k]? = some false
  pending : k ∉ R.pending
  held : ∀ i, R.held i ≠ some k

/-- Every handle is stored or still held, and only once. -/
structure Kept (R : Registry ι) : Prop where
  nodup : R.stored.Nodup
  kept : ∀ k, k < R.flags.length ↔ k ∈ R.stored ∨ ∃ i, R.held i = some k
  unstored : ∀ i k, R.held i = some k → k ∉ R.stored
  alone : ∀ i j k, R.held i = some k → R.held j = some k → i = j

structure Fresh (R : Registry ι) : Prop where
  bound : ∀ k ∈ R.stored, k < R.flags.length
  running : ∀ i k, R.held i = some k → R.flags[k]? = some false
  unstored : ∀ i k, R.held i = some k → k ∉ R.stored
  alone : ∀ i j k, R.held i = some k → R.held j = some k → i = j
  pending : ∀ k ∈ R.pending, k ∈ R.stored

variable {R R' : Registry ι} {kind : Kind} {k : Nat}

theorem lt_of_running (h : R.flags[k]? = some false) : k < R.flags.length :=
  (List.getElem?_eq_some_iff.mp h).1

theorem Kept.lt_of_held {i : ι} (hR : Kept R) (h : R.held i = some k) : k < R.flags.length :=
  (hR.kept k).mpr (.inr ⟨i, h⟩)

theorem running_set {j : Nat} :
    (R.flags.set j true)[k]? = some false ↔ k ≠ j ∧ R.flags[k]? = some false := by
  by_cases hkj : k = j
  · subst hkj
    simp [List.getElem?_set]
  · simp [List.getElem?_set_ne (Ne.symm hkj), hkj]

theorem Covered.cancelled (hR : Covered R) (hpass : R.pass = .after)
    (hheld : ∀ i, R.held i = none) : ∀ flag ∈ R.flags, flag = true := by
  intro flag hflag
  obtain ⟨k, hk⟩ := List.mem_iff_getElem?.mp hflag
  by_contra hne
  obtain rfl : flag = false := by simpa using hne
  rcases hR k hk with hmem | ⟨i, hi⟩
  · simp [pending, hpass] at hmem
  · rw [hheld i] at hi
    cases hi

theorem Fresh.cancel {rest : List Nat} (hR : Fresh R) (hpass : R.pass = .during (k :: rest)) :
    Fresh ((R.cancel k).withPass (.during rest)) := by
  have hpending : R.pending = k :: rest := by simp only [Registry.pending, hpass]
  have hstored : k ∈ R.stored := hR.pending k (hpending ▸ List.mem_cons_self)
  constructor
  · intro j hj
    have hlt := hR.bound j hj
    simpa [Registry.cancel, withPass] using hlt
  · intro i j hj
    refine running_set.mpr ⟨?_, hR.running i j hj⟩
    rintro rfl
    exact hR.unstored i _ hj hstored
  · exact hR.unstored
  · exact hR.alone
  · exact fun j hj => hR.pending j (hpending ▸ List.mem_cons_of_mem k hj)

section Steps
variable [DecidableEq ι]

theorem held_update {i j : ι} {x : Option Nat} (h : update R.held i x j = some k) :
    j = i ∧ x = some k ∨ j ≠ i ∧ R.held j = some k := by
  by_cases hji : j = i
  · subst hji
    rw [update_self] at h
    exact .inl ⟨rfl, h⟩
  · rw [update_of_ne hji] at h
    exact .inr ⟨hji, h⟩

theorem held_of_freed {i j : ι} (h : update R.held i none j = some k) :
    j ≠ i ∧ R.held j = some k := by
  rcases held_update h with ⟨_, hnone⟩ | hj
  · cases hnone
  · exact hj

theorem pending_store {i : ι} (hpass : R.pass = .before) :
    (R.store i k).pending = R.pending ++ [k] := by
  simp only [pending, Registry.store, hpass]

theorem pending_storeLate {i : ι} (hpass : R.pass ≠ .before) :
    (R.store i k).pending = R.pending := by
  cases hp : R.pass with
  | before => exact absurd hp hpass
  | during | after => simp only [pending, Registry.store, hp]

theorem Event.covered (h : Event R kind R') (hkind : kind ≠ .late) (hR : Covered R) :
    Covered R' := by
  intro k hk
  cases h with
  | same => exact hR k hk
  | @spawn i hfree =>
    rcases Nat.lt_or_ge k R.flags.length with hlt | hge
    · change (R.flags ++ [false])[k]? = some false at hk
      rw [List.getElem?_append_left hlt] at hk
      refine (hR k hk).imp id ?_
      rintro ⟨j, hj⟩
      refine ⟨j, ?_⟩
      have hji : j ≠ i := by
        rintro rfl
        rw [hfree] at hj
        cases hj
      exact (update_of_ne hji _ _).trans hj
    · have hlt := (List.getElem?_eq_some_iff.mp hk).1
      simp only [Registry.spawn, List.length_append, List.length_singleton] at hlt
      obtain rfl : k = R.flags.length := by omega
      exact .inr ⟨i, update_self _ _ _⟩
  | @store i k' hheld hpass =>
    rw [pending_store hpass]
    rcases hR k hk with hmem | ⟨j, hj⟩
    · exact .inl (List.mem_append_left _ hmem)
    · by_cases hji : j = i
      · subst hji
        rw [hheld] at hj
        cases hj
        exact .inl (List.mem_concat_self)
      · exact .inr ⟨j, (update_of_ne hji _ _).trans hj⟩
  | storeLate | discard => exact absurd rfl hkind
  | own => exact hR k (running_set.mp hk).2
  | take hpass =>
    have hpending : (R.withPass (.during R.stored)).pending = R.pending := by
      simp [pending, withPass, hpass]
    rw [hpending]
    exact hR k hk
  | @cancel k' rest hpass =>
    obtain ⟨hne, hk⟩ := running_set.mp hk
    refine (hR k hk).imp ?_ id
    intro hmem
    simp only [pending, hpass] at hmem
    exact (List.mem_cons.mp hmem).resolve_left hne
  | finish hpass =>
    refine (hR k hk).imp ?_ id
    intro hmem
    simp only [pending, hpass] at hmem
    cases hmem

theorem Fresh.spawn {i : ι} (hR : Fresh R) : Fresh (R.spawn i) := by
  have hnew : ∀ j, R.held j ≠ some R.flags.length := fun j hj =>
    absurd (lt_of_running (hR.running j _ hj)) (Nat.lt_irrefl _)
  constructor
  · intro k hk
    have hlt := hR.bound k hk
    simp only [Registry.spawn, List.length_append, List.length_singleton]
    omega
  · intro j k hj
    rcases held_update hj with ⟨_, heq⟩ | ⟨_, hj⟩
    · cases heq
      simp [Registry.spawn]
    · have hk := hR.running j k hj
      exact (List.getElem?_append_left (lt_of_running hk)).trans hk
  · intro j k hj hmem
    rcases held_update hj with ⟨_, heq⟩ | ⟨_, hj⟩
    · cases heq
      exact absurd (hR.bound _ hmem) (Nat.lt_irrefl _)
    · exact hR.unstored j k hj hmem
  · intro j j' k hj hj'
    rcases held_update hj with ⟨hji, heq⟩ | ⟨_, hbefore⟩
    · cases heq
      rcases held_update hj' with ⟨hji', _⟩ | ⟨_, hbefore'⟩
      · exact hji.trans hji'.symm
      · exact absurd hbefore' (hnew j')
    · rcases held_update hj' with ⟨_, heq⟩ | ⟨_, hbefore'⟩
      · cases heq
        exact absurd hbefore (hnew j)
      · exact hR.alone j j' k hbefore hbefore'
  · exact hR.pending

theorem Fresh.store {i : ι} (hR : Fresh R) (hheld : R.held i = some k) :
    Fresh (R.store i k) := by
  constructor
  · intro j hj
    rcases List.mem_append.mp hj with hj | hj
    · exact hR.bound j hj
    · obtain rfl := List.mem_singleton.mp hj
      exact lt_of_running (hR.running i _ hheld)
  · intro j k' hj
    exact hR.running j k' (held_of_freed hj).2
  · intro j k' hj hmem
    obtain ⟨hji, hbefore⟩ := held_of_freed hj
    rcases List.mem_append.mp hmem with hmem | hmem
    · exact hR.unstored j k' hbefore hmem
    · obtain rfl := List.mem_singleton.mp hmem
      exact hji (hR.alone j i _ hbefore hheld)
  · intro j j' k' hj hj'
    exact hR.alone j j' k' (held_of_freed hj).2 (held_of_freed hj').2
  · intro j hj
    by_cases hpass : R.pass = .before
    · rw [pending_store hpass] at hj
      rcases List.mem_append.mp hj with hj | hj
      · exact List.mem_append_left _ (hR.pending j hj)
      · exact List.mem_append_right _ hj
    · rw [pending_storeLate hpass] at hj
      exact List.mem_append_left _ (hR.pending j hj)

theorem Fresh.discard {i : ι} (hR : Fresh R) : Fresh (R.discard i) := by
  constructor
  · exact hR.bound
  · exact fun j k hj => hR.running j k (held_of_freed hj).2
  · exact fun j k hj => hR.unstored j k (held_of_freed hj).2
  · exact fun j j' k hj hj' => hR.alone j j' k (held_of_freed hj).2 (held_of_freed hj').2
  · exact hR.pending

theorem Event.fresh (h : Event R kind R') (hkind : kind ≠ .own) (hR : Fresh R) : Fresh R' := by
  cases h with
  | same => exact hR
  | spawn => exact hR.spawn
  | store hheld | storeLate hheld => exact hR.store hheld
  | discard => exact hR.discard
  | own => exact absurd rfl hkind
  | take hpass => exact { hR with pending := fun k hk => hk }
  | cancel hpass => exact hR.cancel hpass
  | finish hpass => exact { hR with pending := fun k hk => by cases hk }

theorem Event.escaped_of_late (h : Event R .late R') (hR : Fresh R) : ∃ k, Escaped R' k := by
  cases h with
  | @storeLate i k hheld hpass =>
    refine ⟨k, hR.running i k hheld, ?_, ?_⟩
    · rw [pending_storeLate hpass]
      exact fun hmem => hR.unstored i k hheld (hR.pending k hmem)
    · intro j hj
      obtain ⟨hji, hj⟩ := held_of_freed hj
      exact hji (hR.alone j i k hj hheld)
  | @discard i k hheld =>
    refine ⟨k, hR.running i k hheld, ?_, ?_⟩
    · exact fun hmem => hR.unstored i k hheld (hR.pending k hmem)
    · intro j hj
      obtain ⟨hji, hj⟩ := held_of_freed hj
      exact hji (hR.alone j i k hj hheld)

theorem Event.escaped (h : Event R kind R') (hkind : kind ≠ .own) (hk : Escaped R k) :
    Escaped R' k := by
  obtain ⟨hrunning, hpending, hheld⟩ := hk
  have hless : ∀ i j, update R.held i none j ≠ some k := fun i j hj =>
    hheld j (held_of_freed hj).2
  cases h with
  | same => exact ⟨hrunning, hpending, hheld⟩
  | spawn =>
    have hlt := lt_of_running hrunning
    refine ⟨(List.getElem?_append_left hlt).trans hrunning, hpending, ?_⟩
    intro j hj
    rcases held_update hj with ⟨_, heq⟩ | ⟨_, hj⟩
    · cases heq
      exact Nat.lt_irrefl _ hlt
    · exact hheld j hj
  | @store i k' hi hpass =>
    refine ⟨hrunning, ?_, hless _⟩
    rw [pending_store hpass]
    intro hmem
    rcases List.mem_append.mp hmem with hmem | hmem
    · exact hpending hmem
    · obtain rfl := List.mem_singleton.mp hmem
      exact hheld i hi
  | storeLate hi hpass =>
    refine ⟨hrunning, ?_, hless _⟩
    rw [pending_storeLate hpass]
    exact hpending
  | discard => exact ⟨hrunning, hpending, hless _⟩
  | own => exact absurd rfl hkind
  | take hpass =>
    simp only [pending, hpass] at hpending
    exact ⟨hrunning, hpending, hheld⟩
  | cancel hpass =>
    simp only [pending, hpass, List.mem_cons, not_or] at hpending
    exact ⟨running_set.mpr ⟨hpending.1, hrunning⟩, hpending.2, hheld⟩
  | finish => exact ⟨hrunning, by simp [pending, withPass], hheld⟩

theorem Event.cancelled_stable (h : Event R kind R') (hk : R.flags[k]? = some true) :
    R'.flags[k]? = some true := by
  have hset : ∀ j, (R.flags.set j true)[k]? = some true := by
    intro j
    by_cases hjk : j = k
    · subst hjk
      rw [List.getElem?_set_self (List.getElem?_eq_some_iff.mp hk).1]
    · rw [List.getElem?_set_ne hjk, hk]
  cases h with
  | same | store | storeLate | discard | take | finish => exact hk
  | spawn => exact (List.getElem?_append_left (List.getElem?_eq_some_iff.mp hk).1).trans hk
  | own | cancel => exact hset _

theorem Event.length_le (h : Event R kind R') : R.flags.length ≤ R'.flags.length := by
  cases h with
  | spawn => simp [Registry.spawn]
  | same | store | storeLate | discard | take | finish => exact Nat.le_refl _
  | own | cancel => simp [Registry.cancel, withPass]

theorem Kept.spawn {i : ι} (hR : Kept R) (hfree : R.held i = none) : Kept (R.spawn i) := by
  have hnew : ∀ j, R.held j ≠ some R.flags.length := fun j hj =>
    Nat.lt_irrefl _ (hR.lt_of_held hj)
  constructor
  · exact hR.nodup
  · intro k
    have hk := hR.kept k
    simp only [Registry.spawn, List.length_append, List.length_singleton]
    constructor
    · intro hlt
      rcases Nat.lt_or_ge k R.flags.length with hlt' | hge
      · rcases hk.mp hlt' with hmem | ⟨j, hj⟩
        · exact .inl hmem
        · refine .inr ⟨j, ?_⟩
          have hji : j ≠ i := by
            rintro rfl
            rw [hfree] at hj
            cases hj
          rw [update_of_ne hji, hj]
      · obtain rfl : k = R.flags.length := by omega
        exact .inr ⟨i, update_self _ _ _⟩
    · rintro (hmem | ⟨j, hj⟩)
      · have hlt := hk.mpr (.inl hmem)
        omega
      · rcases held_update hj with ⟨_, heq⟩ | ⟨_, hj⟩
        · cases heq
          exact Nat.lt_succ_self _
        · have hlt := hR.lt_of_held hj
          omega
  · intro j k hj hmem
    rcases held_update hj with ⟨_, heq⟩ | ⟨_, hj⟩
    · cases heq
      exact Nat.lt_irrefl _ ((hR.kept _).mpr (.inl hmem))
    · exact hR.unstored j k hj hmem
  · intro j j' k hj hj'
    rcases held_update hj with ⟨hji, heq⟩ | ⟨_, hbefore⟩
    · cases heq
      rcases held_update hj' with ⟨hji', _⟩ | ⟨_, hbefore'⟩
      · exact hji.trans hji'.symm
      · exact absurd hbefore' (hnew j')
    · rcases held_update hj' with ⟨_, heq⟩ | ⟨_, hbefore'⟩
      · cases heq
        exact absurd hbefore (hnew j)
      · exact hR.alone j j' k hbefore hbefore'

theorem Kept.store {i : ι} (hR : Kept R) (hheld : R.held i = some k) : Kept (R.store i k) := by
  constructor
  · have hdisjoint : List.Disjoint R.stored [k] := by
      intro x hx hk
      obtain rfl := List.mem_singleton.mp hk
      exact hR.unstored i x hheld hx
    exact hR.nodup.append (List.nodup_singleton k) hdisjoint
  · intro k'
    rw [show (R.store i k).flags = R.flags from rfl, hR.kept k']
    simp only [Registry.store, List.mem_append, List.mem_singleton]
    constructor
    · rintro (hmem | ⟨j, hj⟩)
      · exact .inl (.inl hmem)
      · by_cases hji : j = i
        · subst hji
          rw [hheld] at hj
          exact .inl (.inr (Option.some.inj hj).symm)
        · exact .inr ⟨j, by rw [update_of_ne hji, hj]⟩
    · rintro ((hmem | rfl) | ⟨j, hj⟩)
      · exact .inl hmem
      · exact .inr ⟨i, hheld⟩
      · exact .inr ⟨j, (held_of_freed hj).2⟩
  · intro j k' hj hmem
    obtain ⟨hji, hbefore⟩ := held_of_freed hj
    rcases List.mem_append.mp hmem with hmem | hmem
    · exact hR.unstored j k' hbefore hmem
    · obtain rfl := List.mem_singleton.mp hmem
      exact hji (hR.alone j i _ hbefore hheld)
  · intro j j' k' hj hj'
    exact hR.alone j j' k' (held_of_freed hj).2 (held_of_freed hj').2

theorem Event.kept (h : Event R kind R') (hkind : kind ≠ .late) (hR : Kept R) : Kept R' := by
  have hcancel : ∀ j pass, Kept ((R.cancel j).withPass pass) := by
    intro j pass
    refine ⟨hR.nodup, fun k => ?_, hR.unstored, hR.alone⟩
    have hk := hR.kept k
    simpa [Registry.cancel, withPass] using hk
  cases h with
  | same => exact hR
  | spawn hfree => exact hR.spawn hfree
  | store hheld => exact hR.store hheld
  | storeLate | discard => exact absurd rfl hkind
  | own => exact hcancel _ R.pass
  | cancel => exact hcancel _ _
  | take | finish => exact { hR with }

end Steps

end Registry

end Transition
