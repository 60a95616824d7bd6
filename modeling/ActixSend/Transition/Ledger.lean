import Mathlib.Data.List.Nodup
import Mathlib.Logic.Function.Basic

/-! # Work handed through channels to workers

A ledger records what channels accepted, which worker took it, and what each
worker finished. Every channel may have many consumers, and a worker may draw
on many channels but holds one entry at a time. From the three local rules of
a sound ledger it follows that no entry is taken twice or finished twice.
-/

namespace Transition

open Function
set_option autoImplicit false

section Keyed
variable {κ ε : Type} {l : List (κ × ε)} {k k' : κ} {e : ε}

theorem key_unique (h : (l.map Prod.snd).Nodup) (hk : (k, e) ∈ l) (hk' : (k', e) ∈ l) : k = k' :=
  congrArg Prod.fst (List.inj_on_of_nodup_map h hk hk' rfl)

variable [DecidableEq κ]

/-- The entries of a list under one key, in order. -/
def entriesOf (k : κ) (l : List (κ × ε)) : List ε := (l.filter fun x => x.1 = k).map Prod.snd

@[simp] theorem entriesOf_nil : entriesOf k ([] : List (κ × ε)) = [] := rfl

theorem entriesOf_snoc :
    entriesOf k (l ++ [(k', e)]) = entriesOf k l ++ if k' = k then [e] else [] := by
  by_cases h : k' = k <;> simp [entriesOf, h]

theorem mem_entriesOf : e ∈ entriesOf k l ↔ (k, e) ∈ l := by
  simp [entriesOf]

theorem nodup_entriesOf (h : (l.map Prod.snd).Nodup) : (entriesOf k l).Nodup :=
  h.sublist (List.filter_sublist.map _)

theorem nodup_of_entriesOf (h : ∀ k, (entriesOf k l).Nodup)
    (hkey : ∀ k k' e, (k, e) ∈ l → (k', e) ∈ l → k = k') : (l.map Prod.snd).Nodup := by
  induction l with
  | nil => exact List.nodup_nil
  | cons x l ih =>
    obtain ⟨k, e⟩ := x
    have htail : ∀ k, (entriesOf k l).Nodup := fun k =>
      (h k).sublist ((List.sublist_cons_self _ _).filter _ |>.map _)
    have hkeys : ∀ k k' e, (k, e) ∈ l → (k', e) ∈ l → k = k' := fun k k' e hk hk' =>
      hkey k k' e (List.mem_cons_of_mem _ hk) (List.mem_cons_of_mem _ hk')
    refine List.nodup_cons.mpr ⟨?_, ih htail hkeys⟩
    intro hmem
    obtain ⟨⟨k', e'⟩, hx, rfl⟩ := List.mem_map.mp hmem
    obtain rfl := hkey k' k e' (List.mem_cons_of_mem _ hx) List.mem_cons_self
    have hhead := h k'
    simp only [entriesOf, List.filter_cons, decide_true, if_true, List.map_cons,
      List.nodup_cons] at hhead
    exact hhead.1 (mem_entriesOf.mpr hx)

end Keyed

inductive Worker (ε : Type)
  | idle
  | busy (e : ε)
  | lost

def Worker.hand {ε : Type} : Worker ε → List ε
  | .busy e => [e]
  | _ => []

@[ext] structure Ledger (ι κ ε : Type) where
  accepted : List (κ × ε)
  queue : κ → List ε
  taken : List (ι × κ × ε)
  handled : List (ι × ε)
  worker : ι → Worker ε

namespace Ledger

variable {ι κ ε : Type}

def start : Ledger ι κ ε where
  accepted := []
  queue := fun _ => []
  taken := []
  handled := []
  worker := fun _ => .idle

section Events
variable [DecidableEq ι] [DecidableEq κ]

def accept (L : Ledger ι κ ε) (k : κ) (e : ε) : Ledger ι κ ε :=
  { L with
    accepted := L.accepted ++ [(k, e)]
    queue := update L.queue k (L.queue k ++ [e]) }

def take (L : Ledger ι κ ε) (i : ι) (k : κ) (e : ε) (rest : List ε) : Ledger ι κ ε :=
  { L with
    queue := update L.queue k rest
    taken := L.taken ++ [(i, k, e)]
    worker := update L.worker i (.busy e) }

def finish (L : Ledger ι κ ε) (i : ι) (e : ε) : Ledger ι κ ε :=
  { L with
    handled := L.handled ++ [(i, e)]
    worker := update L.worker i .idle }

def lose (L : Ledger ι κ ε) (i : ι) : Ledger ι κ ε :=
  { L with worker := update L.worker i .lost }

inductive Event (L : Ledger ι κ ε) : Ledger ι κ ε → Prop
  | same : Event L L
  | accept {k : κ} {e : ε} (hfresh : ∀ x ∈ L.accepted, x.2 ≠ e) : Event L (L.accept k e)
  | take {i : ι} {k : κ} {e : ε} {rest : List ε} (hidle : L.worker i = .idle)
      (hqueue : L.queue k = e :: rest) : Event L (L.take i k e rest)
  | finish {i : ι} {e : ε} (hbusy : L.worker i = .busy e) : Event L (L.finish i e)
  | lose {i : ι} : Event L (L.lose i)

def takenFrom (L : Ledger ι κ ε) (k : κ) : List ε := entriesOf k (L.taken.map Prod.snd)

def takenBy (L : Ledger ι κ ε) (i : ι) : List ε :=
  entriesOf i (L.taken.map fun x => (x.1, x.2.2))

structure Sound (L : Ledger ι κ ε) : Prop where
  fresh : (L.accepted.map Prod.snd).Nodup
  fifo : ∀ k, entriesOf k L.accepted = L.takenFrom k ++ L.queue k
  work : ∀ i, entriesOf i L.handled ++ (L.worker i).hand <+: L.takenBy i
  all : ∀ i, L.worker i ≠ .lost → L.takenBy i = entriesOf i L.handled ++ (L.worker i).hand

theorem start_sound : (start : Ledger ι κ ε).Sound := by
  constructor
  · exact List.nodup_nil
  · exact fun _ => rfl
  · exact fun _ => List.nil_prefix
  · exact fun _ _ => rfl

@[simp] theorem takenFrom_take {L : Ledger ι κ ε} {i : ι} {k k' : κ} {e : ε} {rest : List ε} :
    (L.take i k e rest).takenFrom k' = L.takenFrom k' ++ if k = k' then [e] else [] := by
  simp [take, takenFrom, entriesOf_snoc]

@[simp] theorem takenBy_take {L : Ledger ι κ ε} {i j : ι} {k : κ} {e : ε} {rest : List ε} :
    (L.take i k e rest).takenBy j = L.takenBy j ++ if i = j then [e] else [] := by
  simp [take, takenBy, entriesOf_snoc]

theorem Sound.accept {L : Ledger ι κ ε} (h : L.Sound) {k : κ} {e : ε}
    (hnew : ∀ x ∈ L.accepted, x.2 ≠ e) : (L.accept k e).Sound := by
  refine ⟨?_, ?_, h.work, h.all⟩
  · have hnotin : e ∉ L.accepted.map Prod.snd := by
      intro hmem
      obtain ⟨x, hx, hxe⟩ := List.mem_map.mp hmem
      exact hnew x hx hxe
    have hnodup := (List.nodup_cons.mpr ⟨hnotin, h.fresh⟩)
    simpa [Ledger.accept] using (List.perm_append_singleton e _).nodup_iff.mpr hnodup
  · intro k'
    have hk := h.fifo k'
    by_cases hkey : k = k'
    · subst hkey
      simp [Ledger.accept, takenFrom, entriesOf_snoc, hk]
    · simp only [Ledger.accept, entriesOf_snoc, if_neg hkey, update_of_ne (Ne.symm hkey),
        List.append_nil]
      exact hk

theorem Sound.take {L : Ledger ι κ ε} (h : L.Sound) {i : ι} {k : κ} {e : ε} {rest : List ε}
    (hidle : L.worker i = .idle) (hqueue : L.queue k = e :: rest) : (L.take i k e rest).Sound := by
  have hexact : L.takenBy i = entriesOf i L.handled := by
    simpa [hidle, Worker.hand] using h.all i (by simp [hidle])
  refine ⟨h.fresh, ?_, ?_, ?_⟩
  · intro k'
    have hk := h.fifo k'
    rw [takenFrom_take]
    by_cases hkey : k = k'
    · subst hkey
      simp [Ledger.take, hk, hqueue]
    · simp [Ledger.take, hkey, Ne.symm hkey, hk]
  · intro j
    rw [takenBy_take]
    by_cases hij : i = j
    · subst hij
      simp [Ledger.take, hexact, Worker.hand]
    · simpa [Ledger.take, hij, Ne.symm hij] using h.work j
  · intro j hlost
    rw [takenBy_take]
    by_cases hij : i = j
    · subst hij
      simp [Ledger.take, hexact, Worker.hand]
    · have hworker : (L.take i k e rest).worker j = L.worker j := update_of_ne (Ne.symm hij) _ _
      rw [hworker] at hlost ⊢
      simpa [Ledger.take, hij] using h.all j hlost

theorem Sound.finish {L : Ledger ι κ ε} (h : L.Sound) {i : ι} {e : ε}
    (hbusy : L.worker i = .busy e) : (L.finish i e).Sound := by
  have hexact : L.takenBy i = entriesOf i L.handled ++ [e] := by
    simpa [hbusy, Worker.hand] using h.all i (by simp [hbusy])
  have heach : ∀ j, i ≠ j → (L.finish i e).worker j = L.worker j ∧
      entriesOf j (L.finish i e).handled = entriesOf j L.handled := by
    intro j hij
    exact ⟨update_of_ne (Ne.symm hij) _ _, by simp [Ledger.finish, entriesOf_snoc, hij]⟩
  have hself : entriesOf i (L.finish i e).handled ++ ((L.finish i e).worker i).hand =
      L.takenBy i := by
    simp [Ledger.finish, entriesOf_snoc, hexact, Worker.hand]
  refine ⟨h.fresh, h.fifo, ?_, ?_⟩
  · intro j
    by_cases hij : i = j
    · subst hij
      rw [hself]
      exact List.prefix_refl _
    · obtain ⟨hworker, hhandled⟩ := heach j hij
      rw [hworker, hhandled]
      exact h.work j
  · intro j hlost
    by_cases hij : i = j
    · subst hij
      exact hself.symm
    · obtain ⟨hworker, hhandled⟩ := heach j hij
      rw [hworker] at hlost
      rw [hworker, hhandled]
      exact h.all j hlost

theorem Sound.lose {L : Ledger ι κ ε} (h : L.Sound) {i : ι} : (L.lose i).Sound := by
  have heach : ∀ j, i ≠ j → (L.lose i).worker j = L.worker j := fun j hij =>
    update_of_ne (Ne.symm hij) _ _
  refine ⟨h.fresh, h.fifo, ?_, ?_⟩
  · intro j
    by_cases hij : i = j
    · subst hij
      have hhandled : entriesOf i L.handled <+: L.takenBy i :=
        (List.prefix_append _ _).trans (h.work i)
      simpa [Ledger.lose, Worker.hand, takenBy] using hhandled
    · rw [heach j hij]
      exact h.work j
  · intro j hlost
    by_cases hij : i = j
    · subst hij
      simp [Ledger.lose] at hlost
    · rw [heach j hij] at hlost ⊢
      exact h.all j hlost

theorem Event.sound {L L' : Ledger ι κ ε} (h : Event L L') (hL : L.Sound) : L'.Sound := by
  cases h with
  | same => exact hL
  | accept hfresh => exact hL.accept hfresh
  | take hidle hqueue => exact hL.take hidle hqueue
  | finish hbusy => exact hL.finish hbusy
  | lose => exact hL.lose

end Events

section Facts
variable [DecidableEq ι] [DecidableEq κ] {L : Ledger ι κ ε} {i j : ι} {k : κ} {e : ε}

theorem Sound.accepted_of_queue (h : L.Sound) (he : e ∈ L.queue k) : (k, e) ∈ L.accepted := by
  rw [← mem_entriesOf, h.fifo]
  exact List.mem_append_right _ he

theorem Sound.accepted_of_taken (h : L.Sound) (he : (i, k, e) ∈ L.taken) : (k, e) ∈ L.accepted := by
  rw [← mem_entriesOf, h.fifo]
  exact List.mem_append_left _ (mem_entriesOf.mpr (List.mem_map.mpr ⟨_, he, rfl⟩))

theorem Sound.queue_or_taken (h : L.Sound) (he : (k, e) ∈ L.accepted) :
    e ∈ L.queue k ∨ ∃ i, (i, k, e) ∈ L.taken := by
  rw [← mem_entriesOf, h.fifo] at he
  rcases List.mem_append.mp he with he | he
  · obtain ⟨⟨i, k', e'⟩, hx, heq⟩ := List.mem_map.mp (mem_entriesOf.mp he)
    cases heq
    exact .inr ⟨i, hx⟩
  · exact .inl he

theorem Sound.taken_nodup (h : L.Sound) : (L.taken.map fun x => x.2.2).Nodup := by
  have hnodup : ((L.taken.map Prod.snd).map Prod.snd).Nodup := by
    apply nodup_of_entriesOf
    · intro k
      have hk := nodup_entriesOf (k := k) h.fresh
      rw [h.fifo] at hk
      exact hk.sublist (List.sublist_append_left _ _)
    · intro k k' e hk hk'
      obtain ⟨⟨i, _, _⟩, hx, heq⟩ := List.mem_map.mp hk
      cases heq
      obtain ⟨⟨i', _, _⟩, hx', heq⟩ := List.mem_map.mp hk'
      cases heq
      exact key_unique h.fresh (h.accepted_of_taken hx) (h.accepted_of_taken hx')
  simpa [Function.comp_def] using hnodup

theorem Sound.not_taken_of_queue (h : L.Sound) (he : e ∈ L.queue k) {k' : κ} :
    (i, k', e) ∉ L.taken := by
  intro htaken
  obtain rfl := key_unique h.fresh (h.accepted_of_queue he) (h.accepted_of_taken htaken)
  have hnodup := nodup_entriesOf (k := k) h.fresh
  rw [h.fifo] at hnodup
  exact List.disjoint_of_nodup_append hnodup
    (mem_entriesOf.mpr (List.mem_map.mpr ⟨_, htaken, rfl⟩)) he

theorem Sound.taken_of_handled (h : L.Sound) (he : (i, e) ∈ L.handled) :
    ∃ k, (i, k, e) ∈ L.taken := by
  have hmem := (h.work i).subset (List.mem_append_left _ (mem_entriesOf.mpr he))
  obtain ⟨⟨i', k, e'⟩, hx, heq⟩ := List.mem_map.mp (mem_entriesOf.mp hmem)
  cases heq
  exact ⟨k, hx⟩

theorem Sound.taken_of_busy (h : L.Sound) (he : L.worker i = .busy e) :
    ∃ k, (i, k, e) ∈ L.taken := by
  have hmem : e ∈ L.takenBy i := (h.work i).subset (by simp [he, Worker.hand])
  obtain ⟨⟨i', k, e'⟩, hx, heq⟩ := List.mem_map.mp (mem_entriesOf.mp hmem)
  cases heq
  exact ⟨k, hx⟩

theorem Sound.handled_of_taken (h : L.Sound) (he : (i, k, e) ∈ L.taken) :
    (i, e) ∈ L.handled ∨ L.worker i = .busy e ∨ L.worker i = .lost := by
  have hmem : e ∈ L.takenBy i := mem_entriesOf.mpr (List.mem_map.mpr ⟨_, he, rfl⟩)
  have hall := h.all i
  cases hw : L.worker i with
  | idle =>
    rw [hall (by simp [hw]), hw] at hmem
    exact .inl (mem_entriesOf.mp (by simpa [Worker.hand] using hmem))
  | busy e' =>
    rw [hall (by simp [hw]), hw] at hmem
    rcases List.mem_append.mp hmem with hmem | hmem
    · exact .inl (mem_entriesOf.mp hmem)
    · obtain rfl := List.mem_singleton.mp hmem
      exact .inr (.inl rfl)
  | lost => exact .inr (.inr rfl)

theorem Sound.worker_unique (h : L.Sound) {k' : κ} (hi : (i, k, e) ∈ L.taken)
    (hj : (j, k', e) ∈ L.taken) : i = j :=
  congrArg Prod.fst (List.inj_on_of_nodup_map h.taken_nodup hi hj rfl)

theorem Sound.handled_nodup (h : L.Sound) : (L.handled.map Prod.snd).Nodup := by
  apply nodup_of_entriesOf
  · intro i
    have htaken : (L.takenBy i).Nodup :=
      nodup_entriesOf (by simpa [Function.comp_def] using h.taken_nodup)
    exact htaken.sublist ((List.prefix_append _ _).trans (h.work i)).sublist
  · intro i j e hi hj
    obtain ⟨k, hk⟩ := h.taken_of_handled hi
    obtain ⟨k', hk'⟩ := h.taken_of_handled hj
    exact h.worker_unique hk hk'

theorem Sound.not_handled_of_busy (h : L.Sound) (he : L.worker i = .busy e) :
    (j, e) ∉ L.handled := by
  intro hj
  obtain ⟨k, hk⟩ := h.taken_of_busy he
  obtain ⟨k', hk'⟩ := h.taken_of_handled hj
  obtain rfl := h.worker_unique hk hk'
  have htaken : (L.takenBy i).Nodup :=
    nodup_entriesOf (by simpa [Function.comp_def] using h.taken_nodup)
  rw [h.all i (by simp [he])] at htaken
  exact List.disjoint_of_nodup_append htaken (mem_entriesOf.mpr hj) (by simp [he, Worker.hand])

end Facts

end Ledger

end Transition
