import Mathlib.Data.List.Perm.Basic
import ActixSend.Transition.Ledger

/-! # What becomes of the entries of a ledger

A worker takes its next entry after it has finished the last one, so one that
goes away loses one entry at most. The entries taken from a sound ledger are
those handled, those in hand and those lost, each once; and what one worker
handles of one channel it handles in the order of acceptance.
-/

namespace Transition

set_option autoImplicit false

section Keyed
variable {κ ε : Type} [DecidableEq κ]

theorem entriesOf_cons (k k' : κ) (e : ε) (l : List (κ × ε)) :
    entriesOf k ((k', e) :: l) = (if k' = k then [e] else []) ++ entriesOf k l := by
  by_cases h : k' = k <;> simp [entriesOf, h]

theorem pairwise_iff_entriesOf {r : ε → ε → Prop} {l : List (κ × ε)} :
    (l.Pairwise fun x y => x.1 = y.1 → r x.2 y.2) ↔ ∀ k, (entriesOf k l).Pairwise r := by
  induction l with
  | nil => simp
  | cons x l ih =>
    obtain ⟨k, e⟩ := x
    rw [List.pairwise_cons, ih]
    constructor
    · rintro ⟨hhead, htail⟩ k'
      rw [entriesOf_cons]
      split
      · rename_i hk
        subst hk
        refine List.pairwise_cons.mpr ⟨?_, htail k⟩
        intro e' he'
        exact hhead (k, e') (mem_entriesOf.mp he') rfl
      · exact htail k'
    · intro hall
      have hself := hall k
      rw [entriesOf_cons, if_pos rfl] at hself
      refine ⟨?_, fun k' => ?_⟩
      · rintro ⟨k', e'⟩ he' rfl
        exact (List.pairwise_cons.mp hself).1 e' (mem_entriesOf.mpr he')
      · have hk' := hall k'
        rw [entriesOf_cons] at hk'
        exact (List.pairwise_append.mp hk').2.1

theorem perm_flatMap_entriesOf {keys : List κ} (hkeys : keys.Nodup) {l : List (κ × ε)}
    (hl : ∀ x ∈ l, x.1 ∈ keys) :
    (l.map Prod.snd).Perm (keys.flatMap fun k => entriesOf k l) := by
  induction l with
  | nil => simp
  | cons x l ih =>
    obtain ⟨k, e⟩ := x
    have hk : k ∈ keys := hl _ List.mem_cons_self
    have hrest := ih fun x hx => hl x (List.mem_cons_of_mem _ hx)
    have hone : (keys.flatMap fun k' => if k = k' then [e] else []) = [e] := by
      clear ih hl hrest
      induction keys with
      | nil => cases hk
      | cons k' keys ih =>
        obtain ⟨hnot, hnodup⟩ := List.nodup_cons.mp hkeys
        rw [List.flatMap_cons]
        by_cases heq : k = k'
        · subst heq
          have hnone : (keys.flatMap fun k' => if k = k' then [e] else []) = [] := by
            rw [List.flatMap_eq_nil_iff]
            rintro k' hk'
            rw [if_neg]
            rintro rfl
            exact hnot hk'
          rw [hnone, if_pos rfl]
          rfl
        · have hmem : k ∈ keys := (List.mem_cons.mp hk).resolve_left heq
          rw [if_neg heq, List.nil_append, ih hnodup hmem]
    calc
      (k, e).2 :: l.map Prod.snd
      _ = [e] ++ l.map Prod.snd := rfl
      _ = (keys.flatMap fun k' => if k = k' then [e] else []) ++ l.map Prod.snd := by rw [hone]
      List.Perm _ ((keys.flatMap fun k' => if k = k' then [e] else []) ++
          keys.flatMap fun k => entriesOf k l) := hrest.append_left _
      List.Perm _ (keys.flatMap fun k' => (if k = k' then [e] else []) ++ entriesOf k' l) :=
        List.flatMap_append_perm _ _ _
      _ = keys.flatMap fun k' => entriesOf k' ((k, e) :: l) := by simp only [entriesOf_cons]

end Keyed

namespace Ledger

variable {ι κ ε : Type} [DecidableEq ι] {L L' : Ledger ι κ ε} {i : ι}

def Few (L : Ledger ι κ ε) : Prop :=
  ∀ i, (L.takenBy i).length ≤ (entriesOf i L.handled).length + 1

def lostBy (L : Ledger ι κ ε) (i : ι) : List ε :=
  (L.takenBy i).drop (entriesOf i L.handled ++ (L.worker i).hand).length

theorem Few.lostBy_le (h : L.Few) (i : ι) : (L.lostBy i).length ≤ 1 := by
  have hle := h i
  rw [lostBy, List.length_drop, List.length_append]
  omega

variable [DecidableEq κ]

theorem Event.few (h : Event L L') (hL : L.Sound) (hfew : L.Few) : L'.Few := by
  intro j
  cases h with
  | same | accept | lose => exact hfew j
  | @take i k e rest hidle =>
    rw [takenBy_take]
    by_cases hij : i = j
    · subst hij
      have hexact := hL.all i (by simp [hidle])
      rw [hexact, hidle]
      simp [Worker.hand, Ledger.take]
    · rw [if_neg hij, List.append_nil]
      exact hfew j
  | @finish i e =>
    have hle := hfew j
    have hmore : (entriesOf j L.handled).length ≤ (entriesOf j (L.finish i e).handled).length := by
      rw [Ledger.finish, entriesOf_snoc, List.length_append]
      exact Nat.le_add_right _ _
    exact Nat.le_trans hle (Nat.add_le_add_right hmore 1)

theorem Sound.takenBy_eq (h : L.Sound) (i : ι) :
    L.takenBy i = entriesOf i L.handled ++ (L.worker i).hand ++ L.lostBy i :=
  (List.prefix_iff_eq_append.mp (h.work i)).symm

theorem Sound.lostBy_eq_nil (h : L.Sound) (hworker : L.worker i ≠ .lost) : L.lostBy i = [] := by
  rw [lostBy, h.all i hworker, List.drop_length]

theorem Sound.taken_perm (h : L.Sound) {workers : List ι} (hnodup : workers.Nodup)
    (hall : ∀ x ∈ L.taken, x.1 ∈ workers) :
    (L.taken.map fun x => x.2.2).Perm (L.handled.map Prod.snd ++
      (workers.flatMap fun i => (L.worker i).hand) ++ workers.flatMap L.lostBy) := by
  have hhandled : ∀ x ∈ L.handled, x.1 ∈ workers := by
    rintro ⟨i, e⟩ hx
    obtain ⟨k, hk⟩ := h.taken_of_handled hx
    exact hall _ hk
  have htaken : ∀ x ∈ L.taken.map (fun x => (x.1, x.2.2)), x.1 ∈ workers := by
    intro x hx
    obtain ⟨y, hy, rfl⟩ := List.mem_map.mp hx
    exact hall y hy
  calc
    L.taken.map (fun x => x.2.2)
    _ = (L.taken.map fun x => (x.1, x.2.2)).map Prod.snd := by rw [List.map_map]; rfl
    List.Perm _ (workers.flatMap L.takenBy) := perm_flatMap_entriesOf hnodup htaken
    _ = workers.flatMap fun i => entriesOf i L.handled ++ (L.worker i).hand ++ L.lostBy i := by
      simp only [← h.takenBy_eq]
    List.Perm _ ((workers.flatMap fun i => entriesOf i L.handled ++ (L.worker i).hand) ++
        workers.flatMap L.lostBy) := (List.flatMap_append_perm _ _ _).symm
    List.Perm _ ((workers.flatMap fun i => entriesOf i L.handled) ++
        (workers.flatMap fun i => (L.worker i).hand) ++ workers.flatMap L.lostBy) :=
      (List.flatMap_append_perm _ _ _).symm.append_right _
    List.Perm _ (L.handled.map Prod.snd ++
        (workers.flatMap fun i => (L.worker i).hand) ++ workers.flatMap L.lostBy) :=
      ((perm_flatMap_entriesOf hnodup hhandled).symm.append_right _).append_right _

section Order
variable {r : ε → ε → Prop}

theorem Sound.taken_pairwise (h : L.Sound) (hr : L.accepted.Pairwise fun x y => r x.2 y.2) :
    L.taken.Pairwise fun x y => x.2.1 = y.2.1 → r x.2.2 y.2.2 := by
  have hkeys : ∀ k, (entriesOf k L.accepted).Pairwise r := by
    apply pairwise_iff_entriesOf.mp
    apply hr.imp
    intro _ _ hxy _
    exact hxy
  have htaken : ∀ k, (L.takenFrom k).Pairwise r := by
    intro k
    have hk := hkeys k
    rw [h.fifo] at hk
    exact (List.pairwise_append.mp hk).1
  exact List.pairwise_map.mp (pairwise_iff_entriesOf.mpr htaken)

theorem Sound.handled_pairwise (h : L.Sound) (hr : L.accepted.Pairwise fun x y => r x.2 y.2) :
    L.handled.Pairwise fun x y => x.1 = y.1 →
      ∀ k, (k, x.2) ∈ L.accepted → (k, y.2) ∈ L.accepted → r x.2 y.2 := by
  have htaken : (L.taken.map fun x => (x.1, x.2.2)).Pairwise fun x y => x.1 = y.1 →
      ∀ k, (k, x.2) ∈ L.accepted → (k, y.2) ∈ L.accepted → r x.2 y.2 := by
    rw [List.pairwise_map]
    refine (h.taken_pairwise hr).imp_of_mem ?_
    rintro ⟨i, kx, ex⟩ ⟨j, ky, ey⟩ hx hy hxy _ k hkx hky
    have hx' : k = kx := key_unique h.fresh hkx (h.accepted_of_taken hx)
    have hy' : k = ky := key_unique h.fresh hky (h.accepted_of_taken hy)
    exact hxy (hx'.symm.trans hy')
  rw [pairwise_iff_entriesOf (r := fun e e' => ∀ k, (k, e) ∈ L.accepted → (k, e') ∈ L.accepted →
    r e e')] at htaken ⊢
  intro i
  exact (htaken i).sublist ((List.prefix_append _ _).trans (h.work i)).sublist

end Order

end Ledger

end Transition
