import Mathlib.Data.List.Induction
import Mathlib.Data.List.Nodup
import Mathlib.Data.List.Perm.Subperm
import Mathlib.Data.List.Range

/-! # Batches

The entries of a table that were appended together, taken by their places, and
the results that come in for some of them in any order.
-/

namespace Transition

set_option autoImplicit false

variable {α β γ : Type} {l : List α} {p : α → Bool} {b n : Nat}

theorem take_drop_eq_filterMap (l : List α) (b n : Nat) :
    (l.drop b).take n = (List.range n).filterMap fun k => l[b + k]? := by
  induction n with
  | zero => rfl
  | succ n ih =>
    rw [List.take_add_one, ih, List.range_succ, List.filterMap_append, List.getElem?_drop]
    cases hn : l[b + n]? <;> simp only [List.filterMap, hn, Option.toList]

theorem filter_eq_batch
    (h : ∀ (k : Nat) (x : α), l[k]? = some x → (p x = true ↔ b ≤ k ∧ k < b + n)) :
    l.filter p = (List.range n).filterMap fun k => l[b + k]? := by
  have hbefore : (l.take b).filter p = [] := by
    rw [List.filter_eq_nil_iff]
    intro x hx hp
    obtain ⟨k, hk⟩ := List.mem_iff_getElem?.mp hx
    rw [List.getElem?_take] at hk
    split at hk
    · have hplace := (h k x hk).mp hp
      omega
    · cases hk
  have hbatch : ((l.drop b).take n).filter p = (l.drop b).take n := by
    rw [List.filter_eq_self]
    intro x hx
    obtain ⟨k, hk⟩ := List.mem_iff_getElem?.mp hx
    rw [List.getElem?_take] at hk
    split at hk
    · rw [List.getElem?_drop] at hk
      exact (h (b + k) x hk).mpr (by omega)
    · cases hk
  have hafter : ((l.drop b).drop n).filter p = [] := by
    rw [List.filter_eq_nil_iff]
    intro x hx hp
    obtain ⟨k, hk⟩ := List.mem_iff_getElem?.mp hx
    rw [List.getElem?_drop, List.getElem?_drop] at hk
    have hplace := (h _ x hk).mp hp
    omega
  calc l.filter p = (l.take b ++ ((l.drop b).take n ++ (l.drop b).drop n)).filter p := by
        rw [List.take_append_drop, List.take_append_drop]
    _ = (l.drop b).take n := by
        rw [List.filter_append, List.filter_append, hbefore, hbatch, hafter, List.nil_append,
          List.append_nil]
    _ = (List.range n).filterMap fun k => l[b + k]? := take_drop_eq_filterMap l b n

theorem perm_batch {l : List β} (place : β → Nat) {find : Nat → Option β} (hl : l.Nodup)
    (hfind : ∀ k < n, ∀ x, find k = some x ↔ x ∈ l ∧ place x = k)
    (hplace : ∀ x ∈ l, place x < n) : l.Perm ((List.range n).filterMap find) := by
  have hnodup : ((List.range n).filterMap find).Nodup := by
    rw [List.Nodup, List.pairwise_filterMap]
    refine List.nodup_range.imp_of_mem fun {k k'} hk hk' hne x hx y hy hxy => hne ?_
    rw [← ((hfind k (List.mem_range.mp hk) x).mp hx).2, hxy,
      ((hfind k' (List.mem_range.mp hk') y).mp hy).2]
  rw [List.perm_ext_iff_of_nodup hl hnodup]
  intro x
  rw [List.mem_filterMap]
  constructor
  · intro hx
    have hk := hplace x hx
    exact ⟨place x, List.mem_range.mpr hk, (hfind _ hk x).mpr ⟨hx, rfl⟩⟩
  · rintro ⟨k, hk, hx⟩
    exact ((hfind k (List.mem_range.mp hk) x).mp hx).1

theorem subperm_range {ks : List Nat} (hks : ks.Nodup) (hlt : ∀ k ∈ ks, k < n) :
    ks.Subperm (List.range n) :=
  hks.subperm fun k hk => List.mem_range.mpr (hlt k hk)

theorem length_le_range {ks : List Nat} (hks : ks.Nodup) (hlt : ∀ k ∈ ks, k < n) :
    ks.length ≤ n := by
  have hle := (subperm_range hks hlt).length_le
  rwa [List.length_range] at hle

theorem perm_range {ks : List Nat} (hks : ks.Nodup) (hlt : ∀ k ∈ ks, k < n)
    (hlength : ks.length = n) : ks.Perm (List.range n) :=
  (subperm_range hks hlt).perm_of_length_le (by rw [List.length_range, hlength])

theorem exists_place {ks : List Nat} (hlt : ks.length < n) : ∃ k < n, k ∉ ks := by
  by_contra hall
  have hsub : (List.range n).Subperm ks := List.nodup_range.subperm fun k hk => by
    by_contra hmem
    exact hall ⟨k, List.mem_range.mp hk, hmem⟩
  have hle := hsub.length_le
  rw [List.length_range] at hle
  omega

theorem countP_range (l : List α) (p : α → Bool) :
    (List.range l.length).countP (fun k => l[k]?.any p) = l.countP p := by
  induction l using List.reverseRecOn with
  | nil => rfl
  | append_singleton l x ih =>
    rw [List.length_append, List.length_singleton, List.range_succ, List.countP_append,
      List.countP_append, List.countP_singleton, List.countP_singleton, ← ih,
      List.getElem?_concat_length, Option.any_some]
    congr 1
    refine List.countP_congr fun k hk => ?_
    rw [List.getElem?_append_left (List.mem_range.mp hk)]

/-- Results for the places of a batch, some of them empty, are as many as the
entries that have one. -/
theorem length_results {results : List (Nat × Option β)}
    (hperm : (results.map Prod.fst).Perm (List.range l.length))
    (hp : ∀ r ∈ results, r.2.isSome = l[r.1]?.any p) :
    (results.filterMap Prod.snd).length = l.countP p :=
  calc (results.filterMap Prod.snd).length = results.countP fun r => r.2.isSome :=
        List.length_filterMap_eq_countP
    _ = results.countP ((fun k => l[k]?.any p) ∘ Prod.fst) :=
        List.countP_congr fun r hr => by rw [hp r hr, Function.comp_apply]
    _ = (results.map Prod.fst).countP fun k => l[k]?.any p := List.countP_map.symm
    _ = (List.range l.length).countP fun k => l[k]?.any p := hperm.countP_eq _
    _ = l.countP p := countP_range l p

theorem exists_perm_append {f g : α → Option β} {P : β → Prop} (l : List α)
    (h : ∀ x ∈ l, f x = g x ∨ g x = none ∧ ∃ y, f x = some y ∧ P y) :
    ∃ others, (l.filterMap f).Perm (l.filterMap g ++ others) ∧ ∀ y ∈ others, P y := by
  induction l with
  | nil => exact ⟨[], .refl _, nofun⟩
  | cons x l ih =>
    obtain ⟨others, hperm, hothers⟩ := ih fun y hy => h y (List.mem_cons_of_mem _ hy)
    rcases h x List.mem_cons_self with hsame | ⟨hnone, y, hy, hP⟩
    · refine ⟨others, ?_, hothers⟩
      cases hg : g x with
      | none =>
        rw [List.filterMap_cons_none (hsame.trans hg), List.filterMap_cons_none hg]
        exact hperm
      | some y =>
        rw [List.filterMap_cons_some (hsame.trans hg), List.filterMap_cons_some hg]
        exact hperm.cons y
    · refine ⟨y :: others, ?_, ?_⟩
      · rw [List.filterMap_cons_some hy, List.filterMap_cons_none hnone]
        exact (hperm.cons y).trans List.perm_middle.symm
      · intro z hz
        rcases List.mem_cons.mp hz with rfl | hz
        · exact hP
        · exact hothers z hz

/-- Of entries with different names, at most one is of a kind that fixes its name. -/
theorem countP_le_one_of_nodup {f : α → β}
    (hl : (l.map f).Nodup)
    (hp : ∀ x ∈ l, ∀ y ∈ l, p x = true → p y = true → f x = f y) : l.countP p ≤ 1 := by
  induction l with
  | nil => exact Nat.zero_le 1
  | cons x l ih =>
    obtain ⟨hx, hl⟩ := List.nodup_cons.mp hl
    by_cases hpx : p x = true
    · have hrest : l.countP p = 0 := by
        refine List.countP_eq_zero.mpr fun y hy hpy => hx ?_
        rw [hp x List.mem_cons_self y (List.mem_cons_of_mem _ hy) hpx hpy]
        exact List.mem_map_of_mem hy
      rw [List.countP_cons_of_pos hpx, hrest]
    · rw [List.countP_cons_of_neg hpx]
      exact ih hl fun y hy z hz => hp y (List.mem_cons_of_mem _ hy) z (List.mem_cons_of_mem _ hz)

end Transition
