import Mathlib.Data.Int.CardIntervalMod
import ActixSend.Builder

/-! # Contexts on arbiters

`start_with_arbiters` spawns context `i` on arbiter `i % len`, so it fails only
without arbiters, and no two arbiters differ by more than one context.
-/

namespace ActixSend

set_option autoImplicit false

variable {A : Actor}

theorem map_some_of_mapM {α β : Type} {f : α → Option β} {l : List α} {r : List β}
    (h : l.mapM f = some r) : r.map some = l.map f := by
  induction l generalizing r with
  | nil =>
    rw [List.mapM_nil] at h
    cases h
    rfl
  | cons a l ih =>
    rw [List.mapM_cons] at h
    obtain ⟨b, hb, h⟩ := Option.bind_eq_some_iff.mp h
    obtain ⟨bs, hbs, h⟩ := Option.bind_eq_some_iff.mp h
    cases h
    rw [List.map_cons, List.map_cons, ih hbs, hb]

/-- The context of round `i` goes to the arbiter `i % len`. -/
theorem placed_eq {cfg : Config} {build : Nat → A.State} {arbiters placed : List Nat}
    {index : Option Nat} {s : State A}
    (h : Builder.startWithArbiters cfg build arbiters index = some (s, placed))
    (hnum : cfg.num ≠ 1) :
    placed.map some = (List.range cfg.num).map fun i => arbiters[i % arbiters.length]? := by
  unfold Builder.startWithArbiters at h
  split at h
  · exact absurd ‹_› hnum
  · simp only at h
    split at h
    · cases h
      exact map_some_of_mapM ‹_›
    · cases h

theorem getElem?_mod_iff {arbiters : List Nat} (hnodup : arbiters.Nodup) {i j : Nat}
    (hj : j < arbiters.length) :
    arbiters[i % arbiters.length]? = some arbiters[j] ↔ i ≡ j [MOD arbiters.length] := by
  have hpos : 0 < arbiters.length := Nat.lt_of_le_of_lt (Nat.zero_le j) hj
  have hi := Nat.mod_lt i hpos
  rw [Nat.ModEq, Nat.mod_eq_of_lt hj, List.getElem?_eq_getElem hi, Option.some.injEq]
  exact hnodup.getElem_inj_iff

theorem count_placed {cfg : Config} {build : Nat → A.State} {arbiters placed : List Nat}
    {index : Option Nat} {s : State A}
    (h : Builder.startWithArbiters cfg build arbiters index = some (s, placed))
    (hnum : cfg.num ≠ 1) (hnodup : arbiters.Nodup) {j : Nat} (hj : j < arbiters.length) :
    placed.count arbiters[j] = cfg.num / arbiters.length +
      if j < cfg.num % arbiters.length then 1 else 0 := by
  have hpos : 0 < arbiters.length := Nat.lt_of_le_of_lt (Nat.zero_le j) hj
  calc placed.count arbiters[j]
      = (placed.map some).count (some arbiters[j]) :=
        (List.count_map_of_injective placed some (Option.some_injective Nat) _).symm
    _ = (List.range cfg.num).countP fun i => i ≡ j [MOD arbiters.length] := by
        rw [placed_eq h hnum, List.count, List.countP_map]
        apply List.countP_congr
        intro i _
        simp [getElem?_mod_iff hnodup hj]
    _ = cfg.num.count (· ≡ j [MOD arbiters.length]) := rfl
    _ = cfg.num / arbiters.length + if j < cfg.num % arbiters.length then 1 else 0 := by
        rw [Nat.count_modEq_card _ hpos, Nat.mod_eq_of_lt hj]

/-- Every context has an arbiter, and the first ones have one context more. -/
structure SpreadsEvenly (num : Nat) (arbiters placed : List Nat) : Prop where
  length : placed.length = num
  within : ∀ a ∈ placed, a ∈ arbiters
  share : ∀ (j : Nat) (hj : j < arbiters.length), placed.count arbiters[j] =
    num / arbiters.length + if j < num % arbiters.length then 1 else 0
  balanced : ∀ a ∈ arbiters, ∀ b ∈ arbiters, placed.count a ≤ placed.count b + 1

theorem spreads_evenly {cfg : Config} {build : Nat → A.State} {arbiters placed : List Nat}
    {index : Option Nat} {s : State A}
    (h : Builder.startWithArbiters cfg build arbiters index = some (s, placed))
    (hnum : cfg.num ≠ 1) (hnodup : arbiters.Nodup) :
    SpreadsEvenly cfg.num arbiters placed := by
  have hplaced := placed_eq h hnum
  constructor
  · have hlength := congrArg List.length hplaced
    simpa using hlength
  · intro a ha
    have hmem : some a ∈ placed.map some := List.mem_map_of_mem ha
    rw [hplaced] at hmem
    obtain ⟨i, _, hi⟩ := List.mem_map.mp hmem
    exact List.mem_of_getElem? hi
  · exact fun j hj => count_placed h hnum hnodup hj
  · intro a ha b hb
    obtain ⟨j, hj, rfl⟩ := List.getElem_of_mem ha
    obtain ⟨k, hk, rfl⟩ := List.getElem_of_mem hb
    rw [count_placed h hnum hnodup hj, count_placed h hnum hnodup hk]
    split <;> omega

/-- Five contexts on two arbiters. -/
theorem spreads_evenly_five : ∃ s placed, Builder.startWithArbiters (A := echoActor)
    { Config.default with num := 5 } (fun _ => ()) [3, 4] none = some (s, placed) ∧
    placed = [3, 4, 3, 4, 3] ∧ SpreadsEvenly 5 [3, 4] placed :=
  ⟨_, _, rfl, rfl, @spreads_evenly echoActor { Config.default with num := 5 } (fun _ => ()) [3, 4] _
    none _ rfl (by decide) (by decide)⟩

end ActixSend
