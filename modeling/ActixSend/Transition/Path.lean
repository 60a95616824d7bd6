import Mathlib.Data.List.Basic
import Mathlib.Data.List.Induction

/-! # Paths of a partial step function

A step function answers `none` where an action is not enabled. A path keeps
every move it takes, so that a condition on a run is a condition on its moves
and a property of a run is a property of the states its moves reach.
-/

namespace Transition

set_option autoImplicit false

variable {σ α : Type}

structure Move (σ α : Type) where
  src : σ
  act : α
  dst : σ

inductive Path (step : σ → α → Option σ) (s : σ) : List (Move σ α) → σ → Prop
  | nil : Path step s [] s
  | snoc {ms : List (Move σ α)} {u v : σ} {a : α} :
      Path step s ms u → step u a = some v → Path step s (ms ++ [⟨u, a, v⟩]) v

/-- The states a path passes through, its first one included. -/
def visited (s : σ) (ms : List (Move σ α)) : List σ := s :: ms.map Move.dst

def run (step : σ → α → Option σ) : σ → List α → Option σ
  | s, [] => some s
  | s, a :: as => (step s a).bind fun t => run step t as

variable {step : σ → α → Option σ} {s t u : σ} {ms ns : List (Move σ α)}

theorem Path.single {a : α} (h : step s a = some t) : Path step s [⟨s, a, t⟩] t :=
  Path.snoc .nil h

theorem Path.trans (h : Path step s ms t) (h' : Path step t ns u) : Path step s (ms ++ ns) u := by
  induction h' with
  | nil => rwa [List.append_nil]
  | snoc _ hstep ih =>
    rw [← List.append_assoc]
    exact ih.snoc hstep

theorem Path.cons {a : α} (h : step s a = some t) (h' : Path step t ms u) :
    Path step s (⟨s, a, t⟩ :: ms) u :=
  (Path.single h).trans h'

theorem exists_path_of_run {as : List α} (h : run step s as = some t) :
    ∃ ms, Path step s ms t ∧ ms.map Move.act = as := by
  induction as generalizing s with
  | nil =>
    cases h
    exact ⟨[], .nil, rfl⟩
  | cons a as ih =>
    obtain ⟨u, hstep, hrun⟩ := Option.bind_eq_some_iff.mp h
    obtain ⟨ms, hpath, hacts⟩ := ih hrun
    exact ⟨⟨s, a, u⟩ :: ms, Path.cons hstep hpath, by rw [List.map_cons, hacts]⟩

theorem run_map {τ β : Type} {step' : τ → β → Option τ} {f : σ → τ} {g : α → β} {I : σ → Prop}
    {C : α → Prop} (hstep : ∀ s a, I s → C a → step' (f s) (g a) = (step s a).map f)
    (hI : ∀ s a t, I s → C a → step s a = some t → I t) {as : List α} (hs : I s)
    (has : ∀ a ∈ as, C a) : run step' (f s) (as.map g) = (run step s as).map f := by
  induction as generalizing s with
  | nil => rfl
  | cons a as ih =>
    have ha : C a := has a List.mem_cons_self
    rw [List.map_cons, run, run, hstep s a hs ha]
    cases h : step s a with
    | none => rfl
    | some t => exact ih (hI s a t hs ha h) fun b hb => has b (List.mem_cons_of_mem _ hb)

/-- A run that can be evaluated, as a path whose last move is displayed. -/
theorem exists_path_of_eval (step : σ → α → Option σ) (s : σ) (as : List α) (a : α)
    (p : σ → σ → Bool)
    (h : ((run step s as).any fun u => (step u a).any fun v => p u v) = true) :
    ∃ ms u v, Path step s (ms ++ [⟨u, a, v⟩]) v ∧ ms.map Move.act = as ∧ p u v = true := by
  obtain ⟨u, hrun, hu⟩ := (Option.any_eq_true _ _).mp h
  obtain ⟨v, hstep, hp⟩ := (Option.any_eq_true _ _).mp hu
  obtain ⟨ms, hpath, hacts⟩ := exists_path_of_run hrun
  exact ⟨ms, u, v, hpath.snoc hstep, hacts, hp⟩

/-- The run of a list of actions as long as each move passes the test `p`. -/
def checkedRun (step : σ → α → Option σ) (p : σ → α → σ → Bool) : σ → List α → Option σ
  | s, [] => some s
  | s, a :: as => (step s a).bind fun t => if p s a t then checkedRun step p t as else none

theorem exists_path_of_checkedRun (step : σ → α → Option σ) (s : σ) (as : List α)
    (p : σ → α → σ → Bool) (q : σ → Bool)
    (h : ((checkedRun step p s as).any q) = true) :
    ∃ ms t, Path step s ms t ∧ ms.map Move.act = as ∧ (∀ m ∈ ms, p m.src m.act m.dst = true) ∧
      q t = true := by
  obtain ⟨t, hrun, hq⟩ := (Option.any_eq_true _ _).mp h
  have hpath : ∃ ms, Path step s ms t ∧ ms.map Move.act = as ∧
      ∀ m ∈ ms, p m.src m.act m.dst = true := by
    clear h
    induction as generalizing s with
    | nil =>
      cases hrun
      exact ⟨[], .nil, rfl, by simp⟩
    | cons a as ih =>
      obtain ⟨u, hstep, hrun⟩ := Option.bind_eq_some_iff.mp hrun
      split at hrun
      · rename_i hp
        obtain ⟨ms, hpath, hacts, hms⟩ := ih _ hrun
        refine ⟨⟨s, a, u⟩ :: ms, Path.cons hstep hpath, by rw [List.map_cons, hacts], ?_⟩
        intro m hm
        rcases List.mem_cons.mp hm with rfl | hm
        · exact hp
        · exact hms m hm
      · cases hrun
  obtain ⟨ms, hpath, hacts, hms⟩ := hpath
  exact ⟨ms, t, hpath, hacts, hms, hq⟩

theorem Path.eq_of_nil (h : Path step s [] t) : t = s := by
  generalize he : ([] : List (Move σ α)) = ms at h
  cases h with
  | nil => rfl
  | snoc _ _ => simp at he

theorem Path.last {m : Move σ α} (h : Path step s (ms ++ [m]) t) :
    ∃ u, Path step s ms u ∧ step u m.act = some t ∧ m = ⟨u, m.act, t⟩ := by
  generalize he : ms ++ [m] = ls at h
  cases h with
  | nil => simp at he
  | snoc h hstep =>
    obtain ⟨rfl, hm⟩ := List.append_inj' he rfl
    cases hm
    exact ⟨_, h, hstep, rfl⟩

theorem Path.exists_between (h : Path step s (ms ++ ns) u) :
    ∃ t, Path step s ms t ∧ Path step t ns u := by
  induction ns using List.reverseRecOn generalizing u with
  | nil =>
    rw [List.append_nil] at h
    exact ⟨u, h, .nil⟩
  | append_singleton ns m ih =>
    rw [← List.append_assoc] at h
    obtain ⟨v, hv, hstep, hm⟩ := h.last
    obtain ⟨t, hms, hns⟩ := ih hv
    refine ⟨t, hms, ?_⟩
    rw [hm]
    exact hns.snoc hstep

theorem Path.first {m : Move σ α} (h : Path step s (m :: ns) u) :
    m.src = s ∧ step m.src m.act = some m.dst ∧ Path step m.dst ns u := by
  rw [← List.singleton_append] at h
  obtain ⟨t, hm, hns⟩ := h.exists_between
  rw [← List.nil_append [m]] at hm
  obtain ⟨v, hv, hstep, heq⟩ := hm.last
  obtain rfl := hv.eq_of_nil
  rw [heq]
  exact ⟨rfl, hstep, hns⟩

theorem Path.exists_split (h : Path step s ms t) {m : Move σ α} (hm : m ∈ ms) :
    ∃ ps qs, ms = ps ++ m :: qs ∧ Path step s ps m.src ∧ step m.src m.act = some m.dst ∧
      Path step m.dst qs t := by
  induction h with
  | nil => cases hm
  | @snoc ms u v a h hstep ih =>
    rcases List.mem_append.mp hm with hm | hm
    · obtain ⟨ps, qs, rfl, hps, hm, hqs⟩ := ih hm
      exact ⟨ps, qs ++ [⟨u, a, v⟩], by simp, hps, hm, hqs.snoc hstep⟩
    · obtain rfl := List.mem_singleton.mp hm
      exact ⟨ms, [], rfl, h, hstep, .nil⟩

theorem Path.exists_prefix (h : Path step s ms t) {m : Move σ α} (hm : m ∈ ms) :
    ∃ ps qs, ms = ps ++ m :: qs ∧ Path step s ps m.src ∧ step m.src m.act = some m.dst :=
  let ⟨ps, qs, hms, hps, hstep, _⟩ := h.exists_split hm
  ⟨ps, qs, hms, hps, hstep⟩

theorem Path.step_eq (h : Path step s ms t) {m : Move σ α} (hm : m ∈ ms) :
    step m.src m.act = some m.dst :=
  let ⟨_, _, _, _, hstep⟩ := h.exists_prefix hm
  hstep

theorem Path.end_mem_visited (h : Path step s ms t) : t ∈ visited s ms := by
  cases h with
  | nil => exact List.mem_cons_self
  | snoc _ _ => simp [visited]

theorem Path.mem_visited (h : Path step s ms t) {m : Move σ α} (hm : m ∈ ms) :
    m.src ∈ visited s ms ∧ m.dst ∈ visited s ms := by
  refine ⟨?_, List.mem_cons_of_mem _ (List.mem_map_of_mem hm)⟩
  obtain ⟨ps, qs, rfl, hps, _⟩ := h.exists_prefix hm
  rcases List.mem_cons.mp hps.end_mem_visited with hsrc | hsrc
  · rw [hsrc]
    exact List.mem_cons_self
  · obtain ⟨n, hn, hsrc⟩ := List.mem_map.mp hsrc
    exact List.mem_cons_of_mem _ (List.mem_map.mpr ⟨n, List.mem_append_left _ hn, hsrc⟩)

theorem Path.exists_split_at (h : Path step s ms t) {u : σ} (hu : u ∈ visited s ms) :
    ∃ ps qs, ms = ps ++ qs ∧ Path step s ps u ∧ Path step u qs t := by
  rcases List.mem_cons.mp hu with rfl | hu
  · exact ⟨[], ms, rfl, .nil, h⟩
  · obtain ⟨m, hm, rfl⟩ := List.mem_map.mp hu
    obtain ⟨ps, qs, rfl, hps, hstep, hqs⟩ := h.exists_split hm
    exact ⟨ps ++ [m], qs, by simp, hps.snoc hstep, hqs⟩

theorem Path.exists_path_to (h : Path step s ms t) {u : σ} (hu : u ∈ visited s ms) :
    ∃ ps, Path step s ps u ∧ ∀ m ∈ ps, m ∈ ms := by
  obtain ⟨ps, qs, rfl, hps, _⟩ := h.exists_split_at hu
  exact ⟨ps, hps, fun m hm => List.mem_append_left qs hm⟩

/-- A predicate kept by every move that meets `C` holds at the end of every
path all of whose moves meet `C`. -/
theorem Path.invariant_of {I : σ → Prop} {C : Move σ α → Prop} (h : Path step s ms t)
    (hC : ∀ m ∈ ms, C m) (h0 : I s)
    (hI : ∀ u a v, C ⟨u, a, v⟩ → step u a = some v → I u → I v) : I t := by
  induction h with
  | nil => exact h0
  | @snoc ms u v a _ hstep ih =>
    have hu : I u := ih fun m hm => hC m (List.mem_append_left _ hm)
    exact hI u a v (hC _ (List.mem_concat_self)) hstep hu

theorem Path.invariant {I : σ → Prop} (h : Path step s ms t) (h0 : I s)
    (hI : ∀ u a v, step u a = some v → I u → I v) : I t :=
  h.invariant_of (C := fun _ => True) (fun _ _ => trivial) h0 fun u a v _ => hI u a v

/-- When each move of a kind lowers a measure and no other move raises it, the
measure bounds how many moves of that kind a path can take. -/
theorem Path.countP_add_le {I : σ → Prop} {C : Move σ α → Prop} {μ : σ → Nat} {p : Move σ α → Bool}
    (h : Path step s ms t) (hC : ∀ m ∈ ms, C m) (h0 : I s)
    (hI : ∀ u a v, C ⟨u, a, v⟩ → step u a = some v → I u → I v)
    (hμ : ∀ u a v, C ⟨u, a, v⟩ → step u a = some v → I u →
      μ v + (if p ⟨u, a, v⟩ then 1 else 0) ≤ μ u) :
    ms.countP p + μ t ≤ μ s := by
  induction h with
  | nil => simp
  | @snoc ms u v a h hstep ih =>
    have hC' : ∀ m ∈ ms, C m := fun m hm => hC m (List.mem_append_left _ hm)
    have hlast : C ⟨u, a, v⟩ := hC _ (List.mem_concat_self)
    have hu : I u := h.invariant_of hC' h0 hI
    have hle := ih hC'
    have hdec := hμ u a v hlast hstep hu
    rw [List.countP_append, List.countP_singleton]
    omega

/-- A move that brings about what no move undoes is taken at most once. -/
theorem Path.countP_le_one {Q : σ → Prop} {p : Move σ α → Bool} (h : Path step s ms t)
    (hkeep : ∀ u a v, step u a = some v → Q u → Q v)
    (hp : ∀ u a v, step u a = some v → p ⟨u, a, v⟩ = true → ¬Q u ∧ Q v) : ms.countP p ≤ 1 := by
  classical
  let μ : σ → Nat := fun u => if Q u then 0 else 1
  have hle : ms.countP p + μ t ≤ μ s := by
    refine h.countP_add_le (I := fun _ => True) (C := fun _ => True) (fun _ _ => trivial) trivial
      (fun _ _ _ _ _ _ => trivial) fun u a v _ hstep _ => ?_
    simp only [μ]
    by_cases hm : p ⟨u, a, v⟩ = true
    · obtain ⟨hu, hv⟩ := hp u a v hstep hm
      simp [hm, hu, hv]
    · by_cases hu : Q u
      · simp [hm, hu, hkeep u a v hstep hu]
      · simp only [hm, hu, if_false]
        split <;> simp
  have hs : μ s ≤ 1 := by
    simp only [μ]
    split <;> omega
  omega

theorem eq_of_countP_le_one {β : Type} {l : List β} {p : β → Bool} (h : l.countP p ≤ 1) {x y : β}
    (hx : x ∈ l) (hy : y ∈ l) (hpx : p x = true) (hpy : p y = true) : x = y := by
  rw [List.countP_eq_length_filter] at h
  have hx' : x ∈ l.filter p := List.mem_filter.mpr ⟨hx, hpx⟩
  have hy' : y ∈ l.filter p := List.mem_filter.mpr ⟨hy, hpy⟩
  match hl : l.filter p with
  | [] =>
    rw [hl] at hx'
    cases hx'
  | [z] =>
    rw [hl] at hx' hy'
    rw [List.mem_singleton.mp hx', List.mem_singleton.mp hy']
  | z :: z' :: rest =>
    rw [hl] at h
    simp at h

theorem Path.eq_of_establish {Q : σ → Prop} (h : Path step s ms t)
    (hkeep : ∀ u a v, step u a = some v → Q u → Q v) {m n : Move σ α} (hm : m ∈ ms) (hn : n ∈ ms)
    (hm' : ¬Q m.src ∧ Q m.dst) (hn' : ¬Q n.src ∧ Q n.dst) : m = n := by
  classical
  have hle : ms.countP (fun m => decide (¬Q m.src ∧ Q m.dst)) ≤ 1 :=
    h.countP_le_one hkeep fun _ _ _ _ hp => of_decide_eq_true hp
  exact eq_of_countP_le_one hle hm hn (decide_eq_true hm') (decide_eq_true hn')

end Transition
