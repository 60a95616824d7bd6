import Mathlib.Algebra.GroupWithZero.Nat
import Mathlib.Data.List.Basic
import Mathlib.Data.List.Induction

/-! # Tables that only grow

A table is a list whose entries are set in place or appended. The lemmas say
what one such write does to a count, to the existence of an entry of a kind,
and to a property of every entry.
-/

namespace Transition

set_option autoImplicit false

variable {α β : Type} {l : List α} {i j : Nat} {a b c : α} {p : α → Bool}

theorem countP_set_add (h : l[i]? = some a) :
    (l.set i b).countP p + (if p a then 1 else 0) = l.countP p + (if p b then 1 else 0) := by
  induction l generalizing i with
  | nil => cases h
  | cons x l ih =>
    cases i with
    | zero =>
      cases h
      simp only [List.set_cons_zero, List.countP_cons]
      omega
    | succ i =>
      have hl := ih (i := i) h
      simp only [List.set_cons_succ, List.countP_cons]
      omega

theorem sum_map_set {f : α → Nat} (h : l[i]? = some a) :
    ((l.set i b).map f).sum + f a = (l.map f).sum + f b := by
  induction l generalizing i with
  | nil => cases h
  | cons x l ih =>
    cases i with
    | zero =>
      cases h
      simp only [List.set_cons_zero, List.map_cons, List.sum_cons]
      omega
    | succ i =>
      have hl := ih (i := i) h
      simp only [List.set_cons_succ, List.map_cons, List.sum_cons]
      omega

theorem countP_set_of_eq (h : l[i]? = some a) (hp : p b = p a) :
    (l.set i b).countP p = l.countP p := by
  have hcount := countP_set_add (b := b) (p := p) h
  rw [hp] at hcount
  omega

theorem any_of_set (h : l[i]? = some a) (hp : p b = true → p a = true)
    (hany : (l.set i b).any p = true) : l.any p = true := by
  obtain ⟨x, hx, hpx⟩ := List.any_eq_true.mp hany
  rcases List.mem_or_eq_of_mem_set hx with hx | rfl
  · exact List.any_eq_true.mpr ⟨x, hx, hpx⟩
  · exact List.any_eq_true.mpr ⟨a, List.mem_of_getElem? h, hp hpx⟩

theorem getElem?_set_self_of (h : l[i]? = some a) : (l.set i b)[i]? = some b := by
  obtain ⟨hi, _⟩ := List.getElem?_eq_some_iff.mp h
  simp [hi]

theorem set_eq_self_of (h : l[i]? = some a) : l.set i a = l := by
  obtain ⟨hi, rfl⟩ := List.getElem?_eq_some_iff.mp h
  exact List.set_getElem_self hi

theorem getElem?_set_cases (h : (l.set i b)[j]? = some c) :
    j = i ∧ c = b ∨ j ≠ i ∧ l[j]? = some c := by
  rw [List.getElem?_set] at h
  split at h
  · rename_i hij
    split at h
    · cases h
      exact .inl ⟨hij.symm, rfl⟩
    · cases h
  · rename_i hij
    exact .inr ⟨Ne.symm hij, h⟩

theorem getElem?_append_cases (h : (l ++ [b])[j]? = some c) :
    j = l.length ∧ c = b ∨ l[j]? = some c := by
  rcases Nat.lt_trichotomy j l.length with hj | rfl | hj
  · rw [List.getElem?_append_left hj] at h
    exact .inr h
  · simp at h
    exact .inl ⟨rfl, h.symm⟩
  · rw [List.getElem?_append_right (Nat.le_of_lt hj), List.getElem?_eq_none] at h
    · cases h
    · simp
      omega

theorem getElem?_append_of (h : l[i]? = some a) : (l ++ [b])[i]? = some a := by
  obtain ⟨hi, _⟩ := List.getElem?_eq_some_iff.mp h
  rwa [List.getElem?_append_left hi]

theorem append_singleton_split {ps qs : List α} {a b : α} (h : l ++ [b] = ps ++ a :: qs) :
    ps = l ∧ a = b ∧ qs = [] ∨ ∃ rest, qs = rest ++ [b] ∧ l = ps ++ a :: rest := by
  rcases List.eq_nil_or_concat qs with rfl | ⟨rest, c, rfl⟩
  · obtain ⟨rfl, hb⟩ := List.append_inj' h rfl
    exact .inl ⟨rfl, (List.singleton_inj.mp hb).symm, rfl⟩
  · rw [List.concat_eq_append, ← List.cons_append, ← List.append_assoc] at h
    obtain ⟨rfl, hb⟩ := List.append_inj' h rfl
    obtain rfl := List.singleton_inj.mp hb
    exact .inr ⟨rest, List.concat_eq_append, rfl⟩

/-- The element that a count has reached `j` before. -/
theorem exists_split_countP {p : α → Bool} {j : Nat} (h : j < l.countP p) :
    ∃ as a bs, l = as ++ a :: bs ∧ p a = true ∧ as.countP p = j := by
  induction l using List.reverseRecOn with
  | nil => simp at h
  | append_singleton l a ih =>
    rw [List.countP_append, List.countP_singleton] at h
    by_cases hj : j < l.countP p
    · obtain ⟨as, b, bs, rfl, hb, hcount⟩ := ih hj
      exact ⟨as, b, bs ++ [a], by simp, hb, hcount⟩
    · cases ha : p a with
      | true =>
        rw [ha, if_pos rfl] at h
        exact ⟨l, a, [], rfl, ha, by omega⟩
      | false =>
        rw [ha, if_neg Bool.false_ne_true] at h
        omega

end Transition
