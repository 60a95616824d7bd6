import Mathlib.Data.List.Basic

/-! # Looking up the only entry

A search for an entry that no other entry of the list can be taken for finds it
wherever it stands.
-/

namespace Transition

set_option autoImplicit false

variable {α β : Type} {l l' : List α} {p : α → Bool} {f : α → Option β} {a : α} {b : β}

theorem find?_of_unique (ha : a ∈ l) (hp : p a = true) (hunique : ∀ b ∈ l, p b = true → b = a) :
    l.find? p = some a := by
  cases hfind : l.find? p with
  | none => exact absurd hp (List.find?_eq_none.mp hfind a ha)
  | some b => rw [hunique b (List.mem_of_find?_eq_some hfind) (List.find?_some hfind)]

theorem findSome?_of_unique (ha : a ∈ l) (hfa : f a = some b)
    (hunique : ∀ x ∈ l, ∀ c, f x = some c → c = b) : l.findSome? f = some b := by
  cases hfind : l.findSome? f with
  | none =>
    have hnone := List.findSome?_eq_none_iff.mp hfind a ha
    rw [hfa] at hnone
    cases hnone
  | some c =>
    obtain ⟨x, hx, hfx⟩ := List.exists_of_findSome?_eq_some hfind
    rw [hunique x hx c hfx]

theorem find?_perm (hperm : l.Perm l')
    (hunique : ∀ a ∈ l, ∀ b ∈ l, p a = true → p b = true → a = b) : l.find? p = l'.find? p := by
  cases hfind : l.find? p with
  | none =>
    symm
    rw [List.find?_eq_none] at hfind ⊢
    exact fun a ha => hfind a (hperm.mem_iff.mpr ha)
  | some a =>
    have ha := List.mem_of_find?_eq_some hfind
    have hp := List.find?_some hfind
    refine (find?_of_unique (hperm.mem_iff.mp ha) hp fun b hb hpb => ?_).symm
    exact hunique b (hperm.mem_iff.mpr hb) a ha hpb hp

end Transition
