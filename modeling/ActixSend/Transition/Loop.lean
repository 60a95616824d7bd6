import Mathlib.Data.List.Forall2
import Mathlib.Data.Option.Basic

/-! # Loops that build

A loop whose rounds each add one item to what is built so far, and a loop whose
rounds each yield one, when no round fails. What the rounds read may say more
than what is built shows.
-/

namespace Transition

set_option autoImplicit false

variable {α β γ σ : Type} {R : α → β → Prop} {l : List α} {r : List β}

theorem foldl_build {f : σ → α → σ} {B : List α → σ}
    (hround : ∀ done a, f (B done) a = B (done ++ [a])) (done l : List α) :
    l.foldl f (B done) = B (done ++ l) := by
  induction l generalizing done with
  | nil => rw [List.append_nil, List.foldl_nil]
  | cons a l ih => rw [List.foldl_cons, hround, ih, List.append_assoc, List.singleton_append]

theorem foldlM_build {f : σ → α → Option σ} {B : List β → σ}
    (hround : ∀ done a b, R a b → f (B done) a = some (B (done ++ [b])))
    (h : List.Forall₂ R l r) (done : List β) :
    l.foldlM f (B done) = some (B (done ++ r)) := by
  induction h generalizing done with
  | nil =>
    rw [List.append_nil, List.foldlM_nil]
    rfl
  | cons hab _ ih =>
    rw [List.foldlM_cons, hround done _ _ hab, Option.bind_eq_bind, Option.bind_some, ih,
      List.append_assoc, List.singleton_append]

theorem mapM_of_forall₂ {f : α → Option γ} {g : β → γ}
    (hround : ∀ a b, R a b → f a = some (g b)) (h : List.Forall₂ R l r) :
    l.mapM f = some (r.map g) := by
  induction h with
  | nil => rfl
  | cons hab _ ih =>
    rw [List.mapM_cons, hround _ _ hab, ih]
    rfl

theorem exists_mapM_of_forall₂ {f : α → Option γ} {S : γ → β → Prop}
    (hround : ∀ a b, R a b → ∃ c, f a = some c ∧ S c b) (h : List.Forall₂ R l r) :
    ∃ cs, l.mapM f = some cs ∧ List.Forall₂ S cs r := by
  induction h with
  | nil => exact ⟨[], rfl, .nil⟩
  | cons hab _ ih =>
    obtain ⟨c, hc, hcb⟩ := hround _ _ hab
    obtain ⟨cs, hcs, hforall⟩ := ih
    refine ⟨c :: cs, ?_, .cons hcb hforall⟩
    rw [List.mapM_cons, hc, hcs]
    rfl

theorem mapM_of_forall {f : α → Option γ} {k : α → γ} (hround : ∀ a ∈ l, f a = some (k a)) :
    l.mapM f = some (l.map k) := by
  have hsame : List.Forall₂ (fun a b => a ∈ l ∧ a = b) l l :=
    List.forall₂_same.mpr fun a ha => ⟨ha, rfl⟩
  refine mapM_of_forall₂ ?_ hsame
  rintro a _ ⟨ha, rfl⟩
  exact hround a ha

end Transition
