import Mathlib.Data.List.Forall2

/-! Lists related entry by entry. -/
namespace MhiHost.Rows
open List (Forall₂)
variable {α β : Type} {l l' l'' : List α} {m : List β}

theorem trans {R : α → α → Prop} (step : ∀ a b c, R a b → R b c → R a c) (first : Forall₂ R l l')
    (second : Forall₂ R l' l'') : Forall₂ R l l'' := by
  induction first generalizing l'' with
  | nil => cases second; exact .nil
  | cons head _ ih =>
    cases second with
    | cons next rest => exact .cons (step _ _ _ head next) (ih rest)

theorem set {R : α → α → Prop} (refl : ∀ a, R a a) {e : Nat} {a b : α} (found : l[e]? = some a) (related : R a b) :
    Forall₂ R l (l.set e b) := by
  induction l generalizing e with
  | nil => exact .nil
  | cons x rest ih =>
    cases e with
    | zero =>
      have same : x = a := by simpa using found
      subst same
      exact .cons related (List.forall₂_same.mpr fun y _ => refl y)
    | succ e => exact .cons (refl x) (ih (by simpa using found))

theorem forallIff {R : α → β → Prop} {P : α → Prop} {Q : β → Prop} (rows : Forall₂ R l m)
    (same : ∀ a b, R a b → (P a ↔ Q b)) : (∀ a ∈ l, P a) ↔ ∀ b ∈ m, Q b := by
  induction rows with
  | nil => exact iff_of_true (fun _ member => nomatch member) (fun _ member => nomatch member)
  | cons head _ ih =>
    rw [List.forall_mem_cons, List.forall_mem_cons]
    exact and_congr (same _ _ head) ih

theorem reduces {R S : α → β → Prop} {Q : β → Prop} (rows : Forall₂ R l m) (same : ∀ a b, R a b → (S a b ↔ Q b)) :
    Forall₂ S l m ↔ ∀ b ∈ m, Q b := by
  induction rows with
  | nil => exact iff_of_true .nil (fun _ member => nomatch member)
  | cons head _ ih =>
    rw [List.forall₂_cons, List.forall_mem_cons]
    exact and_congr (same _ _ head) ih

end MhiHost.Rows
