import Mathlib.Logic.Relation

/-! Runs of a step relation: what every step keeps, every run keeps. -/
namespace MhiHost.Runs
variable {α : Type} {step : α → α → Prop} {a b : α}

theorem keeps {I : α → Prop} (kept : ∀ a b, step a b → I a → I b) (run : Relation.ReflTransGen step a b)
    (start : I a) : I b := by
  induction run with
  | refl => exact start
  | tail _ next ih => exact kept _ _ next ih

end MhiHost.Runs
