import Mathlib.Data.List.Count
import Mathlib.Logic.Function.Basic

/-! Resources that are taken and given back, counted. `stray` lists what was given back
while nobody held it; `taken` and `returned` are the totals. -/
namespace MhiHost

structure Holdings (α : Type) where
  held : α → Nat
  taken : α → Nat
  returned : α → Nat
  stray : List α

namespace Holdings
variable {α : Type} [DecidableEq α] {b : Holdings α} {a : α} {l : List α}

def empty : Holdings α := ⟨fun _ => 0,fun _ => 0,fun _ => 0,[]⟩

def take (b : Holdings α) (a : α) : Holdings α :=
  {b with held := Function.update b.held a (b.held a+1),taken := Function.update b.taken a (b.taken a+1)}

def giveBack (b : Holdings α) (a : α) : Holdings α :=
  if b.held a = 0 then {b with stray := a :: b.stray}
  else {b with
    held := Function.update b.held a (b.held a-1),returned := Function.update b.returned a (b.returned a+1)}

def takeAll (l : List α) (b : Holdings α) : Holdings α := l.foldl take b

def giveAll (l : List α) (b : Holdings α) : Holdings α := l.foldl giveBack b

structure Sound (b : Holdings α) : Prop where
  stray : b.stray = []
  balance : ∀ a, b.taken a = b.returned a+b.held a

omit [DecidableEq α] in
theorem soundEmpty : Sound (empty : Holdings α) := ⟨rfl,fun _ => rfl⟩

theorem takeHeld (x : α) : (b.take a).held x = b.held x+[a].count x := by
  rcases Decidable.eq_or_ne x a with rfl | other
  · simp [take]
  · simp [take,other,other.symm]

theorem takeSound (sound : b.Sound) : (b.take a).Sound := by
  refine ⟨sound.stray,?_⟩
  intro x
  have balance := sound.balance x
  rcases Decidable.eq_or_ne x a with rfl | other
  · simp only [take,Function.update_self]
    omega
  · simpa only [take,Function.update_of_ne other] using balance

theorem takeAllHeld (b : Holdings α) (l : List α) (x : α) : (takeAll l b).held x = b.held x+l.count x := by
  induction l generalizing b with
  | nil => rfl
  | cons a l ih =>
    have split : (a :: l).count x = [a].count x+l.count x := by
      rw [← List.singleton_append,List.count_append]
    calc (takeAll l (b.take a)).held x = (b.take a).held x+l.count x := ih _
      _ = b.held x+[a].count x+l.count x := by rw [takeHeld]
      _ = b.held x+(a :: l).count x := by rw [split,Nat.add_assoc]

theorem takeTaken (b : Holdings α) (a x : α) : (b.take a).taken x = b.taken x+[a].count x := by
  rcases Decidable.eq_or_ne x a with rfl | other
  · simp [take]
  · simp [take,other,other.symm]

theorem takeAllTaken (b : Holdings α) (l : List α) (x : α) : (takeAll l b).taken x = b.taken x+l.count x := by
  induction l generalizing b with
  | nil => rfl
  | cons a l ih =>
    have split : (a :: l).count x = [a].count x+l.count x := by
      rw [← List.singleton_append,List.count_append]
    calc (takeAll l (b.take a)).taken x = (b.take a).taken x+l.count x := ih _
      _ = b.taken x+[a].count x+l.count x := by rw [takeTaken]
      _ = b.taken x+(a :: l).count x := by rw [split,Nat.add_assoc]

theorem takeAllSound (sound : b.Sound) : (takeAll l b).Sound := by
  induction l generalizing b with
  | nil => exact sound
  | cons a l ih => exact ih (takeSound sound)

theorem giveBackHeld (held : 0 < b.held a) (x : α) : (b.giveBack a).held x = b.held x-[a].count x := by
  have some : b.held a ≠ 0 := Nat.ne_of_gt held
  rcases Decidable.eq_or_ne x a with rfl | other
  · simp [giveBack,some]
  · simp [giveBack,some,other,other.symm]

theorem giveBackSound (held : 0 < b.held a) (sound : b.Sound) : (b.giveBack a).Sound := by
  have some : b.held a ≠ 0 := Nat.ne_of_gt held
  rw [giveBack,if_neg some]
  refine ⟨sound.stray,?_⟩
  intro x
  have balance := sound.balance x
  rcases Decidable.eq_or_ne x a with rfl | other
  · simp only [Function.update_self]
    omega
  · simpa only [Function.update_of_ne other] using balance

theorem heldAfter (held : ∀ x, (a :: l).count x ≤ b.held x) : 0 < b.held a ∧ ∀ x, l.count x ≤ (b.giveBack a).held x := by
  have first : 0 < b.held a := Nat.lt_of_lt_of_le (List.count_pos_iff.mpr List.mem_cons_self) (held a)
  refine ⟨first,?_⟩
  intro x
  have enough := held x
  rw [← List.singleton_append,List.count_append] at enough
  rw [giveBackHeld first]
  omega

theorem giveAllHeld (held : ∀ x, l.count x ≤ b.held x) (x : α) : (giveAll l b).held x = b.held x-l.count x := by
  induction l generalizing b with
  | nil => rfl
  | cons a l ih =>
    obtain ⟨first,left⟩ := heldAfter held
    have split : (a :: l).count x = [a].count x+l.count x := by
      rw [← List.singleton_append,List.count_append]
    calc (giveAll l (b.giveBack a)).held x = (b.giveBack a).held x-l.count x := ih left
      _ = b.held x-[a].count x-l.count x := by rw [giveBackHeld first]
      _ = b.held x-([a].count x+l.count x) := Nat.sub_sub _ _ _
      _ = b.held x-(a :: l).count x := by rw [split]

theorem giveBackTaken (b : Holdings α) (a x : α) : (b.giveBack a).taken x = b.taken x := by
  unfold giveBack
  split <;> rfl

theorem giveAllTaken (b : Holdings α) (l : List α) (x : α) : (giveAll l b).taken x = b.taken x := by
  induction l generalizing b with
  | nil => rfl
  | cons a l ih => exact (ih _).trans (giveBackTaken b a x)

theorem giveAllSound (held : ∀ x, l.count x ≤ b.held x) (sound : b.Sound) : (giveAll l b).Sound := by
  induction l generalizing b with
  | nil => exact sound
  | cons a l ih =>
    obtain ⟨first,left⟩ := heldAfter held
    exact ih left (giveBackSound first sound)

end Holdings
end MhiHost
