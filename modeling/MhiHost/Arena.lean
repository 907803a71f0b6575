import Mathlib.Algebra.Group.Nat.Defs
import Mathlib.Order.Nat

/-! Blocks placed one after another in an arena, with room left between them where a block's
place is rounded up to a power of two. -/
namespace MhiHost

structure Block where
  start : Nat
  len : Nat
  deriving DecidableEq, Repr

namespace Block

def Has (b : Block) (p : Nat) : Prop := b.start ≤ p ∧ p < b.start+b.len

def Disjoint (b c : Block) : Prop := ∀ p, ¬(b.Has p ∧ c.Has p)

def shift (d : Nat) (b : Block) : Block := ⟨d+b.start,b.len⟩

theorem disjointBefore {b c : Block} (before : b.start+b.len ≤ c.start) : b.Disjoint c :=
  fun _ ⟨first,second⟩ => absurd (Nat.lt_of_lt_of_le first.2 (before.trans second.1)) (Nat.lt_irrefl _)

end Block

namespace Arena

inductive Placed : Nat → List Block → Nat → Prop where
  | nil {a b} (room : a ≤ b) : Placed a [] b
  | cons {a b x xs} (after : a ≤ x.start) (rest : Placed (x.start+x.len) xs b) : Placed a (x :: xs) b

variable {a b c : Nat} {xs ys : List Block}

theorem Placed.le (placed : Placed a xs b) : a ≤ b := by
  induction placed with
  | nil room => exact room
  | cons after _ ih => exact (after.trans (Nat.le_add_right _ _)).trans ih

theorem Placed.append (first : Placed a xs b) (second : Placed b ys c) : Placed a (xs ++ ys) c := by
  induction first with
  | nil room =>
    cases second with
    | nil room' => exact .nil (room.trans room')
    | cons after rest => exact .cons (room.trans after) rest
  | cons after _ ih => exact .cons after (ih second)

theorem Placed.inside {x : Block} (placed : Placed a xs b) (mem : x ∈ xs) : a ≤ x.start ∧ x.start+x.len ≤ b := by
  induction placed with
  | nil => cases mem
  | cons after rest ih =>
    rcases List.mem_cons.mp mem with rfl | later
    · exact ⟨after,rest.le⟩
    · obtain ⟨low,high⟩ := ih later
      exact ⟨(after.trans (Nat.le_add_right _ _)).trans low,high⟩

theorem Placed.disjoint (placed : Placed a xs b) : xs.Pairwise Block.Disjoint := by
  induction placed with
  | nil => exact .nil
  | cons _ rest ih => exact .cons (fun _ mem => Block.disjointBefore (rest.inside mem).1) ih

theorem Placed.shift (placed : Placed a xs b) (d : Nat) : Placed (d+a) (xs.map (Block.shift d)) (d+b) := by
  induction placed with
  | nil room => exact .nil (Nat.add_le_add_left room d)
  | @cons a b x xs after _ ih =>
    refine .cons (Nat.add_le_add_left after d) ?_
    rw [← Nat.add_assoc] at ih
    exact ih

/- Clearing the bits of `a-1` in `x+(a-1)`: what is cleared is what both have. -/
def roundUp (x a : Nat) : Nat := (x+(a-1))-((x+(a-1)) &&& (a-1))

section powers
variable {x a k : Nat}

theorem roundUpMod (power : a = 2 ^ k) : roundUp x a = (x+(a-1))-(x+(a-1)) % a := by
  rw [roundUp,power,Nat.and_two_pow_sub_one_eq_mod]

theorem roundUpDvd (power : a = 2 ^ k) : a ∣ roundUp x a := by
  rw [roundUpMod power]
  exact Nat.dvd_sub_mod _

theorem leRoundUp (power : a = 2 ^ k) : x ≤ roundUp x a := by
  have positive : 0 < a := power ▸ Nat.two_pow_pos k
  have below := Nat.mod_lt (x+(a-1)) positive
  rw [roundUpMod power]
  omega

end powers

def roundUpWord {w : Nat} (x a : BitVec w) : BitVec w := (x+(a-1)) &&& ~~~(a-1)

theorem andNot {w : Nat} (y m : BitVec w) : y &&& ~~~m = y-(y &&& m) := by
  have apart : (y &&& ~~~m) &&& (y &&& m) = 0#w := by
    apply BitVec.eq_of_getElem_eq
    intro i inside
    simp only [BitVec.getElem_and,BitVec.getElem_not,BitVec.getElem_zero]
    cases y[i] <;> cases m[i] <;> rfl
  have whole : (y &&& ~~~m) ||| (y &&& m) = y := by
    apply BitVec.eq_of_getElem_eq
    intro i inside
    simp only [BitVec.getElem_or,BitVec.getElem_and,BitVec.getElem_not]
    cases y[i] <;> cases m[i] <;> rfl
  have sum := BitVec.add_eq_or_of_and_eq_zero _ _ apart
  rw [whole] at sum
  exact BitVec.eq_sub_iff_add_eq.mpr sum

theorem roundUpWordAgrees {w x a : Nat} (positive : 0 < a) (fits : x+(a-1) < 2 ^ w) :
    roundUpWord (BitVec.ofNat w x) (BitVec.ofNat w a) = BitVec.ofNat w (roundUp x a) := by
  have less : BitVec.ofNat w a-1 = BitVec.ofNat w (a-1) := by
    have whole : BitVec.ofNat w a = BitVec.ofNat w (a-1)+1 := by
      rw [← Nat.sub_add_cancel positive]
      exact BitVec.ofNat_add _ _
    rw [whole,BitVec.add_sub_cancel]
  have cleared : (x+(a-1)) &&& (a-1) ≤ x+(a-1) := Nat.and_le_left
  rw [roundUpWord,less,← BitVec.ofNat_add,andNot,← BitVec.ofNat_and,roundUp]
  exact BitVec.ofNat_sub_ofNat_of_le _ _ (Nat.lt_of_le_of_lt cleared fits) cleared

end Arena
end MhiHost
