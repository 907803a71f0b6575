import Mathlib.Logic.Function.Basic
import Mathlib.Data.Nat.ModEq
import Mathlib.Data.List.Range

/-! Circular windows of equally sized cells in a flat address space. Positions
are unwrapped counters: cell `i` and cell `i + count` share one address, so a
head and a tail counter describe a ring without any case split on wrapping. -/
namespace MhiHost.Cyclic

structure Window where
  base : Nat
  size : Nat
  count : Nat
  sized : 0 < size
  counted : 0 < count
  deriving DecidableEq, Repr

namespace Window

def limit (w : Window) : Nat := w.base + w.size * w.count
def slot (w : Window) (i : Nat) : Nat := w.base + i % w.count * w.size
def next (w : Window) (p : Nat) : Nat := if w.limit ≤ p + w.size then w.base else p + w.size

def Aligned (w : Window) (p : Nat) : Prop :=
  w.base ≤ p ∧ p < w.limit ∧ (p - w.base) % w.size = 0
instance (w p) : Decidable (Aligned w p) := by unfold Aligned; infer_instance

theorem slotBound (w : Window) (i : Nat) : w.slot i + w.size ≤ w.limit := by
  have below : i % w.count + 1 ≤ w.count := Nat.mod_lt i w.counted
  have scaled := Nat.mul_le_mul_left w.size below
  unfold slot limit
  rw [Nat.mul_add, Nat.mul_comm w.size (i % w.count)] at scaled
  omega

theorem slotAligned (w : Window) (i : Nat) : w.Aligned (w.slot i) := by
  have bound := w.slotBound i
  have sized := w.sized
  refine ⟨by unfold slot; omega, by omega, ?_⟩
  simp [slot]

theorem slotWrap (w : Window) {i j : Nat} (same : i % w.count = j % w.count) : w.slot i = w.slot j := by
  simp [slot,same]

theorem slotResidue (w : Window) {i j : Nat} (same : w.slot i = w.slot j) : i % w.count = j % w.count := by
  unfold slot at same
  exact Nat.eq_of_mul_eq_mul_right w.sized (by omega)

theorem slotTurn (w : Window) (i : Nat) : w.slot (i + w.count) = w.slot i := w.slotWrap (by simp)

theorem residueNear {n i j : Nat} (ordered : i ≤ j) (near : j < i + n) (same : i % n = j % n) : i = j := by
  have turn : (j - i) % n = 0 := (Nat.sub_mod_eq_zero_of_mod_eq same.symm)
  rw [Nat.mod_eq_of_lt (by omega)] at turn
  omega

theorem turnCases {n h t : Nat} (counted : 0 < n) (ordered : h ≤ t) (near : t < h + n) :
    t + h % n = h + t % n ∧ h % n ≤ t % n ∨ t + h % n = h + t % n + n ∧ t % n < h % n := by
  have splitH := Nat.mod_add_div h n
  have splitT := Nat.mod_add_div t n
  have low : h / n ≤ t / n := Nat.div_le_div_right ordered
  have high : t / n ≤ h / n + 1 := by
    rw [← Nat.add_div_right h counted]
    exact Nat.div_le_div_right (by omega)
  rcases Nat.eq_or_lt_of_le low with same | less
  · left
    rw [← same] at splitT
    omega
  · right
    have next : t / n = h / n + 1 := by omega
    rw [next, Nat.mul_add, Nat.mul_one] at splitT
    omega

theorem slotNear (w : Window) {i j : Nat} (ordered : i ≤ j) (near : j < i + w.count)
    (same : w.slot i = w.slot j) : i = j := residueNear ordered near (w.slotResidue same)

theorem slotApart (w : Window) {i j : Nat} (after : i < j) (near : j < i + w.count) : w.slot i ≠ w.slot j :=
  fun same => Nat.ne_of_lt after (w.slotNear (Nat.le_of_lt after) near same)

theorem alignedSlot (w : Window) {p : Nat} (aligned : w.Aligned p) : ∃ j, p = w.slot j := by
  obtain ⟨above,below,grid⟩ := aligned
  refine ⟨(p - w.base) / w.size,?_⟩
  have near : (p - w.base) / w.size < w.count := by
    rw [Nat.div_lt_iff_lt_mul w.sized, Nat.mul_comm]
    unfold limit at below
    omega
  have whole := Nat.div_add_mod (p - w.base) w.size
  rw [slot, Nat.mod_eq_of_lt near, Nat.mul_comm]
  omega

theorem slotAhead (w : Window) (i j : Nat) : ∃ m < w.count, w.slot j = w.slot (i + m) := by
  have counted := w.counted
  have turn := Nat.mod_lt i counted
  refine ⟨(j + (w.count - i % w.count)) % w.count,Nat.mod_lt _ counted,w.slotWrap ?_⟩
  have back : i % w.count + (j + (w.count - i % w.count)) = j + w.count := by omega
  rw [Nat.add_mod, Nat.mod_mod, ← Nat.add_mod, ← Nat.mod_add_mod, back, Nat.add_mod_right]

theorem nextSlot (w : Window) (i : Nat) : w.next (w.slot i) = w.slot (i + 1) := by
  have sized := w.sized
  have below := Nat.mod_lt i w.counted
  by_cases last : i % w.count + 1 = w.count
  · have wrapped : (i + 1) % w.count = 0 := by
      rw [← Nat.mod_add_mod, last]
      exact Nat.mod_self _
    have scaled : w.size * w.count = i % w.count * w.size + w.size := by
      rw [Nat.mul_comm, ← Nat.succ_mul, Nat.succ_eq_add_one, last]
    have reach : w.limit ≤ w.slot i + w.size := by
      unfold limit slot
      omega
    simp only [next,if_pos reach]
    simp [slot,wrapped]
  · have straight : (i + 1) % w.count = i % w.count + 1 := by
      rw [← Nat.mod_add_mod]
      exact Nat.mod_eq_of_lt (by omega)
    have short : ¬ w.limit ≤ w.slot i + w.size := by
      have room := Nat.mul_le_mul_left w.size (by omega : i % w.count + 2 ≤ w.count)
      unfold limit slot
      rw [Nat.mul_add, Nat.mul_comm w.size (i % w.count)] at room
      omega
    simp only [next,if_neg short]
    simp only [slot,straight,Nat.add_mul]
    omega

def index (w : Window) (p : Nat) : Nat := (p - w.base) / w.size

theorem indexSlot (w : Window) (i : Nat) : w.index (w.slot i) = i % w.count := by
  simp [index,slot,Nat.mul_div_cancel _ w.sized]

def used (w : Window) (rp wp : Nat) : Nat := (w.index wp + w.count - w.index rp) % w.count

theorem usedSlots (w : Window) {h t : Nat} (ordered : h ≤ t) (near : t < h + w.count) :
    w.used (w.slot h) (w.slot t) = t - h := by
  have below := Nat.mod_lt h w.counted
  have split := Nat.mod_add_div h w.count
  simp only [used,indexSlot]
  have reduce : (t % w.count + w.count - h % w.count) % w.count = (t - h) % w.count := by
    rw [Nat.add_sub_assoc (by omega), Nat.mod_add_mod]
    have shift : t + (w.count - h % w.count) = (t - h) + w.count * (h / w.count + 1) := by
      rw [Nat.mul_add]; omega
    rw [shift, Nat.add_mul_mod_self_left]
  rw [reduce, Nat.mod_eq_of_lt (by omega)]

def cells (w : Window) (rp k : Nat) : List Nat := (List.range k).map (fun i => w.slot (w.index rp + i))

theorem cellsLength (w : Window) (rp k : Nat) : (w.cells rp k).length = k := by simp [cells]

theorem cellsSlot (w : Window) (h k : Nat) :
    w.cells (w.slot h) k = (List.range k).map (fun i => w.slot (h + i)) := by
  apply List.map_congr_left
  intro i _
  exact w.slotWrap (by rw [indexSlot, Nat.mod_add_mod])

def view {α : Type} (w : Window) (mem : Nat → α) (h t : Nat) : List α :=
  (List.range (t - h)).map (fun i => mem (w.slot (h + i)))

theorem viewCells {α : Type} (w : Window) (mem : Nat → α) {h t : Nat} (ordered : h ≤ t)
    (near : t < h + w.count) :
    (w.cells (w.slot h) (w.used (w.slot h) (w.slot t))).map mem = w.view mem h t := by
  rw [usedSlots w ordered near, cellsSlot, List.map_map]
  rfl

theorem viewEmpty {α : Type} (w : Window) (mem : Nat → α) (h : Nat) : w.view mem h h = [] := by
  simp [view]

theorem viewPush {α : Type} (w : Window) (mem : Nat → α) {h t : Nat} (ordered : h ≤ t) :
    w.view mem h (t + 1) = w.view mem h t ++ [mem (w.slot t)] := by
  have step : t + 1 - h = (t - h) + 1 := by omega
  have last : h + (t - h) = t := by omega
  simp [view,step,List.range_succ,last]

theorem viewPop {α : Type} (w : Window) (mem : Nat → α) {h t : Nat} (filled : h < t) :
    w.view mem h t = mem (w.slot h) :: w.view mem (h + 1) t := by
  have step : t - h = (t - (h + 1)) + 1 := by omega
  simp only [view,step,List.range_succ_eq_map,List.map_cons,List.map_map,Nat.add_zero]
  congr 1
  apply List.map_congr_left
  intro i _
  simp only [Function.comp_apply,Nat.succ_eq_add_one]
  rw [show h + (i + 1) = h + 1 + i by omega]

theorem viewBelow {α : Type} (w : Window) (mem : Nat → α) (v : α) {h g t : Nat} (below : g ≤ t)
    (near : t < h + w.count) : w.view (Function.update mem (w.slot t) v) h g = w.view mem h g := by
  apply List.map_congr_left
  intro i member
  have inside := List.mem_range.mp member
  exact Function.update_of_ne (w.slotApart (by omega) (by omega)) _ _

theorem viewUpdate {α : Type} (w : Window) (mem : Nat → α) (v : α) {h t : Nat}
    (near : t < h + w.count) :
    w.view (Function.update mem (w.slot t) v) h t = w.view mem h t := w.viewBelow mem v (Nat.le_refl t) near

theorem viewWrite {α : Type} (w : Window) (mem : Nat → α) (v : α) {h t : Nat} (ordered : h ≤ t)
    (near : t < h + w.count) :
    w.view (Function.update mem (w.slot t) v) h (t + 1) = w.view mem h t ++ [v] := by
  rw [viewPush w _ ordered, viewUpdate w mem v near]
  simp

end Window
end MhiHost.Cyclic
