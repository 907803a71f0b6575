import Mathlib.Data.Nat.Bitwise

/-! Fields of a 32-bit word: a value put into one is read back, and the others keep theirs. -/
namespace MhiHost.BitField

def insert (tmp mask shift val : Nat) : Nat := (tmp &&& ((2^32-1) ^^^ mask)) ||| (val <<< shift)
def extract (v mask shift : Nat) : Nat := (v &&& mask) >>> shift

def Spans (mask shift width : Nat) : Prop := mask = (2^width-1) <<< shift ∧ shift+width ≤ 32

section Field
variable {tmp mask shift width val other k : Nat}

theorem maskBit (spans : Spans mask shift width) (i : Nat) :
    mask.testBit i = (decide (shift ≤ i) && decide (i < shift+width)) := by
  obtain ⟨rfl,-⟩ := spans
  rw [Nat.testBit_shiftLeft,Nat.testBit_two_pow_sub_one]
  by_cases low : shift ≤ i
  · simp only [ge_iff_le,low,decide_true,Bool.true_and,decide_eq_decide]
    omega
  · simp [low]

theorem insertBit (spans : Spans mask shift width) (fits : val < 2^width) (i : Nat) : (insert tmp mask shift val).testBit i =
    if shift ≤ i ∧ i < shift+width then val.testBit (i-shift) else tmp.testBit i && decide (i < 32) := by
  have top := spans.2
  simp only [insert,Nat.testBit_or,Nat.testBit_and,Nat.testBit_xor,Nat.testBit_two_pow_sub_one,maskBit spans,
    Nat.testBit_shiftLeft]
  by_cases low : shift ≤ i
  · by_cases high : i < shift+width
    · have inside : i < 32 := by omega
      simp [low,high,inside]
    · have beyond : val.testBit (i-shift) = false := Nat.testBit_lt_two_pow
        (Nat.lt_of_lt_of_le fits (Nat.pow_le_pow_right (by decide) (by omega)))
      simp [low,high,beyond]
  · simp [low]

theorem extractInsert (spans : Spans mask shift width) (fits : val < 2^width) :
    extract (insert tmp mask shift val) mask shift = val := by
  apply Nat.eq_of_testBit_eq
  intro i
  rw [extract,Nat.testBit_shiftRight,Nat.testBit_and,insertBit spans fits,maskBit spans]
  by_cases high : i < width
  · simp [high]
  · have beyond : val.testBit i = false := Nat.testBit_lt_two_pow
      (Nat.lt_of_lt_of_le fits (Nat.pow_le_pow_right (by decide) (by omega)))
    simp [high,beyond]

theorem extractBeside (spans : Spans mask shift width) (fits : val < 2^width) (word : other < 2^32)
    (beside : mask &&& other = 0) :
    extract (insert tmp mask shift val) other k = extract tmp other k := by
  apply Nat.eq_of_testBit_eq
  intro i
  rw [extract,extract,Nat.testBit_shiftRight,Nat.testBit_shiftRight,Nat.testBit_and,Nat.testBit_and,insertBit spans fits]
  have apart : (mask.testBit (k+i) && other.testBit (k+i)) = false := by rw [← Nat.testBit_and,beside,Nat.zero_testBit]
  rw [maskBit spans] at apart
  by_cases high : k+i < 32
  · split
    · rename_i inside
      simp only [inside,decide_true,Bool.true_and] at apart
      simp [apart]
    · simp [high]
  · have none : other.testBit (k+i) = false := Nat.testBit_lt_two_pow
      (Nat.lt_of_lt_of_le word (Nat.pow_le_pow_right (by decide) (by omega)))
    simp [none]

theorem insertWord (spans : Spans mask shift width) (fits : val < 2^width) : insert tmp mask shift val < 2^32 := by
  apply Nat.lt_pow_two_of_testBit
  intro i high
  have top := spans.2
  rw [insertBit spans fits,if_neg (by omega)]
  simp [Nat.not_lt.mpr high]

end Field

end MhiHost.BitField
