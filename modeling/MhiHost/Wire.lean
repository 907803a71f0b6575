import Mathlib.Algebra.Group.Nat.Defs
import Mathlib.Data.Nat.Basic

/-! Fixed-width numbers in byte strings, least or most significant byte first. A number
too large for its field is cut to it, as a store to the field does. -/
namespace MhiHost.Wire

abbrev Bytes := List UInt8

def le : Nat → Nat → Bytes
  | 0,_ => []
  | width+1,n => UInt8.ofNat n :: le width (n / 256)

def be (width n : Nat) : Bytes := (le width n).reverse

def readLe : Bytes → Nat
  | [] => 0
  | b::bs => b.toNat+256 * readLe bs

def readBe (raw : Bytes) : Nat := readLe raw.reverse

def field (raw : Bytes) (offset width : Nat) : Bytes := (raw.drop offset).take width

/- A byte past the end reads as zero; the caller has checked the length where it matters. -/
def peek (raw : Bytes) (offset : Nat) : UInt8 := raw.getD offset 0

theorem leLength (width n : Nat) : (le width n).length = width := by
  induction width generalizing n with
  | zero => rfl
  | succ width ih => rw [le,List.length_cons,ih]

theorem readLeBack (width n : Nat) : readLe (le width n) = n % 256 ^ width := by
  induction width generalizing n with
  | zero => rw [le,readLe,Nat.pow_zero,Nat.mod_one]
  | succ width ih =>
    have low : (UInt8.ofNat n).toNat = n % 256 := UInt8.toNat_ofNat'
    rw [le,readLe,ih,low,Nat.pow_succ,Nat.mul_comm (256 ^ width) 256,Nat.mod_mul]

theorem readBeBack (width n : Nat) : readBe (be width n) = n % 256 ^ width := by
  rw [readBe,be,List.reverse_reverse,readLeBack]

theorem peekAppend (front back : Bytes) (i : Nat) : peek (front ++ back) (front.length+i) = peek back i := by
  induction front with
  | nil => rw [List.nil_append,List.length_nil,Nat.zero_add]
  | cons b front ih =>
    have shift : (b :: front).length+i = front.length+i+1 := by
      rw [List.length_cons]
      omega
    rw [shift]
    exact ih

theorem beLength (width n : Nat) : (be width n).length = width := by
  rw [be,List.length_reverse,leLength]

theorem fieldAt {front : Bytes} {offset : Nat} (placed : front.length = offset) (middle back : Bytes) :
    field (front ++ (middle ++ back)) offset middle.length = middle := by
  rw [field,← placed,List.drop_left,List.take_left]

theorem readBeAt {front : Bytes} {offset : Nat} (placed : front.length = offset) (width n : Nat) (back : Bytes) :
    readBe (field (front ++ (be width n ++ back)) offset width) = n % 256 ^ width := by
  have found := fieldAt placed (be width n) back
  rw [beLength] at found
  rw [found,readBeBack]

end MhiHost.Wire
