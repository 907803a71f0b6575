import MhiHost.Config

/-! How many elements of a ring are free. The count is a difference of pointers in two
branches; the test for a full ring looks one element ahead. Command queueing uses the one,
transfer queueing the other. -/
namespace MhiHost.FreeSlots
open Cyclic (Window)

/- What the caller gets: the count, as an `int`. -/
def nrAvail (r : Ring) : Int := Int.bmod (getNrAvailRingElements r) (2 ^ 32)

structure Sized (r : Ring) (s n : Nat) : Prop where
  elSize : r.elSize = s
  len : r.len = s*n
  size : 1 ≤ s
  count : 1 ≤ n
  memory : Allocated r.base (s*n)

structure Inside (r : Ring) (s n p : Nat) : Prop where
  above : r.base ≤ p
  below : p < r.base+s*n
  aligned : (p-r.base) % s = 0

def occupied (r : Ring) (s n : Nat) : Int := ((r.wp : Int)-r.rp) / s % n

def window (r : Ring) {s n : Nat} (sized : Sized r s n) : Window := ⟨r.base,s,n,sized.size,sized.count⟩

def localRing (r : Ring) (n : Nat) : Ring := {r with iommuBase := 0,elements := n}

theorem insideSlot {r : Ring} {s n p : Nat} (sized : Sized r s n) :
    Inside r s n p ↔ ∃ i, p = (window r sized).slot i := by
  constructor
  · rintro ⟨above,below,aligned⟩
    exact (window r sized).alignedSlot ⟨above,below,aligned⟩
  · rintro ⟨i,rfl⟩
    obtain ⟨above,below,aligned⟩ := (window r sized).slotAligned i
    exact ⟨above,below,aligned⟩

theorem holdsOf {r : Ring} {s n : Nat} (sized : Sized r s n) (rp : Inside r s n r.rp) (wp : Inside r s n r.wp) :
    ∃ h m, m < n ∧ (localRing r n).Holds (window r sized) h (h+m) := by
  obtain ⟨h,readAt⟩ := (insideSlot sized).mp rp
  obtain ⟨j,writeAt⟩ := (insideSlot sized).mp wp
  obtain ⟨m,turn,ahead⟩ := (window r sized).slotAhead h j
  have bus : 0+r.len ≤ wordSpan := by
    rw [sized.len,Nat.zero_add]
    exact Nat.le_of_lt (Nat.lt_of_le_of_lt (Nat.le_add_left _ _) sized.memory.2)
  have host : r.base+r.len < wordSpan := sized.len ▸ sized.memory.2
  exact ⟨h,m,turn,⟨rfl,sized.elSize,rfl,sized.len,sized.memory.1,host,bus⟩,readAt,writeAt.trans ahead,Nat.le_add_right h m,
    Nat.add_lt_add_left turn h⟩

theorem occupiedOf {r : Ring} {s n h m : Nat} (sized : Sized r s n) (turn : m < n)
    (held : (localRing r n).Holds (window r sized) h (h+m)) : occupied r s n = m := by
  have readAt : r.rp = r.base+h % n*s := held.rp
  have writeAt : r.wp = r.base+(h+m) % n*s := held.wp
  have apart : (r.wp : Int)-r.rp = (((h+m) % n : Nat)-(h % n : Nat) : Int)*s := by
    rw [readAt,writeAt,Int.sub_mul]
    push_cast
    omega
  have size : (s : Int) ≠ 0 := Int.natCast_ne_zero.mpr (Nat.ne_of_gt sized.size)
  rw [occupied,apart,Int.mul_ediv_cancel _ size,Int.natCast_mod,Int.natCast_mod,← Int.sub_emod]
  have around : ((h+m : Nat) : Int)-h = (m : Int) := by omega
  rw [around]
  exact Int.emod_eq_of_lt (Int.natCast_nonneg m) (Int.ofNat_lt.mpr turn)

theorem availOf {r : Ring} {s n h m : Nat} {sized : Sized r s n} (few : n ≤ 2 ^ 31) (turn : m < n)
    (held : (localRing r n).Holds (window r sized) h (h+m)) : nrAvail r = n-1-m := by
  have counted : getNrAvailRingElements r = ((h+n-1-(h+m) : Nat) : Int) := Ring.availOf held
  have free : h+n-1-(h+m) = n-1-m := by omega
  rw [nrAvail,counted,free,Int.bmod_eq_of_le (by omega) (by omega)]
  omega

theorem fullOf {r : Ring} {s n h m : Nat} {sized : Sized r s n} (held : (localRing r n).Holds (window r sized) h (h+m)) :
    mhiIsRingFull r = true ↔ m+1 = n := by
  have full : mhiIsRingFull r = true ↔ h+m+1 = h+n := Ring.fullIff held
  rw [full]
  omega

theorem Sized.addElement {r : Ring} {s n : Nat} (sized : Sized r s n) : Sized (mhiAddRingElement r) s n :=
  ⟨sized.elSize,sized.len,sized.size,sized.count,sized.memory⟩

theorem Sized.delElement {r : Ring} {s n : Nat} (sized : Sized r s n) : Sized (mhiDelRingElement r) s n :=
  ⟨sized.elSize,sized.len,sized.size,sized.count,sized.memory⟩

theorem addElement {r : Ring} {s n h m : Nat} {sized : Sized r s n} (held : (localRing r n).Holds (window r sized) h (h+m))
    (space : m+1 < n) : (localRing (mhiAddRingElement r) n).Holds (window (mhiAddRingElement r) sized.addElement) h (h+(m+1)) :=
  Ring.addHolds held (Nat.add_lt_add_left space h)

theorem delElement {r : Ring} {s n h m : Nat} {sized : Sized r s n} (held : (localRing r n).Holds (window r sized) h (h+(m+1))) :
    (localRing (mhiDelRingElement r) n).Holds (window (mhiDelRingElement r) sized.delElement) (h+1) (h+1+m) := by
  have moved := Ring.delHolds held (Nat.lt_add_of_pos_right (Nat.succ_pos m))
  rw [show h+(m+1) = h+1+m from by omega] at moved
  exact moved

def addElements (r : Ring) : Nat → Ring
  | 0 => r
  | j+1 => addElements (mhiAddRingElement r) j

theorem queuesFit {r : Ring} {s n h m j : Nat} {sized : Sized r s n} (held : (localRing r n).Holds (window r sized) h (h+m))
    (space : m+j+1 < n) : mhiIsRingFull (addElements r j) = false := by
  induction j generalizing r m with
  | zero =>
    have full := fullOf held
    exact Bool.eq_false_iff.mpr fun whole => absurd (full.mp whole) (by omega)
  | succ j ih => exact ih (addElement held (by omega)) (by omega)

structure Counts (r : Ring) (s n : Nat) : Prop where
  avail : nrAvail r = n-1-occupied r s n
  range : 0 ≤ occupied r s n ∧ occupied r s n ≤ n-1
  full : nrAvail r = 0 ↔ mhiIsRingFull r = true
  added : mhiIsRingFull r = false → nrAvail (mhiAddRingElement r) = nrAvail r-1 ∧
    Inside (mhiAddRingElement r) s n (mhiAddRingElement r).wp ∧ Inside (mhiAddRingElement r) s n (mhiAddRingElement r).rp
  deleted : r.rp ≠ r.wp → nrAvail (mhiDelRingElement r) = nrAvail r+1 ∧
    Inside (mhiDelRingElement r) s n (mhiDelRingElement r).wp ∧ Inside (mhiDelRingElement r) s n (mhiDelRingElement r).rp
  queues : ∀ j : Nat, j < nrAvail r → mhiIsRingFull (addElements r j) = false

theorem inside {r : Ring} {s n h t : Nat} {sized : Sized r s n} (held : (localRing r n).Holds (window r sized) h t) :
    Inside r s n r.wp ∧ Inside r s n r.rp :=
  ⟨(insideSlot sized).mpr ⟨t,held.wp⟩,(insideSlot sized).mpr ⟨h,held.rp⟩⟩

theorem freeSlots {r : Ring} {s n : Nat} (sized : Sized r s n) (few : n ≤ 2 ^ 31) (rp : Inside r s n r.rp)
    (wp : Inside r s n r.wp) :
    Counts r s n := by
  obtain ⟨h,m,turn,held⟩ := holdsOf sized rp wp
  have used := occupiedOf sized turn held
  have avail := availOf few turn held
  have full := fullOf held
  refine ⟨used ▸ avail,?_,?_,?_,?_,?_⟩
  · rw [used]
    omega
  · rw [avail,full]
    omega
  · intro space
    have room : m+1 < n := by
      have tight : m+1 ≠ n := fun same => Bool.false_ne_true (space.symm.trans (full.mpr same))
      omega
    have added := addElement held room
    refine ⟨?_,inside added⟩
    rw [availOf few room added,avail]
    omega
  · intro filled
    cases m with
    | zero => exact absurd ((Ring.emptyIff held).mpr (Nat.add_zero h).symm) filled
    | succ m =>
      have deleted := delElement held
      refine ⟨?_,inside deleted⟩
      rw [availOf few (Nat.lt_of_succ_lt turn) deleted,avail]
      omega
  · intro j below
    rw [avail] at below
    exact queuesFit held (by omega)

def wrapped : Ring := ⟨0x8000,0x8000,0x1000,0x1030,0x1000,16,64,4,0⟩

theorem freeSlotsWrapped : Counts wrapped 16 4 :=
  freeSlots ⟨rfl,rfl,by decide,by decide,by decide⟩ (by decide) ⟨by decide,by decide,rfl⟩ ⟨by decide,by decide,rfl⟩

def longRing : Ring := ⟨0,0,0x1000,0x1000,0x1000,1,2 ^ 31+1,2 ^ 31+1,0⟩

theorem longRingMiscounted : Sized longRing 1 (2 ^ 31+1) ∧ Inside longRing 1 (2 ^ 31+1) longRing.rp ∧
    Inside longRing 1 (2 ^ 31+1) longRing.wp ∧ nrAvail longRing = -2 ^ 31 ∧
    (2 ^ 31+1 : Int)-1-occupied longRing 1 (2 ^ 31+1) = 2 ^ 31 :=
  ⟨⟨rfl,rfl,by decide,by decide,by decide⟩,⟨by decide,by decide,rfl⟩,⟨by decide,by decide,rfl⟩,by decide,by decide⟩

end MhiHost.FreeSlots
