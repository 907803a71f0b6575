import MhiHost.Cyclic
import MhiHost.Internal

/-! `struct mhi_ring` and the ring helpers of `main.c`, on byte addresses. The
word behind `ctxt_wp` is kept in the ring that owns the pointer. A ring over a
window carries its read and write counters; the helpers move those counters. -/
namespace MhiHost
open Cyclic (Window)

structure Ring where
  iommuBase : Nat
  ctxtWp : Nat
  base : Nat
  rp : Nat
  wp : Nat
  elSize : Nat
  len : Nat
  elements : Nat
  dbAddr : Nat
  deriving DecidableEq, Repr

def wordSpan : Nat := 2 ^ 64

def mhiToVirtual (r : Ring) (addr : Nat) : Nat :=
  (addr + (wordSpan - r.iommuBase % wordSpan) + r.base) % wordSpan

def getNrAvailRingElements (r : Ring) : Int :=
  if r.wp < r.rp then ((r.rp - r.wp) / r.elSize : Nat) - (1 : Int)
  else ((r.rp - r.base) / r.elSize : Nat) + (((r.base + r.len - r.wp) / r.elSize : Nat) - (1 : Int))

def mhiAddRingElement (r : Ring) : Ring :=
  let wp := r.wp + r.elSize
  {r with wp := if r.base + r.len ≤ wp then r.base else wp}

def mhiDelRingElement (r : Ring) : Ring :=
  let rp := r.rp + r.elSize
  {r with rp := if r.base + r.len ≤ rp then r.base else rp}

def mhiIsRingFull (r : Ring) : Bool :=
  let tmp := r.wp + r.elSize
  decide ((if r.base + r.len ≤ tmp then r.base else tmp) = r.rp)

/- The context word wraps when the local write pointer does, not on its own. -/
def mhiRecycleEvRingElement (r : Ring) : Ring :=
  let wp := r.wp + r.elSize
  let rp := r.rp + r.elSize
  let wrapped := decide (r.base + r.len ≤ wp)
  {r with
    wp := if wrapped then r.base else wp
    ctxtWp := if wrapped then r.iommuBase else r.ctxtWp + r.elSize
    rp := if r.base + r.len ≤ rp then r.base else rp}

def Ring.db (r : Ring) : Nat := r.iommuBase + (r.wp - r.base)

/- Where a ring was laid out: the allocator's promise about its memory and what
the set-up code stores about it. Neither rp nor wp occurs here. -/
structure Ring.Over (w : Window) (r : Ring) : Prop where
  base : r.base = w.base
  elSize : r.elSize = w.size
  elements : r.elements = w.count
  len : r.len = w.size * w.count
  placed : 0 < r.base
  host : r.base + r.len < wordSpan
  bus : r.iommuBase + r.len ≤ wordSpan

structure Ring.Holds (w : Window) (r : Ring) (h t : Nat) : Prop where
  spans : r.Over w
  rp : r.rp = w.slot h
  wp : r.wp = w.slot t
  ordered : h ≤ t
  room : t < h + w.count

namespace Ring

theorem Over.limit {w r} (spans : Over w r) : w.base + r.len = w.limit := by
  rw [Window.limit, spans.len]

theorem Over.moved {w r} (spans : Over w r) (rp wp ctxt db : Nat) :
    Over w {r with rp := rp, wp := wp, ctxtWp := ctxt, dbAddr := db} :=
  ⟨spans.base,spans.elSize,spans.elements,spans.len,spans.placed,spans.host,spans.bus⟩

theorem Over.addWp {w r} (spans : Over w r) : (mhiAddRingElement r).wp = w.next r.wp := by
  simp only [mhiAddRingElement,Window.next,spans.limit,spans.elSize,spans.base]

theorem Over.delRp {w r} (spans : Over w r) : (mhiDelRingElement r).rp = w.next r.rp := by
  simp only [mhiDelRingElement,Window.next,spans.limit,spans.elSize,spans.base]

theorem Over.recycleWp {w r} (spans : Over w r) : (mhiRecycleEvRingElement r).wp = w.next r.wp := by
  simp only [mhiRecycleEvRingElement,Window.next,spans.limit,spans.elSize,spans.base,decide_eq_true_iff]

theorem Over.recycleRp {w r} (spans : Over w r) : (mhiRecycleEvRingElement r).rp = w.next r.rp := by
  simp only [mhiRecycleEvRingElement,Window.next,spans.limit,spans.elSize,spans.base]

theorem recycleDb {r : Ring} (above : r.base ≤ r.wp) (told : r.ctxtWp = r.db) :
    (mhiRecycleEvRingElement r).ctxtWp = (mhiRecycleEvRingElement r).db := by
  simp only [mhiRecycleEvRingElement,db,told,decide_eq_true_iff]
  split <;> omega

theorem addHolds {w r h t} (held : Holds w r h t) (space : t + 1 < h + w.count) :
    Holds w (mhiAddRingElement r) h (t + 1) where
  spans := held.spans.moved r.rp _ r.ctxtWp r.dbAddr
  rp := held.rp
  wp := by rw [held.spans.addWp, held.wp, w.nextSlot]
  ordered := by have := held.ordered; omega
  room := space

theorem delHolds {w r h t} (held : Holds w r h t) (filled : h < t) :
    Holds w (mhiDelRingElement r) (h + 1) t where
  spans := held.spans.moved _ r.wp r.ctxtWp r.dbAddr
  rp := by rw [held.spans.delRp, held.rp, w.nextSlot]
  wp := held.wp
  ordered := filled
  room := by have := held.room; omega

theorem emptyIff {w r h t} (held : Holds w r h t) : r.rp = r.wp ↔ h = t := by
  rw [held.rp, held.wp]
  constructor
  · exact w.slotNear held.ordered held.room
  · rintro rfl; rfl

theorem fullIff {w r h t} (held : Holds w r h t) : mhiIsRingFull r = true ↔ t + 1 = h + w.count := by
  have full : mhiIsRingFull r = true ↔ w.next r.wp = r.rp := by
    simp only [mhiIsRingFull,Window.next,held.spans.limit,held.spans.elSize,held.spans.base,decide_eq_true_iff]
  have ordered := held.ordered
  have room := held.room
  rw [full, held.wp, held.rp, w.nextSlot, ← w.slotTurn h]
  constructor
  · intro same
    exact w.slotNear (by omega) (by omega) same
  · intro same
    rw [same]

theorem spaceOf {w r h t} (held : Holds w r h t) (free : mhiIsRingFull r = false) :
    t + 1 < h + w.count := by
  have room := held.room
  have tight : ¬ t + 1 = h + w.count := fun same => by simp [(fullIff held).mpr same] at free
  omega

theorem Holds.rung {w r h t} (held : Holds w r h t) (ctxt : Nat) : Holds w {r with ctxtWp := ctxt} h t :=
  ⟨held.spans.moved r.rp r.wp ctxt r.dbAddr,held.rp,held.wp,held.ordered,held.room⟩

theorem availOf {w r h t} (held : Holds w r h t) : getNrAvailRingElements r = (h + w.count - 1 - t : Nat) := by
  have ordered := held.ordered
  have room := held.room
  have sized := w.sized
  have head := Nat.mod_lt h w.counted
  have tail := Nat.mod_lt t w.counted
  have rp : r.rp = r.base + h % w.count * w.size := by rw [held.rp, held.spans.base]; rfl
  have wp : r.wp = r.base + t % w.count * w.size := by rw [held.wp, held.spans.base]; rfl
  have cells : ∀ n, n * w.size / w.size = n := fun n => Nat.mul_div_cancel n sized
  unfold getNrAvailRingElements
  rw [rp, wp, held.spans.elSize, held.spans.len]
  rcases Window.turnCases w.counted ordered room with ⟨same,le⟩ | ⟨next,lt⟩
  · have scaled := Nat.mul_le_mul_right w.size le
    rw [if_neg (by omega)]
    have free : r.base + w.size * w.count - (r.base + t % w.count * w.size) = (w.count - t % w.count) * w.size := by
      rw [Nat.sub_mul, Nat.mul_comm w.count]
      omega
    have passed : r.base + h % w.count * w.size - r.base = h % w.count * w.size := by omega
    rw [free, passed, cells, cells]
    omega
  · have scaled := Nat.mul_lt_mul_of_pos_right lt sized
    rw [if_pos (by omega)]
    have free : r.base + h % w.count * w.size - (r.base + t % w.count * w.size) =
        (h % w.count - t % w.count) * w.size := by
      rw [Nat.sub_mul]
      omega
    rw [free, cells]
    omega

def outstanding (w : Window) (r : Ring) : List Nat := w.cells r.rp (w.used r.rp r.wp)

theorem outstandingLength {w r h t} (held : Holds w r h t) : (outstanding w r).length = t - h := by
  rw [outstanding, Window.cellsLength, held.rp, held.wp, w.usedSlots held.ordered held.room]

theorem outstandingView {α : Type} {w r h t} (held : Holds w r h t) (mem : Nat → α) :
    (outstanding w r).map mem = w.view mem h t := by
  rw [outstanding, held.rp, held.wp, w.viewCells mem held.ordered held.room]

theorem outstandingAt {w r h t} (held : Holds w r h t) {j : Nat} (inside : j < t - h) :
    (outstanding w r)[j]? = some (w.slot (h + j)) := by
  rw [outstanding, held.rp, held.wp, w.usedSlots held.ordered held.room, Window.cellsSlot]
  simp [inside]

theorem memOutstanding {w r h t} (held : Holds w r h t) {p : Nat} (member : p ∈ outstanding w r) :
    ∃ j, h ≤ j ∧ j < t ∧ p = w.slot j := by
  obtain ⟨i,found⟩ := List.getElem?_of_mem member
  obtain ⟨inside,_⟩ := List.getElem?_eq_some_iff.mp found
  rw [outstandingLength held] at inside
  rw [outstandingAt held inside] at found
  exact ⟨h + i,by omega,by omega,(Option.some.inj found).symm⟩

theorem toVirtualCell {w r} (spans : Over w r) {offset : Nat} (inside : offset < r.len) :
    mhiToVirtual r (r.iommuBase + offset) = r.base + offset := by
  have host := spans.host
  have bus := spans.bus
  have small : r.iommuBase % wordSpan = r.iommuBase := Nat.mod_eq_of_lt (by omega)
  unfold mhiToVirtual
  rw [small]
  have turn : r.iommuBase + offset + (wordSpan - r.iommuBase) + r.base = (r.base + offset) + wordSpan := by
    omega
  rw [turn, Nat.add_mod_right, Nat.mod_eq_of_lt (by omega)]

theorem toVirtualSlot {w r} (spans : Over w r) (k : Nat) :
    mhiToVirtual r (r.iommuBase + (w.slot k - r.base)) = w.slot k := by
  have bound := w.slotBound k
  have above : w.base ≤ w.slot k := (w.slotAligned k).1
  have sized := w.sized
  have limit := spans.limit
  have base := spans.base
  rw [toVirtualCell spans (by omega)]
  omega

end Ring
end MhiHost
