import MhiHost.Wire
import Mathlib.Algebra.GroupWithZero.Nat

/-! Memory by address that one party stores byte strings into and another loads from. -/
namespace MhiHost.SharedMemory
open Wire (Bytes)

abbrev Mem := Nat → UInt8

def store (mem : Mem) (a : Nat) (bs : Bytes) : Mem := fun p => if a ≤ p then bs.getD (p-a) (mem p) else mem p
def load (mem : Mem) (a n : Nat) : Bytes := (List.range n).map fun i => mem (a+i)

def Apart (a n b m : Nat) : Prop := a+n ≤ b ∨ b+m ≤ a
instance (a n b m : Nat) : Decidable (Apart a n b m) := inferInstanceAs (Decidable (_ ∨ _))

section Load
variable {mem : Mem} {a b n : Nat} {bs : Bytes}

@[simp] theorem loadLength : (load mem a n).length = n := by simp [load]

theorem loadAppend (mem : Mem) (a n m : Nat) : load mem a (n+m) = load mem a n ++ load mem (a+n) m := by
  simp [load,List.range_add,Nat.add_assoc]

theorem loadStored (mem : Mem) (a : Nat) (bs : Bytes) : load (store mem a bs) a bs.length = bs := by
  apply List.ext_getElem
  · simp
  · intro i _ inside
    simp [load,store,inside]

theorem loadApart (apart : Apart a n b bs.length) : load (store mem b bs) a n = load mem a n := by
  apply List.map_congr_left
  intro i inside
  rw [List.mem_range] at inside
  unfold store
  split
  · have beyond : bs.length ≤ a+i-b := by
      rcases apart with low | high <;> omega
    simp [beyond]
  · rfl

end Load

section Store
variable {mem other : Mem} {a b n k x : Nat} {bs : Bytes}

theorem storeSame (inside : k < bs.length) : store mem a bs (a+k) = store other b bs (b+k) := by simp [store,inside]

theorem storeOutside (out : ¬(a ≤ x ∧ x < a+bs.length)) : store mem a bs x = mem x := by
  unfold store
  split
  · have beyond : bs.length ≤ x-a := by omega
    simp [beyond]
  · rfl

theorem storeLoaded (inside : k < n) : store mem a (load other b n) (a+k) = other (b+k) := by simp [store,load,inside]

theorem loadSame (same : ∀ k < n, mem (a+k) = other (b+k)) : load mem a n = load other b n := by
  apply List.map_congr_left
  intro k inside
  exact same k (List.mem_range.mp inside)

end Store

def Holds (mem : Mem) (a : Nat) (bs : Bytes) : Prop := load mem a bs.length = bs

section Holds
variable {mem : Mem} {a b : Nat} {bs cs : Bytes}

theorem holdsStored (mem : Mem) (a : Nat) (bs : Bytes) : Holds (store mem a bs) a bs := loadStored mem a bs

theorem Holds.apart (holds : Holds mem a bs) (apart : Apart a bs.length b cs.length) : Holds (store mem b cs) a bs := by
  rw [Holds,loadApart apart]
  exact holds

theorem holdsAppend : Holds mem a (bs ++ cs) ↔ Holds mem a bs ∧ Holds mem (a+bs.length) cs := by
  unfold Holds
  rw [List.length_append,loadAppend]
  constructor
  · intro both
    exact List.append_inj both loadLength
  · rintro ⟨first,second⟩
    rw [first,second]

end Holds

/- A table of pointers and sizes, eight bytes each, least significant byte first. -/
def entry (addr size : Nat) : Bytes := Wire.le 8 addr ++ Wire.le 8 size
def entryAt (mem : Mem) (p : Nat) : Nat × Nat := (Wire.readLe (load mem p 8),Wire.readLe (load mem (p+8) 8))
def entries (mem : Mem) (table n : Nat) : List (Nat × Nat) := (List.range n).map fun i => entryAt mem (table+16*i)

def gather (mem : Mem) (table n : Nat) : Bytes := (entries mem table n).flatMap fun e => load mem e.1 e.2

theorem entryLength (addr size : Nat) : (entry addr size).length = 16 := by simp [entry,Wire.leLength]

theorem entryRead {mem : Mem} {p addr size : Nat} (holds : Holds mem p (entry addr size)) (low : addr < 256^8)
    (short : size < 256^8) :
    entryAt mem p = (addr,size) := by
  obtain ⟨first,second⟩ := holdsAppend.mp holds
  simp only [Holds,Wire.leLength] at first second
  rw [entryAt,first,second,Wire.readLeBack,Wire.readLeBack,Nat.mod_eq_of_lt low,Nat.mod_eq_of_lt short]

def Spread (mem : Mem) (table : Nat) (pieces : List (Nat × Bytes)) : Prop :=
  ∀ i piece, pieces[i]? = some piece → Holds mem (table+16*i) (entry piece.1 piece.2.length) ∧ Holds mem piece.1 piece.2 ∧
    piece.1 < 256^8 ∧ piece.2.length < 256^8

theorem gatherSpread {mem : Mem} {table : Nat} {pieces : List (Nat × Bytes)} (spread : Spread mem table pieces) :
    gather mem table pieces.length = pieces.flatMap Prod.snd := by
  have named : entries mem table pieces.length = pieces.map fun piece => (piece.1,piece.2.length) := by
    apply List.ext_getElem
    · simp [entries]
    · intro i _ inside
      simp only [List.length_map] at inside
      obtain ⟨holds,-,low,short⟩ := spread i pieces[i] (List.getElem?_eq_getElem inside)
      simpa [entries] using entryRead holds low short
  rw [gather,named,List.flatMap_map]
  rw [List.flatMap_def,List.flatMap_def]
  refine congrArg List.flatten (List.map_congr_left fun piece inside => ?_)
  obtain ⟨i,found⟩ := List.getElem?_of_mem inside
  exact (spread i piece found).2.1

def writeTable : Mem → Nat → List (Nat × Nat) → Mem
  | mem,_,[] => mem
  | mem,table,s::segs => writeTable (store mem table (entry s.1 s.2)) (table+16) segs

def scatter : Mem → List (Nat × Nat) → Bytes → Mem
  | mem,[],_ => mem
  | mem,s::segs,bs => scatter (store mem s.1 (bs.take s.2)) segs (bs.drop s.2)

section Table
variable {mem : Mem} {table a n : Nat} {segs : List (Nat × Nat)} {bs : Bytes}

theorem entriesCons (mem : Mem) (table n : Nat) : entries mem table (n+1) = entryAt mem table :: entries mem (table+16) n := by
  simp [entries,List.range_succ_eq_map,Nat.mul_add,Nat.add_assoc,Nat.add_comm,Function.comp_def]

theorem entriesSame {other : Mem} (same : load other table (16*n) = load mem table (16*n)) :
    entries other table n = entries mem table n := by
  induction n generalizing table with
  | zero => rfl
  | succ n ih =>
    have size : 16*(n+1) = 16+16*n := by omega
    rw [size,loadAppend,loadAppend] at same
    obtain ⟨first,later⟩ := List.append_inj same (by simp)
    have halves : (16 : Nat) = 8+8 := rfl
    rw [halves,loadAppend,loadAppend] at first
    obtain ⟨addr,long⟩ := List.append_inj first (by simp)
    rw [entriesCons,entriesCons,ih later,entryAt,addr,long]
    rfl

theorem tableFrame (apart : Apart a n table (16*segs.length)) : load (writeTable mem table segs) a n = load mem a n := by
  induction segs generalizing mem table with
  | nil => rfl
  | cons s segs ih =>
    rw [List.length_cons] at apart
    unfold writeTable
    rw [ih (by unfold Apart at apart ⊢; omega),loadApart]
    rw [entryLength]
    unfold Apart at apart ⊢
    omega

theorem entriesWritten (words : ∀ s ∈ segs, s.1 < 256^8 ∧ s.2 < 256^8) :
    entries (writeTable mem table segs) table segs.length = segs := by
  induction segs generalizing mem table with
  | nil => rfl
  | cons s segs ih =>
    obtain ⟨⟨low,short⟩,later⟩ := List.forall_mem_cons.mp words
    have kept : Holds (writeTable mem table (s::segs)) table (entry s.1 s.2) := by
      have stored := holdsStored mem table (entry s.1 s.2)
      unfold Holds at stored ⊢
      rw [writeTable,tableFrame,stored]
      rw [entryLength]
      exact .inl (Nat.le_refl _)
    rw [List.length_cons,entriesCons,entryRead kept low short]
    exact congrArg _ (ih later)

theorem scatterFrame (apart : ∀ s ∈ segs, Apart a n s.1 s.2) : load (scatter mem segs bs) a n = load mem a n := by
  induction segs generalizing mem bs with
  | nil => rfl
  | cons s segs ih =>
    obtain ⟨here,later⟩ := List.forall_mem_cons.mp apart
    unfold scatter
    rw [ih later,loadApart]
    have fits : (bs.take s.2).length ≤ s.2 := List.length_take_le _ _
    unfold Apart at here ⊢
    omega

theorem scattered (beside : segs.Pairwise fun s t => Apart s.1 s.2 t.1 t.2) (room : bs.length ≤ (segs.map Prod.snd).sum) :
    bs <+: segs.flatMap fun s => load (scatter mem segs bs) s.1 s.2 := by
  induction segs generalizing mem bs with
  | nil =>
    cases List.length_eq_zero_iff.mp (Nat.le_zero.mp room)
    exact List.nil_prefix
  | cons s segs ih =>
    obtain ⟨here,later⟩ := List.pairwise_cons.mp beside
    have first : load (scatter mem (s::segs) bs) s.1 s.2 = load (store mem s.1 (bs.take s.2)) s.1 s.2 := scatterFrame here
    rw [List.flatMap_cons,first]
    rcases Nat.le_total bs.length s.2 with short | long
    · rw [List.take_of_length_le short]
      obtain ⟨rest,size⟩ := Nat.exists_eq_add_of_le short
      rw [size,loadAppend,loadStored,List.append_assoc]
      exact List.prefix_append _ _
    · have full : load (store mem s.1 (bs.take s.2)) s.1 s.2 = bs.take s.2 := by
        have stored := loadStored mem s.1 (bs.take s.2)
        rw [List.length_take,Nat.min_eq_left long] at stored
        exact stored
      rw [full]
      conv => lhs; rw [← List.take_append_drop s.2 bs]
      refine (List.prefix_append_right_inj _).mpr (ih later ?_)
      rw [List.map_cons,List.sum_cons] at room
      rw [List.length_drop]
      omega

end Table

end MhiHost.SharedMemory
