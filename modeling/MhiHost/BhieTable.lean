import MhiHost.Ring
import MhiHost.Wire

/-! Tables of BHIe segments in `boot.c`: what `mhi_alloc_bhie_table` allocates and gives back,
and how `mhi_firmware_copy` spreads an image over the segments. Sizes are `size_t`; the number
of segments is an `int`. -/
namespace MhiHost.BhieTable
open Wire (Bytes)

inductive Part where
  | info | array
  | segment (i : Nat)
  deriving DecidableEq, Repr

structure MhiBuf where
  len : Nat
  dmaAddr : Nat
  mem : Nat → UInt8

structure BhiVecEntry where
  dmaAddr : Nat
  size : Nat
  deriving DecidableEq, Repr

structure ImageInfo where
  mhiBuf : List MhiBuf
  bhiVec : List BhiVecEntry
  entries : Nat

def sizeofBhiVecEntry : Nat := 16

/- Answers of the allocators; `coherent` is asked for a segment and its size. `before` is what
`mhi_buf[-1].buf` points to, which is read where the count of segments comes out as 0. -/
structure TableAnswers where
  kzalloc : Bool
  kcalloc : Bool
  coherent : Nat → Nat → Option (Nat × (Nat → UInt8))
  before : List BhiVecEntry

structure Allocation where
  image : Option ImageInfo
  taken : List Part
  returned : List Part

def divRoundUp (n d : Nat) : Nat := (n+d-1) % wordSpan / d

def segmentsOf (segSize allocSize : Nat) : Int := Int.bmod ((divRoundUp allocSize segSize+1) % wordSpan : Nat) (2 ^ 32)

def allocSegments (coherent : Nat → Nat → Option (Nat × (Nat → UInt8))) (segSize : Nat) : Nat → Nat → List MhiBuf × Bool
  | 0,_ => ([],true)
  | left+1,i =>
    let vecSize := if left = 0 then sizeofBhiVecEntry*i else segSize
    match coherent i vecSize with
    | none => ([],false)
    | some (addr,mem) =>
      let out := allocSegments coherent segSize left (i+1)
      (⟨vecSize,addr,mem⟩ :: out.1,out.2)

def segmentParts (n : Nat) : List Part := (List.range n).map Part.segment

def vectorTable (bufs : List MhiBuf) : List BhiVecEntry :=
  List.replicate ((bufs.getLast?.elim 0 MhiBuf.len) / sizeofBhiVecEntry) ⟨0,0⟩

/- The product in `kcalloc` overflows for a negative count. On a segment that cannot be had
the array of the buffers is not given back. -/
def mhiAllocBhieTable (segLen allocSize : Nat) (a : TableAnswers) : Allocation :=
  let segments := segmentsOf segLen allocSize
  if !a.kzalloc then ⟨none,[],[]⟩
  else if segments < 0 ∨ a.kcalloc = false then ⟨none,[.info],[.info]⟩
  else
    match allocSegments a.coherent segLen segments.toNat 0 with
    | (bufs,true) =>
        ⟨some ⟨bufs,if segments = 0 then a.before else vectorTable bufs,segments.toNat⟩,.info :: .array :: segmentParts bufs.length,[]⟩
    | (bufs,false) =>
        ⟨none,.info :: .array :: segmentParts bufs.length,(segmentParts bufs.length).reverse ++ [.info]⟩

def mhiFreeBhieTable (image : ImageInfo) : List Part := segmentParts image.entries ++ [.array,.info]

def memcpy (mem : Nat → UInt8) (src : Bytes) : Nat → UInt8 := fun i => src[i]?.getD (mem i)

def MhiBuf.bytes (b : MhiBuf) (n : Nat) : Bytes := (List.range n).map b.mem

structure Copied where
  mhiBuf : List MhiBuf
  bhiVec : List BhiVecEntry
  turns : Nat

/- The loop takes what is left of the image. It has no bound of its own: past the last
buffer or the last vector entry it is outside of the table. -/
def mhiFirmwareCopy : List MhiBuf → List BhiVecEntry → Bytes → Option Copied
  | bufs,vec,[] => some ⟨bufs,vec,0⟩
  | b::bufs,_::vec,byte::data =>
    let toCpy := min (byte :: data).length b.len
    match mhiFirmwareCopy bufs vec ((byte :: data).drop toCpy) with
    | none => none
    | some rest =>
        some ⟨{b with mem := memcpy b.mem ((byte :: data).take toCpy)} :: rest.mhiBuf,
          ⟨b.dmaAddr,toCpy⟩ :: rest.bhiVec,rest.turns+1⟩
  | _,_,_ => none

structure Scattered (firmware : Bytes) (image : ImageInfo) (out : Copied) : Prop where
  segments : out.turns < image.mhiBuf.length
  vector : out.turns ≤ image.bhiVec.length
  names : (out.bhiVec.take out.turns).map BhiVecEntry.dmaAddr = (image.mhiBuf.take out.turns).map MhiBuf.dmaAddr
  whole : ((out.bhiVec.zip out.mhiBuf).take out.turns).flatMap (fun entry => entry.2.bytes entry.1.size) = firmware
  sizes : ((out.bhiVec.take out.turns).map BhiVecEntry.size).sum = firmware.length

def Fits (segLen size : Nat) : Prop := size+segLen-1 < wordSpan ∧ (size+segLen-1) / segLen+1 < 2 ^ 32

instance (segLen size : Nat) : Decidable (Fits segLen size) := inferInstanceAs (Decidable (_ ∧ _))

inductive Segments (segSize : Nat) : Nat → Nat → List MhiBuf → Prop where
  | last {i b} (len : b.len = sizeofBhiVecEntry*i) : Segments segSize i 1 [b]
  | data {i n b bufs} (len : b.len = segSize) (rest : Segments segSize (i+1) (n+1) bufs) : Segments segSize i (n+2) (b :: bufs)

theorem allocSegmentsMakes {coherent : Nat → Nat → Option (Nat × (Nat → UInt8))} {segSize left i : Nat} {bufs : List MhiBuf}
    (made : allocSegments coherent segSize (left+1) i = (bufs,true)) : Segments segSize i (left+1) bufs := by
  induction left generalizing i bufs with
  | zero =>
    rw [allocSegments] at made
    dsimp only at made
    split at made
    · cases made
    · cases made
      exact .last rfl
  | succ left ih =>
    rw [allocSegments] at made
    dsimp only at made
    split at made
    · cases made
    · cases rest : allocSegments coherent segSize (left+1) (i+1) with
      | mk later ok =>
        rw [rest] at made
        cases made
        exact .data rfl (ih rest)

theorem Segments.length {segSize i n : Nat} {bufs : List MhiBuf} (made : Segments segSize i n bufs) : bufs.length = n := by
  induction made with
  | last => rfl
  | data _ _ ih => exact congrArg (·+1) ih

theorem Segments.getLast {segSize i n : Nat} {bufs : List MhiBuf} (made : Segments segSize i (n+1) bufs) :
    ∃ b, bufs.getLast? = some b ∧ b.len = sizeofBhiVecEntry*(i+n) := by
  induction n generalizing i bufs with
  | zero =>
    cases made with
    | last len => exact ⟨_,rfl,len⟩
  | succ n ih =>
    cases made with
    | data _ rest =>
      obtain ⟨b,last,len⟩ := ih rest
      refine ⟨b,?_,by rw [len]; congr 1; omega⟩
      rw [List.getLast?_cons,last]
      rfl

theorem memcpyBytes (b : MhiBuf) (src : Bytes) : MhiBuf.bytes {b with mem := memcpy b.mem src} src.length = src := by
  apply List.ext_getElem
  · rw [MhiBuf.bytes,List.length_map,List.length_range]
  · intro i _ inside
    simp [MhiBuf.bytes,memcpy,inside]

structure Filled (bufs : List MhiBuf) (data : Bytes) (out : Copied) : Prop where
  names : (out.bhiVec.take out.turns).map BhiVecEntry.dmaAddr = (bufs.take out.turns).map MhiBuf.dmaAddr
  whole : ((out.bhiVec.zip out.mhiBuf).take out.turns).flatMap (fun entry => entry.2.bytes entry.1.size) = data
  sizes : ((out.bhiVec.take out.turns).map BhiVecEntry.size).sum = data.length

theorem Filled.turn {b : MhiBuf} {bufs : List MhiBuf} {data : Bytes} {n : Nat} {rest : Copied}
    (filled : Filled bufs (data.drop n) rest) (within : n ≤ data.length) :
    Filled (b :: bufs) data ⟨{b with mem := memcpy b.mem (data.take n)} :: rest.mhiBuf,⟨b.dmaAddr,n⟩ :: rest.bhiVec,rest.turns+1⟩ := by
  have first : MhiBuf.bytes {b with mem := memcpy b.mem (data.take n)} n = data.take n := by
    have copied := memcpyBytes b (data.take n)
    rw [List.length_take,Nat.min_eq_left within] at copied
    exact copied
  refine ⟨?_,?_,?_⟩
  · simp only [List.take_succ_cons,List.map_cons,filled.names]
  · rw [List.zip_cons_cons,List.take_succ_cons,List.flatMap_cons,filled.whole,first,List.take_append_drop]
  · have sizes := filled.sizes
    rw [List.length_drop] at sizes
    simp only [List.take_succ_cons,List.map_cons,List.sum_cons,sizes]
    omega

theorem copyFills {segSize i n : Nat} {bufs : List MhiBuf} {vec : List BhiVecEntry} {data : Bytes}
    (made : Segments segSize i (n+1) bufs) (positive : 1 ≤ segSize) (entries : n ≤ vec.length)
    (room : data.length ≤ n*segSize) :
    ∃ out, mhiFirmwareCopy bufs vec data = some out ∧ out.turns ≤ n ∧ Filled bufs data out := by
  induction n generalizing i bufs vec data with
  | zero =>
    have none : data = [] := List.eq_nil_of_length_eq_zero (by omega)
    subst none
    refine ⟨⟨bufs,vec,0⟩,?_,Nat.le_refl _,rfl,rfl,rfl⟩
    unfold mhiFirmwareCopy
    cases bufs <;> rfl
  | succ n ih =>
    cases made with
    | @data _ _ b bufs len rest =>
      cases vec with
      | nil => exact absurd entries (Nat.not_succ_le_zero n)
      | cons v vec =>
        cases data with
        | nil => exact ⟨⟨b :: bufs,v :: vec,0⟩,rfl,Nat.zero_le _,rfl,rfl,rfl⟩
        | cons byte data =>
          subst len
          rw [mhiFirmwareCopy]
          have left : ((byte :: data).drop (min (byte :: data).length b.len)).length ≤ n*b.len := by
            rw [Nat.succ_mul] at room
            rw [List.length_drop]
            omega
          obtain ⟨out,ran,turns,filled⟩ := ih rest (Nat.le_of_succ_le_succ entries) left
          rw [ran]
          exact ⟨_,rfl,Nat.succ_le_succ turns,filled.turn (Nat.min_le_left _ _)⟩

theorem copyTakes {bufs : List MhiBuf} {vec : List BhiVecEntry} {data : Bytes} {out : Copied}
    (ran : mhiFirmwareCopy bufs vec data = some out) : data.length ≤ ((bufs.take out.turns).map MhiBuf.len).sum := by
  induction bufs generalizing vec data out with
  | nil =>
    cases data with
    | nil => exact Nat.zero_le _
    | cons byte data =>
      unfold mhiFirmwareCopy at ran
      cases ran
  | cons b bufs ih =>
    cases data with
    | nil => exact Nat.zero_le _
    | cons byte data =>
      cases vec with
      | nil =>
        unfold mhiFirmwareCopy at ran
        cases ran
      | cons v vec =>
        rw [mhiFirmwareCopy] at ran
        split at ran
        · cases ran
        · rename_i rest later
          cases ran
          have behind := ih later
          rw [List.length_drop] at behind
          simp only [List.take_succ_cons,List.map_cons,List.sum_cons]
          omega

theorem Segments.capacity {segSize i n : Nat} {bufs : List MhiBuf} (made : Segments segSize i (n+1) bufs) {k : Nat}
    (below : k ≤ n) : ((bufs.take k).map MhiBuf.len).sum = k*segSize := by
  induction n generalizing i bufs k with
  | zero =>
    obtain rfl : k = 0 := by omega
    rw [Nat.zero_mul]
    rfl
  | succ n ih =>
    cases made with
    | data len rest =>
      cases k with
      | zero =>
        rw [Nat.zero_mul]
        rfl
      | succ k =>
        rw [List.take_succ_cons,List.map_cons,List.sum_cons,len,ih rest (Nat.le_of_succ_le_succ below),Nat.succ_mul]
        exact Nat.add_comm _ _

theorem allocated {segLen size : Nat} {a : TableAnswers} {image : ImageInfo}
    (ok : (mhiAllocBhieTable segLen size a).image = some image) : 0 ≤ segmentsOf segLen size ∧
      image.entries = (segmentsOf segLen size).toNat ∧
      ((segmentsOf segLen size).toNat = 0 ∧ image.mhiBuf = [] ∨
        ∃ n, (segmentsOf segLen size).toNat = n+1 ∧ Segments segLen 0 (n+1) image.mhiBuf ∧
          image.bhiVec = vectorTable image.mhiBuf) := by
  unfold mhiAllocBhieTable at ok
  dsimp only at ok
  split at ok
  · cases ok
  · split at ok
    · cases ok
    · rename_i whole
      have counted : 0 ≤ segmentsOf segLen size := Int.not_lt.mp fun negative => whole (.inl negative)
      split at ok
      · rename_i bufs made
        dsimp only at ok
        rw [Option.some.injEq] at ok
        subst ok
        dsimp only
        refine ⟨counted,Eq.refl _,?_⟩
        cases count : (segmentsOf segLen size).toNat with
        | zero =>
          rw [count] at made
          cases made
          exact .inl ⟨rfl,rfl⟩
        | succ n =>
          rw [count] at made
          have some : segmentsOf segLen size ≠ 0 := by omega
          exact .inr ⟨n,rfl,allocSegmentsMakes made,if_neg some⟩
      · cases ok

theorem vectorTableLength {segSize n : Nat} {bufs : List MhiBuf} (made : Segments segSize 0 (n+1) bufs) :
    (vectorTable bufs).length = n := by
  obtain ⟨b,last,len⟩ := made.getLast
  rw [vectorTable,List.length_replicate,last]
  show b.len / sizeofBhiVecEntry = n
  rw [len,Nat.zero_add]
  exact Nat.mul_div_cancel_left n (by decide)

theorem intOf {x : Nat} (counted : 0 ≤ Int.bmod x (2 ^ 32)) :
    (Int.bmod x (2 ^ 32)).toNat = x % 2 ^ 32 ∧ x % 2 ^ 32 < 2 ^ 31 := by
  rw [Int.bmod_def] at counted ⊢
  split at counted
  · rename_i small
    rw [if_pos small]
    omega
  · omega

theorem segmentsCount (segSize allocSize : Nat) :
    segmentsOf segSize allocSize = Int.bmod ((divRoundUp allocSize segSize+1) % wordSpan : Nat) (2 ^ 32) := Eq.refl _

theorem segmentsFit {segLen size : Nat} (fits : Fits segLen size) (counted : 0 ≤ segmentsOf segLen size) :
    (segmentsOf segLen size).toNat = (size+segLen-1) / segLen+1 := by
  obtain ⟨round,count⟩ := fits
  have small : (size+segLen-1) / segLen+1 < wordSpan := by
    unfold wordSpan
    omega
  have exact : (divRoundUp size segLen+1) % wordSpan = (size+segLen-1) / segLen+1 := by
    rw [divRoundUp,Nat.mod_eq_of_lt round,Nat.mod_eq_of_lt small]
  rw [segmentsCount,exact] at counted ⊢
  have low := (intOf counted).1
  omega

theorem segmentsShort {segLen size n : Nat} (positive : 1 ≤ segLen) (word : segLen < wordSpan) (sized : size < wordSpan)
    (overflows : ¬Fits segLen size) (counted : 0 ≤ segmentsOf segLen size)
    (count : (segmentsOf segLen size).toNat = n+1) : n*segLen < size := by
  rw [segmentsCount] at counted count
  obtain ⟨low,sign⟩ := intOf counted
  rw [low] at count
  have most : n+1 ≤ divRoundUp size segLen+1 := by
    rw [← count]
    exact (Nat.mod_le _ _).trans (Nat.mod_le _ _)
  have product : divRoundUp size segLen*segLen ≤ (size+segLen-1) % wordSpan := Nat.div_mul_le_self _ _
  have below : n*segLen ≤ divRoundUp size segLen*segLen := Nat.mul_le_mul_right _ (Nat.le_of_succ_le_succ most)
  by_cases round : size+segLen-1 < wordSpan
  · have quotient : divRoundUp size segLen = (size+segLen-1) / segLen := by
      rw [divRoundUp,Nat.mod_eq_of_lt round]
    have many : 2 ^ 32 ≤ (size+segLen-1) / segLen+1 := Nat.not_lt.mp fun few => overflows ⟨round,few⟩
    have fewer : n+1 ≤ divRoundUp size segLen := by
      rw [quotient]
      omega
    have next : (n+1)*segLen ≤ divRoundUp size segLen*segLen := Nat.mul_le_mul_right _ fewer
    rw [Nat.mod_eq_of_lt round] at product
    rw [Nat.succ_mul] at next
    omega
  · have wrapped : (size+segLen-1) % wordSpan = size+segLen-1-wordSpan := by
      rw [Nat.mod_eq_sub_mod (Nat.not_lt.mp round)]
      exact Nat.mod_eq_of_lt (by omega)
    omega

theorem roundedUp {segLen : Nat} (positive : 1 ≤ segLen) (size : Nat) : size ≤ (size+segLen-1) / segLen*segLen := by
  have below := @Nat.lt_div_mul_add (size+segLen-1) segLen positive
  omega

theorem Scattered.within {firmware : Bytes} {image : ImageInfo} {out : Copied} {segLen n : Nat}
    (scattered : Scattered firmware image out) (made : Segments segLen 0 (n+1) image.mhiBuf)
    (ran : mhiFirmwareCopy image.mhiBuf image.bhiVec firmware = some out) : firmware.length ≤ n*segLen := by
  have turns : out.turns ≤ n := by
    have inside := scattered.segments
    rw [made.length] at inside
    exact Nat.le_of_lt_succ inside
  have taken := copyTakes ran
  rw [made.capacity turns] at taken
  exact taken.trans (Nat.mul_le_mul_right _ turns)

theorem scatterLossless {firmware : Bytes} {segLen : Nat} {a : TableAnswers} {image : ImageInfo} (positive : 1 ≤ segLen)
    (word : segLen < wordSpan) (sized : firmware.length < wordSpan)
    (ok : (mhiAllocBhieTable segLen firmware.length a).image = some image) :
    (∃ out, mhiFirmwareCopy image.mhiBuf image.bhiVec firmware = some out ∧ Scattered firmware image out) ↔
      Fits segLen firmware.length := by
  obtain ⟨counted,_,shape⟩ := allocated ok
  constructor
  · rintro ⟨out,ran,scattered⟩
    rcases shape with ⟨_,none⟩ | ⟨n,count,made,_⟩
    · have inside := scattered.segments
      rw [none] at inside
      cases inside
    · refine Classical.byContradiction fun overflows => ?_
      exact absurd (scattered.within made ran) (Nat.not_le.mpr (segmentsShort positive word sized overflows counted count))
  · intro fits
    have exact := segmentsFit fits counted
    rcases shape with ⟨zero,_⟩ | ⟨n,count,made,table⟩
    · rw [zero] at exact
      cases exact
    · have segments : (firmware.length+segLen-1) / segLen = n := by
        rw [exact] at count
        exact Nat.succ.inj count
      have entries : image.bhiVec.length = n := by
        rw [table]
        exact vectorTableLength made
      have room : firmware.length ≤ n*segLen := by
        rw [← segments]
        exact roundedUp positive _
      obtain ⟨out,ran,turns,filled⟩ := copyFills made positive (Nat.le_of_eq entries.symm) room
      refine ⟨out,ran,?_,?_,filled.names,filled.whole,filled.sizes⟩
      · rw [made.length]
        exact Nat.lt_succ_of_le turns
      · rw [entries]
        exact turns

def answered : TableAnswers := ⟨true,true,fun i _ => some (4096*(i+1),fun _ => 0),[]⟩

def threeBytes : Bytes := [7,8,9]

def threeBytesImage : ImageInfo := ⟨[⟨2,4096,fun _ => 0⟩,⟨2,8192,fun _ => 0⟩,⟨32,12288,fun _ => 0⟩],[⟨0,0⟩,⟨0,0⟩],3⟩

theorem scatterLosslessThree : ∃ out, mhiFirmwareCopy threeBytesImage.mhiBuf threeBytesImage.bhiVec threeBytes = some out ∧
    Scattered threeBytes threeBytesImage out :=
  (@scatterLossless threeBytes 2 answered threeBytesImage (by decide) (by decide) (by decide) rfl).mpr (by decide)

def longImage : Bytes := List.replicate (2 ^ 32+1) 0

def longImageTable : ImageInfo := ⟨[⟨1,4096,fun _ => 0⟩,⟨16,8192,fun _ => 0⟩],[⟨0,0⟩],2⟩

theorem longImageUnscattered : (mhiAllocBhieTable 1 longImage.length answered).image = some longImageTable ∧
    ¬∃ out, mhiFirmwareCopy longImageTable.mhiBuf longImageTable.bhiVec longImage = some out ∧
    Scattered longImage longImageTable out := by
  have length : longImage.length = 2 ^ 32+1 := List.length_replicate
  refine ⟨by rw [length]; rfl,?_⟩
  rintro ⟨out,ran,scattered⟩
  have made : Segments 1 0 2 longImageTable.mhiBuf := .data rfl (.last rfl)
  have within := scattered.within made ran
  omega

end MhiHost.BhieTable
