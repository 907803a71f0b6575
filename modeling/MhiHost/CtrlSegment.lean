import MhiHost.Arena
import MhiHost.Config
import Mathlib.Data.List.Forall2

/-! `mhi_alloc_dev_ctxt`: the control segment, which holds the three context arrays and every
ring, measured in one pass over the tables and handed out in a second. Sizes and addresses
are numbers here; `segmentWords` says when the words of the source hold the same. -/
namespace MhiHost.CtrlSegment
open Arena (Placed roundUp roundUpWord)

class TableEntry (α : Type) where
  skip : α → Bool
  ring : α → Ring
  put : α → Ring → α
  ringPut : ∀ e r, ring (put e r) = r
  skipPut : ∀ e r, skip (put e r) = skip e
  putPut : ∀ e r r', put (put e r) r' = put e r'
open TableEntry

structure ChanEntry where
  name : Option String
  offloadCh : Bool
  treRing : Ring
  deriving DecidableEq, Repr

structure EventEntry where
  offloadEv : Bool
  ring : Ring
  deriving DecidableEq, Repr

structure CmdEntry where
  ring : Ring
  deriving DecidableEq, Repr

instance : TableEntry ChanEntry where
  skip e := e.name.isNone || e.offloadCh
  ring e := e.treRing
  put e r := {e with treRing := r}
  ringPut _ _ := rfl
  skipPut _ _ := rfl
  putPut _ _ _ := rfl

instance : TableEntry EventEntry where
  skip e := e.offloadEv
  ring e := e.ring
  put e r := {e with ring := r}
  ringPut _ _ := rfl
  skipPut _ _ := rfl
  putPut _ _ _ := rfl

instance : TableEntry CmdEntry where
  skip _ := false
  ring e := e.ring
  put _ r := ⟨r⟩
  ringPut _ _ := rfl
  skipPut _ _ := rfl
  putPut _ _ _ := rfl

def nrOfCmdRings : Nat := 1
def cmdElPerRing : Nat := 128

def sizeofMhiChanCtxt : Nat := 44
def sizeofMhiEventCtxt : Nat := 44
def sizeofMhiCmdCtxt : Nat := 44

structure Tables where
  chans : List ChanEntry
  events : List EventEntry
  cmds : List CmdEntry
  cmdRings : cmds.length = nrOfCmdRings

structure MhiCtxt where
  chanCtxt : Nat
  erCtxt : Nat
  cmdCtxt : Nat
  chanCtxtAddr : Nat
  erCtxtAddr : Nat
  cmdCtxtAddr : Nat
  ctrlSeg : Nat
  ctrlSegAddr : Nat
  ctrlSegLen : Nat
  deriving DecidableEq, Repr

/- The macro: the offset goes into `iommu_base` for now. -/
def mhiAlignedRing (len : Nat) (r : Ring) : Nat × Ring :=
  let r := {r with elSize := sizeofMhiTre,len := sizeofMhiTre*r.elements}
  let start := roundUp len r.len
  (start+r.len,{r with iommuBase := start})

section loops
variable {α : Type} [TableEntry α]

def layOut : Nat → List α → Nat × List α
  | len,[] => (len,[])
  | len,e::es =>
      if skip e then
        let out := layOut len es
        (out.1,e :: out.2)
      else
        let placed := mhiAlignedRing len (ring e)
        let out := layOut placed.1 es
        (out.1,put e placed.2 :: out.2)

def handOut (ctrlSeg ctrlSegAddr : Nat) (es : List α) : List α :=
  es.map (fun e =>
    if skip e then e
    else put e {ring e with base := ctrlSeg+(ring e).iommuBase,iommuBase := (ring e).iommuBase+ctrlSegAddr})

def rings (es : List α) : List Ring := (es.filter (fun e => !skip e)).map ring

end loops

def setElements (e : CmdEntry) : CmdEntry := ⟨{e.ring with elements := cmdElPerRing}⟩

def ctxtsLen (t : Tables) : Nat :=
  sizeofMhiChanCtxt*t.chans.length+sizeofMhiEventCtxt*t.events.length+sizeofMhiCmdCtxt*nrOfCmdRings

theorem layOutLength {α : Type} [TableEntry α] (len : Nat) (es : List α) : (layOut len es).2.length = es.length := by
  induction es generalizing len with
  | nil => rfl
  | cons e es ih =>
    rw [layOut]
    split <;> exact congrArg (·+1) (ih _)

def measure (t : Tables) : Nat × Tables :=
  let chans := layOut (ctxtsLen t) t.chans
  let events := layOut chans.1 t.events
  let cmds := layOut events.1 (t.cmds.map setElements)
  (cmds.1,⟨chans.2,events.2,cmds.2,(layOutLength _ _).trans ((List.length_map _).trans t.cmdRings)⟩)

/- `kzalloc` says whether the structure is allocated; `dmaAllocCoherent` answers with the
virtual and the bus address. -/
def mhiAllocDevCtxt (kzalloc : Bool) (dmaAllocCoherent : Nat → Option (Nat × Nat)) (t : Tables) : Tables × Option MhiCtxt :=
  if !kzalloc then (t,none)
  else
    let chanCtxtAddr := 0
    let erCtxtAddr := chanCtxtAddr+sizeofMhiChanCtxt*t.chans.length
    let cmdCtxtAddr := erCtxtAddr+sizeofMhiEventCtxt*t.events.length
    let measured := measure t
    match dmaAllocCoherent measured.1 with
    | none => (measured.2,none)
    | some (seg,addr) =>
        (⟨handOut seg addr measured.2.chans,handOut seg addr measured.2.events,handOut seg addr measured.2.cmds,
            (List.length_map _).trans measured.2.cmdRings⟩,
          some ⟨seg+chanCtxtAddr,seg+erCtxtAddr,seg+cmdCtxtAddr,chanCtxtAddr+addr,erCtxtAddr+addr,cmdCtxtAddr+addr,
            seg,addr,measured.1⟩)

def Tables.rings (t : Tables) : List Ring :=
  CtrlSegment.rings t.chans ++ (CtrlSegment.rings t.events ++ CtrlSegment.rings t.cmds)

def Power (r : Ring) : Prop := ∃ k, r.elements = 2 ^ k

structure Measured (r : Ring) : Prop where
  elSize : r.elSize = sizeofMhiTre
  len : r.len = sizeofMhiTre*r.elements
  power : ∃ k, r.len = 2 ^ k
  multiple : r.len ∣ r.iommuBase

def place (r : Ring) : Block := ⟨r.iommuBase,r.len⟩

section loops
variable {α : Type} [TableEntry α] {e : α} {es : List α}

theorem ringsSkip (skipped : skip e = true) : rings (e :: es) = rings es := by
  rw [rings,List.filter_cons_of_neg (by rw [skipped]; exact Bool.false_ne_true)]
  rfl

theorem ringsOwn (own : skip e = false) : rings (e :: es) = ring e :: rings es := by
  rw [rings,List.filter_cons_of_pos (by rw [own]; rfl)]
  rfl

theorem ringsPut (own : skip e = false) (r : Ring) : rings (put e r :: es) = r :: rings es := by
  rw [ringsOwn ((skipPut e r).trans own),ringPut]

theorem alignedRing {r : Ring} (power : Power r) (len : Nat) : Measured (mhiAlignedRing len r).2 ∧
    len ≤ (mhiAlignedRing len r).2.iommuBase := by
  obtain ⟨k,elements⟩ := power
  have size : sizeofMhiTre*r.elements = 2 ^ (4+k) := by
    rw [elements,Nat.pow_add]
    rfl
  exact ⟨⟨rfl,rfl,⟨4+k,size⟩,Arena.roundUpDvd size⟩,Arena.leRoundUp size⟩

theorem layOutPlaced {len : Nat} (powers : ∀ r ∈ rings es, Power r) :
    Placed len ((rings (layOut len es).2).map place) (layOut len es).1 ∧ ∀ r ∈ rings (layOut len es).2, Measured r := by
  induction es generalizing len with
  | nil => exact ⟨.nil (Nat.le_refl _),fun r mem => absurd mem List.not_mem_nil⟩
  | cons e es ih =>
    rw [layOut]
    split
    · rename_i skipped
      rw [ringsSkip skipped] at powers
      dsimp only
      rw [ringsSkip skipped]
      exact ih powers
    · rename_i inside
      have own : skip e = false := Bool.eq_false_iff.mpr inside
      rw [ringsOwn own] at powers
      dsimp only
      rw [ringsPut own]
      obtain ⟨measured,after⟩ := alignedRing (powers _ List.mem_cons_self) len
      obtain ⟨placed,rest⟩ := @ih (mhiAlignedRing len (ring e)).1 (fun r mem => powers r (List.mem_cons_of_mem _ mem))
      refine ⟨.cons after placed,?_⟩
      intro r mem
      rcases List.mem_cons.mp mem with rfl | later
      · exact measured
      · exact rest r later

def handRing (ctrlSeg ctrlSegAddr : Nat) (r : Ring) : Ring :=
  {r with base := ctrlSeg+r.iommuBase,iommuBase := r.iommuBase+ctrlSegAddr}

theorem ringsHandOut (seg addr : Nat) (es : List α) : rings (handOut seg addr es) = (rings es).map (handRing seg addr) := by
  induction es with
  | nil => rfl
  | cons e es ih =>
    have step : handOut seg addr (e :: es) =
        (if skip e then e else put e (handRing seg addr (ring e))) :: handOut seg addr es := rfl
    rw [step]
    split
    · rename_i skipped
      rw [ringsSkip skipped,ringsSkip skipped]
      exact ih
    · rename_i inside
      have own : skip e = false := Bool.eq_false_iff.mpr inside
      rw [ringsPut own,ringsOwn own,List.map_cons,ih]

/- What the two passes do to an entry: nothing, or what the model of the set-up takes as given. -/
def Lays (e e' : α) : Prop := if skip e then e' = e else ∃ base iommuBase, e' = put e (layRing (ring e) base iommuBase)

theorem passesLay (len seg addr : Nat) (es : List α) : List.Forall₂ Lays es (handOut seg addr (layOut len es).2) := by
  induction es generalizing len with
  | nil => exact .nil
  | cons e es ih =>
    rw [layOut]
    split
    · rename_i skipped
      refine .cons ?_ (ih _)
      dsimp only
      rw [Lays,if_pos skipped,if_pos skipped]
    · rename_i inside
      refine .cons ?_ (ih _)
      dsimp only
      rw [Lays,if_neg inside,skipPut,if_neg inside,putPut,ringPut]
      exact ⟨_,_,rfl⟩

end loops

structure Tables.Powers (t : Tables) : Prop where
  chans : ∀ r ∈ CtrlSegment.rings t.chans, Power r
  events : ∀ r ∈ CtrlSegment.rings t.events, Power r

theorem cmdPowers (es : List CmdEntry) : ∀ r ∈ rings (es.map setElements), Power r := by
  intro r mem
  obtain ⟨e,inside,rfl⟩ := List.mem_map.mp mem
  obtain ⟨own,_,rfl⟩ := List.mem_map.mp (List.mem_of_mem_filter inside)
  exact ⟨7,rfl⟩

theorem measurePlaced {t : Tables} (powers : t.Powers) :
    Placed (ctxtsLen t) ((measure t).2.rings.map place) (measure t).1 ∧ ∀ r ∈ (measure t).2.rings, Measured r := by
  obtain ⟨chans,chanRings⟩ := layOutPlaced powers.chans
  obtain ⟨events,eventRings⟩ := layOutPlaced powers.events
  obtain ⟨cmds,cmdRings⟩ := layOutPlaced (cmdPowers t.cmds)
  constructor
  · rw [Tables.rings,List.map_append,List.map_append]
    exact chans.append (events.append cmds)
  · intro r mem
    rcases List.mem_append.mp mem with inside | mem
    · exact chanRings r inside
    · rcases List.mem_append.mp mem with inside | inside
      · exact eventRings r inside
      · exact cmdRings r inside

def regions (c : MhiCtxt) (t : Tables) : List Block :=
  [⟨c.chanCtxt,sizeofMhiChanCtxt*t.chans.length⟩,⟨c.erCtxt,sizeofMhiEventCtxt*t.events.length⟩,
    ⟨c.cmdCtxt,sizeofMhiCmdCtxt*nrOfCmdRings⟩] ++ t.rings.map (fun r => ⟨r.base,r.len⟩)

def Aligned (dmaAllocCoherent : Nat → Option (Nat × Nat)) : Prop :=
  ∀ size seg addr, dmaAllocCoherent size = some (seg,addr) → ∃ k, size ≤ 2 ^ k ∧ 2 ^ k ∣ addr

theorem allocated {kzalloc : Bool} {dma : Nat → Option (Nat × Nat)} {t t' : Tables} {c : MhiCtxt}
    (ran : mhiAllocDevCtxt kzalloc dma t = (t',some c)) : dma (measure t).1 = some (c.ctrlSeg,c.ctrlSegAddr) ∧
      c.ctrlSegLen = (measure t).1 ∧ t'.rings = (measure t).2.rings.map (handRing c.ctrlSeg c.ctrlSegAddr) ∧
      regions c t' = (([⟨0,sizeofMhiChanCtxt*t.chans.length⟩,
        ⟨sizeofMhiChanCtxt*t.chans.length,sizeofMhiEventCtxt*t.events.length⟩,
        ⟨sizeofMhiChanCtxt*t.chans.length+sizeofMhiEventCtxt*t.events.length,sizeofMhiCmdCtxt*nrOfCmdRings⟩] : List Block) ++
        (measure t).2.rings.map place).map (Block.shift c.ctrlSeg) := by
  unfold mhiAllocDevCtxt at ran
  split at ran
  · cases ran
  · dsimp only at ran
    split at ran
    · cases ran
    · rename_i seg addr answered
      cases ran
      have rings : ∀ (a : List ChanEntry) (b : List EventEntry) (d : List CmdEntry) (count count'),
          Tables.rings ⟨handOut seg addr a,handOut seg addr b,handOut seg addr d,count⟩ =
            (Tables.rings ⟨a,b,d,count'⟩).map (handRing seg addr) := by
        intro a b d _ _
        simp only [Tables.rings,ringsHandOut,List.map_append]
      have whole := rings (measure t).2.chans (measure t).2.events (measure t).2.cmds
        ((List.length_map _).trans (measure t).2.cmdRings) (measure t).2.cmdRings
      refine ⟨answered,rfl,whole,?_⟩
      have lengths : (handOut seg addr (measure t).2.chans).length = t.chans.length ∧
          (handOut seg addr (measure t).2.events).length = t.events.length :=
        ⟨(List.length_map _).trans (layOutLength _ _),(List.length_map _).trans (layOutLength _ _)⟩
      rw [regions,whole,List.map_append,List.map_map,List.map_map]
      dsimp only
      rw [lengths.1,lengths.2,Nat.zero_add]
      rfl

theorem allocLays {kzalloc : Bool} {dma : Nat → Option (Nat × Nat)} {t t' : Tables} {c : MhiCtxt}
    (ran : mhiAllocDevCtxt kzalloc dma t = (t',some c)) : List.Forall₂ Lays t.chans t'.chans ∧
      List.Forall₂ Lays t.events t'.events ∧ List.Forall₂ Lays (t.cmds.map setElements) t'.cmds := by
  unfold mhiAllocDevCtxt at ran
  split at ran
  · cases ran
  · dsimp only at ran
    split at ran
    · cases ran
    · cases ran
      exact ⟨passesLay _ _ _ _,passesLay _ _ _ _,passesLay _ _ _ _⟩

namespace Sample

def ring (elements : Nat) : Ring := ⟨0,0,0,0,0,0,0,elements,0⟩
def tables : Tables :=
  ⟨[⟨some "LOOPBACK",false,ring 4⟩,⟨none,false,ring 0⟩,⟨some "DUN",true,ring 3⟩,⟨some "MBIM",false,ring 32⟩],
    [⟨false,ring 8⟩,⟨true,ring 5⟩],[⟨ring 0⟩],rfl⟩

def coherent (size : Nat) : Option (Nat × Nat) := if size ≤ 0x10000 then some (0x7000,0x20000) else none

theorem powers : tables.Powers := by
  refine ⟨?_,?_⟩
  · intro r mem
    rcases List.mem_cons.mp mem with rfl | mem
    · exact ⟨2,rfl⟩
    · exact List.mem_singleton.mp mem ▸ ⟨5,rfl⟩
  · intro r mem
    exact List.mem_singleton.mp mem ▸ ⟨3,rfl⟩

end Sample

theorem ringsOver {kzalloc : Bool} {dmaAllocCoherent : Nat → Option (Nat × Nat)} {t t' : Tables} {c : MhiCtxt}
    (ran : mhiAllocDevCtxt kzalloc dmaAllocCoherent t = (t',some c)) (powers : t.Powers) (nonNull : 0 < c.ctrlSeg)
    (host : c.ctrlSeg+c.ctrlSegLen < wordSpan) (bus : c.ctrlSegAddr+c.ctrlSegLen ≤ wordSpan) :
    ∀ r ∈ t'.rings, ∃ counted, r.Over (treWindow r.base r.elements counted) := by
  intro r mem
  obtain ⟨_,size,handed,_⟩ := allocated ran
  obtain ⟨placed,measured⟩ := measurePlaced powers
  rw [handed] at mem
  obtain ⟨r,inside,rfl⟩ := List.mem_map.mp mem
  obtain ⟨elSize,len,⟨k,power⟩,_⟩ := measured r inside
  have within : r.iommuBase+r.len ≤ (measure t).1 := (placed.inside (List.mem_map_of_mem inside)).2
  have counted : 0 < r.elements := by
    rcases Nat.eq_zero_or_pos r.elements with zero | positive
    · rw [zero,Nat.mul_zero] at len
      exact absurd (power.symm.trans len) (Nat.ne_of_gt (Nat.two_pow_pos k))
    · exact positive
  refine ⟨counted,rfl,elSize,rfl,len,Nat.lt_of_lt_of_le nonNull (Nat.le_add_right _ _),?_,?_⟩
  · show c.ctrlSeg+r.iommuBase+r.len < wordSpan
    omega
  · show r.iommuBase+c.ctrlSegAddr+r.len ≤ wordSpan
    omega

section words
variable {α : Type} [TableEntry α]

def layWords (len : BitVec 64) : List α → BitVec 64 × List (BitVec 64)
  | [] => (len,[])
  | e::es =>
      if skip e then layWords len es
      else
        let size := BitVec.ofNat 64 sizeofMhiTre*BitVec.ofNat 64 (ring e).elements
        let start := roundUpWord len size
        let out := layWords (start+size) es
        (out.1,start :: out.2)

def inWords (out : Nat × List α) : BitVec 64 × List (BitVec 64) :=
  (BitVec.ofNat 64 out.1,(rings out.2).map (fun r => BitVec.ofNat 64 r.iommuBase))

theorem layWordsAgree {len : Nat} {es : List α} (powers : ∀ r ∈ rings es, Power r) (fits : (layOut len es).1 < wordSpan) :
    layWords (BitVec.ofNat 64 len) es = inWords (layOut len es) := by
  induction es generalizing len with
  | nil => rfl
  | cons e es ih =>
    rw [layOut] at fits ⊢
    rw [layWords]
    split
    · rename_i skipped
      rw [if_pos skipped] at fits
      rw [ringsSkip skipped] at powers
      dsimp only [inWords]
      rw [ringsSkip skipped]
      exact ih powers fits
    · rename_i inside
      have own : skip e = false := Bool.eq_false_iff.mpr inside
      rw [if_neg inside] at fits
      rw [ringsOwn own] at powers
      obtain ⟨measured,after⟩ := alignedRing (powers _ List.mem_cons_self) len
      have later : ∀ r ∈ rings es, Power r := fun r mem => powers r (List.mem_cons_of_mem _ mem)
      have ends := (@layOutPlaced _ _ _ (mhiAlignedRing len (ring e)).1 later).1.le
      have rest := ih later fits
      have positive : 0 < sizeofMhiTre*(ring e).elements := by
        obtain ⟨k,power⟩ := measured.power
        exact Nat.lt_of_lt_of_eq (Nat.two_pow_pos k) power.symm
      have bound : len+(sizeofMhiTre*(ring e).elements-1) < 2 ^ 64 := by
        have total : (mhiAlignedRing len (ring e)).1 =
            (mhiAlignedRing len (ring e)).2.iommuBase+sizeofMhiTre*(ring e).elements := rfl
        have span : wordSpan = 2 ^ 64 := rfl
        dsimp only at fits
        omega
      have start := Arena.roundUpWordAgrees positive bound
      have next : BitVec.ofNat 64 (mhiAlignedRing len (ring e)).1 =
          BitVec.ofNat 64 (roundUp len (sizeofMhiTre*(ring e).elements))+BitVec.ofNat 64 (sizeofMhiTre*(ring e).elements) :=
        BitVec.ofNat_add _ _
      dsimp only [inWords] at rest ⊢
      rw [← BitVec.ofNat_mul,start,← next,rest,ringsPut own]
      rfl

end words

def ctxtsWord (t : Tables) : BitVec 64 :=
  BitVec.ofNat 64 sizeofMhiChanCtxt*BitVec.ofNat 64 t.chans.length+
    BitVec.ofNat 64 sizeofMhiEventCtxt*BitVec.ofNat 64 t.events.length+
    BitVec.ofNat 64 sizeofMhiCmdCtxt*BitVec.ofNat 64 nrOfCmdRings

/- The length of the segment, and the offsets of the rings, as the source computes them. -/
def measureWords (t : Tables) : BitVec 64 × List (BitVec 64) :=
  let chans := layWords (ctxtsWord t) t.chans
  let events := layWords chans.1 t.events
  let cmds := layWords events.1 (t.cmds.map setElements)
  (cmds.1,chans.2 ++ (events.2 ++ cmds.2))

theorem segmentWords {t : Tables} (powers : t.Powers) (fits : (measure t).1 < wordSpan) :
    measureWords t = (BitVec.ofNat 64 (measure t).1,(measure t).2.rings.map (fun r => BitVec.ofNat 64 r.iommuBase)) := by
  have cmdsEnd := (@layOutPlaced _ _ _ (layOut (layOut (ctxtsLen t) t.chans).1 t.events).1 (cmdPowers t.cmds)).1.le
  have eventsEnd := (@layOutPlaced _ _ _ (layOut (ctxtsLen t) t.chans).1 powers.events).1.le
  have below : (layOut (layOut (ctxtsLen t) t.chans).1 t.events).1 < wordSpan := Nat.lt_of_le_of_lt cmdsEnd fits
  have chans := layWordsAgree powers.chans (Nat.lt_of_le_of_lt eventsEnd below)
  have events := layWordsAgree powers.events below
  have cmds := layWordsAgree (cmdPowers t.cmds) fits
  have first : ctxtsWord t = BitVec.ofNat 64 (ctxtsLen t) := by
    simp only [ctxtsWord,ctxtsLen,BitVec.ofNat_add,BitVec.ofNat_mul]
  unfold measureWords
  dsimp only
  rw [first,chans]
  dsimp only [inWords]
  rw [events]
  dsimp only [inWords]
  rw [cmds]
  dsimp only [inWords]
  rw [Tables.rings,List.map_append,List.map_append]
  rfl

end MhiHost.CtrlSegment
