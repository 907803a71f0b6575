import MhiHost.Mbim
import Mathlib.Data.Fintype.Pigeonhole

/-! The two receivers of MBIM blocks, each written out from its own file. Nothing keeps the
table of an NDP inside the received data, so a block comes with the memory behind it; both
receivers read the same memory. -/
namespace MhiHost.MbimDecoders
open Mbim
open Wire (Bytes)

structure Rcvd where
  len : Nat
  mem : Nat → UInt8
  bigEndian : Bool

namespace Rcvd
variable (r : Rcvd)

def u16 (o : Nat) : Nat := (r.mem o).toNat+256 * (r.mem (o+1)).toNat
def u32 (o : Nat) : Nat := r.u16 o+65536 * r.u16 (o+2)

/- Neither receiver converts `wNdpIndex`. -/
def native16 (o : Nat) : Nat :=
  if r.bigEndian then 256 * (r.mem o).toNat+(r.mem (o+1)).toNat else r.u16 o

def bytes (o n : Nat) : Bytes := (List.range n).map fun i => r.mem (o+i)

theorem u16Small (o : Nat) : r.u16 o < 65536 := by
  have low := (r.mem o).toNat_lt
  have high := (r.mem (o+1)).toNat_lt
  unfold u16
  omega

theorem native16Small (o : Nat) : r.native16 o < 65536 := by
  have low := (r.mem o).toNat_lt
  have high := (r.mem (o+1)).toNat_lt
  have converted := r.u16Small o
  unfold native16
  split <;> omega

end Rcvd

namespace MhiNetMbim
section Receive
variable (alloc : Nat → Bool) (rxMax : Nat) (r : Rcvd)

def datagrams : Nat → Nat → List Packet × Bool
  | 0,_ => ([],false)
  | n+1,dpe16 =>
    let offset := r.u16 dpe16
    let skbLen := r.u16 (dpe16+2)
    if offset = 0 ∨ skbLen = 0 then ([],false)
    else if r.len < offset+skbLen ∨ rxMax < skbLen then ([],true)
    else if !alloc skbLen then ([],true)
    else match datagramProtocol (r.mem offset) with
      | none => ([],true)
      | some protocol =>
        let rest := datagrams n (dpe16+sizeofDpe16)
        (⟨protocol,[],none,r.bytes offset skbLen⟩ :: rest.1,rest.2)

def tci (ndp16 : Nat) : Option Nat :=
  let sign := r.u32 ndp16 &&& 0x00ffffff
  if sign = usbCdcMbimNdp16IpsSign then some (r.mem (ndp16+3)).toNat
  else if sign = usbCdcMbimNdp16DssSign then some ((r.mem (ndp16+3)).toNat+256)
  else none

def ndp (ndp16 : Nat) : List Packet × Bool :=
  if r.len < ndp16+sizeofNdp16 then ([],true)
  else
    let wLength := r.u16 (ndp16+4)
    if wLength < 0x10 then ([],true)
    else
      let nframes := (wLength-sizeofNdp16) / sizeofDpe16
      if r.len < sizeofNdp16+nframes * sizeofDpe16 then ([],true)
      else match tci r ndp16 with
        | none => ([],true)
        | some session =>
          if session ≠ 0 then ([],true)
          else datagrams alloc rxMax r nframes (ndp16+sizeofNdp16)

/- `none` is a loop that is still running when the fuel is gone. -/
def ndps : Nat → Nat → Option (List Packet)
  | 0,ndpoffset => if ndpoffset = 0 then some [] else none
  | fuel+1,ndpoffset =>
    if ndpoffset = 0 then some []
    else
      let one := ndp alloc rxMax r ndpoffset
      if one.2 then some one.1
      else (ndps fuel (r.u16 (ndpoffset+6))).map (one.1 ++ ·)

def cdcMbimRxFixup (rxSeq : UInt16) (fuel : Nat) : Option (UInt16 × List Packet) :=
  if r.len < sizeofNth16+sizeofNdp16 then some (rxSeq,[])
  else if r.u32 0 ≠ usbCdcNcmNth16Sign then some (rxSeq,[])
  else if rxMax < r.u16 8 then some (rxSeq,[])
  else (ndps alloc rxMax r fuel (r.native16 10)).map (UInt16.ofNat (r.u16 6)+1,·)

end Receive
end MhiNetMbim

namespace CdcMbim
section Receive
variable (alloc : Nat → Bool) (devAddr : Bytes) (rxMax : Nat) (r : Rcvd)

def datagrams (tci : Nat) : Nat → Nat → List Packet × Bool
  | 0,_ => ([],false)
  | n+1,dpe16 =>
    let offset := r.u16 dpe16
    let skbLen := r.u16 (dpe16+2)
    if offset = 0 ∨ skbLen = 0 then ([],false)
    else if r.len < offset+skbLen ∨ rxMax < skbLen then ([],true)
    else if !alloc (skbLen+ethHlen) then ([],true)
    else match datagramProtocol (r.mem offset) with
      | none => ([],true)
      | some protocol =>
        let rest := datagrams tci n (dpe16+sizeofDpe16)
        (⟨protocol,ethHeader devAddr protocol,if tci ≠ 0 then some tci else none,r.bytes offset skbLen⟩ :: rest.1,rest.2)

def tci (ndp16 : Nat) : Option Nat :=
  let sign := r.u32 ndp16 &&& 0x00ffffff
  if sign = usbCdcMbimNdp16IpsSign then some (r.mem (ndp16+3)).toNat
  else if sign = usbCdcMbimNdp16DssSign then some ((r.mem (ndp16+3)).toNat+256)
  else none

def ndp (ndp16 : Nat) : List Packet × Bool :=
  if r.len < ndp16+sizeofNdp16 then ([],true)
  else
    let wLength := r.u16 (ndp16+4)
    if wLength < 0x10 then ([],true)
    else
      let nframes := (wLength-sizeofNdp16) / sizeofDpe16
      if r.len < sizeofNdp16+nframes * sizeofDpe16 then ([],true)
      else match tci r ndp16 with
        | none => ([],true)
        | some session => datagrams alloc devAddr rxMax r session nframes (ndp16+sizeofNdp16)

def ndps : Nat → Nat → Option (List Packet)
  | 0,ndpoffset => if ndpoffset = 0 then some [] else none
  | fuel+1,ndpoffset =>
    if ndpoffset = 0 then some []
    else
      let one := ndp alloc devAddr rxMax r ndpoffset
      if one.2 then some one.1
      else (ndps fuel (r.u16 (ndpoffset+6))).map (one.1 ++ ·)

def cdcMbimRxFixup (rxSeq : UInt16) (fuel : Nat) : Option (Nat × UInt16 × List Packet) :=
  if r.len < sizeofNth16+sizeofNdp16 then some (1,rxSeq,[])
  else if r.u32 0 ≠ usbCdcNcmNth16Sign then some (0,rxSeq,[])
  else if rxMax < r.u16 8 then some (0,rxSeq,[])
  else (ndps alloc devAddr rxMax r fuel (r.native16 10)).map (0,UInt16.ofNat (r.u16 6)+1,·)

end Receive
end CdcMbim

def pairs (chain : List Packet) : List (Bytes × Nat) := chain.map fun p => (p.payload,p.protocol)

def accepted (rxMax : Nat) (r : Rcvd) : Bool :=
  decide (sizeofNth16+sizeofNdp16 ≤ r.len) && decide (r.u32 0 = usbCdcNcmNth16Sign) && decide (r.u16 8 ≤ rxMax)

section Walk
variable (alloc : Nat → Bool) (devAddr : Bytes) (rxMax : Nat) (r : Rcvd)

def visit (ndpoffset : Nat) : Option Nat := if ndpoffset = 0 then none else some ndpoffset

/- The chain: the NDP at which `net/mhi/cdc_mbim.c` stands after so many turns of its loop. -/
def walk : Nat → Option Nat
  | 0 => if accepted rxMax r then visit (r.native16 10) else none
  | n+1 => (walk n).bind fun o =>
    if (CdcMbim.ndp alloc devAddr rxMax r o).2 then none else visit (r.u16 (o+6))

end Walk

def SessionZero (r : Rcvd) (ndp16 : Nat) : Prop :=
  ndp16+sizeofNdp16 ≤ r.len →
  (r.u32 ndp16 &&& 0x00ffffff = usbCdcMbimNdp16IpsSign ∨ r.u32 ndp16 &&& 0x00ffffff = usbCdcMbimNdp16DssSign) →
  r.u32 ndp16 &&& 0x00ffffff = usbCdcMbimNdp16IpsSign ∧ r.mem (ndp16+3) = 0

section Agreement
variable {alloc : Nat → Bool} {devAddr : Bytes} {rxMax : Nat} {r : Rcvd}

theorem datagramsAgree (granted : ∀ n, alloc n = true) (tci n dpe16 : Nat) :
    pairs (MhiNetMbim.datagrams alloc rxMax r n dpe16).1 = pairs (CdcMbim.datagrams alloc devAddr rxMax r tci n dpe16).1 ∧
    (MhiNetMbim.datagrams alloc rxMax r n dpe16).2 = (CdcMbim.datagrams alloc devAddr rxMax r tci n dpe16).2 := by
  induction n generalizing dpe16 with
  | zero => exact ⟨rfl,rfl⟩
  | succ n ih =>
    obtain ⟨front,flag⟩ := ih (dpe16+sizeofDpe16)
    rw [MhiNetMbim.datagrams,CdcMbim.datagrams]
    dsimp only
    by_cases last : r.u16 dpe16 = 0 ∨ r.u16 (dpe16+2) = 0
    · rw [if_pos last,if_pos last]
      exact ⟨rfl,rfl⟩
    · rw [if_neg last,if_neg last]
      by_cases outside : r.len < r.u16 dpe16+r.u16 (dpe16+2) ∨ rxMax < r.u16 (dpe16+2)
      · rw [if_pos outside,if_pos outside]
        exact ⟨rfl,rfl⟩
      · rw [if_neg outside,if_neg outside,granted,granted]
        cases datagramProtocol (r.mem (r.u16 dpe16)) with
        | none => exact ⟨rfl,rfl⟩
        | some protocol => exact ⟨congrArg (List.cons _) front,flag⟩

theorem tciZero {o : Nat} (inside : o+sizeofNdp16 ≤ r.len) (zero : SessionZero r o) :
    MhiNetMbim.tci r o = CdcMbim.tci r o ∧ ∀ session, CdcMbim.tci r o = some session → session = 0 := by
  refine ⟨rfl,fun session read => ?_⟩
  unfold CdcMbim.tci at read
  by_cases ips : r.u32 o &&& 0x00ffffff = usbCdcMbimNdp16IpsSign
  · rw [if_pos ips,(zero inside (.inl ips)).2] at read
    exact (Option.some.inj read).symm
  · by_cases dss : r.u32 o &&& 0x00ffffff = usbCdcMbimNdp16DssSign
    · exact absurd (zero inside (.inr dss)).1 ips
    · rw [if_neg ips,if_neg dss] at read
      cases read

theorem ndpAgree (granted : ∀ n, alloc n = true) {o : Nat} (zero : SessionZero r o) :
    pairs (MhiNetMbim.ndp alloc rxMax r o).1 = pairs (CdcMbim.ndp alloc devAddr rxMax r o).1 ∧
    (MhiNetMbim.ndp alloc rxMax r o).2 = (CdcMbim.ndp alloc devAddr rxMax r o).2 := by
  rw [MhiNetMbim.ndp,CdcMbim.ndp]
  dsimp only
  by_cases outside : r.len < o+sizeofNdp16
  · rw [if_pos outside,if_pos outside]
    exact ⟨rfl,rfl⟩
  · rw [if_neg outside,if_neg outside]
    by_cases short : r.u16 (o+4) < 0x10
    · rw [if_pos short,if_pos short]
      exact ⟨rfl,rfl⟩
    · rw [if_neg short,if_neg short]
      by_cases many : r.len < sizeofNdp16+(r.u16 (o+4)-sizeofNdp16) / sizeofDpe16 * sizeofDpe16
      · rw [if_pos many,if_pos many]
        exact ⟨rfl,rfl⟩
      · rw [if_neg many,if_neg many]
        obtain ⟨same,none⟩ := tciZero (Nat.not_lt.mp outside) zero
        rw [same]
        cases read : CdcMbim.tci r o with
        | none => exact ⟨rfl,rfl⟩
        | some session =>
          cases none session read
          exact datagramsAgree granted 0 _ _

theorem ndpsAgree (granted : ∀ n, alloc n = true)
    (sessions : ∀ n o, walk alloc devAddr rxMax r n = some o → SessionZero r o) {fuel n o : Nat}
    (stands : walk alloc devAddr rxMax r n = visit o) (ends : walk alloc devAddr rxMax r (n+fuel) = none) :
    ∃ mhi cdc, MhiNetMbim.ndps alloc rxMax r fuel o = some mhi ∧
      CdcMbim.ndps alloc devAddr rxMax r fuel o = some cdc ∧ pairs mhi = pairs cdc := by
  induction fuel generalizing n o with
  | zero =>
    have ended : visit o = none := stands.symm.trans ends
    by_cases zero : o = 0
    · rw [MhiNetMbim.ndps,CdcMbim.ndps,if_pos zero]
      exact ⟨[],[],rfl,rfl,rfl⟩
    · rw [visit,if_neg zero] at ended
      cases ended
  | succ fuel ih =>
    rw [MhiNetMbim.ndps,CdcMbim.ndps]
    dsimp only
    by_cases zero : o = 0
    · rw [if_pos zero,if_pos zero]
      exact ⟨[],[],rfl,rfl,rfl⟩
    · rw [if_neg zero,if_neg zero]
      have stands : walk alloc devAddr rxMax r n = some o := by rw [stands,visit,if_neg zero]
      obtain ⟨front,flag⟩ := @ndpAgree alloc devAddr rxMax r granted o (sessions n o stands)
      have turn : walk alloc devAddr rxMax r (n+1) =
          if (CdcMbim.ndp alloc devAddr rxMax r o).2 then none else visit (r.u16 (o+6)) := by
        rw [walk,stands]
        rfl
      rw [flag]
      cases failed : (CdcMbim.ndp alloc devAddr rxMax r o).2 with
      | true => exact ⟨_,_,rfl,rfl,front⟩
      | false =>
        rw [failed] at turn
        have ends : walk alloc devAddr rxMax r (n+1+fuel) = none := by
          rw [← ends]
          congr 1
          omega
        obtain ⟨mhi,cdc,left,right,same⟩ := ih turn ends
        rw [left,right]
        refine ⟨_,_,rfl,rfl,?_⟩
        rw [pairs,pairs,List.map_append,List.map_append]
        exact congrArg₂ (· ++ ·) front same

end Agreement

section Pigeonhole
variable {alloc : Nat → Bool} {devAddr : Bytes} {rxMax : Nat} {r : Rcvd}

theorem visitSmall {o p : Nat} (small : o < 65536) (visits : visit o = some p) : p < 65536 := by
  unfold visit at visits
  split at visits
  · cases visits
  · cases visits
    exact small

theorem walkSmall {n o : Nat} (stands : walk alloc devAddr rxMax r n = some o) : o < 65536 := by
  cases n with
  | zero =>
    rw [walk] at stands
    split at stands
    · exact visitSmall (r.native16Small 10) stands
    · cases stands
  | succ n =>
    rw [walk] at stands
    obtain ⟨p,_,turn⟩ := Option.bind_eq_some_iff.mp stands
    split at turn
    · cases turn
    · exact visitSmall (r.u16Small (p+6)) turn

theorem walkOver {n : Nat} (ended : walk alloc devAddr rxMax r n = none) (k : Nat) :
    walk alloc devAddr rxMax r (n+k) = none := by
  induction k with
  | zero => exact ended
  | succ k ih =>
    rw [← Nat.add_assoc,walk,ih]
    rfl

theorem walkEnds (noRepeat : ∀ i j o, walk alloc devAddr rxMax r i = some o → walk alloc devAddr rxMax r j = some o → i = j) :
    walk alloc devAddr rxMax r 65536 = none := by
  by_contra running
  have stands : ∀ i : Fin 65537, ∃ o : Fin 65536, walk alloc devAddr rxMax r i = some o.val := by
    intro i
    cases at_i : walk alloc devAddr rxMax r i with
    | none =>
      have later := walkOver at_i (65536-i)
      rw [Nat.add_sub_of_le (Nat.le_of_lt_succ i.isLt)] at later
      exact absurd later running
    | some o => exact ⟨⟨o,walkSmall at_i⟩,rfl⟩
  choose offset offsets using stands
  obtain ⟨i,j,different,same⟩ := Fintype.exists_ne_map_eq_of_card_lt offset (by rw [Fintype.card_fin,Fintype.card_fin]; decide)
  have fromJ : walk alloc devAddr rxMax r j = some (offset i).val := by
    rw [same]
    exact offsets j
  exact different (Fin.ext (noRepeat i j _ (offsets i) fromJ))

end Pigeonhole

theorem decodersAgree {alloc : Nat → Bool} {devAddr : Bytes} {rxMax fuel : Nat} {r : Rcvd} (rxSeq : UInt16)
    (granted : ∀ n, alloc n = true)
    (noRepeat : ∀ i j o, walk alloc devAddr rxMax r i = some o → walk alloc devAddr rxMax r j = some o → i = j)
    (sessions : ∀ n o, walk alloc devAddr rxMax r n = some o → SessionZero r o) (enough : 65536 ≤ fuel) :
    ∃ rxSeq' mhi ret cdc, MhiNetMbim.cdcMbimRxFixup alloc rxMax r rxSeq fuel = some (rxSeq',mhi) ∧
      CdcMbim.cdcMbimRxFixup alloc devAddr rxMax r rxSeq fuel = some (ret,rxSeq',cdc) ∧ pairs mhi = pairs cdc := by
  rw [MhiNetMbim.cdcMbimRxFixup,CdcMbim.cdcMbimRxFixup]
  by_cases short : r.len < sizeofNth16+sizeofNdp16
  · rw [if_pos short,if_pos short]
    exact ⟨_,[],1,[],rfl,rfl,rfl⟩
  · rw [if_neg short,if_neg short]
    by_cases unsigned : r.u32 0 ≠ usbCdcNcmNth16Sign
    · rw [if_pos unsigned,if_pos unsigned]
      exact ⟨_,[],0,[],rfl,rfl,rfl⟩
    · rw [if_neg unsigned,if_neg unsigned]
      by_cases long : rxMax < r.u16 8
      · rw [if_pos long,if_pos long]
        exact ⟨_,[],0,[],rfl,rfl,rfl⟩
      · rw [if_neg long,if_neg long]
        have header : accepted rxMax r = true := by
          simp [accepted,Nat.not_lt.mp short,not_not.mp unsigned,Nat.not_lt.mp long]
        have starts : walk alloc devAddr rxMax r 0 = visit (r.native16 10) := by rw [walk,if_pos header]
        have ends : walk alloc devAddr rxMax r (0+fuel) = none := by
          have later := walkOver (walkEnds noRepeat) (fuel-65536)
          rw [Nat.add_sub_of_le enough] at later
          rw [Nat.zero_add]
          exact later
        obtain ⟨mhi,cdc,left,right,same⟩ := ndpsAgree granted sessions starts ends
        rw [left,right]
        exact ⟨_,mhi,0,cdc,rfl,rfl,same⟩

def rcvd (data : Bytes) : Rcvd := ⟨data.length,Wire.peek data,false⟩

def sampleBlock : Rcvd := rcvd (ntb 7 usbCdcMbimNdp16IpsSign 0 [0x45])

theorem sampleBlockAgreed : ∃ rxSeq' mhi ret cdc,
    MhiNetMbim.cdcMbimRxFixup (fun _ => true) (31 * 1024) sampleBlock 0 65536 = some (rxSeq',mhi) ∧
    CdcMbim.cdcMbimRxFixup (fun _ => true) [2,0x50,0xf4,0,0,0] (31 * 1024) sampleBlock 0 65536 = some (ret,rxSeq',cdc) ∧
    pairs mhi = pairs cdc := by
  have first : walk (fun _ => true) [2,0x50,0xf4,0,0,0] (31 * 1024) sampleBlock 0 = some 12 := by decide
  have second : walk (fun _ => true) [2,0x50,0xf4,0,0,0] (31 * 1024) sampleBlock 1 = none := by decide
  have only : ∀ n o, walk (fun _ => true) [2,0x50,0xf4,0,0,0] (31 * 1024) sampleBlock n = some o → n = 0 ∧ o = 12 := by
    intro n o stands
    cases n with
    | zero => exact ⟨rfl,(Option.some.inj (first.symm.trans stands)).symm⟩
    | succ n =>
      rw [Nat.add_comm,walkOver second] at stands
      cases stands
  refine decodersAgree 0 (fun _ => rfl) (fun i j o left right => ?_) (fun n o stands => ?_) (Nat.le_refl _)
  · exact (only i o left).1.trans (only j o right).1.symm
  · cases (only n o stands).2
    intro _ _
    decide

/-! At a byte string with nothing behind it these are the receivers of the round trips. -/
section ZeroBehind
variable (data : Bytes)

theorem readLeSucc (o width : Nat) : Wire.readLe (Wire.field data o (width+1)) =
    (Wire.peek data o).toNat+256 * Wire.readLe (Wire.field data (o+1) width) := by
  rw [Wire.field,Wire.field,Wire.peek,List.getD_eq_getElem?_getD]
  rcases Nat.lt_or_ge o data.length with inside | outside
  · rw [List.drop_eq_getElem_cons inside,List.take_succ_cons,List.getElem?_eq_getElem inside]
    rfl
  · rw [List.drop_eq_nil_of_le outside,List.drop_eq_nil_of_le (Nat.le_succ_of_le outside),List.getElem?_eq_none outside,
      List.take_nil,List.take_nil]
    rfl

theorem readU16 (o : Nat) : Wire.readLe (Wire.field data o 2) = (rcvd data).u16 o := by
  rw [readLeSucc,readLeSucc]
  rfl

theorem readU32 (o : Nat) : Wire.readLe (Wire.field data o 4) = (rcvd data).u32 o := by
  have low := readU16 data o
  have high : Wire.readLe (Wire.field data (o+1+1) 2) = (rcvd data).u16 (o+2) := readU16 data (o+2)
  rw [readLeSucc,readLeSucc] at low
  rw [readLeSucc,readLeSucc,Rcvd.u32,← low,← high]
  have empty : Wire.readLe (Wire.field data (o+1+1) 0) = 0 := rfl
  rw [empty]
  omega

theorem readBytes {o n : Nat} (inside : o+n ≤ data.length) : (data.drop o).take n = (rcvd data).bytes o n := by
  apply List.ext_getElem
  · rw [List.length_take,List.length_drop,Rcvd.bytes,List.length_map,List.length_range]
    omega
  · intro i left right
    rw [Rcvd.bytes,List.length_map,List.length_range] at right
    have placed : o+i < data.length := by omega
    simp [Rcvd.bytes,rcvd,Wire.peek,placed]

variable {data} {link : Link} {alloc : Nat → Bool} {rxMax : Nat}

theorem dpeLoopRead {tci : Nat} {f : Nat → Nat → List Packet × Bool} (done : ∀ dpe16, f 0 dpe16 = ([],false))
    (turn : ∀ n dpe16, f (n+1) dpe16 =
      if (rcvd data).u16 dpe16 = 0 ∨ (rcvd data).u16 (dpe16+2) = 0 then ([],false)
      else if (rcvd data).len < (rcvd data).u16 dpe16+(rcvd data).u16 (dpe16+2) ∨ rxMax < (rcvd data).u16 (dpe16+2) then ([],true)
      else if !alloc ((rcvd data).u16 (dpe16+2)+link.allocExtra) then ([],true)
      else match datagramProtocol ((rcvd data).mem ((rcvd data).u16 dpe16)) with
        | none => ([],true)
        | some protocol =>
          (link.packet tci protocol ((rcvd data).bytes ((rcvd data).u16 dpe16) ((rcvd data).u16 (dpe16+2))) ::
            (f n (dpe16+sizeofDpe16)).1,(f n (dpe16+sizeofDpe16)).2)) (n dpe16 : Nat) :
    dpeLoop link alloc rxMax data tci n dpe16 = f n dpe16 := by
  induction n generalizing dpe16 with
  | zero => exact (done dpe16).symm
  | succ n ih =>
    have size : (rcvd data).len = data.length := rfl
    rw [dpeLoop,turn,readU16,readU16,ih,size]
    dsimp only
    by_cases outside : data.length < (rcvd data).u16 dpe16+(rcvd data).u16 (dpe16+2) ∨ rxMax < (rcvd data).u16 (dpe16+2)
    · rw [if_pos outside,if_pos outside]
    · have inside := Nat.not_lt.mp (not_or.mp outside).1
      rw [if_neg outside,if_neg outside,readBytes data inside]
      rfl

def oneNdp (accepts : Nat → Bool) (f : Nat → Nat → Nat → List Packet × Bool) (r : Rcvd) (o : Nat) : List Packet × Bool :=
  if r.len < o+sizeofNdp16 then ([],true)
  else if r.u16 (o+4) < 0x10 then ([],true)
  else if r.len < sizeofNdp16+(r.u16 (o+4)-sizeofNdp16) / sizeofDpe16 * sizeofDpe16 then ([],true)
  else match CdcMbim.tci r o with
    | none => ([],true)
    | some tci =>
      if !accepts tci then ([],true) else f tci ((r.u16 (o+4)-sizeofNdp16) / sizeofDpe16) (o+sizeofNdp16)

theorem rawNdp {rxMax : Nat} (r : Rcvd) (o : Nat) : MhiNetMbim.ndp alloc rxMax r o =
    oneNdp Mbim.MhiNetMbim.link.accepts (fun _ => MhiNetMbim.datagrams alloc rxMax r) r o := by
  have test : ∀ tci : Nat, ((!decide (tci = 0)) = true) = (tci ≠ 0) := by simp
  simp only [oneNdp,Mbim.MhiNetMbim.link,test]
  rfl

theorem framedNdp {rxMax : Nat} (devAddr : Bytes) (r : Rcvd) (o : Nat) : CdcMbim.ndp alloc devAddr rxMax r o =
    oneNdp (Mbim.CdcMbim.link devAddr).accepts (CdcMbim.datagrams alloc devAddr rxMax r) r o := rfl

theorem ndpLoopRead {f : Nat → Nat → Nat → List Packet × Bool} {g : Nat → List Packet × Bool}
    (tables : ∀ tci n dpe16, dpeLoop link alloc rxMax data tci n dpe16 = f tci n dpe16)
    (one : ∀ o, g o = oneNdp link.accepts f (rcvd data) o) {fuel o : Nat} (used : o ≠ 0) :
    ndpLoop link alloc rxMax data (fuel+1) o =
      if (g o).2 then some (g o).1
      else (ndpLoop link alloc rxMax data fuel ((rcvd data).u16 (o+6))).map ((g o).1 ++ ·) := by
  have size : (rcvd data).len = data.length := rfl
  have session : sessionOf data o = CdcMbim.tci (rcvd data) o := by
    rw [sessionOf,readU32]
    rfl
  rw [ndpLoop,readU16,readU16,session,one,oneNdp,size]
  · dsimp only
    by_cases outside : data.length < o+sizeofNdp16
    · rw [if_pos outside,if_pos outside]
      rfl
    · rw [if_neg outside,if_neg outside]
      by_cases short : (rcvd data).u16 (o+4) < 0x10
      · rw [if_pos short,if_pos short]
        rfl
      · rw [if_neg short,if_neg short]
        by_cases many : data.length < sizeofNdp16+((rcvd data).u16 (o+4)-sizeofNdp16) / sizeofDpe16 * sizeofDpe16
        · rw [if_pos many,if_pos many]
          rfl
        · rw [if_neg many,if_neg many]
          cases CdcMbim.tci (rcvd data) o with
          | none => rfl
          | some tci =>
            dsimp only
            by_cases refused : (!link.accepts tci) = true
            · simp only [if_pos refused,if_true]
            · simp only [if_neg refused,tables]
              generalize f tci _ _ = table
              obtain ⟨chain,failed⟩ := table
              cases failed with
              | false => rfl
              | true => rfl
  · exact used

theorem ndpsRead {f : Nat → Nat → Nat → List Packet × Bool} {g : Nat → List Packet × Bool}
    {ndps : Nat → Nat → Option (List Packet)} (tables : ∀ tci n dpe16, dpeLoop link alloc rxMax data tci n dpe16 = f tci n dpe16)
    (one : ∀ o, g o = oneNdp link.accepts f (rcvd data) o) (spent : ∀ o, ndps 0 o = if o = 0 then some [] else none)
    (turn : ∀ fuel o, ndps (fuel+1) o = if o = 0 then some []
      else if (g o).2 then some (g o).1 else (ndps fuel ((rcvd data).u16 (o+6))).map ((g o).1 ++ ·)) (fuel o : Nat) :
    ndpLoop link alloc rxMax data fuel o = ndps fuel o := by
  induction fuel generalizing o with
  | zero =>
    rw [spent]
    cases o with
    | zero => rfl
    | succ o => rfl
  | succ fuel ih =>
    rw [turn]
    by_cases unused : o = 0
    · cases unused
      rfl
    · rw [ndpLoopRead tables one unused,ih,if_neg unused]

variable {devAddr : Bytes} {ctx : CdcMbimCtx}

theorem rawLoop (fuel o : Nat) :
    ndpLoop Mbim.MhiNetMbim.link alloc rxMax data fuel o = MhiNetMbim.ndps alloc rxMax (rcvd data) fuel o := by
  have tables : ∀ tci n dpe16, dpeLoop Mbim.MhiNetMbim.link alloc rxMax data tci n dpe16 =
      MhiNetMbim.datagrams alloc rxMax (rcvd data) n dpe16 :=
    fun tci => dpeLoopRead (fun _ => rfl) (fun _ _ => rfl)
  exact ndpsRead tables (rawNdp (rcvd data)) (fun _ => rfl) (fun _ _ => rfl) fuel o

theorem framedLoop (fuel o : Nat) :
    ndpLoop (Mbim.CdcMbim.link devAddr) alloc rxMax data fuel o = CdcMbim.ndps alloc devAddr rxMax (rcvd data) fuel o := by
  have tables : ∀ tci n dpe16, dpeLoop (Mbim.CdcMbim.link devAddr) alloc rxMax data tci n dpe16 =
      CdcMbim.datagrams alloc devAddr rxMax (rcvd data) tci n dpe16 :=
    fun tci => dpeLoopRead (fun _ => rfl) (fun _ _ => rfl)
  exact ndpsRead tables (framedNdp devAddr (rcvd data)) (fun _ => rfl) (fun _ _ => rfl) fuel o

theorem rxNtbRead {loop : Nat → Nat → Option (List Packet)}
    (loops : ∀ fuel o, ndpLoop link alloc ctx.rxMax data fuel o = loop fuel o) (fuel : Nat) : rxNtb link alloc ctx data fuel =
      if (rcvd data).u32 0 ≠ usbCdcNcmNth16Sign then some (ctx,[])
      else if ctx.rxMax < (rcvd data).u16 8 then some (ctx,[])
      else (loop fuel ((rcvd data).native16 10)).map ({ctx with rxSeq := UInt16.ofNat ((rcvd data).u16 6)+1},·) := by
  have index : Wire.readLe (Wire.field data 10 2) = (rcvd data).native16 10 := readU16 data 10
  rw [rxNtb,readU32,readU16,readU16,index,loops]

theorem shortRead (data : Bytes) : (rcvd data).len < sizeofNth16+sizeofNdp16 ↔ tooShort data = true := decide_eq_true_iff.symm

theorem rawReceived (skbIn : Skb) (fuel : Nat) : Mbim.MhiNetMbim.cdcMbimRxFixup alloc ctx skbIn fuel =
    (MhiNetMbim.cdcMbimRxFixup alloc ctx.rxMax (rcvd skbIn.data) ctx.rxSeq fuel).map
      fun out => ({ctx with rxSeq := out.1},out.2) := by
  simp only [Mbim.MhiNetMbim.cdcMbimRxFixup,MhiNetMbim.cdcMbimRxFixup,shortRead,rxNtbRead rawLoop,
    apply_ite (Option.map _),Option.map_some,Option.map_map]
  rfl

theorem framedReceived (skbIn : Skb) (fuel : Nat) : Mbim.CdcMbim.cdcMbimRxFixup alloc devAddr ctx skbIn fuel =
    (CdcMbim.cdcMbimRxFixup alloc devAddr ctx.rxMax (rcvd skbIn.data) ctx.rxSeq fuel).map
      fun out => (out.1,{ctx with rxSeq := out.2.1},out.2.2) := by
  simp only [Mbim.CdcMbim.cdcMbimRxFixup,CdcMbim.cdcMbimRxFixup,shortRead,rxNtbRead framedLoop,
    apply_ite (Option.map _),Option.map_some,Option.map_map]
  rfl

end ZeroBehind

end MhiHost.MbimDecoders
