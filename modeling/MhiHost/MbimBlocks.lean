import MhiHost.MbimDecoders

/-! Well-formed NTB16 blocks, and what they list. -/
namespace MhiHost.MbimBlocks
open Mbim
open MbimDecoders (Rcvd)
open Wire (Bytes)

section Block
variable (r : Rcvd)

structure Dpe where
  index : Nat
  length : Nat
  deriving DecidableEq, Repr

def dpeAt (dpe16 : Nat) : Dpe := ⟨r.u16 dpe16,r.u16 (dpe16+2)⟩
def Dpe.used (d : Dpe) : Bool := decide (¬(d.index = 0 ∨ d.length = 0))

def tableAt (n dpe16 : Nat) : List Dpe := (List.range n).map fun x => dpeAt r (dpe16+x * sizeofDpe16)

def table (o : Nat) : List Dpe := tableAt r ((r.u16 (o+4)-sizeofNdp16) / sizeofDpe16) (o+sizeofNdp16)

def listed (o : Nat) : List Dpe := (table r o).takeWhile Dpe.used

def Linked : Nat → List Nat → Prop
  | index,[] => index = 0
  | index,o::rest => index = o ∧ o ≠ 0 ∧ Linked (r.u16 (o+6)) rest

structure WellFormedNdp (o : Nat) : Prop where
  sign : r.u32 o = usbCdcMbimNdp16IpsSign
  length : 0x10 ≤ r.u16 (o+4)
  inside : o+sizeofNdp16+(table r o).length * sizeofDpe16 ≤ r.len
  datagrams : ∀ d ∈ listed r o, d.index+d.length ≤ r.len ∧ Nibble46 (r.mem d.index)

structure WellFormed (rxMax : Nat) (chain : List Nat) : Prop where
  long : sizeofNth16+sizeofNdp16 ≤ r.len
  fits : r.len ≤ rxMax
  sign : r.u32 0 = usbCdcNcmNth16Sign
  blockLength : r.u16 8 = r.len
  linked : Linked r (r.u16 10) chain
  distinct : chain.Nodup
  ndps : ∀ o ∈ chain, WellFormedNdp r o

def rawPacket (d : Dpe) : Packet := ⟨protocolOf (r.mem d.index),[],none,r.bytes d.index d.length⟩
def framedPacket (devAddr : Bytes) (d : Dpe) : Packet :=
  ⟨protocolOf (r.mem d.index),ethHeader devAddr (protocolOf (r.mem d.index)),none,r.bytes d.index d.length⟩

end Block

section Tables
variable {alloc : Nat → Bool} {rxMax : Nat} {r : Rcvd}

theorem tableCons (n dpe16 : Nat) : tableAt r (n+1) dpe16 = dpeAt r dpe16 :: tableAt r n (dpe16+sizeofDpe16) := by
  rw [tableAt,List.range_succ_eq_map,List.map_cons,List.map_map,Nat.zero_mul]
  refine congrArg (dpeAt r dpe16 :: ·) (List.map_congr_left fun x _ => ?_)
  have shift : dpe16+(x+1) * sizeofDpe16 = dpe16+sizeofDpe16+x * sizeofDpe16 := by
    rw [Nat.succ_mul]
    omega
  exact congrArg (dpeAt r) shift

/- `f` is the loop of either receiver over a table, `packet` what it makes of an entry. -/
theorem tableDelivered {f : Nat → Nat → List Packet × Bool} {packet : Nat → Dpe → Packet} {size : Nat → Nat}
    (granted : ∀ n, alloc n = true) (done : ∀ dpe16, f 0 dpe16 = ([],false))
    (turn : ∀ n dpe16, f (n+1) dpe16 =
      if r.u16 dpe16 = 0 ∨ r.u16 (dpe16+2) = 0 then ([],false)
      else if r.len < r.u16 dpe16+r.u16 (dpe16+2) ∨ rxMax < r.u16 (dpe16+2) then ([],true)
      else if !alloc (size (r.u16 (dpe16+2))) then ([],true)
      else match datagramProtocol (r.mem (r.u16 dpe16)) with
        | none => ([],true)
        | some protocol => (packet protocol (dpeAt r dpe16) :: (f n (dpe16+sizeofDpe16)).1,(f n (dpe16+sizeofDpe16)).2))
    (n dpe16 : Nat) (short : ∀ d ∈ (tableAt r n dpe16).takeWhile Dpe.used, d.length ≤ rxMax)
    (sound : ∀ d ∈ (tableAt r n dpe16).takeWhile Dpe.used, d.index+d.length ≤ r.len ∧ Nibble46 (r.mem d.index)) :
    f n dpe16 = (((tableAt r n dpe16).takeWhile Dpe.used).map fun d => packet (protocolOf (r.mem d.index)) d,false) := by
  induction n generalizing dpe16 with
  | zero => exact done dpe16
  | succ n ih =>
    rw [turn]
    rw [tableCons] at short sound ⊢
    by_cases null : r.u16 dpe16 = 0 ∨ r.u16 (dpe16+2) = 0
    · have unused : ¬(dpeAt r dpe16).used = true := fun used => absurd null (of_decide_eq_true used)
      rw [if_pos null,List.takeWhile_cons_of_neg unused]
      rfl
    · have used : (dpeAt r dpe16).used = true := decide_eq_true null
      rw [List.takeWhile_cons_of_pos used] at short sound ⊢
      obtain ⟨inside,nibble⟩ := sound _ List.mem_cons_self
      have inside : r.u16 dpe16+r.u16 (dpe16+2) ≤ r.len := inside
      have small : r.u16 (dpe16+2) ≤ rxMax := short _ List.mem_cons_self
      have received : ¬(r.len < r.u16 dpe16+r.u16 (dpe16+2) ∨ rxMax < r.u16 (dpe16+2)) := by omega
      have protocol : datagramProtocol (r.mem (r.u16 dpe16)) = _ := protocolRead nibble
      rw [if_neg null,if_neg received,granted,protocol,ih _ (fun d later => short d (List.mem_cons_of_mem _ later))
        fun d later => sound d (List.mem_cons_of_mem _ later)]
      rfl

theorem sessionZero {o : Nat} (sign : r.u32 o = usbCdcMbimNdp16IpsSign) :
    MbimDecoders.MhiNetMbim.tci r o = some 0 ∧ MbimDecoders.CdcMbim.tci r o = some 0 := by
  have top : (r.mem (o+2+1)).toNat = 0 := by
    have b0 := (r.mem o).toNat_lt
    have b1 := (r.mem (o+1)).toNat_lt
    have b2 := (r.mem (o+2)).toNat_lt
    unfold Rcvd.u32 Rcvd.u16 usbCdcMbimNdp16IpsSign at sign
    omega
  have masked : usbCdcMbimNdp16IpsSign &&& 0x00ffffff = usbCdcMbimNdp16IpsSign := by decide
  rw [MbimDecoders.MhiNetMbim.tci,MbimDecoders.CdcMbim.tci,sign,masked,if_pos rfl]
  exact ⟨congrArg some top,congrArg some top⟩

theorem tableLength (n dpe16 : Nat) : (tableAt r n dpe16).length = n := by
  rw [tableAt,List.length_map,List.length_range]

theorem ndpDelivered {o : Nat} (granted : ∀ n, alloc n = true) (short : ∀ d ∈ listed r o, d.length ≤ rxMax)
    (formed : WellFormedNdp r o) (devAddr : Bytes) :
    MbimDecoders.MhiNetMbim.ndp alloc rxMax r o = ((listed r o).map (rawPacket r),false) ∧
    MbimDecoders.CdcMbim.ndp alloc devAddr rxMax r o = ((listed r o).map (framedPacket r devAddr),false) := by
  have inside := formed.inside
  rw [table,tableLength] at inside
  have header : ¬r.len < o+sizeofNdp16 := by omega
  have long : ¬r.u16 (o+4) < 0x10 := Nat.not_lt.mpr formed.length
  have room : ¬r.len < sizeofNdp16+(r.u16 (o+4)-sizeofNdp16) / sizeofDpe16 * sizeofDpe16 := by omega
  obtain ⟨raw,framed⟩ := sessionZero formed.sign
  constructor
  · rw [MbimDecoders.MhiNetMbim.ndp,if_neg header]
    simp only [if_neg long,if_neg room,raw]
    exact @tableDelivered alloc rxMax r (MbimDecoders.MhiNetMbim.datagrams alloc rxMax r)
      (fun protocol d => ⟨protocol,[],none,r.bytes d.index d.length⟩) id granted (fun _ => rfl) (fun _ _ => rfl) _ _ short
      formed.datagrams
  · rw [MbimDecoders.CdcMbim.ndp,if_neg header]
    simp only [if_neg long,if_neg room,framed]
    exact @tableDelivered alloc rxMax r (MbimDecoders.CdcMbim.datagrams alloc devAddr rxMax r 0)
      (fun protocol d => ⟨protocol,ethHeader devAddr protocol,none,r.bytes d.index d.length⟩) (· + ethHlen) granted
      (fun _ => rfl) (fun _ _ => rfl) _ _ short formed.datagrams

theorem chainDelivered {g : Nat → List Packet × Bool} {ndps : Nat → Nat → Option (List Packet)} {packet : Dpe → Packet}
    (spent : ndps 0 0 = some []) (turn : ∀ fuel o, ndps (fuel+1) o = if o = 0 then some []
      else if (g o).2 then some (g o).1 else (ndps fuel (r.u16 (o+6))).map ((g o).1 ++ ·)) {chain : List Nat}
    (one : ∀ o ∈ chain, g o = ((listed r o).map packet,false)) {index fuel : Nat} (linked : Linked r index chain)
    (enough : chain.length ≤ fuel) : ndps fuel index = some ((chain.flatMap (listed r)).map packet) := by
  induction chain generalizing index fuel with
  | nil =>
    have zero : index = 0 := linked
    subst zero
    cases fuel with
    | zero => exact spent
    | succ fuel => rw [turn,if_pos rfl]; rfl
  | cons o rest ih =>
    obtain ⟨rfl,used,further⟩ := linked
    obtain ⟨fuel,rfl⟩ := Nat.exists_eq_succ_of_ne_zero (Nat.ne_of_gt (Nat.lt_of_lt_of_le (Nat.succ_pos _) enough))
    have later := ih (fun p member => one p (List.mem_cons_of_mem _ member)) further (Nat.le_of_succ_le_succ enough)
    rw [Nat.succ_eq_add_one,turn,if_neg used,one index List.mem_cons_self,later]
    simp only [Bool.false_eq_true,if_false,Option.map_some,List.flatMap_cons,List.map_append]

end Tables

theorem blockDelivered {alloc : Nat → Bool} {rxMax fuel : Nat} {r : Rcvd} {chain : List Nat} (granted : ∀ n, alloc n = true)
    (little : r.bigEndian = false) (formed : WellFormed r rxMax chain) (enough : chain.length ≤ fuel) (devAddr : Bytes)
    (rxSeq : UInt16) :
    MbimDecoders.MhiNetMbim.cdcMbimRxFixup alloc rxMax r rxSeq fuel =
      some (UInt16.ofNat (r.u16 6)+1,(chain.flatMap (listed r)).map (rawPacket r)) ∧
    MbimDecoders.CdcMbim.cdcMbimRxFixup alloc devAddr rxMax r rxSeq fuel =
      some (0,UInt16.ofNat (r.u16 6)+1,(chain.flatMap (listed r)).map (framedPacket r devAddr)) := by
  have long : ¬r.len < sizeofNth16+sizeofNdp16 := Nat.not_lt.mpr formed.long
  have signed : ¬r.u32 0 ≠ usbCdcNcmNth16Sign := not_not.mpr formed.sign
  have small : ¬rxMax < r.u16 8 := Nat.not_lt.mpr (formed.blockLength ▸ formed.fits)
  have index : r.native16 10 = r.u16 10 := by
    rw [Rcvd.native16,little]
    rfl
  have short : ∀ o ∈ chain, ∀ d ∈ listed r o, d.length ≤ rxMax := by
    intro o member d inTable
    have inside := ((formed.ndps o member).datagrams d inTable).1
    have fits := formed.fits
    omega
  constructor
  · have delivered := @chainDelivered r (MbimDecoders.MhiNetMbim.ndp alloc rxMax r)
      (MbimDecoders.MhiNetMbim.ndps alloc rxMax r) (rawPacket r) rfl (fun _ _ => rfl) chain
      (fun o member => (ndpDelivered granted (short o member) (formed.ndps o member) devAddr).1) _ fuel formed.linked enough
    rw [MbimDecoders.MhiNetMbim.cdcMbimRxFixup,if_neg long,if_neg signed,if_neg small,index]
    exact congrArg (Option.map _) delivered
  · have delivered := @chainDelivered r (MbimDecoders.CdcMbim.ndp alloc devAddr rxMax r)
      (MbimDecoders.CdcMbim.ndps alloc devAddr rxMax r) (framedPacket r devAddr) rfl (fun _ _ => rfl) chain
      (fun o member => (ndpDelivered granted (short o member) (formed.ndps o member) devAddr).2) _ fuel formed.linked enough
    rw [MbimDecoders.CdcMbim.cdcMbimRxFixup,if_neg long,if_neg signed,if_neg small,index]
    exact congrArg (Option.map _) delivered

def twoTables : Rcvd := MbimDecoders.rcvd
  ([0x4e,0x43,0x4d,0x48,12,0,0,0,46,0,28,0] ++ [0x49,0x50,0x53,0,16,0,0,0,44,0,2,0,44,0,1,0] ++
    [0x49,0x50,0x53,0,16,0,12,0,45,0,1,0,0,0,0,0] ++ [0x45,0x60])

theorem twoTablesFormed : WellFormed twoTables (31 * 1024) [28,12] where
  long := by decide
  fits := by decide
  sign := by decide
  blockLength := by decide
  linked := ⟨by decide,by decide,by decide,by decide,show twoTables.u16 18 = 0 by decide⟩
  distinct := by decide
  ndps := by
    intro o member
    rcases List.mem_pair.mp member with rfl | rfl
    · refine ⟨by decide,by decide,by decide,?_⟩
      have entries : listed twoTables 28 = [⟨45,1⟩] := by decide
      rw [entries]
      intro d only
      cases List.mem_singleton.mp only
      exact ⟨by decide,.inr (by decide)⟩
    · refine ⟨by decide,by decide,by decide,?_⟩
      have entries : listed twoTables 12 = [⟨44,2⟩,⟨44,1⟩] := by decide
      rw [entries]
      intro d either
      rcases List.mem_pair.mp either with rfl | rfl
      · exact ⟨by decide,.inl (by decide)⟩
      · exact ⟨by decide,.inl (by decide)⟩

theorem twoTablesDelivered :
    MbimDecoders.MhiNetMbim.cdcMbimRxFixup (fun _ => true) (31 * 1024) twoTables 0 2 =
      some (1,[⟨ethPIpv6,[],none,[0x60]⟩,⟨ethPIp,[],none,[0x45,0x60]⟩,⟨ethPIp,[],none,[0x45]⟩]) ∧
    MbimDecoders.CdcMbim.cdcMbimRxFixup (fun _ => true) [2,0x50,0xf4,0,0,0] (31 * 1024) twoTables 0 2 =
      some (0,1,[⟨ethPIpv6,ethHeader [2,0x50,0xf4,0,0,0] ethPIpv6,none,[0x60]⟩,
        ⟨ethPIp,ethHeader [2,0x50,0xf4,0,0,0] ethPIp,none,[0x45,0x60]⟩,⟨ethPIp,ethHeader [2,0x50,0xf4,0,0,0] ethPIp,none,[0x45]⟩]) :=
  blockDelivered (fun _ => rfl) rfl twoTablesFormed (show [28,12].length ≤ 2 by decide) [2,0x50,0xf4,0,0,0] 0

end MhiHost.MbimBlocks
