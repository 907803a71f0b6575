import MhiHost.Ethernet

/-! The MBIM framing of `mhi_net_mbim.c` and of `net/mhi/cdc_mbim.c`, on a little-endian
host. Both receivers walk the same chain of NDPs; they differ in the sessions they take and
in what they make of a datagram, which `Link` says. -/
namespace MhiHost.Mbim
open Wire (Bytes)

def usbCdcNcmNth16Sign : Nat := 0x484d434e
def usbCdcMbimNdp16IpsSign : Nat := 0x00535049
def usbCdcMbimNdp16DssSign : Nat := 0x00535344

def sizeofNth16 : Nat := 12
def sizeofNdp16 : Nat := 8
def sizeofDpe16 : Nat := 4
def sizeofCdcMbimHdr : Nat := sizeofNth16+sizeofNdp16+2 * sizeofDpe16

structure CdcMbimCtx where
  txSeq : UInt16
  rxSeq : UInt16
  rxMax : Nat
  bound : rxMax = 31 * 1024
  deriving DecidableEq, Repr

def cdcMbimBind : CdcMbimCtx := ⟨0,0,31 * 1024,rfl⟩

def cdcMbimHdr (seq : UInt16) (sign tci len : Nat) : Bytes :=
  Wire.le 4 usbCdcNcmNth16Sign ++ Wire.le 2 sizeofNth16 ++ Wire.le 2 seq.toNat ++
    Wire.le 2 (sizeofCdcMbimHdr+len) ++ Wire.le 2 sizeofNth16 ++
  ((Wire.le 4 sign).set 3 (UInt8.ofNat tci) ++ Wire.le 2 (sizeofNdp16+sizeofDpe16 * 2) ++ Wire.le 2 0) ++
  (Wire.le 2 sizeofCdcMbimHdr ++ Wire.le 2 len ++ Wire.le 2 0 ++ Wire.le 2 0)

def pushHdr (ctx : CdcMbimCtx) (sign tci : Nat) (skb : Skb) : Skb × CdcMbimCtx :=
  (skb.push (cdcMbimHdr ctx.txSeq sign tci skb.data.length),{ctx with txSeq := ctx.txSeq+1})

structure Link where
  accepts : Nat → Bool
  allocExtra : Nat
  packet : Nat → Nat → Bytes → Packet

section Receive
variable (link : Link) (alloc : Nat → Bool) (rxMax : Nat) (data : Bytes)

def dpeLoop (tci : Nat) : Nat → Nat → List Packet × Bool
  | 0,_ => ([],false)
  | n+1,dpe =>
      let offset := Wire.readLe (Wire.field data dpe 2)
      let skbLen := Wire.readLe (Wire.field data (dpe+2) 2)
      if offset = 0 ∨ skbLen = 0 then ([],false)
      else if data.length < offset+skbLen ∨ rxMax < skbLen then ([],true)
      else if !alloc (skbLen+link.allocExtra) then ([],true)
      else match datagramProtocol (Wire.peek data offset) with
        | none => ([],true)
        | some protocol =>
            let rest := dpeLoop tci n (dpe+sizeofDpe16)
            (link.packet tci protocol ((data.drop offset).take skbLen) :: rest.1,rest.2)

def sessionOf (ndp : Nat) : Option Nat :=
  let sign := Wire.readLe (Wire.field data ndp 4) &&& 0x00ffffff
  let c3 := (Wire.peek data (ndp+3)).toNat
  if sign = usbCdcMbimNdp16IpsSign then some c3
  else if sign = usbCdcMbimNdp16DssSign then some (c3+256)
  else none

/- The chain of NDPs. A frame may chain an NDP to itself, so the walk is fuelled. -/
def ndpLoop : Nat → Nat → Option (List Packet)
  | _,0 => some []
  | 0,_+1 => none
  | fuel+1,ndp =>
      if data.length < ndp+sizeofNdp16 then some []
      else
        let wLength := Wire.readLe (Wire.field data (ndp+4) 2)
        if wLength < 0x10 then some []
        else
          let nframes := (wLength-sizeofNdp16) / sizeofDpe16
          if data.length < sizeofNdp16+nframes * sizeofDpe16 then some []
          else match sessionOf data ndp with
            | none => some []
            | some tci =>
                if !link.accepts tci then some []
                else match dpeLoop link alloc rxMax data tci nframes (ndp+sizeofNdp16) with
                  | (chain,true) => some chain
                  | (chain,false) => (ndpLoop fuel (Wire.readLe (Wire.field data (ndp+6) 2))).map (chain ++ ·)

end Receive

def rxNtb (link : Link) (alloc : Nat → Bool) (ctx : CdcMbimCtx) (data : Bytes) (fuel : Nat) :
    Option (CdcMbimCtx × List Packet) :=
  if Wire.readLe (Wire.field data 0 4) ≠ usbCdcNcmNth16Sign then some (ctx,[])
  else if ctx.rxMax < Wire.readLe (Wire.field data 8 2) then some (ctx,[])
  else
    let wSequence := UInt16.ofNat (Wire.readLe (Wire.field data 6 2))
    (ndpLoop link alloc ctx.rxMax data fuel (Wire.readLe (Wire.field data 10 2))).map
      ({ctx with rxSeq := wSequence+1},·)

def tooShort (data : Bytes) : Bool := decide (data.length < sizeofNth16+sizeofNdp16)

section Layout
variable (seq : UInt16) (sign tci : Nat) (p : Bytes)

def ntb : Bytes := cdcMbimHdr seq sign tci p.length ++ p

theorem ntbLength : (ntb seq sign tci p).length = 28+p.length := List.length_append

theorem ntbFields : Wire.field (ntb seq sign tci p) 0 4 = Wire.le 4 usbCdcNcmNth16Sign ∧
    Wire.field (ntb seq sign tci p) 8 2 = Wire.le 2 (28+p.length) ∧
    Wire.field (ntb seq sign tci p) 10 2 = Wire.le 2 12 ∧
    Wire.field (ntb seq sign tci p) 12 4 = (Wire.le 4 sign).set 3 (UInt8.ofNat tci) ∧
    Wire.peek (ntb seq sign tci p) 15 = UInt8.ofNat tci ∧
    Wire.field (ntb seq sign tci p) 16 2 = Wire.le 2 16 ∧ Wire.field (ntb seq sign tci p) 18 2 = Wire.le 2 0 ∧
    Wire.field (ntb seq sign tci p) 20 2 = Wire.le 2 28 ∧ Wire.field (ntb seq sign tci p) 22 2 = Wire.le 2 p.length ∧
    Wire.field (ntb seq sign tci p) 24 2 = Wire.le 2 0 :=
  ⟨rfl,rfl,rfl,rfl,rfl,rfl,rfl,rfl,rfl,rfl⟩

theorem ntbBody : (ntb seq sign tci p).drop 28 = p ∧ Wire.peek (ntb seq sign tci p) 28 = Wire.peek p 0 := by
  have header : (cdcMbimHdr seq sign tci p.length).length = 28 := rfl
  constructor
  · rw [← header]
    exact List.drop_left
  · rw [← header]
    exact Wire.peekAppend _ p 0

end Layout

theorem signMasked {sign : Nat} (small : sign < 2 ^ 24) (b : UInt8) :
    Wire.readLe ((Wire.le 4 sign).set 3 b) &&& 0x00ffffff = sign := by
  have bytes : Wire.readLe ((Wire.le 4 sign).set 3 b) = (UInt8.ofNat sign).toNat+256 * ((UInt8.ofNat (sign / 256)).toNat+
      256 * ((UInt8.ofNat (sign / 256 / 256)).toNat+256 * (b.toNat+256 * 0))) := rfl
  have value : Wire.readLe ((Wire.le 4 sign).set 3 b) = sign+2 ^ 24 * b.toNat := by
    rw [bytes,UInt8.toNat_ofNat',UInt8.toNat_ofNat',UInt8.toNat_ofNat']
    omega
  have masked : ∀ n : Nat, n &&& 0x00ffffff = n % 2 ^ 24 := fun n => Nat.and_two_pow_sub_one_eq_mod n 24
  rw [masked,value,Nat.add_mul_mod_self_left,Nat.mod_eq_of_lt small]

theorem sessionRead {seq : UInt16} {tci : Nat} {p : Bytes} (known : tci < 512) :
    sessionOf (ntb seq (if tci < 256 then usbCdcMbimNdp16IpsSign else usbCdcMbimNdp16DssSign) tci p) 12 = some tci := by
  obtain ⟨_,_,_,sign,c3,_⟩ := ntbFields seq (if tci < 256 then usbCdcMbimNdp16IpsSign else usbCdcMbimNdp16DssSign) tci p
  have byte : (UInt8.ofNat tci).toNat = tci % 256 := UInt8.toNat_ofNat'
  rcases Nat.lt_or_ge tci 256 with ips | dss
  · rw [if_pos ips] at sign c3 ⊢
    rw [sessionOf,sign,c3,signMasked (by decide),byte,Nat.mod_eq_of_lt ips]
    rfl
  · rw [if_neg (Nat.not_lt.mpr dss)] at sign c3 ⊢
    have back : tci % 256+256 = tci := by omega
    rw [sessionOf,sign,c3,signMasked (by decide),byte,back]
    rfl

theorem readLe2 {n : Nat} (fits : n < 2 ^ 16) : Wire.readLe (Wire.le 2 n) = n := by
  rw [Wire.readLeBack]
  exact Nat.mod_eq_of_lt fits

section Delivery
variable {link : Link} {alloc : Nat → Bool} {rxMax : Nat} {seq : UInt16} {sign tci protocol : Nat} {p : Bytes}

theorem dpeDelivered (filled : 0 < p.length) (fits : p.length+28 ≤ rxMax) (bounded : rxMax < 2 ^ 16)
    (granted : alloc (p.length+link.allocExtra) = true) (ip : datagramProtocol (Wire.peek p 0) = some protocol) :
    dpeLoop link alloc rxMax (ntb seq sign tci p) tci 2 20 = ([link.packet tci protocol p],false) := by
  obtain ⟨_,_,_,_,_,_,_,offset,length,ended⟩ := ntbFields seq sign tci p
  obtain ⟨body,first⟩ := ntbBody seq sign tci p
  have size := ntbLength seq sign tci p
  have offsetRead : Wire.readLe (Wire.field (ntb seq sign tci p) 20 2) = 28 := by rw [offset]; exact readLe2 (by decide)
  have lengthRead : Wire.readLe (Wire.field (ntb seq sign tci p) 22 2) = p.length := by rw [length]; exact readLe2 (by omega)
  have endRead : Wire.readLe (Wire.field (ntb seq sign tci p) 24 2) = 0 := by rw [ended]; exact readLe2 (by decide)
  have used : ¬(28 = 0 ∨ p.length = 0) := by omega
  have inside : ¬((ntb seq sign tci p).length < 28+p.length ∨ rxMax < p.length) := by omega
  have last : dpeLoop link alloc rxMax (ntb seq sign tci p) tci 1 24 = ([],false) := by
    rw [dpeLoop]
    simp only [endRead,true_or,if_true]
  rw [dpeLoop]
  simp only [offsetRead,lengthRead,if_neg used,if_neg inside,granted,first,ip,body,List.take_length,sizeofDpe16,last]
  rfl

theorem ntbDelivered {ctx : CdcMbimCtx} {fuel : Nat} (filled : 0 < p.length) (fits : p.length+28 ≤ ctx.rxMax)
    (session : sessionOf (ntb seq sign tci p) 12 = some tci) (accepted : link.accepts tci = true)
    (granted : alloc (p.length+link.allocExtra) = true) (ip : datagramProtocol (Wire.peek p 0) = some protocol) :
    rxNtb link alloc ctx (ntb seq sign tci p) (fuel+1) =
      some ({ctx with rxSeq := UInt16.ofNat (Wire.readLe (Wire.field (ntb seq sign tci p) 6 2))+1},
        [link.packet tci protocol p]) := by
  obtain ⟨signature,block,index,_,_,wLength,next,_⟩ := ntbFields seq sign tci p
  have size := ntbLength seq sign tci p
  have bounded : ctx.rxMax < 2 ^ 16 := by rw [ctx.bound]; decide
  have signRead : Wire.readLe (Wire.field (ntb seq sign tci p) 0 4) = usbCdcNcmNth16Sign := by rw [signature]; decide
  have blockRead : Wire.readLe (Wire.field (ntb seq sign tci p) 8 2) = 28+p.length := by rw [block]; exact readLe2 (by omega)
  have indexRead : Wire.readLe (Wire.field (ntb seq sign tci p) 10 2) = 12 := by rw [index]; exact readLe2 (by decide)
  have wLengthRead : Wire.readLe (Wire.field (ntb seq sign tci p) 16 2) = 16 := by rw [wLength]; exact readLe2 (by decide)
  have nextRead : Wire.readLe (Wire.field (ntb seq sign tci p) 18 2) = 0 := by rw [next]; exact readLe2 (by decide)
  have entries := @dpeDelivered link alloc ctx.rxMax seq sign tci protocol p filled fits bounded granted ip
  have block : ¬ctx.rxMax < 28+p.length := by omega
  have ndp : ¬(ntb seq sign tci p).length < 12+8 := by omega
  have two : (16-8) / 4 = 2 := rfl
  have frames : ¬(ntb seq sign tci p).length < 8+2 * 4 := by omega
  have walked : ndpLoop link alloc ctx.rxMax (ntb seq sign tci p) (fuel+1) 12 = some [link.packet tci protocol p] := by
    rw [ndpLoop]
    · simp only [sizeofNdp16,sizeofDpe16,if_neg ndp,wLengthRead,two,if_neg frames,session,accepted,entries,nextRead]
      rw [ndpLoop]
      rfl
    · nofun
  have signed : ¬usbCdcNcmNth16Sign ≠ usbCdcNcmNth16Sign := not_not.mpr rfl
  rw [rxNtb]
  simp only [signRead,if_neg signed,blockRead,if_neg block,indexRead,walked,Option.map_some]

end Delivery

namespace MhiNetMbim

def cdcMbimTxFixup (ctx : CdcMbimCtx) (skb : Skb) (sessionId : UInt8) : Option Skb × CdcMbimCtx :=
  if skb.headroom < sizeofCdcMbimHdr then (none,ctx)
  else
    let out := pushHdr ctx usbCdcMbimNdp16IpsSign sessionId.toNat skb
    (some out.1,out.2)

/- `mhi_ndo_xmit` sends everything in session 0. -/
def mhiNdoXmit (ctx : CdcMbimCtx) (skb : Skb) : Option Skb × CdcMbimCtx := cdcMbimTxFixup ctx skb 0

def link : Link := ⟨fun tci => decide (tci = 0),0,fun _ protocol payload => ⟨protocol,[],none,payload⟩⟩

def cdcMbimRxFixup (alloc : Nat → Bool) (ctx : CdcMbimCtx) (skbIn : Skb) (fuel : Nat) :
    Option (CdcMbimCtx × List Packet) :=
  if tooShort skbIn.data then some (ctx,[]) else rxNtb link alloc ctx skbIn.data fuel

end MhiNetMbim

namespace CdcMbim

def cdcMbimTxFixup (ctx : CdcMbimCtx) (skb : Skb) : Option Skb × CdcMbimCtx :=
  let send := fun (tci : Nat) (isIp : Bool) (skb : Skb) =>
    if !isIp then (none,ctx)
    else if skb.headroom < sizeofCdcMbimHdr then (none,ctx)
    else
      let sign := if tci < 256 then usbCdcMbimNdp16IpsSign else usbCdcMbimNdp16DssSign
      let out := pushHdr ctx sign tci skb
      (if tci < 512 then some out.1 else none,out.2)
  if skb.data.length ≤ ethHlen then (none,ctx)
  else match (if vlanEthHlen < skb.data.length then vlanGetTag skb.data else none) with
    | some tci => send tci (isIpProto (hVlanEncapsulatedProto skb.data)) (skb.pull vlanEthHlen)
    | none => send 0 (isIpProto (hProto skb.data)) (skb.pull ethHlen)

def link (devAddr : Bytes) : Link :=
  ⟨fun _ => true,ethHlen,fun tci protocol payload =>
    ⟨protocol,ethHeader devAddr protocol,if tci ≠ 0 then some tci else none,payload⟩⟩

/- A frame that is too short is answered with 1 and not freed; the first component is the
return value. -/
def cdcMbimRxFixup (alloc : Nat → Bool) (devAddr : Bytes) (ctx : CdcMbimCtx) (skbIn : Skb) (fuel : Nat) :
    Option (Nat × CdcMbimCtx × List Packet) :=
  if tooShort skbIn.data then some (1,ctx,[])
  else (rxNtb (link devAddr) alloc ctx skbIn.data fuel).map (0,·)

end CdcMbim

theorem longEnough (seq : UInt16) (sign tci : Nat) (p : Bytes) : tooShort (ntb seq sign tci p) = false := by
  have least : sizeofNth16+sizeofNdp16 ≤ 28 := by decide
  apply decide_eq_false
  rw [ntbLength]
  exact Nat.not_lt.mpr (Nat.le_trans least (Nat.le_add_right _ _))

theorem firstPeek {first : UInt8} (nibble : Nibble46 first) (rest : Bytes) :
    ∃ protocol, datagramProtocol (Wire.peek (first :: rest) 0) = some protocol := nibbleProtocol nibble

theorem rawTrips {alloc : Nat → Bool} (ctx : CdcMbimCtx) {rxCtx : CdcMbimCtx} {p : Bytes} {protocol room : Nat} (fuel : Nat)
    (filled : 0 < p.length) (fits : p.length+28 ≤ rxCtx.rxMax) (headroom : 28 ≤ room) (granted : alloc p.length = true)
    (ip : datagramProtocol (Wire.peek p 0) = some protocol) :
    ∃ out ctx' rxCtx', MhiNetMbim.mhiNdoXmit ctx ⟨room,p⟩ = (some out,ctx') ∧
      MhiNetMbim.cdcMbimRxFixup alloc rxCtx out (fuel+1) = some (rxCtx',[⟨protocol,[],none,p⟩]) := by
  have roomy : ¬room < sizeofCdcMbimHdr := Nat.not_lt.mpr headroom
  have sent : MhiNetMbim.mhiNdoXmit ctx ⟨room,p⟩ = (some ⟨room-28,ntb ctx.txSeq usbCdcMbimNdp16IpsSign 0 p⟩,
      {ctx with txSeq := ctx.txSeq+1}) := by
    rw [MhiNetMbim.mhiNdoXmit,MhiNetMbim.cdcMbimTxFixup,if_neg roomy]
    rfl
  have session := @sessionRead ctx.txSeq 0 p (by decide)
  have received := @ntbDelivered MhiNetMbim.link alloc ctx.txSeq usbCdcMbimNdp16IpsSign 0 protocol p rxCtx fuel
    filled fits session rfl granted ip
  have whole : MhiNetMbim.cdcMbimRxFixup alloc rxCtx ⟨room-28,ntb ctx.txSeq usbCdcMbimNdp16IpsSign 0 p⟩ (fuel+1) =
      rxNtb MhiNetMbim.link alloc rxCtx (ntb ctx.txSeq usbCdcMbimNdp16IpsSign 0 p) (fuel+1) := by
    rw [MhiNetMbim.cdcMbimRxFixup,longEnough,if_neg Bool.false_ne_true]
  exact ⟨_,_,_,sent,whole.trans received⟩

theorem frameSent {f : IpFrame} (ctx : CdcMbimCtx) {room : Nat} (known : f.tci.getD 0 < 512)
    (headroom : 28 ≤ room+f.header.length) : CdcMbim.cdcMbimTxFixup ctx ⟨room,f.bytes⟩ =
      (some ⟨room+f.header.length-28,ntb ctx.txSeq
        (if f.tci.getD 0 < 256 then usbCdcMbimNdp16IpsSign else usbCdcMbimNdp16DssSign) (f.tci.getD 0) f.payload⟩,
        {ctx with txSeq := ctx.txSeq+1}) := by
  have roomy : ¬room+f.header.length < sizeofCdcMbimHdr := Nat.not_lt.mpr headroom
  cases tag : f.tag with
  | none =>
    obtain ⟨_,unread,proto⟩ := IpFrame.untaggedFields tag
    obtain ⟨long,untagged,pulled⟩ := IpFrame.untaggedPulled tag room
    simp only [CdcMbim.cdcMbimTxFixup,if_neg long,unread,ite_self,proto,f.ip,untagged,pulled,if_neg roomy]
    rfl
  | some pair =>
    obtain ⟨tpid,tci⟩ := pair
    obtain ⟨_,read,proto⟩ := IpFrame.taggedFields tag
    obtain ⟨long,vlan,tagged,pulled⟩ := IpFrame.taggedPulled tag room
    rw [tagged,Option.getD_some] at known
    simp only [CdcMbim.cdcMbimTxFixup,if_neg long,if_pos vlan,read,proto,f.ip,tagged,pulled,if_neg roomy,
      Option.getD_some,if_pos known]
    rfl

theorem frameTrips {alloc : Nat → Bool} {f : IpFrame} (ctx : CdcMbimCtx) {rxCtx : CdcMbimCtx} {devAddr : Bytes}
    {protocol room : Nat} (fuel : Nat) (known : f.tci.getD 0 < 512) (fits : f.payload.length+28 ≤ rxCtx.rxMax)
    (headroom : 28 ≤ room+f.header.length) (granted : alloc (f.payload.length+ethHlen) = true)
    (ip : datagramProtocol (Wire.peek f.payload 0) = some protocol) :
    ∃ out ctx' rxCtx', CdcMbim.cdcMbimTxFixup ctx ⟨room,f.bytes⟩ = (some out,ctx') ∧
      CdcMbim.cdcMbimRxFixup alloc devAddr rxCtx out (fuel+1) = some (0,rxCtx',
        [⟨protocol,ethHeader devAddr protocol,if f.tci.getD 0 ≠ 0 then some (f.tci.getD 0) else none,f.payload⟩]) := by
  have session := @sessionRead ctx.txSeq (f.tci.getD 0) f.payload known
  have received := @ntbDelivered (CdcMbim.link devAddr) alloc ctx.txSeq _ (f.tci.getD 0) protocol f.payload rxCtx fuel
    f.payloadPos fits session rfl granted ip
  have whole : ∀ seq sign tci left, CdcMbim.cdcMbimRxFixup alloc devAddr rxCtx ⟨left,ntb seq sign tci f.payload⟩ (fuel+1) =
      (rxNtb (CdcMbim.link devAddr) alloc rxCtx (ntb seq sign tci f.payload) (fuel+1)).map (0,·) := by
    intro seq sign tci left
    rw [CdcMbim.cdcMbimRxFixup,longEnough]
    rfl
  exact ⟨_,_,_,frameSent ctx known headroom,(whole _ _ _ _).trans (congrArg (Option.map (Prod.mk 0)) received)⟩

theorem mbimRoundTrip {alloc : Nat → Bool} (granted : ∀ n, alloc n = true) :
    (∀ (ctx rxCtx : CdcMbimCtx) (first : UInt8) (rest : Bytes) (room fuel : Nat), Nibble46 first →
      (first :: rest).length+28 ≤ rxCtx.rxMax → 28 ≤ room →
      ∃ out ctx' rxCtx' packet, MhiNetMbim.mhiNdoXmit ctx ⟨room,first :: rest⟩ = (some out,ctx') ∧
        MhiNetMbim.cdcMbimRxFixup alloc rxCtx out (fuel+1) = some (rxCtx',[packet]) ∧
        packet.payload = first :: rest) ∧
    ∀ (ctx rxCtx : CdcMbimCtx) (f : IpFrame) (devAddr : Bytes) (room fuel : Nat), f.tci.getD 0 < 512 →
      f.payload.length+28 ≤ rxCtx.rxMax → 28 ≤ room+f.header.length →
      ∃ out ctx' rxCtx' packet, CdcMbim.cdcMbimTxFixup ctx ⟨room,f.bytes⟩ = (some out,ctx') ∧
        CdcMbim.cdcMbimRxFixup alloc devAddr rxCtx out (fuel+1) = some (0,rxCtx',[packet]) ∧
        packet.payload = f.payload ∧ packet.tag ≠ some 0 ∧ packet.tag.getD 0 = f.tci.getD 0 := by
  constructor
  · intro ctx rxCtx first rest room fuel nibble fits headroom
    obtain ⟨protocol,ip⟩ := firstPeek nibble rest
    have filled : 0 < (first :: rest).length := Nat.succ_pos _
    obtain ⟨out,ctx',rxCtx',sent,received⟩ := rawTrips ctx fuel filled fits headroom (granted _) ip
    exact ⟨out,ctx',rxCtx',_,sent,received,rfl⟩
  · intro ctx rxCtx f devAddr room fuel known fits headroom
    obtain ⟨first,rest,shape,nibble⟩ := f.datagram
    obtain ⟨protocol,ip⟩ := firstPeek nibble rest
    have ip : datagramProtocol (Wire.peek f.payload 0) = some protocol := by
      rw [shape]
      exact ip
    obtain ⟨out,ctx',rxCtx',sent,received⟩ :=
      @frameTrips alloc f ctx rxCtx devAddr protocol room fuel known fits headroom (granted _) ip
    refine ⟨out,ctx',rxCtx',_,sent,received,rfl,?_⟩
    cases zero : f.tci.getD 0 with
    | zero => exact ⟨nofun,rfl⟩
    | succ n => exact ⟨nofun,rfl⟩

def sampleFrame : IpFrame := .oneByte (some (ethP8021q,300)) (by rintro tpid tci same; cases same; decide)

theorem sampleSession300 : ∃ out ctx' rxCtx' packet, CdcMbim.cdcMbimTxFixup cdcMbimBind ⟨16,sampleFrame.bytes⟩ = (some out,ctx') ∧
    CdcMbim.cdcMbimRxFixup (fun _ => true) [2,0x50,0xf4,0,0,0] cdcMbimBind out 1 = some (0,rxCtx',[packet]) ∧
    packet.payload = sampleFrame.payload ∧ packet.tag ≠ some 0 ∧ packet.tag.getD 0 = sampleFrame.tci.getD 0 :=
  (mbimRoundTrip fun _ => rfl).2 cdcMbimBind cdcMbimBind sampleFrame _ 16 0 (by decide) (by decide) (by decide)

end MhiHost.Mbim
