import MhiHost.Ethernet

/-! The QMAP framing of `qmi_wwan.c`, both ways. The receiver does not know the mux version:
the header's `next_hdr` bit alone tells it how many header bytes to skip. -/
namespace MhiHost.Qmap
open Wire (Bytes)

def qmapDefaultMuxId : Nat := 0x81
def qmapV1 : Nat := 5
def qmapV5 : Nat := 9
def qmapHeaderTypeCsumOffload : Nat := 2

structure QmiWwanCtx where
  muxVersion : Nat
  rxMax : Nat
  deriving DecidableEq, Repr

def qmiWwanBind (chan : String) : Option QmiWwanCtx :=
  if chan = "IP_HW0_QMAPV1" then some ⟨qmapV1,31 * 1024⟩
  else if chan = "IP_HW0_QMAPV5" then some ⟨qmapV5,31 * 1024⟩
  else none

structure QmapHdr where
  padLen : Nat
  nextHdr : Nat
  cdBit : Nat
  muxId : Nat
  pktLen : Nat
  deriving DecidableEq, Repr

def sizeofQmapHdr : Nat := 4
def sizeofQmapV5CsumHdr : Nat := 4

def QmapHdr.bytes (q : QmapHdr) : Bytes :=
  [UInt8.ofNat (q.padLen % 64+64 * (q.nextHdr % 2)+128 * (q.cdBit % 2)),UInt8.ofNat q.muxId] ++ Wire.be 2 q.pktLen

def qmapHdr (data : Bytes) : QmapHdr where
  padLen := (Wire.peek data 0).toNat % 64
  nextHdr := (Wire.peek data 0).toNat / 64 % 2
  cdBit := (Wire.peek data 0).toNat / 128
  muxId := (Wire.peek data 1).toNat
  pktLen := Wire.readBe (Wire.field data 2 2)

def qmapV5CsumHdr (nextHdr headerType hwReserved csumValidRequired reserved : Nat) : Bytes :=
  [UInt8.ofNat (nextHdr % 2+2 * (headerType % 128)),UInt8.ofNat (hwReserved % 128+128 * (csumValidRequired % 2))] ++
    Wire.be 2 reserved

/- A push beyond the headroom is a kernel panic, not an error return. -/
inductive Tx where
  | dropped
  | underPanic
  | built (skb : Skb)
  deriving DecidableEq, Repr

def skbPush (skb : Skb) (header : Bytes) : Tx :=
  if skb.headroom < header.length then .underPanic else .built (skb.push header)

def addHeader (ctx : QmiWwanCtx) (muxId : Nat) (skb : Skb) : Tx :=
  let qhdr : QmapHdr := ⟨0,1,0,muxId,skb.data.length⟩
  if ctx.muxVersion = qmapV1 then skbPush skb qhdr.bytes
  else if ctx.muxVersion = qmapV5 then
    skbPush skb (qhdr.bytes ++ qmapV5CsumHdr 0 qmapHeaderTypeCsumOffload 0 0 0)
  else .dropped

def qmiWwanTxFixup (ctx : QmiWwanCtx) (skb : Skb) : Tx :=
  if skb.data.length ≤ ethHlen then .dropped
  else match (if vlanEthHlen < skb.data.length then vlanGetTag skb.data else none) with
    | some muxId =>
        if qmapDefaultMuxId ≤ muxId then .dropped
        else if !isIpProto (hVlanEncapsulatedProto skb.data) then .dropped
        else addHeader ctx muxId (skb.pull vlanEthHlen)
    | none =>
        if !isIpProto (hProto skb.data) then .dropped
        else addHeader ctx qmapDefaultMuxId (skb.pull ethHlen)

def hdrSize (qhdr : QmapHdr) : Nat := if qhdr.nextHdr = 1 then sizeofQmapHdr+sizeofQmapV5CsumHdr else sizeofQmapHdr

theorem hdrSizePos (qhdr : QmapHdr) : 0 < hdrSize qhdr := by
  unfold hdrSize
  split <;> decide

/- The loop of `qmi_wwan_rx_fixup`, up to the packets it has chained when it ends or gives
up. `alloc` answers for `netdev_alloc_skb`. -/
def rxLoop (alloc : Nat → Bool) (devAddr : Bytes) (data : Bytes) : List Packet :=
  if _ : data.length ≤ sizeofQmapHdr then []
  else
    let qhdr := qmapHdr data
    let skbLen := (qhdr.pktLen+2 ^ 32-qhdr.padLen) % 2 ^ 32
    if data.length < qhdr.pktLen+hdrSize qhdr then []
    else if qhdr.cdBit = 1 then rxLoop alloc devAddr (data.drop (qhdr.pktLen+hdrSize qhdr))
    else if !alloc ((skbLen+ethHlen) % 2 ^ 32) then []
    else match datagramProtocol (Wire.peek data (hdrSize qhdr)) with
      | none => []
      | some protocol =>
          ⟨protocol,ethHeader devAddr protocol,if qhdr.muxId ≠ qmapDefaultMuxId then some qhdr.muxId else none,
            (data.drop (hdrSize qhdr)).take skbLen⟩ :: rxLoop alloc devAddr (data.drop (qhdr.pktLen+hdrSize qhdr))
termination_by data.length
decreasing_by
  all_goals
    have header := hdrSizePos (qmapHdr data)
    have long : sizeofQmapHdr < data.length := Nat.lt_of_not_le (by assumption)
    rw [List.length_drop]
    exact Nat.sub_lt (Nat.zero_lt_of_lt long) (Nat.add_pos_right _ header)

def qmiWwanRxFixup (alloc : Nat → Bool) (devAddr : Bytes) (skbIn : Skb) : List Packet := rxLoop alloc devAddr skbIn.data

theorem txHeader {f : IpFrame} (ctx : QmiWwanCtx) (room : Nat) (below : ∀ tci, f.tci = some tci → tci < qmapDefaultMuxId) :
    qmiWwanTxFixup ctx ⟨room,f.bytes⟩ =
      addHeader ctx (f.tci.getD qmapDefaultMuxId) ⟨room+f.header.length,f.payload⟩ := by
  cases tag : f.tag with
  | none =>
    obtain ⟨_,unread,proto⟩ := IpFrame.untaggedFields tag
    obtain ⟨long,untagged,pulled⟩ := IpFrame.untaggedPulled tag room
    simp only [qmiWwanTxFixup,if_neg long,unread,ite_self,proto,f.ip,untagged,pulled]
    rfl
  | some pair =>
    obtain ⟨tpid,tci⟩ := pair
    obtain ⟨_,read,proto⟩ := IpFrame.taggedFields tag
    obtain ⟨long,vlan,tagged,pulled⟩ := IpFrame.taggedPulled tag room
    have small : ¬qmapDefaultMuxId ≤ tci := Nat.not_le.mpr (below tci tagged)
    simp only [qmiWwanTxFixup,if_neg long,if_pos vlan,read,if_neg small,proto,f.ip,tagged,pulled]
    rfl

def firstHdr (muxId len : Nat) : Bytes := (QmapHdr.mk 0 1 0 muxId len).bytes
def v5Hdr (muxId len : Nat) : Bytes := firstHdr muxId len ++ qmapV5CsumHdr 0 qmapHeaderTypeCsumOffload 0 0 0

theorem firstHdrRead {muxId len : Nat} (mux : muxId < 256) (fits : len < 2 ^ 16) (rest : Bytes) :
    qmapHdr (firstHdr muxId len ++ rest) = ⟨0,1,0,muxId,len⟩ := by
  have length : Wire.readBe (Wire.field (firstHdr muxId len ++ rest) 2 2) = len := by
    have found := @Wire.readBeAt [UInt8.ofNat 64,UInt8.ofNat muxId] 2 rfl 2 len rest
    exact found.trans (Nat.mod_eq_of_lt fits)
  have id : (UInt8.ofNat muxId).toNat = muxId := UInt8.toNat_ofNat_of_lt' mux
  have second : (Wire.peek (firstHdr muxId len ++ rest) 1).toNat = muxId := id
  have flags : (Wire.peek (firstHdr muxId len ++ rest) 0).toNat = 64 := rfl
  unfold qmapHdr
  rw [length,second,flags]

theorem v1Refused {muxId : Nat} (alloc : Nat → Bool) (devAddr p : Bytes) (mux : muxId < 256) (fits : p.length < 2 ^ 16) :
    rxLoop alloc devAddr (firstHdr muxId p.length ++ p) = [] := by
  have read := firstHdrRead mux fits p
  have length : (firstHdr muxId p.length ++ p).length = sizeofQmapHdr+p.length := List.length_append
  have short : (firstHdr muxId p.length ++ p).length < p.length+hdrSize ⟨0,1,0,muxId,p.length⟩ := by
    have sizes : sizeofQmapHdr < sizeofQmapHdr+sizeofQmapV5CsumHdr := by decide
    rw [length,Nat.add_comm]
    exact Nat.add_lt_add_left sizes _
  rw [rxLoop]
  split
  · rfl
  · simp only [read,if_pos short]

theorem v5Delivered {muxId : Nat} {alloc : Nat → Bool} {p : Bytes} {protocol : Nat} (devAddr : Bytes) (mux : muxId < 256)
    (fits : p.length < 2 ^ 16) (granted : alloc (p.length+ethHlen) = true)
    (ip : datagramProtocol (Wire.peek p 0) = some protocol) :
    rxLoop alloc devAddr (v5Hdr muxId p.length ++ p) =
      [⟨protocol,ethHeader devAddr protocol,if muxId ≠ qmapDefaultMuxId then some muxId else none,p⟩] := by
  have header : (v5Hdr muxId p.length).length = 8 := rfl
  have length : (v5Hdr muxId p.length ++ p).length = 8+p.length := by rw [List.length_append,header]
  have read : qmapHdr (v5Hdr muxId p.length ++ p) = ⟨0,1,0,muxId,p.length⟩ := by
    rw [v5Hdr,List.append_assoc]
    exact firstHdrRead mux fits _
  have size : hdrSize ⟨0,1,0,muxId,p.length⟩ = 8 := rfl
  have long : ¬(v5Hdr muxId p.length ++ p).length ≤ sizeofQmapHdr := by
    rw [length]
    simp only [sizeofQmapHdr]
    omega
  have enough : ¬(v5Hdr muxId p.length ++ p).length < p.length+8 := by omega
  have exactLen : (p.length+2 ^ 32-0) % 2 ^ 32 = p.length := by omega
  have room : (p.length+ethHlen) % 2 ^ 32 = p.length+ethHlen := by
    apply Nat.mod_eq_of_lt
    simp only [ethHlen]
    omega
  have first : Wire.peek (v5Hdr muxId p.length ++ p) 8 = Wire.peek p 0 := Wire.peekAppend (v5Hdr muxId p.length) p 0
  have body : (v5Hdr muxId p.length ++ p).drop 8 = p := by
    rw [← header]
    exact List.drop_left
  have past : (v5Hdr muxId p.length ++ p).drop (p.length+8) = [] := List.drop_eq_nil_of_le (by omega)
  have done : rxLoop alloc devAddr [] = [] := by rw [rxLoop]; rfl
  rw [rxLoop,dif_neg long]
  simp only [read,size,if_neg enough,exactLen,room,granted,first,ip,body,past,done,List.take_length]
  rfl

def RoundTrips (ctx : QmiWwanCtx) (alloc : Nat → Bool) (devAddr : Bytes) (room : Nat) (f : IpFrame) : Prop :=
  ∃ out packet, qmiWwanTxFixup ctx ⟨room,f.bytes⟩ = .built out ∧ qmiWwanRxFixup alloc devAddr out = [packet] ∧
    packet.payload = f.payload ∧ packet.tag = f.tci

theorem pushed {skb : Skb} {header : Bytes} (fits : header.length ≤ skb.headroom) :
    skbPush skb header = .built (skb.push header) := by
  rw [skbPush,if_neg (Nat.not_lt.mpr fits)]

theorem muxOf {f : IpFrame} (below : ∀ tci, f.tci = some tci → tci < qmapDefaultMuxId) :
    f.tci.getD qmapDefaultMuxId < 256 ∧
    (if f.tci.getD qmapDefaultMuxId ≠ qmapDefaultMuxId then some (f.tci.getD qmapDefaultMuxId) else none) = f.tci := by
  cases tag : f.tci with
  | none => exact ⟨by decide,rfl⟩
  | some tci =>
    have small := below tci tag
    have other : tci ≠ qmapDefaultMuxId := Nat.ne_of_lt small
    rw [Option.getD_some,if_pos other]
    exact ⟨Nat.lt_trans small (by decide),rfl⟩

theorem headerLong (f : IpFrame) : 8 ≤ f.header.length := by
  rw [IpFrame.header,List.length_append,List.length_append,f.addresses]
  omega

theorem v1Trips {alloc : Nat → Bool} {devAddr : Bytes} {room : Nat} {f : IpFrame} {rxMax : Nat}
    (below : ∀ tci, f.tci = some tci → tci < qmapDefaultMuxId) (fits : f.payload.length < 2 ^ 16) :
    ¬RoundTrips ⟨qmapV1,rxMax⟩ alloc devAddr room f := by
  rintro ⟨out,packet,sent,received,_⟩
  have long := headerLong f
  obtain ⟨mux,_⟩ := muxOf below
  have built := @pushed ⟨room+f.header.length,f.payload⟩ (firstHdr (f.tci.getD qmapDefaultMuxId) f.payload.length)
    (Nat.le_trans (show 4 ≤ 8 by decide) (Nat.le_trans long (Nat.le_add_left _ _)))
  rw [txHeader _ room below] at sent
  have out : Tx.built _ = Tx.built out := built.symm.trans sent
  cases out
  have lost := v1Refused alloc devAddr f.payload mux fits
  rw [qmiWwanRxFixup,Skb.push,lost] at received
  cases received

theorem v5Trips {alloc : Nat → Bool} {devAddr : Bytes} {room : Nat} {f : IpFrame} {rxMax : Nat}
    (below : ∀ tci, f.tci = some tci → tci < qmapDefaultMuxId) (fits : f.payload.length < 2 ^ 16)
    (granted : alloc (f.payload.length+ethHlen) = true) : RoundTrips ⟨qmapV5,rxMax⟩ alloc devAddr room f := by
  have long := headerLong f
  obtain ⟨mux,tag⟩ := muxOf below
  obtain ⟨first,rest,shape,nibble⟩ := f.datagram
  obtain ⟨protocol,ip⟩ := nibbleProtocol nibble
  have ip : datagramProtocol (Wire.peek f.payload 0) = some protocol := by
    rw [shape]
    exact ip
  have built := @pushed ⟨room+f.header.length,f.payload⟩ (v5Hdr (f.tci.getD qmapDefaultMuxId) f.payload.length)
    (Nat.le_trans long (Nat.le_add_left _ _))
  refine ⟨_,_,(txHeader _ room below).trans built,v5Delivered devAddr mux fits granted ip,rfl,tag⟩

theorem qmapRoundTrip {chan : String} {ctx : QmiWwanCtx} (bound : qmiWwanBind chan = some ctx) {f : IpFrame}
    {alloc : Nat → Bool} (devAddr : Bytes) (room : Nat) (below : ∀ tci, f.tci = some tci → tci < qmapDefaultMuxId)
    (fits : f.payload.length ≤ 65535) (granted : alloc (f.payload.length+ethHlen) = true) :
    RoundTrips ctx alloc devAddr room f ↔ ctx.muxVersion = qmapV5 := by
  have fits : f.payload.length < 2 ^ 16 := Nat.lt_succ_of_le fits
  unfold qmiWwanBind at bound
  split at bound
  · cases bound
    exact ⟨fun trips => absurd trips (v1Trips below fits),fun other => absurd other (by decide)⟩
  split at bound
  · cases bound
    exact ⟨fun _ => rfl,fun _ => v5Trips below fits granted⟩
  · cases bound

def sampleFrame : IpFrame := .oneByte none nofun

theorem sampleUntagged (tci : Nat) (tagged : sampleFrame.tci = some tci) : tci < qmapDefaultMuxId := by cases tagged

theorem sampleRoundTripV5 : RoundTrips ⟨qmapV5,31 * 1024⟩ (fun _ => true) [2,0x50,0xf4,0,0,0] 16 sampleFrame :=
  (qmapRoundTrip (show qmiWwanBind "IP_HW0_QMAPV5" = some ⟨qmapV5,31 * 1024⟩ by decide) _ _ sampleUntagged
    (by decide) rfl).mpr rfl

theorem sampleLostV1 : ¬∀ (chan : String) (ctx : QmiWwanCtx), qmiWwanBind chan = some ctx →
    ∀ (f : IpFrame) (devAddr : Bytes) (room : Nat), (∀ tci, f.tci = some tci → tci < qmapDefaultMuxId) →
      f.payload.length ≤ 65535 → RoundTrips ctx (fun _ => true) devAddr room f := by
  intro claim
  have bound : qmiWwanBind "IP_HW0_QMAPV1" = some ⟨qmapV1,31 * 1024⟩ := by decide
  have trips := claim _ _ bound sampleFrame [2,0x50,0xf4,0,0,0] 16 sampleUntagged (by decide)
  exact v1Trips sampleUntagged (by decide) trips

end MhiHost.Qmap
