import MhiHost.Qmap

/-! A session of transmit calls through `qmi_wwan.c` under QMAP_V5, with the frames laid end to
end in receive buffers in any way that keeps their order. A datagram that is no IP packet takes
the rest of its buffer with it. -/
namespace MhiHost.QmapStream
open Qmap
open Wire (Bytes)

/- `queued`: `mhi_net_xmit` got as far as its queue call, and that succeeded. -/
structure XmitCall where
  skb : Skb
  queued : Bool
  deriving DecidableEq, Repr

def xmit (ctx : QmiWwanCtx) (c : XmitCall) : Option Bytes :=
  match qmiWwanTxFixup ctx c.skb with
  | .built out => if c.queued then some out.data else none
  | _ => none

def sent (ctx : QmiWwanCtx) (calls : List XmitCall) : List Bytes := calls.filterMap (xmit ctx)

def parcel (skb : Skb) : Option (Nat × Bytes) :=
  if skb.data.length ≤ ethHlen then none
  else match (if vlanEthHlen < skb.data.length then vlanGetTag skb.data else none) with
    | some muxId =>
        if qmapDefaultMuxId ≤ muxId ∨ isIpProto (hVlanEncapsulatedProto skb.data) = false then none
        else some (muxId,(skb.pull vlanEthHlen).data)
    | none => if isIpProto (hProto skb.data) = false then none else some (qmapDefaultMuxId,(skb.pull ethHlen).data)

def parcels (calls : List XmitCall) : List (Nat × Bytes) := (calls.filter (·.queued)).filterMap (parcel ·.skb)

def opened (devAddr : Bytes) (parcel : Nat × Bytes) : Option Packet :=
  (datagramProtocol (Wire.peek parcel.2 0)).map fun protocol =>
    ⟨protocol,ethHeader devAddr protocol,if parcel.1 ≠ qmapDefaultMuxId then some parcel.1 else none,parcel.2⟩

def readable (devAddr : Bytes) : List (Nat × Bytes) → List Packet
  | [] => []
  | parcel :: rest =>
      match opened devAddr parcel with
      | some packet => packet :: readable devAddr rest
      | none => []

def receiveAll (alloc : Nat → Bool) (devAddr : Bytes) (buffers : List Bytes) : List Packet :=
  buffers.flatMap fun data => qmiWwanRxFixup alloc devAddr ⟨0,data⟩

section Sent
variable {rxMax : Nat}

theorem headerAdded {skb : Skb} {muxId : Nat} (room : 8 ≤ skb.headroom) :
    addHeader ⟨qmapV5,rxMax⟩ muxId skb = .built (skb.push (v5Hdr muxId skb.data.length)) := by
  have other : ¬qmapV5 = qmapV1 := by decide
  rw [addHeader,if_neg other,if_pos rfl]
  exact pushed room

def Carries (rxMax : Nat) (c : XmitCall) : Prop :=
  match (if c.queued then parcel c.skb else none) with
  | none => xmit ⟨qmapV5,rxMax⟩ c = none
  | some (muxId,p) => (muxId < 256 ∧ p ≠ []) ∧ xmit ⟨qmapV5,rxMax⟩ c = some (v5Hdr muxId p.length ++ p)

theorem sendsCarried {skb : Skb} {queued : Bool} {muxId drop : Nat} (room : 8 ≤ drop) (short : drop < skb.data.length)
    (mux : muxId < 256) (fixed : qmiWwanTxFixup ⟨qmapV5,rxMax⟩ skb = addHeader ⟨qmapV5,rxMax⟩ muxId (skb.pull drop))
    (carried : parcel skb = some (muxId,(skb.pull drop).data)) : Carries rxMax ⟨skb,queued⟩ := by
  have built : addHeader ⟨qmapV5,rxMax⟩ muxId (skb.pull drop) =
      .built ((skb.pull drop).push (v5Hdr muxId (skb.pull drop).data.length)) :=
    headerAdded (Nat.le_trans room (Nat.le_add_left _ _))
  have filled : (skb.pull drop).data ≠ [] := by
    intro empty
    have length := congrArg List.length empty
    simp only [Skb.pull,List.length_drop,List.length_nil] at length
    omega
  simp only [Carries,xmit,fixed,built,carried]
  cases queued with
  | true => exact ⟨⟨mux,filled⟩,rfl⟩
  | false => rfl

theorem dropsCarried {skb : Skb} {queued : Bool} (fixed : qmiWwanTxFixup ⟨qmapV5,rxMax⟩ skb = .dropped)
    (carried : parcel skb = none) : Carries rxMax ⟨skb,queued⟩ := by
  simp only [Carries,xmit,fixed,carried,ite_self]

theorem xmitCarries (c : XmitCall) : Carries rxMax c := by
  obtain ⟨skb,queued⟩ := c
  by_cases short : skb.data.length ≤ ethHlen
  · exact dropsCarried (by rw [qmiWwanTxFixup,if_pos short]) (by rw [parcel,if_pos short])
  by_cases long : vlanEthHlen < skb.data.length
  · cases tag : vlanGetTag skb.data with
    | some muxId =>
      by_cases low : qmapDefaultMuxId ≤ muxId
      · exact dropsCarried (by simp only [qmiWwanTxFixup,if_neg short,if_pos long,tag,if_pos low])
          (by simp only [parcel,if_neg short,if_pos long,tag,if_pos (Or.inl low : qmapDefaultMuxId ≤ muxId ∨ _)])
      · cases ip : isIpProto (hVlanEncapsulatedProto skb.data) with
        | false => exact dropsCarried (by simp [qmiWwanTxFixup,short,long,tag,low,ip]) (by simp [parcel,short,long,tag,ip])
        | true =>
          have mux : muxId < 256 := Nat.lt_trans (Nat.lt_of_not_le low) (by decide)
          have room : 8 ≤ vlanEthHlen := by decide
          exact sendsCarried room long mux (by simp [qmiWwanTxFixup,short,long,tag,low,ip])
            (by simp [parcel,short,long,tag,low,ip])
    | none =>
      cases ip : isIpProto (hProto skb.data) with
      | false => exact dropsCarried (by simp [qmiWwanTxFixup,short,long,tag,ip]) (by simp [parcel,short,long,tag,ip])
      | true =>
        have room : 8 ≤ ethHlen := by decide
        have mux : qmapDefaultMuxId < 256 := by decide
        exact sendsCarried room (Nat.lt_of_not_le short) mux
          (by simp [qmiWwanTxFixup,short,long,tag,ip]) (by simp [parcel,short,long,tag,ip])
  · cases ip : isIpProto (hProto skb.data) with
    | false => exact dropsCarried (by simp [qmiWwanTxFixup,short,long,ip]) (by simp [parcel,short,long,ip])
    | true =>
      have room : 8 ≤ ethHlen := by decide
      have mux : qmapDefaultMuxId < 256 := by decide
      exact sendsCarried room (Nat.lt_of_not_le short) mux
        (by simp [qmiWwanTxFixup,short,long,ip]) (by simp [parcel,short,long,ip])

end Sent

section Received
variable {alloc : Nat → Bool} {devAddr : Bytes}

theorem v5Taken {muxId : Nat} {p : Bytes} (rest : Bytes) (mux : muxId < 256) (filled : p ≠ []) (fits : p.length < 2 ^ 16)
    (granted : ∀ n, alloc n = true) : rxLoop alloc devAddr (v5Hdr muxId p.length ++ p ++ rest) =
      match opened devAddr (muxId,p) with
      | some packet => packet :: rxLoop alloc devAddr rest
      | none => [] := by
  have header : (v5Hdr muxId p.length).length = 8 := rfl
  have length : (v5Hdr muxId p.length ++ p ++ rest).length = 8+p.length+rest.length := by
    rw [List.length_append,List.length_append,header]
  have read : qmapHdr (v5Hdr muxId p.length ++ p ++ rest) = ⟨0,1,0,muxId,p.length⟩ := by
    rw [v5Hdr,List.append_assoc,List.append_assoc]
    exact firstHdrRead mux fits _
  have size : hdrSize ⟨0,1,0,muxId,p.length⟩ = 8 := rfl
  have long : ¬(v5Hdr muxId p.length ++ p ++ rest).length ≤ sizeofQmapHdr := by
    rw [length]
    simp only [sizeofQmapHdr]
    omega
  have enough : ¬(v5Hdr muxId p.length ++ p ++ rest).length < p.length+8 := by omega
  have exactLen : (p.length+2 ^ 32-0) % 2 ^ 32 = p.length := by omega
  have first : Wire.peek (v5Hdr muxId p.length ++ p ++ rest) 8 = Wire.peek p 0 := by
    obtain ⟨byte,others,shape⟩ := List.exists_cons_of_ne_nil filled
    rw [List.append_assoc]
    have behind := Wire.peekAppend (v5Hdr muxId p.length) (p ++ rest) 0
    rw [header] at behind
    rw [behind,shape]
    rfl
  have body : ((v5Hdr muxId p.length ++ p ++ rest).drop 8).take p.length = p := by
    rw [List.append_assoc,← header,List.drop_left,List.take_left]
  have past : (v5Hdr muxId p.length ++ p ++ rest).drop (p.length+8) = rest := by
    have end_ : p.length+8 = (v5Hdr muxId p.length ++ p).length := by rw [List.length_append,header]; omega
    rw [end_,List.drop_left]
  rw [rxLoop,dif_neg long]
  simp only [read,size,if_neg enough,exactLen,granted,first,body,past,opened]
  cases datagramProtocol (Wire.peek p 0) with
  | none => rfl
  | some protocol => rfl

theorem bufferRead {rxMax : Nat} {calls : List XmitCall} (fits : ∀ p ∈ parcels calls, p.2.length < 2 ^ 16)
    (granted : ∀ n, alloc n = true) :
    rxLoop alloc devAddr (sent ⟨qmapV5,rxMax⟩ calls).flatten = readable devAddr (parcels calls) := by
  induction calls with
  | nil =>
    rw [sent,List.filterMap_nil,List.flatten_nil,rxLoop]
    rfl
  | cons c calls ih =>
    have carries := @xmitCarries rxMax c
    rw [Carries] at carries
    have split : parcels (c :: calls) = (if c.queued then parcel c.skb else none).toList ++ parcels calls := by
      cases goes : c.queued with
      | true => cases made : parcel c.skb <;> simp [parcels,goes,made]
      | false => simp [parcels,goes]
    cases made : (if c.queued then parcel c.skb else none) with
    | none =>
      rw [made] at split carries
      rw [split] at fits ⊢
      rw [sent,List.filterMap_cons,carries]
      exact ih fits
    | some pair =>
      obtain ⟨muxId,p⟩ := pair
      rw [made] at split carries
      obtain ⟨⟨mux,filled⟩,out⟩ := carries
      rw [split] at fits ⊢
      have later := ih fun q inside => fits q (List.mem_cons_of_mem _ inside)
      rw [sent,List.filterMap_cons,out,List.flatten_cons,v5Taken _ mux filled (fits _ List.mem_cons_self) granted]
      rw [Option.toList_some,List.singleton_append,readable]
      cases opened devAddr (muxId,p) with
      | none => rfl
      | some packet => exact congrArg (packet :: ·) later

theorem readableAll {all : List (Nat × Bytes)} (ip : ∀ p ∈ all, (opened devAddr p).isSome = true) :
    readable devAddr all = all.filterMap (opened devAddr) := by
  induction all with
  | nil => rfl
  | cons parcel rest ih =>
    obtain ⟨packet,made⟩ := Option.isSome_iff_exists.mp (ip parcel List.mem_cons_self)
    rw [readable,List.filterMap_cons,made]
    exact congrArg (packet :: ·) (ih fun p inside => ip p (List.mem_cons_of_mem _ inside))

theorem parcelsFlatten (groups : List (List XmitCall)) : parcels groups.flatten = groups.flatMap parcels := by
  induction groups with
  | nil => rfl
  | cons group groups ih =>
    rw [List.flatten_cons,List.flatMap_cons,← ih]
    simp [parcels]

theorem streamReceived {rxMax : Nat} {groups : List (List XmitCall)} (granted : ∀ n, alloc n = true)
    (fits : ∀ p ∈ parcels groups.flatten, p.2.length < 2 ^ 16) :
    receiveAll alloc devAddr (groups.map fun calls => (sent ⟨qmapV5,rxMax⟩ calls).flatten) =
      groups.flatMap (fun calls => readable devAddr (parcels calls)) ∧
    ((∀ p ∈ parcels groups.flatten, (opened devAddr p).isSome = true) →
      receiveAll alloc devAddr (groups.map fun calls => (sent ⟨qmapV5,rxMax⟩ calls).flatten) =
        (parcels groups.flatten).filterMap (opened devAddr)) := by
  have perBuffer : receiveAll alloc devAddr (groups.map fun calls => (sent ⟨qmapV5,rxMax⟩ calls).flatten) =
      groups.flatMap fun calls => readable devAddr (parcels calls) := by
    rw [receiveAll,List.flatMap_map,List.flatMap_def,List.flatMap_def]
    refine congrArg List.flatten (List.map_congr_left fun calls inside => bufferRead (fun p here => fits p ?_) granted)
    rw [parcelsFlatten]
    exact List.mem_flatMap.mpr ⟨calls,inside,here⟩
  refine ⟨perBuffer,fun ip => ?_⟩
  rw [perBuffer,parcelsFlatten,List.filterMap_flatMap,List.flatMap_def,List.flatMap_def]
  refine congrArg List.flatten (List.map_congr_left fun calls inside => readableAll fun p here => ip p ?_)
  rw [parcelsFlatten]
  exact List.mem_flatMap.mpr ⟨calls,inside,here⟩

end Received

namespace Sample

def frame (first : UInt8) : Skb := ⟨16,List.replicate 12 0 ++ [0x08,0x00,first,7]⟩
def calls : List XmitCall := [⟨frame 0x45,true⟩,⟨frame 0x10,true⟩,⟨frame 0x60,false⟩,⟨frame 0x60,true⟩]

end Sample

/- The datagram that is no IP packet hides the one behind it, unless that has its own buffer. -/
theorem streamReceivedSample :
    (([Sample.calls].flatMap fun calls => readable [2] (parcels calls)).length = 1 ∧
      ((Sample.calls.map ([·])).flatMap fun calls => readable [2] (parcels calls)).length = 2) ∧
    receiveAll (fun _ => true) [2] ([Sample.calls].map fun calls => (sent ⟨qmapV5,31*1024⟩ calls).flatten) =
      [Sample.calls].flatMap fun calls => readable [2] (parcels calls) :=
  ⟨by decide,(streamReceived (fun _ => rfl) (by decide)).1⟩

end MhiHost.QmapStream
