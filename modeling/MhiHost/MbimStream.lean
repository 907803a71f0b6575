import MhiHost.MbimSequence

/-! A whole session of transmit calls through the framing of either driver, taken apart again
by the receiver of either driver. Calls that queue nothing leave no trace in it, and a frame
that is no datagram costs the receiver nothing but itself. -/
namespace MhiHost.MbimStream
open Mbim MbimSequence
open TxQueue (Driver)
open Wire (Bytes)

def framedParcel (skb : Skb) : Nat × Bytes :=
  match (if vlanEthHlen < skb.data.length then vlanGetTag skb.data else none) with
  | some tci => (tci,(skb.pull vlanEthHlen).data)
  | none => (0,(skb.pull ethHlen).data)

def parcel : Driver → XmitCall → Nat × Bytes
  | .mhiNet,c => framedParcel c.skb
  | .mhiNetMbim,c => (0,c.skb.data)

def signOf (tci : Nat) : Nat := if tci < 256 then usbCdcMbimNdp16IpsSign else usbCdcMbimNdp16DssSign

def opened (link : Link) (parcel : Nat × Bytes) : Option Packet :=
  if parcel.2 = [] ∨ link.accepts parcel.1 = false then none
  else (datagramProtocol (Wire.peek parcel.2 0)).map fun protocol => link.packet parcel.1 protocol parcel.2

def linkOf (devAddr : Bytes) : Driver → Link
  | .mhiNet => CdcMbim.link devAddr
  | .mhiNetMbim => MhiNetMbim.link

def cdcMbimRxFixup (alloc : Nat → Bool) (devAddr : Bytes) (fuel : Nat) : Driver → CdcMbimCtx → Skb →
    Option (CdcMbimCtx × List Packet)
  | .mhiNet,ctx,skb => (CdcMbim.cdcMbimRxFixup alloc devAddr ctx skb fuel).map Prod.snd
  | .mhiNetMbim,ctx,skb => MhiNetMbim.cdcMbimRxFixup alloc ctx skb fuel

def receiveAll (alloc : Nat → Bool) (devAddr : Bytes) (fuel : Nat) (d : Driver) : CdcMbimCtx → List Skb →
    Option (CdcMbimCtx × List Packet)
  | ctx,[] => some (ctx,[])
  | ctx,ntb :: rest => do
      let one ← cdcMbimRxFixup alloc devAddr fuel d ctx ntb
      let more ← receiveAll alloc devAddr fuel d one.1 rest
      some (more.1,one.2 ++ more.2)

section Sent
variable {ctx : CdcMbimCtx}

/- An NTB that leaves the fixup carries the frame's parcel under the number it took. -/
def Carries (ctx : CdcMbimCtx) (parcel : Nat × Bytes) (out : Option Skb × CdcMbimCtx) : Prop :=
  ∀ skb, out.1 = some skb → parcel.1 < 512 ∧ skb.data = ntb ctx.txSeq (signOf parcel.1) parcel.1 parcel.2

theorem sendCarries (tci : Nat) (isIp : Bool) (skb : Skb) : Carries ctx (tci,skb.data)
    (if !isIp then (none,ctx)
    else if skb.headroom < sizeofCdcMbimHdr then (none,ctx)
    else
      let out := pushHdr ctx (signOf tci) tci skb
      (if tci < 512 then some out.1 else none,out.2)) := by
  intro pushed sent
  split at sent
  · cases sent
  split at sent
  · cases sent
  dsimp only at sent
  split at sent
  · rename_i known
    cases sent
    exact ⟨known,rfl⟩
  · cases sent

theorem fixupCarries (skb : Skb) : Carries ctx (framedParcel skb) (CdcMbim.cdcMbimTxFixup ctx skb) := by
  unfold framedParcel CdcMbim.cdcMbimTxFixup
  dsimp only
  by_cases short : skb.data.length ≤ ethHlen
  · rw [if_pos short]
    exact fun _ sent => by cases sent
  · rw [if_neg short]
    cases (if vlanEthHlen < skb.data.length then vlanGetTag skb.data else none) with
    | some tci => exact sendCarries tci _ _
    | none => exact sendCarries 0 _ _

theorem xmitCarries (d : Driver) (c : XmitCall) {skb : Skb} (sent : (xmit d ctx c).2 = some skb) :
    (parcel d c).1 < 512 ∧ skb.data = ntb ctx.txSeq (signOf (parcel d c).1) (parcel d c).1 (parcel d c).2 := by
  cases d with
  | mhiNet =>
    simp only [xmit,mhiNetXmit] at sent
    split at sent
    · cases sent
    · split at sent
      · exact fixupCarries c.skb skb sent
      · cases sent
  | mhiNetMbim =>
    simp only [xmit,mhiNdoXmit,MhiNetMbim.mhiNdoXmit,MhiNetMbim.cdcMbimTxFixup] at sent
    split at sent
    · split at sent
      · cases sent
      · cases sent
        exact ⟨by simp [parcel],rfl⟩
    · cases sent

end Sent

section Received
variable {link : Link} {alloc : Nat → Bool} {ctx : CdcMbimCtx} {seq : UInt16} {sign tci fuel : Nat} {p : Bytes}

theorem ntbWalked (fits : p.length+28 ≤ ctx.rxMax) (session : sessionOf (ntb seq sign tci p) 12 = some tci) :
    rxNtb link alloc ctx (ntb seq sign tci p) (fuel+1) = some ({ctx with rxSeq := seq+1},
      if link.accepts tci then (dpeLoop link alloc ctx.rxMax (ntb seq sign tci p) tci 2 20).1 else []) := by
  obtain ⟨signature,block,index,_,_,wLength,next,_⟩ := ntbFields seq sign tci p
  have size := ntbLength seq sign tci p
  have bounded : ctx.rxMax < 2 ^ 16 := by rw [ctx.bound]; decide
  have number : Wire.field (ntb seq sign tci p) 6 2 = Wire.le 2 seq.toNat := rfl
  have signRead : Wire.readLe (Wire.field (ntb seq sign tci p) 0 4) = usbCdcNcmNth16Sign := by rw [signature]; decide
  have blockRead : Wire.readLe (Wire.field (ntb seq sign tci p) 8 2) = 28+p.length := by rw [block]; exact readLe2 (by omega)
  have indexRead : Wire.readLe (Wire.field (ntb seq sign tci p) 10 2) = 12 := by rw [index]; exact readLe2 (by decide)
  have numberRead : UInt16.ofNat (Wire.readLe (Wire.field (ntb seq sign tci p) 6 2)) = seq := by
    rw [number,readLe2 seq.toNat_lt]
    exact UInt16.ofNat_toNat
  have wLengthRead : Wire.readLe (Wire.field (ntb seq sign tci p) 16 2) = 16 := by rw [wLength]; exact readLe2 (by decide)
  have nextRead : Wire.readLe (Wire.field (ntb seq sign tci p) 18 2) = 0 := by rw [next]; exact readLe2 (by decide)
  have whole : ¬ctx.rxMax < 28+p.length := by omega
  have ndp : ¬(ntb seq sign tci p).length < 12+8 := by omega
  have two : (16-8) / 4 = 2 := rfl
  have frames : ¬(ntb seq sign tci p).length < 8+2 * 4 := by omega
  have walked : ndpLoop link alloc ctx.rxMax (ntb seq sign tci p) (fuel+1) 12 =
      some (if link.accepts tci then (dpeLoop link alloc ctx.rxMax (ntb seq sign tci p) tci 2 20).1 else []) := by
    rw [ndpLoop]
    · simp only [sizeofNdp16,sizeofDpe16,if_neg ndp,wLengthRead,two,if_neg frames,session,nextRead]
      cases link.accepts tci with
      | false => rfl
      | true =>
        obtain ⟨chain,stop⟩ := dpeLoop link alloc ctx.rxMax (ntb seq sign tci p) tci 2 20
        cases stop with
        | true => rfl
        | false =>
          show (ndpLoop link alloc ctx.rxMax (ntb seq sign tci p) fuel 0).map (chain ++ ·) = some chain
          rw [ndpLoop,Option.map_some,List.append_nil]
    · intro zero
      cases zero
  have signed : ¬usbCdcNcmNth16Sign ≠ usbCdcNcmNth16Sign := not_not.mpr rfl
  rw [rxNtb]
  simp only [signRead,if_neg signed,blockRead,if_neg whole,indexRead,walked,numberRead,Option.map_some]

theorem dpeUnopened (fits : p.length+28 ≤ ctx.rxMax) (granted : ∀ n, alloc n = true)
    (unopened : p = [] ∨ datagramProtocol (Wire.peek p 0) = none) :
    (dpeLoop link alloc ctx.rxMax (ntb seq sign tci p) tci 2 20).1 = [] := by
  obtain ⟨_,_,_,_,_,_,_,offset,length,_⟩ := ntbFields seq sign tci p
  obtain ⟨body,first⟩ := ntbBody seq sign tci p
  have size := ntbLength seq sign tci p
  have bounded : ctx.rxMax < 2 ^ 16 := by rw [ctx.bound]; decide
  have offsetRead : Wire.readLe (Wire.field (ntb seq sign tci p) 20 2) = 28 := by rw [offset]; exact readLe2 (by decide)
  have lengthRead : Wire.readLe (Wire.field (ntb seq sign tci p) 22 2) = p.length := by rw [length]; exact readLe2 (by omega)
  rw [dpeLoop]
  simp only [offsetRead,lengthRead]
  by_cases empty : p.length = 0
  · rw [if_pos (.inr empty)]
  · have inside : ¬((ntb seq sign tci p).length < 28+p.length ∨ ctx.rxMax < p.length) := by omega
    have none : datagramProtocol (Wire.peek p 0) = none := unopened.resolve_left fun same => empty (by rw [same]; rfl)
    rw [if_neg (by omega),if_neg inside,granted,first,none]
    rfl

theorem ntbOpened (fits : p.length+28 ≤ ctx.rxMax) (known : tci < 512) (granted : ∀ n, alloc n = true) :
    rxNtb link alloc ctx (ntb seq (signOf tci) tci p) (fuel+1) =
      some ({ctx with rxSeq := seq+1},(opened link (tci,p)).toList) := by
  have bounded : ctx.rxMax < 2 ^ 16 := by rw [ctx.bound]; decide
  have session : sessionOf (ntb seq (signOf tci) tci p) 12 = some tci := sessionRead known
  rw [ntbWalked fits session,opened]
  cases accepted : link.accepts tci with
  | false => simp
  | true =>
    by_cases empty : p = []
    · rw [if_pos rfl,dpeUnopened fits granted (.inl empty)]
      simp [empty]
    · cases ip : datagramProtocol (Wire.peek p 0) with
      | none => simp [dpeUnopened fits granted (.inr ip)]
      | some protocol =>
        have filled : 0 < p.length := List.length_pos_iff.mpr empty
        simp [dpeDelivered filled fits bounded (granted _) ip,empty]

end Received

section Stream
variable {alloc : Nat → Bool} {devAddr : Bytes} {fuel : Nat} {ctx rxCtx : CdcMbimCtx}

theorem fixupOpened (e : Driver) {skb : Skb} {seq : UInt16} {tci : Nat} {p : Bytes} (fits : p.length+28 ≤ ctx.rxMax)
    (known : tci < 512)
    (granted : ∀ n, alloc n = true) (shape : skb.data = ntb seq (signOf tci) tci p) :
    cdcMbimRxFixup alloc devAddr (fuel+1) e ctx skb =
    some ({ctx with rxSeq := seq+1},(opened (linkOf devAddr e) (tci,p)).toList) := by
  cases e with
  | mhiNet =>
    simp only [cdcMbimRxFixup,CdcMbim.cdcMbimRxFixup,shape,longEnough,Bool.false_eq_true,if_false,linkOf,
      ntbOpened fits known granted,Option.map_some]
  | mhiNetMbim =>
    simp only [cdcMbimRxFixup,MhiNetMbim.cdcMbimRxFixup,shape,longEnough,Bool.false_eq_true,if_false,linkOf,
      ntbOpened fits known granted]

def parcels (d : Driver) (calls : List XmitCall) : List (Nat × Bytes) := (calls.filter (queued d)).map (parcel d)

theorem streamDelivered (d e : Driver) {calls : List XmitCall} (granted : ∀ n, alloc n = true)
    (fits : ∀ p ∈ parcels d calls, p.2.length+28 ≤ rxCtx.rxMax) :
    ∃ rxCtx', receiveAll alloc devAddr (fuel+1) e rxCtx (xmitAll d ctx calls).2 =
      some (rxCtx',(parcels d calls).filterMap (opened (linkOf devAddr e))) := by
  induction calls generalizing ctx rxCtx with
  | nil => exact ⟨rxCtx,rfl⟩
  | cons c calls ih =>
    obtain ⟨-,skipped,sent⟩ := xmitNumbers d ctx c
    rw [xmitAll]
    cases goes : queued d c with
    | false =>
      have same : parcels d (c :: calls) = parcels d calls := by simp [parcels,goes]
      rw [same] at fits ⊢
      rw [skipped goes]
      exact ih fits
    | true =>
      have same : parcels d (c :: calls) = parcel d c :: parcels d calls := by simp [parcels,goes]
      rw [same] at fits ⊢
      obtain ⟨here,later⟩ := List.forall_mem_cons.mp fits
      obtain ⟨skb,out,-⟩ := sent goes
      obtain ⟨known,shape⟩ := xmitCarries d c out
      have first := @fixupOpened alloc devAddr fuel rxCtx e skb ctx.txSeq (parcel d c).1 (parcel d c).2 here known granted shape
      obtain ⟨rxCtx',rest⟩ := @ih (xmit d ctx c).1 {rxCtx with rxSeq := ctx.txSeq+1} later
      refine ⟨rxCtx',?_⟩
      rw [out,Option.toList_some,List.singleton_append,receiveAll,first]
      simp only [Option.bind_eq_bind,Option.bind_some,rest,List.filterMap_cons]
      cases opened (linkOf devAddr e) (parcel d c) <;> rfl

end Stream

namespace Sample

theorem tagFits (tci : Nat) (session : tci < 2) : tci < 2 ^ 16 := by omega

def tagged (tci : Nat) (session : tci < 2) : XmitCall := MbimSequence.Sample.tagged tci (tagFits tci session)
def calls : List XmitCall := [tagged 1 Nat.one_lt_two,{tagged 0 Nat.two_pos with err := some .enomem},tagged 0 Nat.two_pos]

end Sample

theorem streamDeliveredSample : ∃ rxCtx', receiveAll (fun _ => true)
    [] 1 .mhiNetMbim cdcMbimBind (xmitAll .mhiNet cdcMbimBind Sample.calls).2 =
    some (rxCtx',[⟨ethPIp,[],none,[0x45]⟩]) :=
  @streamDelivered (fun _ => true) [] 0 cdcMbimBind cdcMbimBind .mhiNet .mhiNetMbim Sample.calls (fun _ => rfl) (by decide)

end MhiHost.MbimStream
