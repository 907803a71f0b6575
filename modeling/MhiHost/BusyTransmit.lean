import MhiHost.MbimSequence

/-! What a busy transmit leaves behind. The core keeps the packet and offers it again later;
the framing is written into the packet itself. -/
namespace MhiHost.BusyTransmit
open Mbim
open NetRing (mhiGetFreeDescCount)

inductive NetdevTx where
  | ok | busy
  deriving DecidableEq, Repr

inductive Fate where
  | freed
  | queued (skb : Skb)
  | kept (skb : Skb)
  deriving DecidableEq, Repr

def Fate.ntb : Fate → Option Skb
  | .queued skb => some skb
  | _ => none

structure Netdev (σ : Type) where
  port : Port
  data : σ
  halt : Bool
  stopped : Bool
  txDropped : Nat

structure Offer where
  skb : Skb
  cb : Nat
  head : Nat
  reply : DmaReply
  meanwhile : Port → Port

structure Sent (σ : Type) where
  ret : NetdevTx
  dev : Netdev σ
  fate : Fate

def queue (p : Port) (x : Offer) (skb : Skb) : Port × Option Errno :=
  mhiQueueSkb p x.cb (x.head+skb.headroom) skb.data.length MhiFlags.eot x.reply

section Drivers
variable {σ : Type}

def Netdev.drop (dev : Netdev σ) : Sent σ := ⟨.ok,{dev with txDropped := dev.txDropped+1},.freed⟩

/- `tx_fixup` is one of the fields a `driver_info` may leave out. -/
def mhiNetXmit (txFixup : Option (σ → Skb → Option Skb × σ)) (dev : Netdev σ) (x : Offer) : Sent σ :=
  if dev.halt then dev.drop
  else
    let noTre := mhiGetFreeDescCount dev.port
    if noTre = 0 then ⟨.busy,{dev with stopped := true},.kept x.skb⟩
    else
      let dev := {dev with stopped := dev.stopped || decide (noTre = 1)}
      let fixed := match txFixup with
        | some fixup => fixup dev.data x.skb
        | none => (some x.skb,dev.data)
      let dev := {dev with data := fixed.2}
      match fixed.1 with
      | none => dev.drop
      | some skb =>
        let out := queue (x.meanwhile dev.port) x skb
        let dev := {dev with port := out.1}
        if out.2.isSome then {dev with stopped := true}.drop else ⟨.ok,dev,.queued skb⟩

/- `mhi_net_mbim.c` does not count first. -/
def mhiNdoXmit (dev : Netdev CdcMbimCtx) (x : Offer) : Sent CdcMbimCtx :=
  let fixed := MhiNetMbim.cdcMbimTxFixup dev.data x.skb 0
  let dev := {dev with data := fixed.2}
  match fixed.1 with
  | none => dev.drop
  | some skb =>
    let out := queue (x.meanwhile dev.port) x skb
    let dev := {dev with port := out.1}
    match out.2 with
    | none => ⟨.ok,dev,.queued skb⟩
    | some .enomem => ⟨.busy,{dev with stopped := true},.kept skb⟩
    | some _ => dev.drop

/- The attempts of the core at one packet, each in whatever state the device is in then.
Nothing else is transmitted in between, so only the framing data is carried over. -/
def attempts (xmit : Netdev σ → Offer → Sent σ) : σ → Skb → List (Netdev σ × Offer) → Option Skb
  | _,_,[] => none
  | data,skb,(dev,x)::later =>
    let out := xmit {dev with data := data} {x with skb := skb}
    match out.fate with
    | .freed => none
    | .queued ntb => some ntb
    | .kept skb => attempts xmit out.dev.data skb later

structure Untouched (xmit : Netdev σ → Offer → Sent σ) (dev : Netdev σ) (x : Offer) : Prop where
  packet : (xmit dev x).fate = .kept x.skb
  data : (xmit dev x).dev.data = dev.data
  retried : ∀ later ntb, attempts xmit (xmit dev x).dev.data x.skb later = some ntb → ∀ (dev' : Netdev σ) (x' : Offer) first,
    dev'.data = dev.data → x'.skb = x.skb → (xmit dev' x').fate = .queued first → ntb = first

def BusyHarmless (xmit : Netdev σ → Offer → Sent σ) (dev : Netdev σ) (x : Offer) : Prop :=
  (xmit dev x).ret = .busy → Untouched xmit dev x

end Drivers

/-! `mhi_net.c`. -/
section Counted
variable {σ : Type} {txFixup : Option (σ → Skb → Option Skb × σ)} {dev : Netdev σ} {x : Offer}

def framed (txFixup : Option (σ → Skb → Option Skb × σ)) (data : σ) (skb : Skb) : Option Skb :=
  match txFixup with
  | some fixup => (fixup data skb).1
  | none => some skb

theorem netCases : mhiNetXmit txFixup dev x = ⟨.busy,{dev with stopped := true},.kept x.skb⟩ ∨
    ((mhiNetXmit txFixup dev x).ret = .ok ∧ (mhiNetXmit txFixup dev x).fate = .freed) ∨
    ∃ ntb, framed txFixup dev.data x.skb = some ntb ∧ (mhiNetXmit txFixup dev x).ret = .ok ∧
      (mhiNetXmit txFixup dev x).fate = .queued ntb := by
  unfold mhiNetXmit
  by_cases halted : dev.halt = true
  · rw [if_pos halted]
    exact .inr (.inl ⟨rfl,rfl⟩)
  · rw [if_neg halted]
    dsimp only
    by_cases full : mhiGetFreeDescCount dev.port = 0
    · rw [if_pos full]
      exact .inl rfl
    · rw [if_neg full]
      right
      have fixes : framed txFixup dev.data x.skb = (match txFixup with
          | some fixup => fixup dev.data x.skb
          | none => (some x.skb,dev.data)).1 := by
        cases txFixup <;> rfl
      rw [fixes]
      generalize (match txFixup with
        | some fixup => fixup dev.data x.skb
        | none => (some x.skb,dev.data)) = fixed
      cases built : fixed.1 with
      | none => exact .inl ⟨rfl,rfl⟩
      | some skb =>
        dsimp only
        split
        · exact .inl ⟨rfl,rfl⟩
        · exact .inr ⟨skb,rfl,rfl,rfl⟩

theorem netQueued {ntb : Skb} (queued : (mhiNetXmit txFixup dev x).fate = .queued ntb) :
    framed txFixup dev.data x.skb = some ntb := by
  rcases netCases with busy | ⟨-,freed⟩ | ⟨sent,frames,-,fate⟩
  · rw [busy] at queued
    cases queued
  · rw [freed] at queued
    cases queued
  · rw [fate] at queued
    cases queued
    exact frames

theorem netAttempts {data : σ} {skb ntb : Skb} {later : List (Netdev σ × Offer)}
    (queued : attempts (mhiNetXmit txFixup) data skb later = some ntb) : framed txFixup data skb = some ntb := by
  induction later with
  | nil => cases queued
  | cons next later ih =>
    obtain ⟨dev,x⟩ := next
    rw [attempts] at queued
    rcases @netCases σ txFixup {dev with data := data} {x with skb := skb} with busy | ⟨-,freed⟩ | ⟨sent,frames,-,fate⟩
    · rw [busy] at queued
      exact ih queued
    · rw [freed] at queued
      cases queued
    · rw [fate] at queued
      exact frames.trans queued

theorem netHarmless : BusyHarmless (mhiNetXmit txFixup) dev x := by
  intro busy
  rcases netCases with untouched | ⟨ok,-⟩ | ⟨_,-,ok,-⟩
  · refine ⟨by rw [untouched],by rw [untouched],?_⟩
    intro later ntb queued dev' x' first data skb sent
    rw [untouched] at queued
    have again := netAttempts queued
    have once := netQueued sent
    rw [data,skb] at once
    exact Option.some.inj (again.symm.trans once)
  · rw [ok] at busy
    cases busy
  · rw [ok] at busy
    cases busy

end Counted

/-! `mhi_net_mbim.c`. -/
section Uncounted
variable {dev : Netdev CdcMbimCtx} {x : Offer}

def NoMemory (p : Port) (reply : DmaReply) : Prop :=
  p.chan.preAlloc = false ∧
    (mhiIsRingFull p.chan.treRing = true ∨ mhiPmInErrorState p.cntrl.pmState = false ∧ reply.ok = false)

theorem mapAnswer (p : Port) (info : BufInfo) (unmapped : info.preMapped = false) (flags : Nat) (reply : DmaReply) :
    (mhiGenTre p info flags reply).2 = if reply.ok then none else some .enomem := by
  have mapped : (fillBufInfo p info reply).2 = if reply.ok then none else some .enomem := by
    simp only [fillBufInfo,unmapped,Bool.false_eq_true,if_false,mapSingle,mhiMapSingleUseBb,mhiMapSingleNoBb]
    cases p.cntrl.bounceBuf <;> cases reply.ok <;> rfl
  rw [mhiGenTre]
  cases ok : reply.ok with
  | true =>
    rw [ok] at mapped
    simp only [mapped]
    rfl
  | false =>
    rw [ok] at mapped
    simp only [mapped]
    rfl

theorem queueAnswer (p : Port) (skb : Skb) : (queue p x skb).2 = some .enomem ↔ NoMemory p x.reply := by
  unfold queue mhiQueueSkb queueLocked NoMemory
  cases p.chan.preAlloc with
  | true => simp
  | false =>
    cases mhiIsRingFull p.chan.treRing with
    | true => simp
    | false =>
      cases mhiPmInErrorState p.cntrl.pmState with
      | true => simp
      | false =>
        have answer := mapAnswer {p with cntrl := wakeToggle (resumeIfSuspended p.cntrl)}
          {BufInfo.zero with vAddr := x.head+skb.headroom, cbBuf := x.cb, len := skb.data.length} rfl MhiFlags.eot x.reply
        simp only [Bool.false_eq_true,if_false,true_and,false_or]
        generalize mhiGenTre _ _ _ _ = out at answer
        obtain ⟨p',err⟩ := out
        have answer : err = if x.reply.ok then none else some .enomem := answer
        subst answer
        cases x.reply.ok <;> simp

theorem ndoWrapped (roomy : sizeofCdcMbimHdr ≤ x.skb.headroom) (noMemory : NoMemory (x.meanwhile dev.port) x.reply) :
    (mhiNdoXmit dev x).ret = .busy ∧
    (mhiNdoXmit dev x).fate = .kept (pushHdr dev.data usbCdcMbimNdp16IpsSign 0 x.skb).1 ∧
    (mhiNdoXmit dev x).dev.data = {dev.data with txSeq := dev.data.txSeq+1} := by
  have answer := (queueAnswer (x.meanwhile dev.port) (pushHdr dev.data usbCdcMbimNdp16IpsSign 0 x.skb).1).mpr noMemory
  have fixed : MhiNetMbim.cdcMbimTxFixup dev.data x.skb 0 =
      (some (pushHdr dev.data usbCdcMbimNdp16IpsSign 0 x.skb).1,{dev.data with txSeq := dev.data.txSeq+1}) := by
    rw [MhiNetMbim.cdcMbimTxFixup,if_neg (Nat.not_lt.mpr roomy)]
    rfl
  unfold mhiNdoXmit
  simp only [fixed,answer,and_self]

theorem ndoBusy : (mhiNdoXmit dev x).ret = .busy ↔ sizeofCdcMbimHdr ≤ x.skb.headroom ∧
    NoMemory (x.meanwhile dev.port) x.reply := by
  refine ⟨fun busy => ?_,fun wrapped => (ndoWrapped wrapped.1 wrapped.2).1⟩
  unfold mhiNdoXmit at busy
  rcases Nat.lt_or_ge x.skb.headroom sizeofCdcMbimHdr with tight | roomy
  · have fixed : MhiNetMbim.cdcMbimTxFixup dev.data x.skb 0 = (none,dev.data) := by
      rw [MhiNetMbim.cdcMbimTxFixup,if_pos tight]
    simp only [fixed] at busy
    cases busy
  · refine ⟨roomy,?_⟩
    rw [MhiNetMbim.cdcMbimTxFixup,if_neg (Nat.not_lt.mpr roomy)] at busy
    dsimp only at busy
    rw [← @queueAnswer x (x.meanwhile dev.port) (pushHdr dev.data usbCdcMbimNdp16IpsSign (0 : UInt8).toNat x.skb).1]
    cases answer : (queue (x.meanwhile dev.port) x (pushHdr dev.data usbCdcMbimNdp16IpsSign (0 : UInt8).toNat x.skb).1).2 with
    | none =>
      rw [answer] at busy
      cases busy
    | some e =>
      rw [answer] at busy
      cases e with
      | enomem => rfl
      | _ => cases busy

theorem pushLonger (ctx : CdcMbimCtx) (sign tci : Nat) (skb : Skb) :
    (pushHdr ctx sign tci skb).1.data.length = 28+skb.data.length :=
  ntbLength ctx.txSeq sign tci skb.data

theorem ndoHarmless : BusyHarmless mhiNdoXmit dev x ↔ x.skb.headroom < sizeofCdcMbimHdr ∨
    ¬NoMemory (x.meanwhile dev.port) x.reply := by
  constructor
  · intro harmless
    rcases Nat.lt_or_ge x.skb.headroom sizeofCdcMbimHdr with tight | roomy
    · exact .inl tight
    · refine .inr fun noMemory => ?_
      obtain ⟨busy,wrapped,-⟩ := ndoWrapped roomy noMemory
      have same : (pushHdr dev.data usbCdcMbimNdp16IpsSign 0 x.skb).1 = x.skb :=
        Fate.kept.inj (wrapped.symm.trans (harmless busy).packet)
      have longer := pushLonger dev.data usbCdcMbimNdp16IpsSign 0 x.skb
      rw [same] at longer
      omega
  · intro condition busy
    obtain ⟨roomy,noMemory⟩ := ndoBusy.mp busy
    rcases condition with tight | memory
    · exact absurd tight (Nat.not_lt.mpr roomy)
    · exact absurd noMemory memory

end Uncounted

/-! The calls of the sequence numbers, which take the answer of `mhi_queue_skb` as given. -/
section Sequence

theorem netSequenced (dev : Netdev CdcMbimCtx) (x : Offer) : MbimSequence.mhiNetXmit dev.data
    ⟨dev.halt,mhiGetFreeDescCount dev.port,x.skb,(CdcMbim.cdcMbimTxFixup dev.data x.skb).1.bind
      fun skb => (queue (x.meanwhile dev.port) x skb).2⟩ =
      ((mhiNetXmit (some CdcMbim.cdcMbimTxFixup) dev x).dev.data,(mhiNetXmit (some CdcMbim.cdcMbimTxFixup) dev x).fate.ntb) := by
  unfold MbimSequence.mhiNetXmit mhiNetXmit
  dsimp only
  by_cases halted : dev.halt = true
  · rw [if_pos (.inl halted),if_pos halted]
    rfl
  · by_cases full : mhiGetFreeDescCount dev.port = 0
    · rw [if_pos (.inr full),if_neg halted,if_pos full]
      rfl
    · rw [if_neg (not_or.mpr ⟨halted,full⟩),if_neg halted,if_neg full]
      generalize CdcMbim.cdcMbimTxFixup dev.data x.skb = fixed
      obtain ⟨built,ctx⟩ := fixed
      cases built with
      | none => rfl
      | some skb =>
        dsimp only [Option.bind_some]
        rcases Option.eq_none_or_eq_some (queue (x.meanwhile dev.port) x skb).2 with answer | ⟨e,answer⟩
        · simp [answer,Fate.ntb]
        · simp [answer,Netdev.drop,Fate.ntb]

theorem ndoSequenced (dev : Netdev CdcMbimCtx) (x : Offer) : MbimSequence.mhiNdoXmit dev.data
    ⟨dev.halt,mhiGetFreeDescCount dev.port,x.skb,(MhiNetMbim.cdcMbimTxFixup dev.data x.skb 0).1.bind
      fun skb => (queue (x.meanwhile dev.port) x skb).2⟩ =
      ((mhiNdoXmit dev x).dev.data,(mhiNdoXmit dev x).fate.ntb) := by
  unfold MbimSequence.mhiNdoXmit mhiNdoXmit Mbim.MhiNetMbim.mhiNdoXmit
  dsimp only
  generalize MhiNetMbim.cdcMbimTxFixup dev.data x.skb 0 = fixed
  obtain ⟨built,ctx⟩ := fixed
  cases built with
  | none => rfl
  | some skb =>
    dsimp only [Option.bind_some]
    rcases Option.eq_none_or_eq_some (queue (x.meanwhile dev.port) x skb).2 with answer | ⟨e,answer⟩
    · simp [answer,Fate.ntb]
    · cases e <;> simp [answer,Netdev.drop,Fate.ntb]

end Sequence

theorem busyUntouched {σ : Type} (txFixup : Option (σ → Skb → Option Skb × σ)) (net : Netdev σ) (ndo : Netdev CdcMbimCtx)
    (x : Offer) :
    BusyHarmless (mhiNetXmit txFixup) net x ∧
      (BusyHarmless mhiNdoXmit ndo x ↔ x.skb.headroom < sizeofCdcMbimHdr ∨ ¬NoMemory (x.meanwhile ndo.port) x.reply) :=
  ⟨netHarmless,ndoHarmless⟩

namespace Sample
def full : Netdev CdcMbimCtx := ⟨TxQueue.Sample.full.port,cdcMbimBind,false,false,0⟩
def drained : Netdev CdcMbimCtx := {full with port := TransferFifo.uplinkPort}
def offer : Offer := ⟨⟨56,[0x45]⟩,0x20,0x1000,⟨0x9000,0,true⟩,id⟩
end Sample

theorem busyFramesTwice : ¬BusyHarmless mhiNdoXmit Sample.full Sample.offer ∧
    (mhiNdoXmit Sample.full Sample.offer).ret = .busy ∧
    (mhiNdoXmit Sample.full Sample.offer).fate = .kept ⟨28,ntb 0 usbCdcMbimNdp16IpsSign 0 [0x45]⟩ ∧
    (mhiNdoXmit Sample.full Sample.offer).dev.data.txSeq = 1 ∧
    attempts mhiNdoXmit cdcMbimBind Sample.offer.skb [(Sample.drained,Sample.offer)] =
      some ⟨28,ntb 0 usbCdcMbimNdp16IpsSign 0 [0x45]⟩ ∧
    attempts mhiNdoXmit cdcMbimBind Sample.offer.skb [(Sample.full,Sample.offer),(Sample.drained,Sample.offer)] =
      some ⟨0,ntb 1 usbCdcMbimNdp16IpsSign 0 (ntb 0 usbCdcMbimNdp16IpsSign 0 [0x45])⟩ := by
  refine ⟨fun harmless => ?_,by decide,by decide,by decide,by decide,by decide⟩
  exact absurd (harmless (by decide)).data (by decide)

end MhiHost.BusyTransmit
