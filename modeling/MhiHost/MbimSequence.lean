import MhiHost.Mbim
import MhiHost.TxQueue

/-! Sequence numbers over a run of transmit calls. A frame takes its number while its
header is written; whether it is queued is decided after that, by the rest of `tx_fixup`
and by `mhi_queue_skb`. -/
namespace MhiHost.MbimSequence
open Mbim
open TxQueue (Driver)

structure XmitCall where
  halted : Bool
  noTre : Int
  skb : Skb
  err : Option Errno
  deriving DecidableEq, Repr

def mhiNetXmit (ctx : CdcMbimCtx) (c : XmitCall) : CdcMbimCtx × Option Skb :=
  if c.halted ∨ c.noTre = 0 then (ctx,none)
  else
    let out := CdcMbim.cdcMbimTxFixup ctx c.skb
    (out.2,if c.err.isNone then out.1 else none)

def mhiNdoXmit (ctx : CdcMbimCtx) (c : XmitCall) : CdcMbimCtx × Option Skb :=
  let out := MhiNetMbim.mhiNdoXmit ctx c.skb
  (out.2,if c.err.isNone then out.1 else none)

def xmit : Driver → CdcMbimCtx → XmitCall → CdcMbimCtx × Option Skb
  | .mhiNet => mhiNetXmit
  | .mhiNetMbim => mhiNdoXmit

def xmitAll (d : Driver) : CdcMbimCtx → List XmitCall → CdcMbimCtx × List Skb
  | ctx,[] => (ctx,[])
  | ctx,c :: rest =>
    let one := xmit d ctx c
    let more := xmitAll d one.1 rest
    (more.1,one.2.toList ++ more.2)

def wSequence (ntb : Skb) : UInt16 := UInt16.ofNat (Wire.readLe (Wire.field ntb.data 6 2))

/- The rule of `cdc_mbim_rx_fixup`: the NTBs whose number is not the one expected. -/
def glitches : UInt16 → List Skb → List Skb
  | _,[] => []
  | rxSeq,ntb :: rest => (if rxSeq ≠ wSequence ntb then [ntb] else []) ++ glitches (wSequence ntb+1) rest

structure Continuous (rxSeq : UInt16) (ntbs : List Skb) : Prop where
  consecutive : (ntbs.map wSequence).IsChain fun a b => b = a+1
  glitchless : glitches rxSeq ntbs = []

def numberedTci (skb : Skb) : Option Nat :=
  let numbers := fun (tci : Nat) (isIp : Bool) (skb : Skb) =>
    if isIp ∧ sizeofCdcMbimHdr ≤ skb.headroom then some tci else none
  if skb.data.length ≤ ethHlen then none
  else match (if vlanEthHlen < skb.data.length then vlanGetTag skb.data else none) with
    | some tci => numbers tci (isIpProto (hVlanEncapsulatedProto skb.data)) (skb.pull vlanEthHlen)
    | none => numbers 0 (isIpProto (hProto skb.data)) (skb.pull ethHlen)

def numbered : Driver → XmitCall → Bool
  | .mhiNet,c => !c.halted && decide (c.noTre ≠ 0) && (numberedTci c.skb).isSome
  | .mhiNetMbim,c => decide (sizeofCdcMbimHdr ≤ c.skb.headroom)

def rejected : Driver → XmitCall → Bool
  | .mhiNet,c => (numberedTci c.skb).any fun tci => decide (512 ≤ tci)
  | .mhiNetMbim,_ => false

def queued (d : Driver) (c : XmitCall) : Bool := numbered d c && !rejected d c && c.err.isNone
def wasted (d : Driver) (c : XmitCall) : Bool := numbered d c && (rejected d c || c.err.isSome)

/- Ahead of every frame that is queued, the numbers taken in vain make whole turns. -/
def WholeTurns (d : Driver) (calls : List XmitCall) : Prop :=
  ∀ front c back, calls = front ++ c :: back → queued d c = true → 65536 ∣ (front.filter (wasted d)).length

theorem pushedSequence (ctx : CdcMbimCtx) (sign tci : Nat) (skb : Skb) : wSequence (pushHdr ctx sign tci skb).1 = ctx.txSeq := by
  have bytes : Wire.field (pushHdr ctx sign tci skb).1.data 6 2 = Wire.le 2 ctx.txSeq.toNat := rfl
  rw [wSequence,bytes,readLe2 ctx.txSeq.toNat_lt]
  exact UInt16.ofNat_toNat

def Numbers (ctx : CdcMbimCtx) (session : Option Nat) (out : Option Skb × CdcMbimCtx) : Prop :=
  match session with
  | none => out = (none,ctx)
  | some tci => ∃ ntb, wSequence ntb = ctx.txSeq ∧
      out = (if tci < 512 then some ntb else none,{ctx with txSeq := ctx.txSeq+1})

theorem sendNumbers (ctx : CdcMbimCtx) (tci : Nat) (isIp : Bool) (skb : Skb) :
    Numbers ctx (if isIp = true ∧ sizeofCdcMbimHdr ≤ skb.headroom then some tci else none)
      (if !isIp then (none,ctx)
      else if skb.headroom < sizeofCdcMbimHdr then (none,ctx)
      else
        let out := pushHdr ctx (if tci < 256 then usbCdcMbimNdp16IpsSign else usbCdcMbimNdp16DssSign) tci skb
        (if tci < 512 then some out.1 else none,out.2)) := by
  cases isIp with
  | false => exact rfl
  | true =>
    rcases Nat.lt_or_ge skb.headroom sizeofCdcMbimHdr with tight | roomy
    · have neither : ¬(true = true ∧ sizeofCdcMbimHdr ≤ skb.headroom) := fun both => Nat.not_lt.mpr both.2 tight
      rw [if_neg neither,if_neg (by decide),if_pos tight]
      exact rfl
    · rw [if_pos ⟨rfl,roomy⟩,if_neg (by decide),if_neg (Nat.not_lt.mpr roomy)]
      exact ⟨_,pushedSequence ctx _ tci skb,rfl⟩

theorem fixupNumbers (ctx : CdcMbimCtx) (skb : Skb) :
    Numbers ctx (numberedTci skb) (CdcMbim.cdcMbimTxFixup ctx skb) := by
  unfold numberedTci CdcMbim.cdcMbimTxFixup
  dsimp only
  by_cases short : skb.data.length ≤ ethHlen
  · rw [if_pos short,if_pos short]
    exact rfl
  · rw [if_neg short,if_neg short]
    cases (if vlanEthHlen < skb.data.length then vlanGetTag skb.data else none) with
    | some tci => exact sendNumbers ctx tci _ _
    | none => exact sendNumbers ctx 0 _ _

theorem xmitNumbers (d : Driver) (ctx : CdcMbimCtx) (c : XmitCall) :
    (xmit d ctx c).1 = (if numbered d c then {ctx with txSeq := ctx.txSeq+1} else ctx) ∧
    (queued d c = false → (xmit d ctx c).2 = none) ∧
    (queued d c = true → ∃ ntb, (xmit d ctx c).2 = some ntb ∧ wSequence ntb = ctx.txSeq) := by
  cases d with
  | mhiNetMbim =>
    rcases Nat.lt_or_ge c.skb.headroom sizeofCdcMbimHdr with tight | roomy
    · have unnumbered : numbered .mhiNetMbim c = false := decide_eq_false (Nat.not_le.mpr tight)
      simp [xmit,mhiNdoXmit,MhiNetMbim.mhiNdoXmit,MhiNetMbim.cdcMbimTxFixup,if_pos tight,queued,unnumbered]
    · have number : numbered .mhiNetMbim c = true := decide_eq_true roomy
      have sequence := pushedSequence ctx usbCdcMbimNdp16IpsSign 0 c.skb
      simp only [xmit,mhiNdoXmit,MhiNetMbim.mhiNdoXmit,MhiNetMbim.cdcMbimTxFixup,if_neg (Nat.not_lt.mpr roomy),queued,
        number,rejected]
      cases c.err with
      | none => exact ⟨rfl,Bool.noConfusion,fun _ => ⟨_,rfl,sequence⟩⟩
      | some e => exact ⟨rfl,fun _ => rfl,Bool.noConfusion⟩
  | mhiNet =>
    have fixup := fixupNumbers ctx c.skb
    by_cases early : c.halted = true ∨ c.noTre = 0
    · have unnumbered : numbered .mhiNet c = false := by
        rcases early with halted | none
        · simp [numbered,halted]
        · simp [numbered,none]
      simp [xmit,mhiNetXmit,if_pos early,queued,unnumbered]
    · have running : (!c.halted && decide (c.noTre ≠ 0)) = true := by
        have split := not_or.mp early
        simp [split.1,split.2]
      simp only [xmit,mhiNetXmit,if_neg early,queued,numbered,running,rejected,Bool.true_and]
      cases session : numberedTci c.skb with
      | none =>
        rw [session] at fixup
        have out : CdcMbim.cdcMbimTxFixup ctx c.skb = (none,ctx) := fixup
        simp [out]
      | some tci =>
        rw [session] at fixup
        obtain ⟨ntb,sequence,out⟩ := fixup
        rw [out]
        rcases Nat.lt_or_ge tci 512 with known | unknown
        · have taken : decide (512 ≤ tci) = false := decide_eq_false (Nat.not_le.mpr known)
          rw [if_pos known]
          cases c.err with
          | none => simp [taken,sequence]
          | some e => simp
        · have refused : decide (512 ≤ tci) = true := decide_eq_true unknown
          rw [if_neg (Nat.not_lt.mpr unknown)]
          simp [refused]

def Turns (d : Driver) (w : Nat) (calls : List XmitCall) : Prop :=
  ∀ front c back, calls = front ++ c :: back → queued d c = true → 65536 ∣ w+(front.filter (wasted d)).length

theorem turnsCons {d : Driver} {w : Nat} {c : XmitCall} {rest : List XmitCall} :
    Turns d w (c :: rest) ↔ (queued d c = true → 65536 ∣ w) ∧ Turns d (w+if wasted d c then 1 else 0) rest := by
  have shift : ∀ front : List XmitCall, w+((c :: front).filter (wasted d)).length =
      (w+if wasted d c then 1 else 0)+(front.filter (wasted d)).length := by
    intro front
    rw [List.filter_cons]
    split
    · rw [List.length_cons]
      omega
    · omega
  constructor
  · intro turns
    refine ⟨fun goes => turns [] c rest rfl goes,?_⟩
    intro front next back split goes
    rw [← shift]
    exact turns (c :: front) next back (by rw [split]; rfl) goes
  · rintro ⟨first,later⟩ front next back split goes
    cases front with
    | nil =>
      cases split
      exact first goes
    | cons head front =>
      cases split
      rw [shift]
      exact later front next back rfl goes

theorem queuedNumbered {d : Driver} {c : XmitCall} (goes : queued d c = true) : numbered d c = true ∧ wasted d c = false := by
  have parts : (numbered d c = true ∧ rejected d c = false) ∧ c.err.isNone = true := by
    simpa [queued] using goes
  obtain ⟨⟨number,taken⟩,accepted⟩ := parts
  have answered : c.err.isSome = false := by
    rw [Option.isNone_iff_eq_none.mp accepted]
    rfl
  exact ⟨number,by rw [wasted,number,taken,answered]; rfl⟩

theorem unqueuedWasted {d : Driver} {c : XmitCall} (stays : queued d c = false) : wasted d c = numbered d c := by
  unfold queued at stays
  unfold wasted
  cases number : numbered d c with
  | false => rfl
  | true =>
    cases refused : rejected d c with
    | true => rfl
    | false =>
      rw [number,refused] at stays
      cases err : c.err with
      | none =>
        rw [err] at stays
        cases stays
      | some e => rfl

theorem ofNatZero (w : Nat) : UInt16.ofNat w = 0 ↔ 65536 ∣ w := by
  rw [← UInt16.toNat_inj,UInt16.toNat_ofNat',Nat.dvd_iff_mod_eq_zero]
  exact Iff.rfl

theorem glitchlessTurns {d : Driver} {calls : List XmitCall} {ctx : CdcMbimCtx} {rxSeq : UInt16} {w : Nat}
    (ahead : ctx.txSeq = rxSeq+UInt16.ofNat w) : glitches rxSeq (xmitAll d ctx calls).2 = [] ↔ Turns d w calls := by
  induction calls generalizing ctx rxSeq w with
  | nil =>
    refine ⟨fun _ front c back split => ?_,fun _ => rfl⟩
    cases front <;> cases split
  | cons c rest ih =>
    obtain ⟨counter,skipped,sent⟩ := xmitNumbers d ctx c
    rw [turnsCons,xmitAll]
    dsimp only
    cases goes : queued d c with
    | true =>
      obtain ⟨number,kept⟩ := queuedNumbered goes
      obtain ⟨ntb,out,sequence⟩ := sent goes
      rw [number,if_pos rfl] at counter
      rw [out,counter,kept,if_neg Bool.false_ne_true,Nat.add_zero,Option.toList_some,List.singleton_append,glitches,sequence]
      have expected : rxSeq = ctx.txSeq ↔ 65536 ∣ w := by
        rw [ahead,← ofNatZero,UInt16.left_eq_add]
      by_cases turn : 65536 ∣ w
      · have same : ¬rxSeq ≠ ctx.txSeq := not_not.mpr (expected.mpr turn)
        have on : ({ctx with txSeq := ctx.txSeq+1} : CdcMbimCtx).txSeq = ctx.txSeq+1+UInt16.ofNat w := by
          rw [(ofNatZero w).mpr turn,UInt16.add_zero]
        rw [if_neg same,List.nil_append,ih on]
        exact ⟨fun later => ⟨fun _ => turn,later⟩,fun both => both.2⟩
      · have differs : rxSeq ≠ ctx.txSeq := fun same => turn (expected.mp same)
        rw [if_pos differs]
        exact ⟨(fun none => by cases none),fun both => absurd (both.1 rfl) turn⟩
    | false =>
      rw [skipped goes,unqueuedWasted goes]
      show glitches rxSeq (xmitAll d (xmit d ctx c).1 rest).2 = [] ↔ _
      have on : (xmit d ctx c).1.txSeq = rxSeq+UInt16.ofNat (w+if numbered d c then 1 else 0) := by
        rw [counter]
        cases numbered d c with
        | true =>
          show ctx.txSeq+1 = rxSeq+UInt16.ofNat (w+1)
          rw [ahead,UInt16.ofNat_add,UInt16.add_assoc]
          rfl
        | false => exact ahead
      rw [ih on]
      exact ⟨fun later => ⟨(fun none => nomatch none),later⟩,fun both => both.2⟩

theorem glitchlessChain {rxSeq : UInt16} {ntbs : List Skb} (none : glitches rxSeq ntbs = []) :
    (ntbs.map wSequence).IsChain fun a b => b = a+1 := by
  induction ntbs generalizing rxSeq with
  | nil => exact .nil
  | cons ntb rest ih =>
    have later := ih (List.append_eq_nil_iff.mp none).2
    cases rest with
    | nil => exact .singleton _
    | cons next rest =>
      refine .cons_cons ?_ later
      have first := (List.append_eq_nil_iff.mp (List.append_eq_nil_iff.mp none).2).1
      by_contra differs
      rw [if_pos (Ne.symm differs)] at first
      cases first

theorem sequenceContinuous (d : Driver) (ctx : CdcMbimCtx) (calls : List XmitCall) :
    Continuous ctx.txSeq (xmitAll d ctx calls).2 ↔ WholeTurns d calls := by
  have inStep : ctx.txSeq = ctx.txSeq+UInt16.ofNat 0 := (UInt16.add_zero _).symm
  have turns : Turns d 0 calls ↔ WholeTurns d calls := by
    unfold Turns WholeTurns
    simp only [Nat.zero_add]
  rw [← turns,← glitchlessTurns inStep]
  exact ⟨fun continuous => continuous.glitchless,fun none => ⟨glitchlessChain none,none⟩⟩

namespace Sample

def frame (tci : Nat) (fits : tci < 2 ^ 16) : IpFrame :=
  {sampleFrame with tag := some (ethP8021q,tci), tagged := by rintro tpid t same; cases same; exact ⟨rfl,fits⟩}
def raw (err : Option Errno) : XmitCall := ⟨false,100,⟨28,[0x45]⟩,err⟩
def tagged (tci : Nat) (fits : tci < 2 ^ 16) : XmitCall := ⟨false,100,⟨16,(frame tci fits).bytes⟩,none⟩

def full : List XmitCall := [raw none,raw (some .enomem),raw none]
def unknown : List XmitCall := [tagged 1 (by decide),tagged 600 (by decide),tagged 1 (by decide)]

end Sample

theorem numbersSkipped :
    (¬∀ ctx calls, Continuous ctx.txSeq (xmitAll .mhiNetMbim ctx calls).2) ∧
    ¬∀ ctx calls, Continuous ctx.txSeq (xmitAll .mhiNet ctx calls).2 := by
  constructor
  · intro claim
    exact absurd (claim cdcMbimBind Sample.full).glitchless (by decide)
  · intro claim
    exact absurd (claim cdcMbimBind Sample.unknown).glitchless (by decide)

end MhiHost.MbimSequence
