import Mathlib.Data.List.TakeWhile
import MhiHost.MbimBlocks

/-! The MBIM drivers on a host of either byte order. A number reaches memory in the order of
the host, so each field takes one conversion on the way out and one on the way in. -/
namespace MhiHost.HostOrder
open Mbim
open MbimDecoders (Rcvd)
open MbimBlocks (Dpe dpeAt tableAt table listed)
open Wire (Bytes)

section Fields
variable (bigEndian : Bool)

def store (width n : Nat) : Bytes := if bigEndian then Wire.be width n else Wire.le width n
def load (raw : Bytes) : Nat := if bigEndian then Wire.readBe raw else Wire.readLe raw

def swab (width n : Nat) : Nat := Wire.readLe (Wire.be width n)

def cpuToLe (width n : Nat) : Nat := if bigEndian then swab width n else n % 256 ^ width
def leToCpu (width n : Nat) : Nat := if bigEndian then swab width n else n

end Fields

def cdcMbimHdr (bigEndian : Bool) (dpe : Nat → Bytes) (seq : UInt16) (sign tci len : Nat) : Bytes :=
  let le16 n := store bigEndian 2 (cpuToLe bigEndian 2 n)
  let le32 n := store bigEndian 4 (cpuToLe bigEndian 4 n)
  le32 usbCdcNcmNth16Sign ++ le16 sizeofNth16 ++ le16 seq.toNat ++ le16 (sizeofCdcMbimHdr+len) ++ le16 sizeofNth16 ++
  ((le32 sign).set 3 (UInt8.ofNat tci) ++ le16 (sizeofNdp16+sizeofDpe16 * 2) ++ store bigEndian 2 0) ++
  (dpe sizeofCdcMbimHdr ++ dpe len ++ store bigEndian 2 0 ++ store bigEndian 2 0)

/- `mhi_net_mbim.c` stores the entry as it is. -/
def MhiNetMbim.cdcMbimTxFixup (bigEndian : Bool) (ctx : CdcMbimCtx) (skb : Skb) (sessionId : UInt8) : Option Skb × CdcMbimCtx :=
  if skb.headroom < sizeofCdcMbimHdr then (none,ctx)
  else
    (some (skb.push (cdcMbimHdr bigEndian (store bigEndian 2) ctx.txSeq usbCdcMbimNdp16IpsSign sessionId.toNat skb.data.length)),
      {ctx with txSeq := ctx.txSeq+1})

def CdcMbim.cdcMbimTxFixup (bigEndian : Bool) (ctx : CdcMbimCtx) (skb : Skb) : Option Skb × CdcMbimCtx :=
  let send := fun (tci : Nat) (isIp : Bool) (skb : Skb) =>
    if !isIp then (none,ctx)
    else if skb.headroom < sizeofCdcMbimHdr then (none,ctx)
    else
      let sign := if tci < 256 then usbCdcMbimNdp16IpsSign else usbCdcMbimNdp16DssSign
      let dpe n := store bigEndian 2 (cpuToLe bigEndian 2 n)
      (if tci < 512 then some (skb.push (cdcMbimHdr bigEndian dpe ctx.txSeq sign tci skb.data.length)) else none,
        {ctx with txSeq := ctx.txSeq+1})
  if skb.data.length ≤ ethHlen then (none,ctx)
  else match (if vlanEthHlen < skb.data.length then vlanGetTag skb.data else none) with
    | some tci => send tci (isIpProto (hVlanEncapsulatedProto skb.data)) (skb.pull vlanEthHlen)
    | none => send 0 (isIpProto (hProto skb.data)) (skb.pull ethHlen)

section Conversions

theorem leBack (raw : Bytes) : Wire.le raw.length (Wire.readLe raw) = raw := by
  induction raw with
  | nil => rfl
  | cons b raw ih =>
    have low : UInt8.ofNat (b.toNat+256 * Wire.readLe raw) = b := by
      apply UInt8.toNat_inj.mp
      have small := b.toNat_lt
      rw [UInt8.toNat_ofNat']
      omega
    have high : (b.toNat+256 * Wire.readLe raw) / 256 = Wire.readLe raw := by
      have small := b.toNat_lt
      omega
    rw [List.length_cons,Wire.readLe,Wire.le,low,high,ih]

theorem leMod (width n : Nat) : Wire.le width (n % 256 ^ width) = Wire.le width n := by
  rw [← Wire.readLeBack]
  have whole := leBack (Wire.le width n)
  rw [Wire.leLength] at whole
  exact whole

theorem storeConverted (bigEndian : Bool) (width n : Nat) :
    store bigEndian width (cpuToLe bigEndian width n) = Wire.le width n := by
  cases bigEndian with
  | false => exact leMod width n
  | true =>
    have swapped : Wire.le width (Wire.readLe (Wire.be width n)) = Wire.be width n := by
      have whole := leBack (Wire.be width n)
      rw [Wire.beLength] at whole
      exact whole
    show Wire.be width (Wire.readLe (Wire.be width n)) = _
    rw [Wire.be,swapped,Wire.be,List.reverse_reverse]

theorem loadConverted (bigEndian : Bool) (raw : Bytes) : leToCpu bigEndian raw.length (load bigEndian raw) = Wire.readLe raw := by
  cases bigEndian with
  | false => rfl
  | true =>
    show Wire.readLe (Wire.le raw.length (Wire.readLe raw.reverse)).reverse = _
    have whole := leBack raw.reverse
    rw [List.length_reverse] at whole
    rw [whole,List.reverse_reverse]

theorem swabTwice (width n : Nat) : swab width (swab width n) = n % 256 ^ width := by
  have inner : Wire.be width (Wire.readLe (Wire.be width n)) = Wire.le width n := by
    have whole := leBack (Wire.be width n)
    rw [Wire.beLength] at whole
    rw [Wire.be,whole,Wire.be,List.reverse_reverse]
  rw [swab,swab,inner,Wire.readLeBack]

theorem leAnd (width a b : Nat) : Wire.le width (a &&& b) = List.zipWith (· &&& ·) (Wire.le width a) (Wire.le width b) := by
  induction width generalizing a b with
  | zero => rfl
  | succ width ih =>
    have high : (a &&& b) / 256 = a / 256 &&& b / 256 := @Nat.and_div_two_pow a b 8
    rw [Wire.le,Wire.le,Wire.le,high,ih,UInt8.ofNat_and,List.zipWith_cons_cons]

theorem readAnd {as bs : Bytes} (same : as.length = bs.length) :
    Wire.readLe (List.zipWith (· &&& ·) as bs) = Wire.readLe as &&& Wire.readLe bs := by
  induction as generalizing bs with
  | nil => rw [List.zipWith_nil_left]; exact (Nat.zero_and _).symm
  | cons a as ih =>
    cases bs with
    | nil => cases same
    | cons b bs =>
      have smallA := a.toNat_lt
      have smallB := b.toNat_lt
      have low : ((a.toNat+256 * Wire.readLe as) &&& (b.toNat+256 * Wire.readLe bs)) % 256 = a.toNat &&& b.toNat := by
        have both := @Nat.and_mod_two_pow (a.toNat+256 * Wire.readLe as) (b.toNat+256 * Wire.readLe bs) 8
        have left : (a.toNat+256 * Wire.readLe as) % 2 ^ 8 = a.toNat := by omega
        have right : (b.toNat+256 * Wire.readLe bs) % 2 ^ 8 = b.toNat := by omega
        rw [left,right] at both
        exact both
      have high : ((a.toNat+256 * Wire.readLe as) &&& (b.toNat+256 * Wire.readLe bs)) / 256 =
          Wire.readLe as &&& Wire.readLe bs := by
        have both := @Nat.and_div_two_pow (a.toNat+256 * Wire.readLe as) (b.toNat+256 * Wire.readLe bs) 8
        have left : (a.toNat+256 * Wire.readLe as) / 2 ^ 8 = Wire.readLe as := by omega
        have right : (b.toNat+256 * Wire.readLe bs) / 2 ^ 8 = Wire.readLe bs := by omega
        rw [left,right] at both
        exact both
      rw [List.zipWith_cons_cons,Wire.readLe,Wire.readLe,Wire.readLe,ih (Nat.succ.inj same),UInt8.toNat_and,← low,← high]
      omega

theorem swabAnd (width a b : Nat) : swab width (a &&& b) = swab width a &&& swab width b := by
  have same : (Wire.le width a).length = (Wire.le width b).length := by rw [Wire.leLength,Wire.leLength]
  rw [swab,Wire.be,leAnd,List.reverse_zipWith same,readAnd (by rw [List.length_reverse,List.length_reverse,same])]
  rfl

theorem readSmall (raw : Bytes) : Wire.readLe raw < 256 ^ raw.length := by
  induction raw with
  | nil => exact Nat.one_pos
  | cons b raw ih =>
    have small := b.toNat_lt
    rw [Wire.readLe,List.length_cons,Nat.pow_succ]
    omega

theorem storeZero (bigEndian : Bool) : store bigEndian 2 0 = [0,0] := by
  cases bigEndian <;> rfl

end Conversions

/-! What the receivers read, field by field. -/
section Reads
variable (r : Rcvd) (o : Nat)

theorem bytesLength (n : Nat) : (r.bytes o n).length = n := by
  rw [Rcvd.bytes,List.length_map,List.length_range]

theorem u16Read : leToCpu r.bigEndian 2 (load r.bigEndian (r.bytes o 2)) = r.u16 o := loadConverted r.bigEndian (r.bytes o 2)

theorem u32Read : leToCpu r.bigEndian 4 (load r.bigEndian (r.bytes o 4)) = r.u32 o := by
  have read := loadConverted r.bigEndian (r.bytes o 4)
  have value : Wire.readLe (r.bytes o 4) = r.u32 o := by
    show (r.mem o).toNat+256 * ((r.mem (o+1)).toNat+256 * ((r.mem (o+2)).toNat+256 * ((r.mem (o+2+1)).toNat+256 * 0))) =
      (r.mem o).toNat+256 * (r.mem (o+1)).toNat+65536 * ((r.mem (o+2)).toNat+256 * (r.mem (o+2+1)).toNat)
    omega
  exact read.trans value

theorem native16Read : load r.bigEndian (r.bytes o 2) = r.native16 o := by
  unfold load Rcvd.native16
  cases r.bigEndian with
  | false => rfl
  | true =>
    show (r.mem (o+1)).toNat+256 * ((r.mem o).toNat+256 * 0) = 256 * (r.mem o).toNat+(r.mem (o+1)).toNat
    omega

theorem loadSmall : load r.bigEndian (r.bytes o 4) < 256 ^ 4 := by
  unfold load
  split
  · have small := readSmall (r.bytes o 4).reverse
    rw [List.length_reverse] at small
    exact small
  · exact readSmall (r.bytes o 4)

theorem signatureTest {mask sign : Nat} (smallMask : mask < 256 ^ 4) (small : sign < 256 ^ 4) :
    load r.bigEndian (r.bytes o 4) &&& cpuToLe r.bigEndian 4 mask = cpuToLe r.bigEndian 4 sign ↔ r.u32 o &&& mask = sign := by
  have read := u32Read r o
  have bound := loadSmall r o
  revert read bound
  generalize load r.bigEndian (r.bytes o 4) = v
  generalize r.u32 o = u
  cases r.bigEndian with
  | false =>
    intro read _
    show v &&& mask % 256 ^ 4 = sign % 256 ^ 4 ↔ _
    have same : v = u := read
    rw [same,Nat.mod_eq_of_lt smallMask,Nat.mod_eq_of_lt small]
  | true =>
    intro read bound
    show v &&& swab 4 mask = swab 4 sign ↔ _
    have swapped : swab 4 v = u := read
    have back : swab 4 u = v := by rw [← swapped,swabTwice,Nat.mod_eq_of_lt bound]
    constructor
    · intro equal
      have swappedBack := congrArg (swab 4) equal
      rw [swabAnd,swabTwice,swabTwice,swapped,Nat.mod_eq_of_lt smallMask,Nat.mod_eq_of_lt small] at swappedBack
      exact swappedBack
    · intro equal
      rw [← equal,swabAnd,back]

end Reads

/-! The transmit paths. -/
section Sending
variable (ctx : CdcMbimCtx) (skb : Skb)

theorem cdcMbimHdrLe (bigEndian : Bool) (dpe : Nat → Bytes) (seq : UInt16) (sign tci len : Nat) :
    cdcMbimHdr bigEndian dpe seq sign tci len =
      Wire.le 4 usbCdcNcmNth16Sign ++ Wire.le 2 sizeofNth16 ++ Wire.le 2 seq.toNat ++ Wire.le 2 (sizeofCdcMbimHdr+len) ++
        Wire.le 2 sizeofNth16 ++
      ((Wire.le 4 sign).set 3 (UInt8.ofNat tci) ++ Wire.le 2 (sizeofNdp16+sizeofDpe16 * 2) ++ [0,0]) ++
      (dpe sizeofCdcMbimHdr ++ dpe len ++ [0,0] ++ [0,0]) := by
  simp only [cdcMbimHdr,storeConverted,storeZero]

theorem rawLittle (sessionId : UInt8) :
    MhiNetMbim.cdcMbimTxFixup false ctx skb sessionId = Mbim.MhiNetMbim.cdcMbimTxFixup ctx skb sessionId := by
  rw [MhiNetMbim.cdcMbimTxFixup,Mbim.MhiNetMbim.cdcMbimTxFixup,cdcMbimHdrLe]
  rfl

theorem framedSame (bigEndian : Bool) : CdcMbim.cdcMbimTxFixup bigEndian ctx skb = Mbim.CdcMbim.cdcMbimTxFixup ctx skb := by
  simp only [CdcMbim.cdcMbimTxFixup,cdcMbimHdrLe,storeConverted]
  rfl

theorem rawDiffers (sessionId : UInt8) : MhiNetMbim.cdcMbimTxFixup true ctx skb sessionId =
    MhiNetMbim.cdcMbimTxFixup false ctx skb sessionId ↔ skb.headroom < sizeofCdcMbimHdr := by
  rw [MhiNetMbim.cdcMbimTxFixup,MhiNetMbim.cdcMbimTxFixup]
  by_cases small : skb.headroom < sizeofCdcMbimHdr
  · rw [if_pos small,if_pos small]
    exact ⟨fun _ => small,fun _ => rfl⟩
  · rw [if_neg small,if_neg small]
    refine ⟨fun same => ?_,fun other => absurd other small⟩
    have bytes := congrArg (fun out => (out.1.map fun built => Wire.peek built.data 20)) same
    simp only [cdcMbimHdrLe,Skb.push] at bytes
    have first : Wire.peek (Wire.be 2 sizeofCdcMbimHdr) 0 = Wire.peek (Wire.le 2 sizeofCdcMbimHdr) 0 := Option.some.inj bytes
    exact absurd first (by decide)

end Sending

/-! The receive paths. -/
def onHost (r : Rcvd) (bigEndian : Bool) : Rcvd := {r with bigEndian := bigEndian}

/- A receiver that returns on both hosts returns the same. -/
def SameOnHosts {α : Type} (receive : Rcvd → Nat → Option α) (r : Rcvd) : Prop :=
  ∀ fuel a b, receive (onHost r false) fuel = some a → receive (onHost r true) fuel = some b → a = b

/-! What stands in a received string behind an index, read off the string alone. -/
section Standing
variable (link : Link) (alloc : Nat → Bool) (rxMax : Nat) (r : Rcvd)

def Taken (d : Dpe) : Prop :=
  d.index+d.length ≤ r.len ∧ d.length ≤ rxMax ∧ alloc (d.length+link.allocExtra) = true ∧ Nibble46 (r.mem d.index)
instance (d : Dpe) : Decidable (Taken link alloc rxMax r d) := inferInstanceAs (Decidable (_ ∧ _ ∧ _ ∧ (_ ∨ _)))

def Header (o session : Nat) : Prop :=
  o+sizeofNdp16 ≤ r.len ∧ 0x10 ≤ r.u16 (o+4) ∧ sizeofNdp16+(table r o).length * sizeofDpe16 ≤ r.len ∧
    MbimDecoders.CdcMbim.tci r o = some session ∧ link.accepts session = true

inductive Stands : Nat → List (Nat × Dpe) → Prop where
  | none : Stands 0 []
  | refused {o} (given : o ≠ 0) (headless : ∀ session, ¬Header link r o session) : Stands o []
  | stops {o session} (given : o ≠ 0) (header : Header link r o session) (bad : ¬∀ d ∈ listed r o, Taken link alloc rxMax r d) :
      Stands o (((listed r o).takeWhile (Taken link alloc rxMax r ·)).map (session,·))
  | passes {o session ds} (given : o ≠ 0) (header : Header link r o session) (all : ∀ d ∈ listed r o, Taken link alloc rxMax r d)
      (later : Stands (r.u16 (o+6)) ds) : Stands o ((listed r o).map (session,·) ++ ds)

def contents (ds : List (Nat × Dpe)) : List (Nat × Bytes) := ds.map fun d => (d.1,r.bytes d.2.index d.2.length)

def littleIndex : Nat := (onHost r false).native16 10
def bigIndex : Nat := (onHost r true).native16 10

/- The header is refused, or the two bytes of its `wNdpIndex` are equal, or what stands behind
the two readings of it is the same, byte for byte. -/
def Alike : Prop :=
  r.len < sizeofNth16+sizeofNdp16 ∨ r.u32 0 ≠ usbCdcNcmNth16Sign ∨ rxMax < r.u16 8 ∨ r.mem 10 = r.mem 11 ∨
    ∀ ds ds', Stands link alloc rxMax r (littleIndex r) ds → Stands link alloc rxMax r (bigIndex r) ds' →
      contents r ds = contents r ds'

end Standing

section Receiving
variable {alloc : Nat → Bool} {devAddr : Bytes} {rxMax : Nat} {r : Rcvd} {header : Bytes}

theorem rawTable (bigEndian : Bool) (n dpe16 : Nat) : MbimDecoders.MhiNetMbim.datagrams alloc rxMax (onHost r bigEndian) n dpe16 =
    MbimDecoders.MhiNetMbim.datagrams alloc rxMax r n dpe16 := by
  induction n generalizing dpe16 with
  | zero => rfl
  | succ n ih =>
    rw [MbimDecoders.MhiNetMbim.datagrams,MbimDecoders.MhiNetMbim.datagrams,ih]
    rfl

theorem framedTable (bigEndian : Bool) (tci n dpe16 : Nat) :
    MbimDecoders.CdcMbim.datagrams alloc devAddr rxMax (onHost r bigEndian) tci n dpe16 =
      MbimDecoders.CdcMbim.datagrams alloc devAddr rxMax r tci n dpe16 := by
  induction n generalizing dpe16 with
  | zero => rfl
  | succ n ih =>
    rw [MbimDecoders.CdcMbim.datagrams,MbimDecoders.CdcMbim.datagrams,ih]
    rfl

theorem rawChain (bigEndian : Bool) (fuel o : Nat) : MbimDecoders.MhiNetMbim.ndps alloc rxMax (onHost r bigEndian) fuel o =
    MbimDecoders.MhiNetMbim.ndps alloc rxMax r fuel o := by
  have one : ∀ o, MbimDecoders.MhiNetMbim.ndp alloc rxMax (onHost r bigEndian) o =
      MbimDecoders.MhiNetMbim.ndp alloc rxMax r o := by
    intro o
    rw [MbimDecoders.MhiNetMbim.ndp,MbimDecoders.MhiNetMbim.ndp]
    simp only [rawTable]
    rfl
  induction fuel generalizing o with
  | zero => rfl
  | succ fuel ih =>
    rw [MbimDecoders.MhiNetMbim.ndps,MbimDecoders.MhiNetMbim.ndps,one,ih]
    rfl

theorem framedChain (bigEndian : Bool) (fuel o : Nat) :
    MbimDecoders.CdcMbim.ndps alloc devAddr rxMax (onHost r bigEndian) fuel o =
      MbimDecoders.CdcMbim.ndps alloc devAddr rxMax r fuel o := by
  have one : ∀ o, MbimDecoders.CdcMbim.ndp alloc devAddr rxMax (onHost r bigEndian) o =
      MbimDecoders.CdcMbim.ndp alloc devAddr rxMax r o := by
    intro o
    rw [MbimDecoders.CdcMbim.ndp,MbimDecoders.CdcMbim.ndp]
    simp only [framedTable]
    rfl
  induction fuel generalizing o with
  | zero => rfl
  | succ fuel ih =>
    rw [MbimDecoders.CdcMbim.ndps,MbimDecoders.CdcMbim.ndps,one,ih]
    rfl

def received {α : Type} (rxMax : Nat) (refused : α) (begun : List Packet → α) (chain : Nat → Option (List Packet))
    (r : Rcvd) : Option α :=
  if r.len < sizeofNth16+sizeofNdp16 then some refused
  else if r.u32 0 ≠ usbCdcNcmNth16Sign then some refused
  else if rxMax < r.u16 8 then some refused
  else (chain (r.native16 10)).map begun

end Receiving

section Chains
variable {link : Link} {alloc : Nat → Bool} {rxMax : Nat} {r : Rcvd}

def packetOf (link : Link) (r : Rcvd) (d : Nat × Dpe) : Packet :=
  link.packet d.1 (protocolOf (r.mem d.2.index)) (r.bytes d.2.index d.2.length)

theorem standsOne {o : Nat} {ds ds' : List (Nat × Dpe)} (first : Stands link alloc rxMax r o ds)
    (second : Stands link alloc rxMax r o ds') :
    ds = ds' := by
  have session {o s s' : Nat} (header : Header link r o s) (header' : Header link r o s') : s = s' :=
    Option.some.inj (header.2.2.2.1.symm.trans header'.2.2.2.1)
  induction first generalizing ds' with
  | none =>
    generalize zero : (0 : Nat) = o at second
    cases second with
    | none => rfl
    | refused given => exact absurd zero.symm given
    | stops given => exact absurd zero.symm given
    | passes given => exact absurd zero.symm given
  | refused given headless =>
    cases second with
    | none => exact absurd rfl given
    | refused => rfl
    | stops _ header => exact absurd header (headless _)
    | passes _ header => exact absurd header (headless _)
  | stops given header bad =>
    cases second with
    | none => exact absurd rfl given
    | refused _ headless => exact absurd header (headless _)
    | stops _ header' => rw [session header header']
    | passes _ _ all => exact absurd all bad
  | passes given header all _ ih =>
    cases second with
    | none => exact absurd rfl given
    | refused _ headless => exact absurd header (headless _)
    | stops _ _ bad => exact absurd all bad
    | passes _ header' _ later => rw [session header header',ih later]

theorem tableTaken {f : Nat → Nat → List Packet × Bool} {packet : Nat → Dpe → Packet} (done : ∀ dpe16, f 0 dpe16 = ([],false))
    (turn : ∀ n dpe16, f (n+1) dpe16 =
      if r.u16 dpe16 = 0 ∨ r.u16 (dpe16+2) = 0 then ([],false)
      else if r.len < r.u16 dpe16+r.u16 (dpe16+2) ∨ rxMax < r.u16 (dpe16+2) then ([],true)
      else if !alloc (r.u16 (dpe16+2)+link.allocExtra) then ([],true)
      else match datagramProtocol (r.mem (r.u16 dpe16)) with
        | none => ([],true)
        | some protocol => (packet protocol (dpeAt r dpe16) :: (f n (dpe16+sizeofDpe16)).1,(f n (dpe16+sizeofDpe16)).2))
    (n dpe16 : Nat) :
    f n dpe16 = ((((tableAt r n dpe16).takeWhile Dpe.used).takeWhile (Taken link alloc rxMax r ·)).map
        fun d => packet (protocolOf (r.mem d.index)) d,
      decide ¬∀ d ∈ (tableAt r n dpe16).takeWhile Dpe.used, Taken link alloc rxMax r d) := by
  induction n generalizing dpe16 with
  | zero => exact done dpe16
  | succ n ih =>
    rw [turn,MbimBlocks.tableCons]
    by_cases null : r.u16 dpe16 = 0 ∨ r.u16 (dpe16+2) = 0
    · have unused : ¬(dpeAt r dpe16).used = true := fun used => absurd null (of_decide_eq_true used)
      rw [if_pos null,List.takeWhile_cons_of_neg unused]
      rfl
    · have used : (dpeAt r dpe16).used = true := decide_eq_true null
      rw [if_neg null,List.takeWhile_cons_of_pos used]
      by_cases taken : Taken link alloc rxMax r (dpeAt r dpe16)
      · have inside : r.u16 dpe16+r.u16 (dpe16+2) ≤ r.len := taken.1
        have short : r.u16 (dpe16+2) ≤ rxMax := taken.2.1
        have received : ¬(r.len < r.u16 dpe16+r.u16 (dpe16+2) ∨ rxMax < r.u16 (dpe16+2)) := by omega
        have granted : alloc (r.u16 (dpe16+2)+link.allocExtra) = true := taken.2.2.1
        have protocol : datagramProtocol (r.mem (r.u16 dpe16)) = _ := protocolRead taken.2.2.2
        rw [if_neg received,granted,protocol,ih,List.takeWhile_cons,if_pos (decide_eq_true taken)]
        simp only [List.forall_mem_cons,taken,true_and]
        rfl
      · have ended : ¬(∀ d ∈ dpeAt r dpe16 :: (tableAt r n (dpe16+sizeofDpe16)).takeWhile Dpe.used, Taken link alloc rxMax r d) :=
          fun all => taken (all _ List.mem_cons_self)
        rw [List.takeWhile_cons,if_neg fun same => taken (of_decide_eq_true same),decide_eq_true ended]
        by_cases outside : r.len < r.u16 dpe16+r.u16 (dpe16+2) ∨ rxMax < r.u16 (dpe16+2)
        · rw [if_pos outside]
          rfl
        · rw [if_neg outside]
          cases granted : alloc (r.u16 (dpe16+2)+link.allocExtra) with
          | false => rfl
          | true =>
            have other : ¬Nibble46 (r.mem (r.u16 dpe16)) := fun nibble => taken
              ⟨Nat.not_lt.mp fun long => outside (.inl long),Nat.not_lt.mp fun long => outside (.inr long),granted,nibble⟩
            rw [protocolUnread other]
            rfl

structure Walks (link : Link) (alloc : Nat → Bool) (rxMax : Nat) (r : Rcvd) (g : Nat → List Packet × Bool)
    (ndps : Nat → Nat → Option (List Packet)) : Prop where
  spent : ∀ o, ndps 0 o = if o = 0 then some [] else none
  turn : ∀ fuel o, ndps (fuel+1) o = if o = 0 then some []
    else if (g o).2 then some (g o).1 else (ndps fuel (r.u16 (o+6))).map ((g o).1 ++ ·)
  headless : ∀ o, (∀ session, ¬Header link r o session) → g o = ([],true)
  headed : ∀ o session, Header link r o session → g o =
    (((listed r o).takeWhile (Taken link alloc rxMax r ·)).map fun d => packetOf link r (session,d),
      decide ¬∀ d ∈ listed r o, Taken link alloc rxMax r d)

theorem allTaken {o : Nat} (all : ∀ d ∈ listed r o, Taken link alloc rxMax r d) :
    (listed r o).takeWhile (Taken link alloc rxMax r ·) = listed r o :=
  List.takeWhile_eq_self_iff.mpr fun d member => decide_eq_true (all d member)

section Walking
variable {g : Nat → List Packet × Bool} {ndps : Nat → Nat → Option (List Packet)}

theorem chainStands (walks : Walks link alloc rxMax r g ndps) {fuel o : Nat} {packets : List Packet}
    (ends : ndps fuel o = some packets) :
    ∃ ds, Stands link alloc rxMax r o ds ∧ packets = ds.map (packetOf link r) := by
  induction fuel generalizing o packets with
  | zero =>
    rw [walks.spent] at ends
    split at ends
    · rename_i zero
      cases ends
      exact ⟨[],zero ▸ .none,rfl⟩
    · cases ends
  | succ fuel ih =>
    rw [walks.turn] at ends
    split at ends
    · rename_i zero
      cases ends
      exact ⟨[],zero ▸ .none,rfl⟩
    rename_i given
    by_cases headed : ∃ session, Header link r o session
    · obtain ⟨session,header⟩ := headed
      rw [walks.headed o session header] at ends
      by_cases all : ∀ d ∈ listed r o, Taken link alloc rxMax r d
      · rw [decide_eq_false (not_not.mpr all),if_neg Bool.false_ne_true] at ends
        obtain ⟨later,walked,rfl⟩ := Option.map_eq_some_iff.mp ends
        obtain ⟨ds,stands,rfl⟩ := ih walked
        refine ⟨_,.passes given header all stands,?_⟩
        rw [allTaken all,List.map_append,List.map_map]
        rfl
      · rw [decide_eq_true all,if_pos rfl] at ends
        cases ends
        exact ⟨_,.stops given header all,by rw [List.map_map]; rfl⟩
    · rw [walks.headless o (not_exists.mp headed),if_pos rfl] at ends
      cases ends
      exact ⟨[],.refused given (not_exists.mp headed),rfl⟩

theorem standsChain (walks : Walks link alloc rxMax r g ndps) {o : Nat} {ds : List (Nat × Dpe)}
    (stands : Stands link alloc rxMax r o ds) :
    ∃ k, ∀ fuel, k ≤ fuel → ndps fuel o = some (ds.map (packetOf link r)) := by
  have more {k fuel : Nat} (enough : k+1 ≤ fuel) : ∃ rest, fuel = rest+1 ∧ k ≤ rest :=
    ⟨fuel-1,by omega,by omega⟩
  induction stands with
  | none =>
    refine ⟨1,fun fuel enough => ?_⟩
    obtain ⟨rest,rfl,-⟩ := more enough
    rw [walks.turn,if_pos rfl]
    rfl
  | refused given headless =>
    refine ⟨1,fun fuel enough => ?_⟩
    obtain ⟨rest,rfl,-⟩ := more enough
    rw [walks.turn,if_neg given,walks.headless _ headless,if_pos rfl]
    rfl
  | stops given header bad =>
    refine ⟨1,fun fuel enough => ?_⟩
    obtain ⟨rest,rfl,-⟩ := more enough
    rw [walks.turn,if_neg given,walks.headed _ _ header,decide_eq_true bad,if_pos rfl,List.map_map]
    rfl
  | passes given header all _ ih =>
    obtain ⟨k,later⟩ := ih
    refine ⟨k+1,fun fuel enough => ?_⟩
    obtain ⟨rest,rfl,enough⟩ := more enough
    rw [walks.turn,if_neg given,walks.headed _ _ header,decide_eq_false (not_not.mpr all),if_neg Bool.false_ne_true,
      later rest (by omega),allTaken all,List.map_append,List.map_map]
    rfl

end Walking

def pack (link : Link) (c : Nat × Bytes) : Packet := link.packet c.1 (protocolOf (Wire.peek c.2 0)) c.2

theorem standsEach {o : Nat} {ds : List (Nat × Dpe)} (stands : Stands link alloc rxMax r o ds) :
    ∀ x ∈ ds, link.accepts x.1 = true ∧ x.2.used = true := by
  have used {o : Nat} : ∀ d ∈ listed r o, d.used = true := fun d member => List.mem_takeWhile_imp member
  induction stands with
  | none => exact nofun
  | refused => exact nofun
  | stops given header bad =>
    intro x member
    obtain ⟨d,inside,rfl⟩ := List.mem_map.mp member
    exact ⟨header.2.2.2.2,used d ((List.takeWhile_sublist _).subset inside)⟩
  | passes given header all _ ih =>
    intro x member
    rcases List.mem_append.mp member with here | later
    · obtain ⟨d,inside,rfl⟩ := List.mem_map.mp here
      exact ⟨header.2.2.2.2,used d inside⟩
    · exact ih x later

theorem packetsPacked {ds : List (Nat × Dpe)} (used : ∀ x ∈ ds, x.2.used = true) :
    ds.map (packetOf link r) = (contents r ds).map (pack link) := by
  rw [contents,List.map_map]
  refine List.map_congr_left fun x member => ?_
  obtain ⟨-,given⟩ := not_or.mp (of_decide_eq_true (used x member))
  obtain ⟨n,length⟩ := Nat.exists_eq_succ_of_ne_zero given
  have first : Wire.peek (r.bytes x.2.index x.2.length) 0 = r.mem x.2.index := by
    rw [Rcvd.bytes,length,List.range_succ_eq_map]
    rfl
  show link.packet _ _ _ = link.packet _ _ _
  rw [first]

theorem packInj (exact' : ∀ s s' p p' b b', link.accepts s = true → link.accepts s' = true →
    link.packet s p b = link.packet s' p' b' → s = s' ∧ b = b')
    {l l' : List (Nat × Bytes)} (takes : ∀ x ∈ l, link.accepts x.1 = true) (takes' : ∀ x ∈ l', link.accepts x.1 = true)
    (same : l.map (pack link) = l'.map (pack link)) : l = l' := by
  induction l generalizing l' with
  | nil => exact (List.map_eq_nil_iff.mp same.symm).symm
  | cons x l ih =>
    cases l' with
    | nil => cases same
    | cons y l' =>
      obtain ⟨first,rest⟩ := List.cons.inj same
      obtain ⟨session,bytes⟩ := exact' _ _ _ _ _ _ (takes x List.mem_cons_self) (takes' y List.mem_cons_self) first
      rw [ih (fun x later => takes x (List.mem_cons_of_mem _ later)) (fun y later => takes' y (List.mem_cons_of_mem _ later)) rest,
        Prod.ext session bytes]

theorem sameAlike {g : Nat → List Packet × Bool} {ndps : Nat → Nat → Option (List Packet)}
    {receive : Rcvd → Nat → Option (List Packet)}
    (walks : Walks link alloc rxMax r g ndps)
    (exact' : ∀ s s' p p' b b', link.accepts s = true → link.accepts s' = true → link.packet s p b = link.packet s' p' b' →
    s = s' ∧ b = b')
    (reads : ∀ fuel b, receive (onHost r b) fuel = received rxMax [] id (ndps fuel) (onHost r b)) :
    SameOnHosts receive r ↔ Alike link alloc rxMax r := by
  by_cases refused : r.len < sizeofNth16+sizeofNdp16 ∨ r.u32 0 ≠ usbCdcNcmNth16Sign ∨ rxMax < r.u16 8
  · have nothing : ∀ fuel b, receive (onHost r b) fuel = some [] := by
      intro fuel b
      rw [reads,received]
      rcases refused with short | unsigned | long
      · exact if_pos short
      · rw [if_pos (show (onHost r b).u32 0 ≠ usbCdcNcmNth16Sign from unsigned),ite_self]
      · rw [if_pos (show rxMax < (onHost r b).u16 8 from long),ite_self,ite_self]
    refine iff_of_true (fun fuel a b little big => ?_) ?_
    · rw [nothing] at little big
      exact Option.some.inj (little.symm.trans big)
    · exact refused.imp_right fun rest => rest.imp_right fun long => .inl long
  obtain ⟨long,rest⟩ := not_or.mp refused
  obtain ⟨signed,short⟩ := not_or.mp rest
  have walked : ∀ fuel b, receive (onHost r b) fuel = ndps fuel ((onHost r b).native16 10) := by
    intro fuel b
    rw [reads,received,if_neg (show ¬(onHost r b).len < _ from long),if_neg (show ¬(onHost r b).u32 0 ≠ _ from signed),
      if_neg (show ¬rxMax < (onHost r b).u16 8 from short),Option.map_id]
    rfl
  have packed {o : Nat} {ds : List (Nat × Dpe)} (stands : Stands link alloc rxMax r o ds) :
      ds.map (packetOf link r) = (contents r ds).map (pack link) ∧ ∀ x ∈ contents r ds, link.accepts x.1 = true := by
    refine ⟨packetsPacked fun x member => (standsEach stands x member).2,fun x member => ?_⟩
    obtain ⟨d,inside,rfl⟩ := List.mem_map.mp member
    exact (standsEach stands d inside).1
  constructor
  · intro same
    refine .inr (.inr (.inr (.inr fun ds ds' stands stands' => ?_)))
    obtain ⟨k,little⟩ := standsChain walks stands
    obtain ⟨k',big⟩ := standsChain walks stands'
    have equal := same (max k k') _ _ ((walked _ false).trans (little _ (Nat.le_max_left k k')))
      ((walked _ true).trans (big _ (Nat.le_max_right k k')))
    rw [(packed stands).1,(packed stands').1] at equal
    exact packInj exact' (packed stands).2 (packed stands').2 equal
  · intro alike fuel a b little big
    rw [walked] at little big
    obtain ⟨ds,stands,rfl⟩ := chainStands walks little
    obtain ⟨ds',stands',rfl⟩ := chainStands walks big
    have index : r.mem 10 = r.mem 11 → littleIndex r = bigIndex r := by
      intro palindrome
      show (r.mem 10).toNat+256 * (r.mem 11).toNat = 256 * (r.mem 10).toNat+(r.mem 11).toNat
      rw [palindrome]
      exact Nat.add_comm _ _
    rcases alike with bad | bad | bad | palindrome | equal
    · exact absurd bad long
    · exact absurd bad signed
    · exact absurd bad short
    · have stands : Stands link alloc rxMax r (littleIndex r) ds := stands
      rw [index palindrome] at stands
      rw [standsOne stands stands']
    · rw [(packed stands).1,(packed stands').1,equal ds ds' stands stands']

end Chains

section Receivers
variable {alloc : Nat → Bool} {rxMax : Nat} {r : Rcvd}

theorem headerCases {link : Link} {o : Nat} {entries : Nat → List Packet × Bool} {g : List Packet × Bool}
    (one : g = if r.len < o+sizeofNdp16 then ([],true) else if r.u16 (o+4) < 0x10 then ([],true)
      else if r.len < sizeofNdp16+(table r o).length * sizeofDpe16 then ([],true)
      else match MbimDecoders.CdcMbim.tci r o with
        | none => ([],true)
        | some session => if link.accepts session then entries session else ([],true)) :
    ((∀ session, ¬Header link r o session) → g = ([],true)) ∧ ∀ session, Header link r o session → g = entries session := by
  subst one
  constructor
  · intro headless
    by_cases inside : r.len < o+sizeofNdp16
    · exact if_pos inside
    rw [if_neg inside]
    by_cases length : r.u16 (o+4) < 0x10
    · exact if_pos length
    rw [if_neg length]
    by_cases room : r.len < sizeofNdp16+(table r o).length * sizeofDpe16
    · exact if_pos room
    rw [if_neg room]
    cases sign : MbimDecoders.CdcMbim.tci r o with
    | none => rfl
    | some session =>
      refine if_neg fun accepts => headless session ?_
      exact ⟨Nat.not_lt.mp inside,Nat.not_lt.mp length,Nat.not_lt.mp room,sign,accepts⟩
  · rintro session ⟨inside,length,room,sign,accepts⟩
    rw [if_neg (Nat.not_lt.mpr inside),if_neg (Nat.not_lt.mpr length),if_neg (Nat.not_lt.mpr room),sign]
    exact if_pos accepts

theorem rawNdp (o : Nat) : MbimDecoders.MhiNetMbim.ndp alloc rxMax r o =
    if r.len < o+sizeofNdp16 then ([],true) else if r.u16 (o+4) < 0x10 then ([],true)
      else if r.len < sizeofNdp16+(table r o).length * sizeofDpe16 then ([],true)
      else match MbimDecoders.CdcMbim.tci r o with
        | none => ([],true)
        | some session => if Mbim.MhiNetMbim.link.accepts session then
            MbimDecoders.MhiNetMbim.datagrams alloc rxMax r ((r.u16 (o+4)-sizeofNdp16) / sizeofDpe16) (o+sizeofNdp16)
          else ([],true) := by
  rw [table,MbimBlocks.tableLength,MbimDecoders.MhiNetMbim.ndp,
    show MbimDecoders.MhiNetMbim.tci r o = MbimDecoders.CdcMbim.tci r o from rfl]
  cases MbimDecoders.CdcMbim.tci r o with
  | none => rfl
  | some session =>
    by_cases zero : session = 0
    · subst zero
      rfl
    · have refuses : Mbim.MhiNetMbim.link.accepts session = false := decide_eq_false zero
      simp only [refuses,ne_eq,zero,not_false_eq_true,if_true,Bool.false_eq_true,if_false]

theorem framedNdp (devAddr : Bytes) (o : Nat) : MbimDecoders.CdcMbim.ndp alloc devAddr rxMax r o =
    if r.len < o+sizeofNdp16 then ([],true) else if r.u16 (o+4) < 0x10 then ([],true)
      else if r.len < sizeofNdp16+(table r o).length * sizeofDpe16 then ([],true)
      else match MbimDecoders.CdcMbim.tci r o with
        | none => ([],true)
        | some session => if (Mbim.CdcMbim.link devAddr).accepts session then
            MbimDecoders.CdcMbim.datagrams alloc devAddr rxMax r session ((r.u16 (o+4)-sizeofNdp16) / sizeofDpe16) (o+sizeofNdp16)
          else ([],true) := by
  rw [table,MbimBlocks.tableLength]
  rfl

theorem rawWalks : Walks Mbim.MhiNetMbim.link alloc rxMax r (MbimDecoders.MhiNetMbim.ndp alloc rxMax r)
    (MbimDecoders.MhiNetMbim.ndps alloc rxMax r) where
  spent _ := rfl
  turn _ _ := rfl
  headless o := (headerCases (rawNdp o)).1
  headed o session header := ((headerCases (rawNdp o)).2 session header).trans
    (@tableTaken Mbim.MhiNetMbim.link alloc rxMax r (MbimDecoders.MhiNetMbim.datagrams alloc rxMax r)
      (fun protocol d => ⟨protocol,[],none,r.bytes d.index d.length⟩) (fun _ => rfl) (fun _ _ => rfl) _ _)

theorem framedWalks (devAddr : Bytes) : Walks (Mbim.CdcMbim.link devAddr) alloc rxMax r (MbimDecoders.CdcMbim.ndp alloc devAddr rxMax r)
    (MbimDecoders.CdcMbim.ndps alloc devAddr rxMax r) where
  spent _ := rfl
  turn _ _ := rfl
  headless o := (headerCases (framedNdp devAddr o)).1
  headed o session header := ((headerCases (framedNdp devAddr o)).2 session header).trans
    (@tableTaken (Mbim.CdcMbim.link devAddr) alloc rxMax r (MbimDecoders.CdcMbim.datagrams alloc devAddr rxMax r session)
      (fun protocol d => (Mbim.CdcMbim.link devAddr).packet session protocol (r.bytes d.index d.length))
      (fun _ => rfl) (fun _ _ => rfl) _ _)

theorem rawAlike (rxSeq : UInt16) :
    SameOnHosts (fun r fuel => (MbimDecoders.MhiNetMbim.cdcMbimRxFixup alloc rxMax r rxSeq fuel).map (·.2)) r ↔
      Alike Mbim.MhiNetMbim.link alloc rxMax r := by
  refine sameAlike rawWalks (fun s s' p p' b b' accepts accepts' same => ?_) fun fuel b => ?_
  · exact ⟨(of_decide_eq_true accepts).trans (of_decide_eq_true accepts').symm,congrArg Packet.payload same⟩
  · rw [MbimDecoders.MhiNetMbim.cdcMbimRxFixup,received,apply_ite (Option.map _),apply_ite (Option.map _),apply_ite (Option.map _),
      Option.map_map,rawChain]
    rfl

theorem framedAlike (devAddr : Bytes) (rxSeq : UInt16) :
    SameOnHosts (fun r fuel => (MbimDecoders.CdcMbim.cdcMbimRxFixup alloc devAddr rxMax r rxSeq fuel).map (·.2.2)) r ↔
      Alike (Mbim.CdcMbim.link devAddr) alloc rxMax r := by
  refine sameAlike (framedWalks devAddr) (fun s s' p p' b b' _ _ same => ?_) fun fuel b => ?_
  · refine ⟨?_,congrArg Packet.payload same⟩
    have tags : (if s ≠ 0 then some s else none) = if s' ≠ 0 then some s' else none := congrArg Packet.tag same
    by_cases zero : s = 0 <;> by_cases zero' : s' = 0 <;> simp_all
  · rw [MbimDecoders.CdcMbim.cdcMbimRxFixup,received,apply_ite (Option.map _),apply_ite (Option.map _),apply_ite (Option.map _),
      Option.map_map,framedChain]
    rfl

end Receivers

theorem orderIndependent (ctx : CdcMbimCtx) (devAddr : Bytes) :
    (∀ skb sessionId, MhiNetMbim.cdcMbimTxFixup true ctx skb sessionId = MhiNetMbim.cdcMbimTxFixup false ctx skb sessionId ↔
      skb.headroom < sizeofCdcMbimHdr) ∧
    (∀ skb, CdcMbim.cdcMbimTxFixup true ctx skb = CdcMbim.cdcMbimTxFixup false ctx skb) ∧
    ∀ alloc r,
      (SameOnHosts (fun r fuel => (MbimDecoders.MhiNetMbim.cdcMbimRxFixup alloc ctx.rxMax r ctx.rxSeq fuel).map (·.2)) r ↔
        Alike Mbim.MhiNetMbim.link alloc ctx.rxMax r) ∧
      (SameOnHosts (fun r fuel => (MbimDecoders.CdcMbim.cdcMbimRxFixup alloc devAddr ctx.rxMax r ctx.rxSeq fuel).map (·.2.2)) r ↔
        Alike (Mbim.CdcMbim.link devAddr) alloc ctx.rxMax r) :=
  ⟨rawDiffers ctx,fun skb => (framedSame ctx skb true).trans (framedSame ctx skb false).symm,
    fun _ _ => ⟨rawAlike ctx.rxSeq,framedAlike devAddr ctx.rxSeq⟩⟩

theorem orderMatters :
    MhiNetMbim.cdcMbimTxFixup true cdcMbimBind ⟨28,[0x45]⟩ 0 ≠ MhiNetMbim.cdcMbimTxFixup false cdcMbimBind ⟨28,[0x45]⟩ 0 ∧
    (MbimDecoders.MhiNetMbim.cdcMbimRxFixup (fun _ => true) (31 * 1024) (onHost MbimDecoders.sampleBlock false) 0 1).map (·.2) =
      some [⟨ethPIp,[],none,[0x45]⟩] ∧
    (MbimDecoders.MhiNetMbim.cdcMbimRxFixup (fun _ => true) (31 * 1024) (onHost MbimDecoders.sampleBlock true) 0 1).map (·.2) =
      some [] ∧
    (MbimDecoders.CdcMbim.cdcMbimRxFixup (fun _ => true) [2,0x50,0xf4,0,0,0] (31 * 1024) (onHost MbimDecoders.sampleBlock false) 0 1).map
      (·.2.2) = some [⟨ethPIp,ethHeader [2,0x50,0xf4,0,0,0] ethPIp,none,[0x45]⟩] ∧
    (MbimDecoders.CdcMbim.cdcMbimRxFixup (fun _ => true) [2,0x50,0xf4,0,0,0] (31 * 1024) (onHost MbimDecoders.sampleBlock true) 0 1).map
      (·.2.2) = some [] := by
  decide

end MhiHost.HostOrder
