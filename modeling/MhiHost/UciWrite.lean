import MhiHost.NetRing
import MhiHost.TransferFifo
import MhiHost.UciRead

/-! Writing to a UCI node. The thread that holds `write_lock` cuts the user's bytes into
chunks and is alone in queueing them; completions, the controller and the removal of the
node go on around it. -/
namespace MhiHost.UciWrite
open Cyclic (Window)
open NetRing (mhiGetFreeDescCount)
open Queueing (Call bufCall)
open UciRead (span mtuOf)
open Wire (Bytes)
open Relation (ReflTransGen)

inductive WriteError where
  | einval | eagain | erestartsys | enodev | enomem | efault
  | queue (e : Errno)
  deriving DecidableEq, Repr

/- `mhi_uci_write` between two looks at what it shares. `asleep` has found no descriptor. -/
inductive Place where
  | head | counting | waiting | waitCounting | asleep | woken | filling
  | returned (ret : Except WriteError Nat)

structure Piece where
  cell : Nat
  tre : MhiTre
  info : BufInfo
  kbuf : Nat
  data : Bytes

def Piece.eot (p : Piece) : Bool := p.tre.dword1.testBit 9

structure Request where
  buf : Option (Nat → UInt8)
  count : Nat
  nonblock : Bool
  ul : Bool
  driverData : Nat

def Request.mtu (c : Request) : Nat := mtuOf c.driverData
def Request.bytes (c : Request) (offset n : Nat) : Bytes := span (c.buf.getD fun _ => 0) offset n
def Request.usable (c : Request) : Bool := c.buf.isSome && c.count != 0 && c.ul

/- `left` is `count` as the loop lowers it, `offset` how far `buf` has been moved. -/
structure Write where
  port : Port
  enabled : Bool
  left : Nat
  offset : Nat
  nrAvail : Int
  bytesXfered : Nat
  pieces : List Piece
  place : Place

section Code
variable (c : Request)

def mhiUciWrite (port : Port) (enabled : Bool) : Write :=
  ⟨port,enabled,c.count,0,0,0,[],if c.usable then .head else .returned (.error .einval)⟩

namespace Write
variable (s : Write)

def at' (place : Place) : Write := {s with place := place}
def fail (e : WriteError) : Write := s.at' (.returned (.error e))

def loopHead : Write :=
  if s.left = 0 then s.at' (.returned (.ok s.bytesXfered))
  else if s.enabled && c.nonblock then s.at' .counting else s.at' .waiting

def count : Write :=
  let s := {s with nrAvail := mhiGetFreeDescCount s.port}
  if s.nrAvail = 0 then s.fail .eagain else s.at' .waiting

def wait : Write := if s.enabled then s.at' .waitCounting else s.at' .woken
def waitCount : Write :=
  let s := {s with nrAvail := mhiGetFreeDescCount s.port}
  if 0 < s.nrAvail then s.at' .woken else s.at' .asleep

def wake : Write := if s.enabled then s.at' .filling else s.fail .enodev

def xferSize : Nat := min s.left c.mtu

def flags : Nat := if 1 < s.nrAvail ∧ s.left - s.xferSize c ≠ 0 then MhiFlags.chain else MhiFlags.eot

def piece (port : Port) (kbuf : Nat) : Piece :=
  ⟨s.port.chan.treRing.wp,port.chan.treMem s.port.chan.treRing.wp,port.chan.bufMem s.port.chan.bufRing.wp,kbuf,
    c.bytes s.offset (s.xferSize c)⟩

def queued (port : Port) (kbuf : Nat) : Write :=
  {s with
    port := port
    left := s.left - s.xferSize c
    offset := s.offset + s.xferSize c
    bytesXfered := s.bytesXfered + s.xferSize c
    pieces := s.pieces ++ [s.piece c port kbuf]
    place := .head}

def queue (kbuf : Nat) (reply : DmaReply) : Write :=
  match mhiQueueBuf s.port kbuf (s.xferSize c) (s.flags c) reply with
  | (port,some e) => {s with port := port}.fail (.queue e)
  | (port,none) => s.queued c port kbuf

def fill (kbuf : Option Nat) (copied : Bool) (reply : DmaReply) : Write :=
  match kbuf with
  | none => s.fail .enomem
  | some kbuf => if copied then s.queue c kbuf reply else s.fail .efault

end Write

def completed (p : Port) (r : MhiResult) : Port :=
  let p := retire p r
  {p with cntrl := countUplink p.chan.dir (-1) p.cntrl}

inductive Turn : Write → Write → Prop where
  | head {s} (here : s.place = .head) : Turn s (s.loopHead c)
  | count {s} (here : s.place = .counting) : Turn s s.count
  | wait {s} (here : s.place = .waiting) : Turn s s.wait
  | waitCount {s} (here : s.place = .waitCounting) : Turn s s.waitCount
  | rewake {s} (here : s.place = .asleep) : Turn s (s.at' .waiting)
  | signal {s} (here : s.place = .asleep) : Turn s (s.fail .erestartsys)
  | wake {s} (here : s.place = .woken) : Turn s s.wake
  | fill {s} (kbuf : Option Nat) (copied : Bool) (reply : DmaReply)
      (here : s.place = .filling) : Turn s (s.fill c kbuf copied reply)

inductive Around : Write → Write → Prop where
  | completion {s} (r : MhiResult) (outstanding : s.port.chan.treRing.rp ≠ s.port.chan.treRing.wp) :
      Around s {s with port := completed s.port r}
  | controller {s} (cntrl : Cntrl) : Around s {s with port := {s.port with cntrl := cntrl}}
  | removed {s} : Around s {s with enabled := false}

inductive Step : Write → Write → Prop where
  | turn {s s'} (turn : Turn c s s') : Step s s'
  | around {s s'} (around : Around s s') : Step s s'

/- The channel of a removed node may be reset, stopped and prepared again: its ring stays a
ring of that many elements. -/
inductive Interleaved : Write → Write → Prop where
  | step {s s'} (step : Step c s s') : Interleaved s s'
  | reset {s} (port : Port) (off : s.enabled = false) (ringed : NetRing.Ringed port)
      (same : port.chan.treRing.elements = s.port.chan.treRing.elements) : Interleaved s {s with port := port}

end Code

/-! Which calls fail without a trace. -/
section Failures
variable {c : Request} {port : Port} {enabled : Bool} {s s' : Write}

def FailsClean (c : Request) (port : Port) (enabled : Bool) : Prop :=
  ∀ s e, ReflTransGen (Interleaved c) (mhiUciWrite c port enabled) s → s.place = .returned (.error e) → s.pieces = []

/- The call is refused, finds the node removed, has one chunk, or a ring with room for none. -/
def OneChunk (c : Request) (port : Port) (enabled : Bool) : Prop :=
  c.usable = false ∨ enabled = false ∨ c.count ≤ c.mtu ∨ port.chan.treRing.elements < 2

theorem fillCases (c : Request) (s : Write) (kbuf : Option Nat) (copied : Bool) (reply : DmaReply) :
    (∃ port e ctxt, s.fill c kbuf copied reply = {s with port := port}.fail e ∧ e ≠ .eagain ∧
      port.chan.treRing = {s.port.chan.treRing with ctxtWp := ctxt}) ∨
      ∃ port addr, s.fill c kbuf copied reply = s.queued c port addr ∧
        mhiQueueBuf s.port addr (s.xferSize c) (s.flags c) reply = (port,none) ∧
        Call s.port addr (s.xferSize c) (!mhiPmInErrorState s.port.cntrl.pmState && !mhiIsRingFull s.port.chan.treRing) port none := by
  unfold Write.fill
  cases kbuf with
  | none => exact .inl ⟨s.port,_,_,rfl,WriteError.noConfusion,rfl⟩
  | some addr =>
    cases copied with
    | false => exact .inl ⟨s.port,_,_,rfl,WriteError.noConfusion,rfl⟩
    | true =>
      have called := @bufCall s.port addr (s.xferSize c) (s.flags c) reply
      dsimp only [if_true]
      unfold Write.queue
      cases ran : mhiQueueBuf s.port addr (s.xferSize c) (s.flags c) reply with
      | mk port err =>
        rw [ran] at called
        cases err with
        | some e => exact .inl ⟨port,_,_,rfl,WriteError.noConfusion,called.tre⟩
        | none => exact .inr ⟨port,addr,rfl,ran,called⟩

def Stays (s s' : Write) : Prop := ∃ port nrAvail place ctxt, s' = {s with port := port, nrAvail := nrAvail, place := place} ∧
  port.chan.treRing = {s.port.chan.treRing with ctxtWp := ctxt}

def Grows (c : Request) (s s' : Write) : Prop := s.place = .filling ∧ ∃ port addr reply, s' = s.queued c port addr ∧
  mhiQueueBuf s.port addr (s.xferSize c) (s.flags c) reply = (port,none) ∧
  mhiIsRingFull s.port.chan.treRing = false ∧
    ∃ ctxt, port.chan.treRing = {mhiAddRingElement s.port.chan.treRing with ctxtWp := ctxt}

def Shared (s s' : Write) : Prop := ∃ port enabled, s' = {s with port := port, enabled := enabled} ∧
    (s.enabled = false → enabled = false)

theorem turnCases (turn : Turn c s s') : Stays s s' ∨ Grows c s s' := by
  have moved : ∀ n p, Stays s {s with nrAvail := n, place := p} := fun n p => ⟨s.port,n,p,_,rfl,rfl⟩
  cases turn with
  | head here =>
    unfold Write.loopHead
    split
    · exact .inl (moved _ _)
    · split <;> exact .inl (moved _ _)
  | count here =>
    unfold Write.count
    dsimp only
    split <;> exact .inl (moved _ _)
  | wait here =>
    unfold Write.wait
    split <;> exact .inl (moved _ _)
  | waitCount here =>
    unfold Write.waitCount
    dsimp only
    split <;> exact .inl (moved _ _)
  | rewake here => exact .inl (moved _ _)
  | signal here => exact .inl (moved _ _)
  | wake here =>
    unfold Write.wake
    split <;> exact .inl (moved _ _)
  | fill kbuf copied reply here =>
    rcases fillCases c s kbuf copied reply with ⟨port,e,ctxt,failed,-,ring⟩ | ⟨port,addr,grown,ran,call⟩
    · rw [failed]
      exact .inl ⟨port,_,_,ctxt,rfl,ring⟩
    · exact .inr ⟨here,port,addr,reply,grown,ran,call.space (call.passed rfl),_,call.tre⟩

theorem aroundShared (around : Around s s') : Shared s s' := by
  cases around with
  | completion r outstanding => exact ⟨_,s.enabled,rfl,id⟩
  | controller cntrl => exact ⟨_,s.enabled,rfl,id⟩
  | removed => exact ⟨s.port,false,rfl,fun _ => rfl⟩

theorem interleavedCases (step : Interleaved c s s') : Turn c s s' ∨ Shared s s' := by
  cases step with
  | step step =>
    cases step with
    | turn turn => exact .inl turn
    | around around => exact .inr (aroundShared around)
  | reset port off ringed same => exact .inr ⟨port,s.enabled,rfl,id⟩

theorem returnedStays {ret : Except WriteError Nat} (done : s.place = .returned ret) (step : Interleaved c s s') :
    s'.place = .returned ret ∧ s'.pieces = s.pieces ∧ s'.left = s.left := by
  rcases interleavedCases step with turn | ⟨port,enabled,rfl,-⟩
  · cases turn with
    | head here | count here | wait here | waitCount here | rewake here | signal here | wake here | fill _ _ _ here =>
      rw [done] at here
      cases here
  · exact ⟨done,rfl,rfl⟩

structure Gone (s : Write) : Prop where
  off : s.enabled = false
  none : s.pieces = []
  place : s.place ≠ .filling

theorem stepGone (step : Interleaved c s s') (gone : Gone s) : Gone s' := by
  have moved : ∀ n p, p ≠ .filling → Gone {s with nrAvail := n, place := p} := fun n p other => ⟨gone.off,gone.none,other⟩
  rcases interleavedCases step with turn | ⟨port,enabled,rfl,off⟩
  · cases turn with
    | head here =>
      unfold Write.loopHead
      split
      · exact moved _ _ Place.noConfusion
      · split <;> exact moved _ _ Place.noConfusion
    | count here =>
      unfold Write.count
      dsimp only
      split <;> exact moved _ _ Place.noConfusion
    | wait here =>
      unfold Write.wait
      split <;> exact moved _ _ Place.noConfusion
    | waitCount here =>
      unfold Write.waitCount
      dsimp only
      split <;> exact moved _ _ Place.noConfusion
    | rewake here => exact moved _ _ Place.noConfusion
    | signal here => exact moved _ _ Place.noConfusion
    | wake here =>
      unfold Write.wake
      rw [gone.off,if_neg Bool.false_ne_true]
      exact moved _ _ Place.noConfusion
    | fill kbuf copied reply here => exact absurd here gone.place
  · exact ⟨off gone.off,gone.none,gone.place⟩

section Rings
variable {w : Window} {h t : Nat}

theorem staysRing (stays : Stays s s') (held : s.port.chan.treRing.Holds w h t) : s'.port.chan.treRing.Holds w h t := by
  obtain ⟨port,n,p,ctxt,rfl,ring⟩ := stays
  show port.chan.treRing.Holds w h t
  rw [ring]
  exact held.rung ctxt

theorem growsRing (grows : Grows c s s') (held : s.port.chan.treRing.Holds w h t) :
    t+1 < h+w.count ∧ s'.port.chan.treRing.Holds w h (t+1) := by
  obtain ⟨-,port,addr,reply,rfl,-,free,ctxt,ring⟩ := grows
  have space := Ring.spaceOf held free
  refine ⟨space,?_⟩
  show port.chan.treRing.Holds w h (t+1)
  rw [ring]
  exact (Ring.addHolds held space).rung ctxt

theorem aroundRing (around : Around s s') (held : s.port.chan.treRing.Holds w h t) :
    ∃ later, h ≤ later ∧ s'.port.chan.treRing.Holds w later t := by
  cases around with
  | completion r outstanding =>
    have filled : h < t := by
      have ordered := held.ordered
      rw [Ne,Ring.emptyIff held] at outstanding
      omega
    exact ⟨h+1,Nat.le_succ h,Ring.delHolds held filled⟩
  | controller cntrl => exact ⟨h,Nat.le_refl h,held⟩
  | removed => exact ⟨h,Nat.le_refl h,held⟩

end Rings

structure Roomless (s : Write) : Prop where
  ring : ∃ w h t, s.port.chan.treRing.Holds w h t ∧ w.count < 2
  none : s.pieces = []

theorem stepRoomless (step : Interleaved c s s') (inv : Roomless s) : Roomless s' := by
  obtain ⟨w,h,t,held,small⟩ := inv.ring
  cases step with
  | step step =>
    cases step with
    | turn turn =>
      rcases turnCases turn with stays | grows
      · refine ⟨⟨w,h,t,staysRing stays held,small⟩,?_⟩
        obtain ⟨_,_,_,_,rfl,-⟩ := stays
        exact inv.none
      · have space := (growsRing grows held).1
        have ordered := held.ordered
        omega
    | around around =>
      obtain ⟨later,-,still⟩ := aroundRing around held
      refine ⟨⟨w,later,t,still,small⟩,?_⟩
      obtain ⟨_,_,rfl,-⟩ := aroundShared around
      exact inv.none
  | reset port off ringed same =>
    obtain ⟨w',h',t',held'⟩ := ringed
    refine ⟨⟨w',h',t',held',?_⟩,inv.none⟩
    rwa [← held'.spans.elements,same,held.spans.elements]

def Single (c : Request) (s : Write) : Prop :=
  s.pieces = [] ∧ s.left = c.count ∨ s.left = 0 ∧ (s.place = .head ∨ ∃ n, s.place = .returned (.ok n))

theorem stepSingle (short : c.count ≤ c.mtu) (step : Interleaved c s s') (inv : Single c s) : Single c s' := by
  rcases inv with ⟨none,whole⟩ | ⟨done,head | ⟨n,returned⟩⟩
  · rcases interleavedCases step with turn | ⟨port,enabled,rfl,-⟩
    · rcases turnCases turn with ⟨_,_,_,_,rfl,-⟩ | ⟨-,port,addr,reply,rfl,-⟩
      · exact .inl ⟨none,whole⟩
      · refine .inr ⟨?_,.inl rfl⟩
        show s.left-min s.left c.mtu = 0
        omega
    · exact .inl ⟨none,whole⟩
  · rcases interleavedCases step with turn | ⟨port,enabled,rfl,-⟩
    · cases turn with
      | head here =>
        unfold Write.loopHead
        rw [if_pos done]
        exact .inr ⟨done,.inr ⟨_,rfl⟩⟩
      | count here | wait here | waitCount here | rewake here | signal here | wake here | fill _ _ _ here =>
        rw [head] at here
        cases here
    · exact .inr ⟨done,.inl head⟩
  · obtain ⟨place,-,left⟩ := returnedStays returned step
    exact .inr ⟨left.trans done,.inr ⟨n,place⟩⟩

section Second
variable {w : Window} {h t : Nat}

theorem queueAccepts {p : Port} (buf len flags : Nat) (reply : DmaReply) : (mhiQueueBuf p buf len flags reply).2 = none ↔
    (mhiPmInErrorState p.cntrl.pmState = false ∧ reply.ok = true) ∧ mhiIsRingFull p.chan.treRing = false := by
  have mapped : (fillBufInfo p {BufInfo.zero with vAddr := buf, cbBuf := buf, len := len} reply).2 = none ↔ reply.ok = true := by
    unfold fillBufInfo mapSingle mhiMapSingleUseBb mhiMapSingleNoBb
    cases p.cntrl.bounceBuf with
    | true => cases reply.ok <;> simp [BufInfo.zero]
    | false => cases reply.ok <;> simp [BufInfo.zero]
  have tre : (mhiGenTre p {BufInfo.zero with vAddr := buf, cbBuf := buf, len := len} flags reply).2 = none ↔ reply.ok = true := by
    rw [← mapped]
    unfold mhiGenTre
    dsimp only
    cases (fillBufInfo p {BufInfo.zero with vAddr := buf, cbBuf := buf, len := len} reply).2 with
    | none => simp
    | some e => simp
  have whole : (mhiQueueBuf p buf len flags reply).2 = (mhiQueueBufFill p buf len flags reply).2 := by
    unfold mhiQueueBuf
    cases mhiQueueBufFill p buf len flags reply with
    | mk out err => cases err <;> rfl
  rw [whole]
  unfold mhiQueueBufFill
  cases mhiPmInErrorState p.cntrl.pmState with
  | true => simp
  | false =>
    cases mhiIsRingFull p.chan.treRing with
    | true => simp
    | false =>
      simp only [Bool.false_eq_true,if_false,tre]
      simp

theorem fillQueues (s : Write) (kbuf : Nat) (held : s.port.chan.treRing.Holds w h t) (space : t+1 < h+w.count)
    (healthy : mhiPmInErrorState s.port.cntrl.pmState = false) :
    ∃ port, s.fill c (some kbuf) true ⟨0,0,true⟩ = s.queued c port kbuf := by
  have free : mhiIsRingFull s.port.chan.treRing = false := by
    rw [Bool.eq_false_iff,Ne,Ring.fullIff held]
    omega
  have accepted := (queueAccepts kbuf (s.xferSize c) (s.flags c) ⟨0,0,true⟩).mpr ⟨⟨healthy,rfl⟩,free⟩
  show ∃ port, s.queue c kbuf ⟨0,0,true⟩ = _
  unfold Write.queue
  cases ran : mhiQueueBuf s.port kbuf (s.xferSize c) (s.flags c) ⟨0,0,true⟩ with
  | mk port err =>
    rw [ran] at accepted
    cases accepted
    exact ⟨port,rfl⟩

theorem reachesFill (here : s.place = .head) (on : s.enabled = true) (more : s.left ≠ 0) (held : s.port.chan.treRing.Holds w h t)
    (space : t+1 < h+w.count) : ∃ nrAvail, ReflTransGen (Turn c) s {s with nrAvail := nrAvail, place := .filling} := by
  have avail : mhiGetFreeDescCount s.port = ((h+w.count-1-t : Nat) : Int) := Ring.availOf held
  have some : 0 < mhiGetFreeDescCount s.port := by rw [avail]; omega
  let at' (n : Int) (p : Place) : Write := {s with nrAvail := n, place := p}
  have wait : ∀ n, Turn c (at' n .waiting) (at' n .waitCounting) := by
    intro n
    have turn := @Turn.wait c (at' n .waiting) rfl
    rwa [Write.wait,if_pos on] at turn
  have count : ∀ n, Turn c (at' n .waitCounting) (at' (mhiGetFreeDescCount s.port) .woken) := by
    intro n
    have turn := @Turn.waitCount c (at' n .waitCounting) rfl
    unfold Write.waitCount at turn
    dsimp only [at'] at turn
    rwa [if_pos some] at turn
  have wake : Turn c (at' (mhiGetFreeDescCount s.port) .woken) (at' (mhiGetFreeDescCount s.port) .filling) := by
    have turn := @Turn.wake c (at' (mhiGetFreeDescCount s.port) .woken) rfl
    rwa [Write.wake,if_pos on] at turn
  have waits : ∀ n, ReflTransGen (Turn c) (at' n .waiting) (at' (mhiGetFreeDescCount s.port) .filling) :=
    fun n => ((ReflTransGen.single (wait n)).tail (count n)).tail wake
  refine ⟨mhiGetFreeDescCount s.port,?_⟩
  have first := Turn.head (c := c) here
  unfold Write.loopHead at first
  rw [if_neg more,on,Bool.true_and] at first
  cases nonblock : c.nonblock with
  | false =>
    rw [nonblock,if_neg Bool.false_ne_true] at first
    exact .head first (waits s.nrAvail)
  | true =>
    rw [nonblock,if_pos rfl] at first
    have turn := @Turn.count c (s.at' .counting) rfl
    unfold Write.count at turn
    dsimp only at turn
    have room : ¬mhiGetFreeDescCount (s.at' .counting).port = 0 := Int.ne_of_gt some
    rw [if_neg room] at turn
    exact .head first (.head turn (waits _))

theorem removedFails (here : s.place = .head) (off : s.enabled = false) (more : s.left ≠ 0) :
    ∃ s', ReflTransGen (Turn c) s s' ∧ s'.place = .returned (.error .enodev) ∧ s'.pieces = s.pieces := by
  have first := Turn.head (c := c) here
  unfold Write.loopHead at first
  rw [if_neg more,off,Bool.false_and,if_neg Bool.false_ne_true] at first
  have second := @Turn.wait c (s.at' .waiting) rfl
  unfold Write.wait at second
  rw [show (s.at' .waiting).enabled = false from off,if_neg Bool.false_ne_true] at second
  have third := @Turn.wake c (s.at' .woken) rfl
  unfold Write.wake at third
  rw [show (s.at' .woken).enabled = false from off,if_neg Bool.false_ne_true] at third
  exact ⟨_,.head first (.head second (.single third)),rfl,rfl⟩

theorem makesRoom (s : Write) (held : s.port.chan.treRing.Holds w h t) (large : 2 ≤ w.count) :
    ∃ port later, ReflTransGen Around s {s with port := port} ∧ mhiPmInErrorState port.cntrl.pmState = false ∧
      port.chan.treRing.Holds w later t ∧ t+1 < later+w.count := by
  have calm : Around s {s with port := {s.port with cntrl := {s.port.cntrl with pmState := .m0}}} := .controller _
  have room := held.room
  by_cases space : t+1 < h+w.count
  · exact ⟨_,h,.single calm,rfl,held,space⟩
  · have filled : h < t := by omega
    have outstanding : s.port.chan.treRing.rp ≠ s.port.chan.treRing.wp := by
      rw [Ne,Ring.emptyIff held]
      omega
    refine ⟨completed {s.port with cntrl := {s.port.cntrl with pmState := .m0}} ⟨0,none,0,none⟩,h+1,
      (ReflTransGen.single calm).tail (.completion _ outstanding),?_,Ring.delHolds held filled,by omega⟩
    unfold completed countUplink
    dsimp only
    split
    · rfl
    · rfl

end Second

theorem failsCleanIff (ringed : NetRing.Ringed port) : FailsClean c port enabled ↔ OneChunk c port enabled := by
  constructor
  · intro clean
    by_contra several
    unfold OneChunk at several
    simp only [not_or,Bool.not_eq_false,Nat.not_le,Nat.not_lt] at several
    obtain ⟨usable,on,long,large⟩ := several
    obtain ⟨w,h,t,held⟩ := ringed
    have elements := held.spans.elements
    obtain ⟨port',later,calm,healthy,room,space⟩ := @makesRoom w h t (mhiUciWrite c port enabled) held (by omega)
    have here : (mhiUciWrite c port enabled).place = .head := if_pos usable
    have left : (mhiUciWrite c port enabled).left ≠ 0 := by
      show c.count ≠ 0
      omega
    obtain ⟨nrAvail,reached⟩ := @reachesFill c {mhiUciWrite c port enabled with port := port'} w later t here on left room space
    let filling : Write := {mhiUciWrite c port enabled with port := port', nrAvail := nrAvail, place := .filling}
    obtain ⟨port'',queued⟩ := @fillQueues c w later t filling 0 room space healthy
    have fill : Turn c filling (filling.fill c (some 0) true ⟨0,0,true⟩) := .fill (some 0) true ⟨0,0,true⟩ rfl
    rw [queued] at fill
    have rest : (filling.queued c port'' 0).left ≠ 0 := by
      show c.count-min c.count c.mtu ≠ 0
      omega
    obtain ⟨s',fails,place,pieces⟩ := @removedFails c {filling.queued c port'' 0 with enabled := false} rfl rfl rest
    have own : ReflTransGen (Turn c) ≤ ReflTransGen (Interleaved c) :=
      ReflTransGen.mono fun _ _ turn => Interleaved.step (.turn turn)
    have others : ReflTransGen Around ≤ ReflTransGen (Interleaved c) :=
      ReflTransGen.mono fun _ _ around => Interleaved.step (.around around)
    have run := ((((others _ _ calm).trans (own _ _ reached)).tail (.step (.turn fill))).tail (.step (.around .removed))).trans (own _ _ fails)
    have none := clean s' .enodev run place
    rw [pieces] at none
    exact absurd none (List.append_ne_nil_of_right_ne_nil _ (List.cons_ne_nil _ _))
  · rintro (useless | off | short | small) s e run failed
    · have refused : (mhiUciWrite c port enabled).place = .returned (.error .einval) :=
        if_neg (by rw [useless]; exact Bool.false_ne_true)
      have idle : s.place = .returned (.error .einval) ∧ s.pieces = [] := by
        refine Runs.keeps (I := fun s : Write => s.place = .returned (.error .einval) ∧ s.pieces = []) ?_ run ⟨refused,rfl⟩
        intro a b step still
        obtain ⟨place,pieces,-⟩ := returnedStays still.1 step
        exact ⟨place,pieces.trans still.2⟩
      exact idle.2
    · have gone : Gone (mhiUciWrite c port enabled) := by
        refine ⟨off,rfl,?_⟩
        unfold mhiUciWrite
        dsimp only
        split <;> exact Place.noConfusion
      exact (Runs.keeps (fun _ _ step => stepGone step) run gone).none
    · rcases Runs.keeps (fun _ _ step => stepSingle short step) run (.inl ⟨rfl,rfl⟩) with ⟨none,-⟩ | ⟨-,place⟩
      · exact none
      · rw [failed] at place
        rcases place with head | ⟨n,done⟩
        · cases head
        · cases done
    · obtain ⟨w,h,t,held⟩ := ringed
      have elements := held.spans.elements
      exact (Runs.keeps (fun _ _ step => stepRoomless step) run ⟨⟨w,h,t,held,by omega⟩,rfl⟩).none

end Failures

/-! What a successful call has queued. -/
section Framing
variable {c : Request} {port : Port} {enabled : Bool} {s s' : Write} {w : Window} {t : Nat}

structure Piece.Carries (p : Piece) : Prop where
  tre : p.tre.ptr = p.info.pAddr ∧ p.tre.getEvLen = p.data.length
  info : p.info.vAddr = p.kbuf ∧ p.info.cbBuf = p.kbuf ∧ p.info.len = p.data.length

def LastEot (pieces : List Piece) : Prop := ∀ p ∈ pieces.getLast?, p.eot = true

structure Framed (c : Request) (w : Window) (t : Nat) (pieces : List Piece) : Prop where
  bytes : (pieces.map Piece.data).flatten = c.bytes 0 c.count
  sizes : ∀ p ∈ pieces, p.data.length ≤ c.mtu ∧ p.Carries
  cells : pieces.map Piece.cell = (List.range pieces.length).map fun k => w.slot (t+k)
  last : ∃ p ∈ pieces.getLast?, p.eot = true

structure Inv (c : Request) (w : Window) (t : Nat) (s : Write) : Prop where
  ring : ∃ h, s.port.chan.treRing.Holds w h (t+s.pieces.length)
  total : s.offset+s.left = c.count ∧ s.bytesXfered = s.offset
  bytes : (s.pieces.map Piece.data).flatten = c.bytes 0 s.offset
  sizes : ∀ p ∈ s.pieces, p.data.length ≤ c.mtu ∧ p.Carries
  cells : s.pieces.map Piece.cell = (List.range s.pieces.length).map fun k => w.slot (t+k)
  sampled : s.place = .filling ∨ s.place = .woken ∧ s.enabled = true → s.nrAvail ≤ mhiGetFreeDescCount s.port
  unfinished : LastEot s.pieces ∨ s.left ≠ 0 ∧ 0 < mhiGetFreeDescCount s.port
  blocked : s.place = .asleep ∨ s.place = .returned (.error .eagain) → LastEot s.pieces
  done : ∀ n, s.place = .returned (.ok n) → s.left = 0 ∧ n = c.count

theorem lengthField {len ptr dword1 : Nat} (fits : len ≤ mhiMaxMtu) :
    (⟨ptr,MhiTre.dataDword0 len,dword1⟩ : MhiTre).getEvLen = len := by
  have once := MhiTre.dataDword0Exact fits
  exact (congrArg (· &&& mhiMaxMtu) once).trans once

theorem eotFlag : ∀ bei ieot ieob chain, (MhiTre.dataDword1 bei ieot ieob chain).testBit 9 = ieot := by decide

section Descriptors
variable {p p' : Port} {flags : Nat} {reply : DmaReply}

def Describes (p : Port) (ch : Chan) (kbuf len flags : Nat) : Prop :=
  ∃ bei, (ch.bufMem p.chan.bufRing.wp).vAddr = kbuf ∧ (ch.bufMem p.chan.bufRing.wp).cbBuf = kbuf ∧
    (ch.bufMem p.chan.bufRing.wp).len = len ∧
    ch.treMem p.chan.treRing.wp = ⟨(ch.bufMem p.chan.bufRing.wp).pAddr,MhiTre.dataDword0 len,
      MhiTre.dataDword1 bei (flags &&& MhiFlags.eot != 0) (flags &&& MhiFlags.eob != 0) (flags &&& MhiFlags.chain != 0)⟩

theorem filledNames (info : BufInfo) (own : info.preMapped = false) : (fillBufInfo p info reply).1.vAddr = info.vAddr ∧
    (fillBufInfo p info reply).1.cbBuf = info.cbBuf ∧ (fillBufInfo p info reply).1.len = info.len := by
  unfold fillBufInfo mapSingle mhiMapSingleUseBb mhiMapSingleNoBb
  rw [own]
  simp only [Bool.false_eq_true,if_false]
  split
  · split <;> exact ⟨rfl,rfl,rfl⟩
  · exact ⟨rfl,rfl,rfl⟩

theorem genTreDescribes {info : BufInfo} (own : info.preMapped = false) (same : info.cbBuf = info.vAddr)
    (ran : mhiGenTre p info flags reply = (p',none)) : Describes p p'.chan info.vAddr info.len flags := by
  obtain ⟨vAddr,cbBuf,len⟩ := @filledNames p reply info own
  unfold mhiGenTre at ran
  cases mapped : (fillBufInfo p info reply).2 with
  | some e =>
    simp only [mapped] at ran
    cases ran
  | none =>
    simp only [mapped] at ran
    cases ran
    have element : Function.update p.chan.bufMem p.chan.bufRing.wp (fillBufInfo p info reply).1 p.chan.bufRing.wp =
      (fillBufInfo p info reply).1 := Function.update_self ..
    refine ⟨decide (p.chan.intmod ≠ 0),?_,?_,?_,?_⟩
    · exact (congrArg BufInfo.vAddr element).trans vAddr
    · exact (congrArg BufInfo.cbBuf element).trans (cbBuf.trans same)
    · exact (congrArg BufInfo.len element).trans len
    · exact (Function.update_self ..).trans (congrArg (fun b : BufInfo => MhiTre.mk b.pAddr _ _) element.symm)

theorem queueDescribes {buf len : Nat} (ran : mhiQueueBuf p buf len flags reply = (p',none)) :
    Describes p p'.chan buf len flags := by
  unfold mhiQueueBuf at ran
  cases filled : mhiQueueBufFill p buf len flags reply with
  | mk out err =>
    rw [filled] at ran
    cases err with
    | some e => cases ran
    | none =>
      cases ran
      have described : Describes p out.chan buf len flags := by
        unfold mhiQueueBufFill at filled
        split at filled
        · cases filled
        split at filled
        · cases filled
        exact @genTreDescribes p out flags reply {BufInfo.zero with vAddr := buf, cbBuf := buf, len := len} rfl rfl filled
      unfold mhiQueueBufFinish ringIfAccessible accept
      dsimp only
      split
      · exact described
      · exact described

end Descriptors

section Avail
variable {h : Nat}

theorem freeOf {p : Port} (held : p.chan.treRing.Holds w h t) : mhiGetFreeDescCount p = ((h+w.count-1-t : Nat) : Int) :=
  Ring.availOf held

end Avail

theorem lastAppend (pieces : List Piece) (p : Piece) : LastEot (pieces ++ [p]) ↔ p.eot = true := by
  unfold LastEot
  rw [List.getLast?_concat]
  simp

section Moves
variable {h : Nat}

theorem movedInv {p : Port} {n : Int} {place : Place} (inv : Inv c w t s)
    (held : s.port.chan.treRing.Holds w h (t+s.pieces.length))
    (held' : p.chan.treRing.Holds w h (t+s.pieces.length))
    (sampled : place = .filling ∨ place = .woken ∧ s.enabled = true → n ≤ mhiGetFreeDescCount s.port)
    (blocked : place = .asleep ∨ place = .returned (.error .eagain) → LastEot s.pieces)
    (done : ∀ n, place = .returned (.ok n) → s.left = 0 ∧ n = c.count) :
    Inv c w t {s with port := p, nrAvail := n, place := place} := by
  have same : mhiGetFreeDescCount p = mhiGetFreeDescCount s.port := (freeOf held').trans (freeOf held).symm
  refine ⟨⟨h,held'⟩,inv.total,inv.bytes,inv.sizes,inv.cells,?_,?_,blocked,done⟩
  · show _ → n ≤ mhiGetFreeDescCount p
    rw [same]
    exact sampled
  · show _ ∨ _ ∧ 0 < mhiGetFreeDescCount p
    rw [same]
    exact inv.unfinished

theorem queuedInv {p : Port} {kbuf : Nat} {reply : DmaReply} (inv : Inv c w t s) (here : s.place = .filling)
    (held : s.port.chan.treRing.Holds w h (t+s.pieces.length)) (held' : p.chan.treRing.Holds w h (t+s.pieces.length+1))
    (ran : mhiQueueBuf s.port kbuf (s.xferSize c) (s.flags c) reply = (p,none)) : Inv c w t (s.queued c p kbuf) := by
  obtain ⟨bei,vAddr,cbBuf,len,tre⟩ := queueDescribes ran
  obtain ⟨total,xfered⟩ := inv.total
  have part : s.xferSize c ≤ s.left := Nat.min_le_left _ _
  have sized : (c.bytes s.offset (s.xferSize c)).length = s.xferSize c := UciRead.spanLength _ _ _
  have longer : (s.pieces ++ [s.piece c p kbuf]).length = s.pieces.length+1 := List.length_append
  refine ⟨⟨h,?_⟩,⟨?_,?_⟩,?_,?_,?_,?_,?_,?_,?_⟩
  · show p.chan.treRing.Holds w h (t+(s.pieces ++ [s.piece c p kbuf]).length)
    rw [longer]
    exact held'
  · show s.offset+s.xferSize c+(s.left-s.xferSize c) = c.count
    omega
  · show s.bytesXfered+s.xferSize c = s.offset+s.xferSize c
    rw [xfered]
  · show ((s.pieces ++ [s.piece c p kbuf]).map Piece.data).flatten = c.bytes 0 (s.offset+s.xferSize c)
    rw [List.map_append,List.flatten_append,inv.bytes,List.map_singleton,List.flatten_singleton]
    have split := UciRead.spanAppend (c.buf.getD fun _ => 0) 0 s.offset (s.xferSize c)
    rw [Nat.zero_add] at split
    exact split.symm
  · intro q member
    rcases List.mem_append.mp member with before | last
    · exact inv.sizes q before
    · rw [List.mem_singleton.mp last]
      refine ⟨(Nat.le_of_eq sized).trans (Nat.min_le_right _ _),⟨?_,?_⟩,vAddr,cbBuf,len.trans sized.symm⟩
      · exact congrArg MhiTre.ptr tre
      · show (p.chan.treMem s.port.chan.treRing.wp).getEvLen = _
        rw [tre]
        exact (lengthField ((Nat.min_le_right _ _).trans (Nat.min_le_right _ _))).trans sized.symm
  · show (s.pieces ++ [s.piece c p kbuf]).map Piece.cell = (List.range (s.pieces ++ [s.piece c p kbuf]).length).map _
    rw [longer,List.range_succ,List.map_append,List.map_append,inv.cells,List.map_singleton,List.map_singleton]
    have cell : (s.piece c p kbuf).cell = w.slot (t+s.pieces.length) := held.wp
    rw [cell]
  · rintro (filling | ⟨woken,-⟩)
    · cases filling
    · cases woken
  · by_cases chained : 1 < s.nrAvail ∧ s.left-s.xferSize c ≠ 0
    · refine .inr ⟨chained.2,?_⟩
      have counted := inv.sampled (.inl here)
      show 0 < mhiGetFreeDescCount p
      rw [freeOf held] at counted
      rw [freeOf held']
      omega
    · refine .inl ((lastAppend _ _).mpr ?_)
      have flags : s.flags c = MhiFlags.eot := if_neg chained
      rw [flags] at tre
      show (p.chan.treMem s.port.chan.treRing.wp).dword1.testBit 9 = true
      rw [tre]
      exact eotFlag bei _ _ _
  · rintro (asleep | again)
    · cases asleep
    · cases again
  · intro n returned
    cases returned

theorem turnInv (turn : Turn c s s') (inv : Inv c w t s) : Inv c w t s' := by
  obtain ⟨h,held⟩ := inv.ring
  have moved := fun n p => @movedInv c s w t h s.port n p inv held held
  have plain : ∀ n (p : Place), p ≠ .filling → p ≠ .woken → p ≠ .asleep → (∀ ret, p ≠ .returned ret) →
      Inv c w t {s with nrAvail := n, place := p} := by
    intro n p filling woken asleep returned
    exact moved n p (fun either => (either.elim filling fun both => woken both.1).elim)
      (fun either => (either.elim asleep (returned _)).elim) fun _ done => (returned _ done).elim
  have failed : ∀ n e, (e = .eagain → LastEot s.pieces) → Inv c w t {s with nrAvail := n, place := .returned (.error e)} := by
    intro n e last
    refine moved n _ ?_ ?_ fun _ done => by cases done
    · rintro (filling | ⟨woken,-⟩)
      · cases filling
      · cases woken
    · rintro (asleep | again)
      · cases asleep
      · cases again
        exact last rfl
  -- with no descriptor left the chunk before was flagged
  have full : mhiGetFreeDescCount s.port ≤ 0 → LastEot s.pieces := by
    intro none
    refine inv.unfinished.resolve_right fun unfinished => ?_
    exact absurd unfinished.2 (Int.not_lt.mpr none)
  cases turn with
  | head here =>
    unfold Write.loopHead
    split
    · rename_i none
      refine moved _ _ ?_ ?_ ?_
      · rintro (filling | ⟨woken,-⟩)
        · cases filling
        · cases woken
      · rintro (asleep | again)
        · cases asleep
        · cases again
      · intro n returned
        cases returned
        obtain ⟨total,xfered⟩ := inv.total
        exact ⟨none,by omega⟩
    · split
      · exact plain _ _ Place.noConfusion Place.noConfusion Place.noConfusion fun _ => Place.noConfusion
      · exact plain _ _ Place.noConfusion Place.noConfusion Place.noConfusion fun _ => Place.noConfusion
  | count here =>
    unfold Write.count
    dsimp only
    split
    · rename_i none
      exact failed _ _ fun _ => full (Int.le_of_eq none)
    · exact plain _ _ Place.noConfusion Place.noConfusion Place.noConfusion fun _ => Place.noConfusion
  | wait here =>
    unfold Write.wait
    split
    · exact plain _ _ Place.noConfusion Place.noConfusion Place.noConfusion fun _ => Place.noConfusion
    · rename_i off
      refine moved _ _ ?_ ?_ fun _ done => by cases done
      · rintro (filling | ⟨-,on⟩)
        · cases filling
        · exact absurd on off
      · rintro (asleep | again)
        · cases asleep
        · cases again
  | waitCount here =>
    unfold Write.waitCount
    dsimp only
    split
    · refine moved _ _ (fun _ => Int.le_refl _) ?_ fun _ done => by cases done
      rintro (asleep | again)
      · cases asleep
      · cases again
    · rename_i none
      refine moved _ _ ?_ (fun _ => full (Int.not_lt.mp none)) fun _ done => by cases done
      rintro (filling | ⟨woken,-⟩)
      · cases filling
      · cases woken
  | rewake here => exact plain _ _ Place.noConfusion Place.noConfusion Place.noConfusion fun _ => Place.noConfusion
  | signal here => exact failed _ _ WriteError.noConfusion
  | wake here =>
    unfold Write.wake
    split
    · rename_i on
      refine moved _ _ (fun _ => inv.sampled (.inr ⟨here,on⟩)) ?_ fun _ done => by cases done
      rintro (asleep | again)
      · cases asleep
      · cases again
    · exact failed _ _ WriteError.noConfusion
  | fill kbuf copied reply here =>
    rcases fillCases c s kbuf copied reply with ⟨port,e,ctxt,fails,other,ring⟩ | ⟨port,addr,grown,ran,call⟩
    · rw [fails]
      show Inv c w t {s with port := port, nrAvail := s.nrAvail, place := .returned (.error e)}
      have held' : port.chan.treRing.Holds w h (t+s.pieces.length) := by
        rw [ring]
        exact held.rung ctxt
      refine movedInv inv held held' ?_ ?_ fun _ done => by cases done
      · rintro (filling | ⟨woken,-⟩)
        · cases filling
        · cases woken
      · rintro (asleep | again)
        · cases asleep
        · cases again
          exact absurd rfl other
    · rw [grown]
      have held' := (growsRing ⟨here,port,addr,reply,rfl,ran,call.space (call.passed rfl),_,call.tre⟩ held).2
      exact queuedInv inv here held held' ran

end Moves

theorem aroundInv (around : Around s s') (inv : Inv c w t s) : Inv c w t s' := by
  obtain ⟨h,held⟩ := inv.ring
  obtain ⟨later,further,held'⟩ := aroundRing around held
  obtain ⟨port,enabled,rfl,off⟩ := aroundShared around
  have more : mhiGetFreeDescCount s.port ≤ mhiGetFreeDescCount port := by
    rw [freeOf held,freeOf held']
    omega
  refine ⟨⟨later,held'⟩,inv.total,inv.bytes,inv.sizes,inv.cells,?_,?_,inv.blocked,inv.done⟩
  · rintro (filling | ⟨woken,on⟩)
    · exact (inv.sampled (.inl filling)).trans more
    · have on' : s.enabled = true := by
        by_contra was
        have now := off (Bool.eq_false_iff.mpr was)
        exact Bool.false_ne_true (now.symm.trans on)
      exact (inv.sampled (.inr ⟨woken,on'⟩)).trans more
  · rcases inv.unfinished with last | ⟨left,some⟩
    · exact .inl last
    · exact .inr ⟨left,Int.lt_of_lt_of_le some more⟩

theorem stepInv (step : Step c s s') (inv : Inv c w t s) : Inv c w t s' := by
  cases step with
  | turn turn => exact turnInv turn inv
  | around around => exact aroundInv around inv

theorem enteredInv {h : Nat} (held : port.chan.treRing.Holds w h t) : Inv c w t (mhiUciWrite c port enabled) := by
  have place : ∀ p, (mhiUciWrite c port enabled).place = p → p = .head ∨ p = .returned (.error .einval) := by
    rintro p rfl
    unfold mhiUciWrite
    dsimp only
    split
    · exact .inl rfl
    · exact .inr rfl
  refine ⟨⟨h,held⟩,⟨Nat.zero_add _,rfl⟩,rfl,(fun _ none => (List.not_mem_nil none).elim),rfl,?_,.inl fun _ none => ?_,?_,?_⟩
  · rintro (filling | ⟨woken,-⟩)
    · rcases place _ filling with no | no <;> cases no
    · rcases place _ woken with no | no <;> cases no
  · cases none
  · rintro (asleep | again)
    · rcases place _ asleep with no | no <;> cases no
    · rcases place _ again with no | no <;> cases no
  · intro n returned
    rcases place _ returned with no | no <;> cases no

theorem writeFramed {h : Nat} (held : port.chan.treRing.Holds w h t)
    (run : ReflTransGen (Step c) (mhiUciWrite c port enabled) s) :
    (∀ n, s.place = .returned (.ok n) → n = c.count ∧ Framed c w t s.pieces) ∧
      (s.place = .asleep ∨ s.place = .returned (.error .eagain) → LastEot s.pieces) := by
  have inv : Inv c w t s := Runs.keeps (fun _ _ step => stepInv step) run (enteredInv held)
  refine ⟨fun n returned => ?_,inv.blocked⟩
  obtain ⟨none,whole⟩ := inv.done n returned
  have total := inv.total.1
  have bytes := inv.bytes
  have reached : s.offset = c.count := by omega
  rw [reached] at bytes
  have usable : c.usable = true := by
    by_contra useless
    have refused : (mhiUciWrite c port enabled).place = .returned (.error .einval) := if_neg useless
    have still := Runs.keeps (I := fun s : Write => s.place = .returned (.error .einval))
      (fun _ _ step place => (returnedStays place (.step step)).1) run refused
    cases still.symm.trans returned
  have some : s.pieces ≠ [] := by
    intro empty
    have length := congrArg List.length bytes
    rw [empty] at length
    have zero : c.count = 0 := (length.trans (UciRead.spanLength _ _ _)).symm
    simp [Request.usable,zero] at usable
  refine ⟨whole,bytes,inv.sizes,inv.cells,s.pieces.getLast some,List.getLast?_eq_some_getLast some,?_⟩
  exact (inv.unfinished.resolve_right fun left => left.1 none) _ (List.getLast?_eq_some_getLast some)

end Framing

namespace Sample

def node (count : Nat) (nonblock : Bool) : Request := ⟨some fun _ => 7,count,nonblock,true,0x1000⟩
def entered (c : Request) : Write := mhiUciWrite c TransferFifo.uplinkPort true
def ready (s : Write) : Write := s.wait.waitCount.wake
def chunk (c : Request) (s : Write) : Write := (ready (s.loopHead c)).fill c (some 0x9000) true ⟨0x80009000,0,true⟩
def chunkNonblock (c : Request) (s : Write) : Write := (ready (s.loopHead c).count).fill c (some 0x9000) true ⟨0x80009000,0,true⟩

theorem held : TransferFifo.uplinkPort.chan.treRing.Holds (treWindow 0x1000 4 fourElements) 0 0 :=
  ⟨TransferFifo.uplinkStarted.config.laid.moved _ _ _ _,rfl,rfl,Nat.le_refl 0,by decide⟩

theorem fills {c : Request} {s : Write} (waiting : s.place = .waiting) (asked : s.wait.place = .waitCounting)
    (woken : s.wait.waitCount.place = .woken) (filling : (ready s).place = .filling) :
    ReflTransGen (Turn c) s ((ready s).fill c (some 0x9000) true ⟨0x80009000,0,true⟩) :=
  (((ReflTransGen.single (.wait waiting)).tail (.waitCount asked)).tail (.wake woken)).tail (.fill _ _ _ filling)

def half (s : Write) : Write := {s with port := completed s.port ⟨0x9000,some .toDevice,0x1000,none⟩}
def two : Request := node 0x1800 false
def written : Write := (chunk two (half (chunk two (entered two)))).loopHead two

theorem writes : ReflTransGen (Step two) (entered two) written := by
  have first : ReflTransGen (Turn two) (entered two) (chunk two (entered two)) :=
    .head (.head rfl) (fills rfl rfl rfl rfl)
  have second : ReflTransGen (Turn two) (half (chunk two (entered two))) written :=
    (ReflTransGen.head (.head rfl) (fills rfl rfl rfl rfl)).tail (.head rfl)
  have own : ReflTransGen (Turn two) ≤ ReflTransGen (Step two) := ReflTransGen.mono fun _ _ turn => Step.turn turn
  have completes : Step two (chunk two (entered two)) (half (chunk two (entered two))) := .around (.completion _ (by decide))
  exact ((own _ _ first).tail completes).trans (own _ _ second)

def four : Request := node 0x3001 true
def stuck : Write := ((chunkNonblock four (chunkNonblock four (chunkNonblock four (entered four)))).loopHead four).count

theorem sticks : ReflTransGen (Turn four) (entered four) stuck := by
  have one : ReflTransGen (Turn four) (entered four) (chunkNonblock four (entered four)) :=
    .head (.head rfl) (.head (.count rfl) (fills rfl rfl rfl rfl))
  have more : ReflTransGen (Turn four) (chunkNonblock four (entered four)) (chunkNonblock four (chunkNonblock four (entered four))) :=
    .head (.head rfl) (.head (.count rfl) (fills rfl rfl rfl rfl))
  have last : ReflTransGen (Turn four) (chunkNonblock four (chunkNonblock four (entered four)))
      (chunkNonblock four (chunkNonblock four (chunkNonblock four (entered four)))) :=
    .head (.head rfl) (.head (.count rfl) (fills rfl rfl rfl rfl))
  exact (((one.trans more).trans last).tail (.head rfl)).tail (.count rfl)

end Sample

theorem oneChunkClean : FailsClean (Sample.node 0x1000 true) TransferFifo.uplinkPort true :=
  (failsCleanIff ⟨_,0,0,Sample.held⟩).mpr (.inr (.inr (.inl (by decide))))

theorem twoChunksWritten : Sample.written.place = .returned (.ok 0x1800) ∧
    Framed Sample.two (treWindow 0x1000 4 fourElements) 0 Sample.written.pieces :=
  ⟨rfl,((writeFramed Sample.held Sample.writes).1 0x1800 rfl).2⟩

theorem prefixQueued : ¬FailsClean Sample.four TransferFifo.uplinkPort true ∧
    Sample.stuck.place = .returned (.error .eagain) ∧ Sample.stuck.pieces.length = 3 := by
  refine ⟨fun clean => ?_,rfl,rfl⟩
  have own : ReflTransGen (Turn Sample.four) ≤ ReflTransGen (Interleaved Sample.four) :=
    ReflTransGen.mono fun _ _ turn => Interleaved.step (.turn turn)
  have none := clean Sample.stuck .eagain (own _ _ Sample.sticks) rfl
  have three : Sample.stuck.pieces.length = 3 := rfl
  rw [none] at three
  cases three

end MhiHost.UciWrite
