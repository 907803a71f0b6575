import MhiHost.TransferFifo
import MhiHost.Lifecycle

/-! Lengths on their way through the descriptor: what a queue call or the pre-allocation is
given, what the TRE says, and what the completion reports. The API takes a `size_t`; the
descriptor and the comparison of the completion have 16 bits. -/
namespace MhiHost.TransferLengths
open Cyclic (Window)

def Written (t : MhiTre) (b : BufInfo) : Prop := t.dword0 = b.len % 2 ^ 16

theorem tellsWritten (len : Nat) : Fifo.Tells Written len := by
  intro b _ same
  show len &&& mhiMaxMtu = b.len % 2 ^ 16
  rw [same]
  exact Nat.and_two_pow_sub_one_eq_mod len 16

/- Byte counts for a batch: the last buffer's is bounded by the event's length. `field` is
what is left of a length in the code. -/
def bytesOf (field : Nat → Nat) (evLen : Nat) : List BufInfo → List Nat
  | [] => []
  | b :: rest => (if rest.isEmpty then min evLen (field b.len) else field b.len) :: bytesOf field evLen rest

structure Beside (wb : Window) (ch ch' : Chan) (h t : Nat) : Prop where
  log : ch'.xferLog = ch.xferLog
  batch : ∀ g ≤ t, wb.view ch'.bufMem h g = wb.view ch.bufMem h g

section Loop
variable {wt wb : Window} {p : Port} {h t : Nat} {placed : List Nat}

theorem Beside.refl {ch : Chan} : Beside wb ch ch h t := ⟨rfl,fun _ _ => rfl⟩

theorem Beside.after {ch ch' ch'' : Chan} {mid : Nat} (le : t ≤ mid) (first : Beside wb ch ch' h t)
    (second : Beside wb ch' ch'' h mid) : Beside wb ch ch'' h t := by
  refine ⟨second.log.trans first.log,?_⟩
  intro g below
  exact (second.batch g (below.trans le)).trans (first.batch g below)

theorem callBeside {cb len : Nat} {reached : Bool} {p' : Port} {err : Option Errno}
    (fifo : Fifo Written wt wb p.chan h t placed) (call : Queueing.Call p cb len reached p' err) :
    Beside wb p.chan p'.chan h t := by
  refine ⟨call.log,?_⟩
  intro g below
  have mem := call.mem
  cases reached with
  | false => rw [if_neg Bool.false_ne_true] at mem; rw [mem]
  | true =>
    rw [if_pos rfl] at mem
    obtain ⟨b,_,_,mem⟩ := mem
    rw [mem,fifo.buf.wp]
    exact wb.viewBelow _ _ below fifo.buf.room

theorem queueAllBeside {qs : List QueueReq} (fifo : Fifo Written wt wb p.chan h t placed) (wide : wt.count ≤ wb.count) :
    Beside wb p.chan (queueAll p qs).chan h t := by
  induction qs generalizing p t placed with
  | nil => exact .refl
  | cons q rest ih =>
    obtain ⟨⟨mid,_,le,kept,_⟩,_⟩ := fifo.queue (q := q) wide (tellsWritten q.len)
    exact (callBeside fifo (Queueing.queueCall p q)).after le (ih kept)

theorem recycleBeside (bufInfo : Nat) (reply : DmaReply) (fifo : Fifo Written wt wb p.chan h t placed) :
    Beside wb p.chan (recycleBuf p bufInfo reply).chan h t := by
  unfold recycleBuf
  split
  · have call := callBeside fifo (Queueing.bufCall (p.chan.bufMem bufInfo).cbBuf (p.chan.bufMem bufInfo).len MhiFlags.eot reply)
    dsimp only
    split
    · rename_i ran
      rw [ran] at call
      exact call
    · rename_i ran
      rw [ran] at call
      exact ⟨call.log,call.batch⟩
  · exact .refl

theorem turnReports {ev : MhiTre} {evTre : Nat} {script : CbScript} (fifo : Fifo Written wt wb p.chan h t placed)
    (wide : wt.count ≤ wb.count) (filled : h < t) :
    (xferOne ev evTre script p).chan.xferLog = p.chan.xferLog ++ [xferResult p ev evTre] ∧
      ∀ g ≤ t, wb.view (xferOne ev evTre script p).chan.bufMem (h+1) g = wb.view p.chan.bufMem (h+1) g := by
  have retired : Fifo Written wt wb (retire p (xferResult p ev evTre)).chan (h+1) t placed := fifo.retire filled rfl
  have called := @queueAllBeside wt wb _ (h+1) t placed script.calls retired wide
  obtain ⟨⟨mid,_,le,kept,_⟩,_⟩ := retired.queueAll wide fun q (_ : q ∈ script.calls) => tellsWritten q.len
  have recycled := @recycleBeside wt wb
    ⟨countUplink (queueAll (retire p (xferResult p ev evTre)) script.calls).chan.dir (-1)
      (queueAll (retire p (xferResult p ev evTre)) script.calls).cntrl,_⟩ (h+1) mid _ p.chan.bufRing.rp script.recycle kept
  have whole := called.after le recycled
  exact ⟨whole.log,whole.batch⟩

theorem loopReports {ev : MhiTre} {script : Nat → CbScript} {p' : Port} {g fuel i : Nat}
    (fifo : Fifo Written wt wb p.chan h t placed)
    (wide : wt.count ≤ wb.count) (ahead : h ≤ g) (inside : g+1 ≤ t)
    (ran : xferLoop ev (wt.slot g) (wt.slot (g+1)) script fuel i p = some p') (most : p.chan.treRing.rp ≠ wt.slot (g+1)) :
    ∃ reports, p'.chan.xferLog = p.chan.xferLog ++ reports ∧
      reports.map MhiResult.bytesXferd = bytesOf (· % 2 ^ 16) ev.getEvLen (wb.view p.chan.bufMem h (g+1)) := by
  induction fuel generalizing p h t placed i with
  | zero =>
    rw [xferLoop,if_neg most] at ran
    cases ran
  | succ fuel ih =>
    rw [xferLoop,if_neg most] at ran
    have room := fifo.tre.room
    obtain ⟨log,batch⟩ := @turnReports wt wb p h t placed ev (wt.slot g) (script i) fifo wide (by omega)
    have first : (xferResult p ev (wt.slot g)).bytesXferd =
        min (if h = g then ev.getEvLen else (p.chan.bufMem (wb.slot h)).len % 2 ^ 16) ((p.chan.bufMem (wb.slot h)).len % 2 ^ 16) := by
      have named : p.chan.treRing.rp = wt.slot g ↔ h = g := by
        rw [fifo.tre.rp]
        exact ⟨wt.slotNear ahead (by omega),congrArg wt.slot⟩
      unfold xferResult
      simp only [named,fifo.buf.rp]
    obtain ⟨⟨mid,_,le,kept,_⟩,_⟩ := @Fifo.xferOne Written wt wb p h t placed ev (wt.slot g) (script i) fifo wide (by omega)
      (fun q _ => tellsWritten q.len) fun _ => tellsWritten
    rw [wb.viewPop _ (Nat.lt_succ_of_le ahead)]
    rcases Nat.lt_or_ge h g with before | last
    · have later : (xferOne ev (wt.slot g) (script i) p).chan.treRing.rp ≠ wt.slot (g+1) := by
        rw [kept.tre.rp]
        exact wt.slotApart (by omega) (by omega)
      obtain ⟨reports,logged,bytes⟩ := ih kept before (by omega) ran later
      refine ⟨xferResult p ev (wt.slot g) :: reports,?_,?_⟩
      · rw [logged,log,List.append_assoc]
        rfl
      · rw [List.map_cons,bytes,first,batch (g+1) inside,if_neg (Nat.ne_of_lt before),Nat.min_self]
        have more : (wb.view p.chan.bufMem (h+1) (g+1)).isEmpty = false := by
          rw [wb.viewPop _ (Nat.succ_lt_succ before)]
          rfl
        rw [bytesOf,more]
        rfl
    · obtain rfl : h = g := Nat.le_antisymm ahead last
      have ends : xferLoop ev (wt.slot h) (wt.slot (h+1)) script fuel (i+1) (xferOne ev (wt.slot h) (script i) p) =
          some (xferOne ev (wt.slot h) (script i) p) := by
        cases fuel <;> rw [xferLoop,if_pos kept.tre.rp]
      rw [ends] at ran
      cases ran
      refine ⟨[xferResult p ev (wt.slot h)],log,?_⟩
      rw [wb.viewEmpty,List.map_singleton,first,if_pos rfl]
      rfl

end Loop

/- A channel whose rings were laid out by the configuration and the context, fed by its
client or by the core. The local ring is at least as long as the transfer ring. -/
structure Laid (wt wb : Window) (vz : Nat) (ch : Chan) (p : Port) : Prop where
  laid : ch.treRing.Over wt
  tres : wt.size = sizeofMhiTre
  locals : wb.base = vz ∧ wb.size = sizeofMhiBufInfo ∧ wb.count = ch.bufRing.elements
  wide : wt.count ≤ wb.count
  block : Allocated vz (sizeofMhiBufInfo*ch.bufRing.elements)
  noBus : ch.bufRing.iommuBase = 0
  init : mhiInitChanCtxt ch (some vz) = (p.chan,none)

inductive Step (wt : Window) : Port → Port → Prop where
  | queue {p} (q : QueueReq) : Step wt p (mhiQueue p q).1
  | preAllocate {p} (reply : Nat → Option Nat × DmaReply) : Step wt p (preAllocate p reply).1
  | event {p p'} (ev : MhiTre) (script : Nat → CbScript) (code : isXferCode ev.getEvCode = true)
      (named : NamesOutstanding wt p.chan ev) (ran : parseXferEvent ev script p = some p') : Step wt p p'
  | controller {p} (c : Cntrl) : Step wt p {p with cntrl := c}
  | chState {p} (st : ChState) : Step wt p {p with chan := {p.chan with chState := st}}

def Standing (wt wb : Window) (p : Port) : Prop := ∃ h t placed, Fifo Written wt wb p.chan h t placed

theorem laidStanding {wt wb : Window} {vz : Nat} {ch : Chan} {p : Port} (laid : Laid wt wb vz ch p) : Standing wt wb p := by
  have chan : (mhiInitChanCtxt ch (some vz)).1 = p.chan := congrArg Prod.fst laid.init
  have bus : ch.bufRing.iommuBase+sizeofMhiBufInfo*ch.bufRing.elements ≤ wordSpan := by
    rw [laid.noBus,Nat.zero_add]
    exact Nat.le_of_lt (Nat.lt_of_le_of_lt (Nat.le_add_left _ _) laid.block.2)
  have fresh : Fifo Written wt wb (mhiInitChanCtxt ch (some vz)).1 0 0 (handed ch) :=
    Fifo.fresh laid.laid laid.block laid.locals.1 laid.locals.2.1 laid.locals.2.2 bus
  rw [chan] at fresh
  exact ⟨0,0,_,fresh⟩

theorem preAllocLoopStanding {wt wb : Window} {reply : Nat → Option Nat × DmaReply} {left i : Nat} {p out : Port}
    {err : Option Errno}
    {h t : Nat} {placed : List Nat} (fifo : Fifo Written wt wb p.chan h t placed) (wide : wt.count ≤ wb.count)
    (free : left+t+1 ≤ h+wt.count) (ran : preAllocLoop reply left i p = (out,err)) : Standing wt wb out := by
  induction left generalizing i p t placed with
  | zero =>
    cases ran
    exact ⟨h,t,placed,fifo⟩
  | succ left ih =>
    unfold preAllocLoop at ran
    split at ran
    · cases ran
      exact ⟨h,t,placed,fifo⟩
    · split at ran
      · rename_i refused
        cases ran
        have kept := (fifo.genTreRefused refused).1
        exact ⟨h,t,placed,kept.of kept.tre rfl rfl rfl rfl⟩
      · rename_i filled
        have kept := (fifo.genTreFills wide (by omega) (tellsWritten _) filled).1
        exact ih kept (by omega) ran

theorem preAllocateStanding {wt wb : Window} {p : Port} (reply : Nat → Option Nat × DmaReply) (wide : wt.count ≤ wb.count)
    (standing : Standing wt wb p) : Standing wt wb (preAllocate p reply).1 := by
  obtain ⟨h,t,placed,fifo⟩ := standing
  unfold preAllocate
  split
  · have room := fifo.tre.room
    have free : (getNrAvailRingElements p.chan.treRing).toNat+t+1 ≤ h+wt.count := by
      rw [Ring.availOf fifo.tre]
      omega
    split
    · rename_i ran
      exact preAllocLoopStanding fifo wide free ran
    · rename_i ran
      obtain ⟨h,t,placed,kept⟩ := preAllocLoopStanding fifo wide free ran
      exact ⟨h,t,placed,kept.ringIf⟩
  · exact ⟨h,t,placed,fifo⟩

theorem eventEnds {wt wb : Window} {p : Port} {h t j : Nat} {placed : List Nat} {ev : MhiTre} (script : Nat → CbScript)
    (fifo : Fifo Written wt wb p.chan h t placed) (wide : wt.count ≤ wb.count) (ahead : h ≤ j) (inside : j < t) :
    ∃ p', xferLoop ev (wt.slot j) (wt.slot (j+1)) script p.chan.treRing.elements 0 p = some p' ∧ Standing wt wb p' := by
  have room := fifo.tre.room
  have turns : j+1-h ≤ p.chan.treRing.elements := by
    rw [fifo.tre.spans.elements]
    omega
  obtain ⟨p',ran,⟨⟨t',_,_,kept,_⟩,_⟩⟩ := @Fifo.xferLoop Written wt wb p h t placed ev (wt.slot j) (wt.slot (j+1)) script (j+1)
    p.chan.treRing.elements 0 fifo wide (fun i q _ => tellsWritten q.len) (fun _ => tellsWritten) rfl
    (Nat.le_succ_of_le ahead) (Nat.succ_le_of_lt inside) turns
  exact ⟨p',ran,_,t',_,kept⟩

theorem stepStanding {wt wb : Window} {p p' : Port} (wide : wt.count ≤ wb.count) (tres : wt.size = sizeofMhiTre)
    (step : Step wt p p') (standing : Standing wt wb p) : Standing wt wb p' := by
  obtain ⟨h,t,placed,fifo⟩ := standing
  cases step with
  | queue q =>
    obtain ⟨⟨t',_,_,kept,_⟩,_⟩ := fifo.queue (q := q) wide (tellsWritten q.len)
    exact ⟨h,t',_,kept⟩
  | preAllocate reply => exact preAllocateStanding reply wide ⟨h,t,placed,fifo⟩
  | event ev script code named ran =>
    unfold parseXferEvent at ran
    split at ran
    · cases ran
      exact ⟨h,t,placed,fifo⟩
    · obtain ⟨j,ahead,inside,cell⟩ := namedCell fifo.tre named
      simp only [cell,afterCell fifo.tre.spans tres] at ran
      obtain ⟨out,ends,kept⟩ := @eventEnds wt wb p h t j placed ev script fifo wide ahead inside
      rw [ran] at ends
      cases ends
      exact kept
  | controller c => exact ⟨h,t,placed,fifo⟩
  | chState st => exact ⟨h,t,placed,fifo.of fifo.tre rfl rfl rfl rfl⟩

def batch (wb : Window) (ch : Chan) (k : Nat) : List BufInfo := ((Ring.outstanding wb ch.bufRing).take (k+1)).map ch.bufMem

def batchTres (wt : Window) (ch : Chan) (k : Nat) : List MhiTre := ((Ring.outstanding wt ch.treRing).take (k+1)).map ch.treMem

theorem viewTake {α : Type} (w : Window) (mem : Nat → α) {h t k : Nat} (inside : h+k ≤ t) :
    (w.view mem h t).take k = w.view mem h (h+k) := by
  unfold Window.view
  rw [← List.map_take,List.take_range,Nat.min_eq_left (by omega),Nat.add_sub_cancel_left]

theorem outstandingBatch {α : Type} {w : Window} {r : Ring} {h t k : Nat} (held : r.Holds w h t) (mem : Nat → α)
    (inside : h+k < t) : ((Ring.outstanding w r).take (k+1)).map mem = w.view mem h (h+k+1) := by
  rw [List.map_take,Ring.outstandingView held]
  exact viewTake w mem inside

theorem writtenLengths {ts : List MhiTre} {bs : List BufInfo} (paired : List.Forall₂ Written ts bs) :
    ts.map MhiTre.dword0 = bs.map (fun b => b.len % 2 ^ 16) := by
  induction paired with
  | nil => rfl
  | cons first _ ih => rw [List.map_cons,List.map_cons,first,ih]

theorem bytesFit {evLen : Nat} {bs : List BufInfo} (fits : ∀ b ∈ bs, b.len ≤ mhiMaxMtu) :
    bytesOf (· % 2 ^ 16) evLen bs = bytesOf id evLen bs := by
  induction bs with
  | nil => rfl
  | cons b rest ih =>
    have small : b.len < 2 ^ 16 := Nat.lt_succ_of_le (fits b List.mem_cons_self)
    unfold bytesOf
    rw [ih fun c member => fits c (List.mem_cons_of_mem _ member),Nat.mod_eq_of_lt small]
    rfl

theorem lengthsSurvive {wt wb : Window} {vz k cell : Nat} {ch : Chan} {first p : Port} {ev : MhiTre} (script : Nat → CbScript)
    (laid : Laid wt wb vz ch first) (run : Relation.ReflTransGen (Step wt) first p) (enabled : p.chan.chState = .enabled)
    (code : isXferCode ev.getEvCode = true) (named : (Ring.outstanding wt p.chan.treRing)[k]? = some cell)
    (pointer : ev.getEvPtr = p.chan.treRing.iommuBase+(cell-p.chan.treRing.base)) :
    ∃ p', parseXferEvent ev script p = some p' ∧
      (((batchTres wt p.chan k).map MhiTre.dword0 = (batch wb p.chan k).map BufInfo.len ∧
        ∃ reports, p'.chan.xferLog = p.chan.xferLog ++ reports ∧
          reports.map MhiResult.bytesXferd = bytesOf id ev.getEvLen (batch wb p.chan k)) ↔
        ∀ b ∈ batch wb p.chan k, b.len ≤ mhiMaxMtu) := by
  obtain ⟨h,t,placed,fifo⟩ :=
    @Runs.keeps _ (Step wt) first p (Standing wt wb) (fun _ _ step => stepStanding laid.wide laid.tres step) run (laidStanding laid)
  have room := fifo.tre.room
  have within : k < t-h := by
    obtain ⟨inside,_⟩ := List.getElem?_eq_some_iff.mp named
    rw [Ring.outstandingLength fifo.tre] at inside
    exact inside
  have place : cell = wt.slot (h+k) := by
    rw [Ring.outstandingAt fifo.tre within] at named
    exact (Option.some.inj named).symm
  obtain ⟨p',ran,_⟩ := @eventEnds wt wb p h t (h+k) placed ev script fifo laid.wide (Nat.le_add_right h k) (by omega)
  have parsed : parseXferEvent ev script p = some p' := by
    unfold parseXferEvent
    have named : mhiToVirtual p.chan.treRing ev.getEvPtr = wt.slot (h+k) := by
      rw [pointer,place,Ring.toVirtualSlot fifo.tre.spans]
    simp only [enabled,ne_eq,not_true_eq_false,if_false,if_pos code,named,afterCell fifo.tre.spans laid.tres]
    exact ran
  have most : p.chan.treRing.rp ≠ wt.slot (h+k+1) := by
    rw [fifo.tre.rp]
    exact wt.slotApart (by omega) (by omega)
  obtain ⟨reports,logged,bytes⟩ := loopReports fifo laid.wide (Nat.le_add_right h k) (by omega) ran most
  have buffers : batch wb p.chan k = wb.view p.chan.bufMem h (h+k+1) := outstandingBatch fifo.buf _ (by omega)
  have written : (batchTres wt p.chan k).map MhiTre.dword0 = (batch wb p.chan k).map (fun b => b.len % 2 ^ 16) := by
    refine writtenLengths ?_
    have paired := List.forall₂_take (k+1) fifo.paired
    rw [viewTake wt _ (by omega),viewTake wb _ (by omega)] at paired
    rw [buffers]
    unfold batchTres
    rw [outstandingBatch fifo.tre _ (by omega)]
    exact paired
  rw [← buffers] at bytes
  refine ⟨p',parsed,?_,?_⟩
  · rintro ⟨fields,_⟩ b member
    rw [written] at fields
    have whole : b.len % 2 ^ 16 = b.len := List.map_inj_left.mp fields b member
    exact Nat.le_of_lt_succ (whole ▸ Nat.mod_lt b.len (by decide))
  · intro fits
    refine ⟨?_,reports,logged,bytes.trans (bytesFit fits)⟩
    rw [written]
    exact List.map_congr_left fun b member => Nat.mod_eq_of_lt (Nat.lt_succ_of_le (fits b member))

def ring : Window := treWindow 0x1000 4 fourElements
def enabledPort : Port := {TransferFifo.uplinkPort with chan := {TransferFifo.uplinkPort.chan with chState := .enabled}}
def queuedPort : Port := (mhiQueue enabledPort TransferFifo.uplinkReq).1

theorem uplinkLaid : Laid ring (TransferFifo.bufWindow 0x4000 ring) 0x4000 TransferFifo.uplinkChan TransferFifo.uplinkPort where
  laid := TransferFifo.uplinkStarted.config.laid
  tres := rfl
  locals := ⟨rfl,rfl,rfl⟩
  wide := Nat.le_refl 4
  block := by decide
  noBus := rfl
  init := rfl

theorem lengthsSurviveUplink : ∃ p', parseXferEvent TransferFifo.uplinkEvent TransferFifo.uplinkScript queuedPort = some p' ∧
    (((batchTres ring queuedPort.chan 0).map MhiTre.dword0 = (batch (TransferFifo.bufWindow 0x4000 ring) queuedPort.chan 0).map BufInfo.len ∧
      ∃ reports, p'.chan.xferLog = queuedPort.chan.xferLog ++ reports ∧ reports.map MhiResult.bytesXferd =
        bytesOf id TransferFifo.uplinkEvent.getEvLen (batch (TransferFifo.bufWindow 0x4000 ring) queuedPort.chan 0)) ↔
      ∀ b ∈ batch (TransferFifo.bufWindow 0x4000 ring) queuedPort.chan 0, b.len ≤ mhiMaxMtu) := by
  have enabled : Step ring TransferFifo.uplinkPort enabledPort := .chState .enabled
  have queued : Step ring enabledPort queuedPort := .queue TransferFifo.uplinkReq
  have named : (Ring.outstanding ring queuedPort.chan.treRing)[0]? = some 0x1000 := by decide
  exact lengthsSurvive TransferFifo.uplinkScript uplinkLaid ((Relation.ReflTransGen.single enabled).tail queued) rfl
    (by decide) named rfl

def longReq : QueueReq := {TransferFifo.uplinkReq with len := 0x10000}
def longPort : Port := (mhiQueue enabledPort longReq).1
def longEvent : MhiTre := {TransferFifo.uplinkEvent with dword0 := EvCc.eot <<< 24 ||| 0xffff}

theorem longTransferCut : (mhiQueue enabledPort longReq).2 = none ∧
    (batch (TransferFifo.bufWindow 0x4000 ring) longPort.chan 0).map BufInfo.len = [0x10000] ∧
    (batchTres ring longPort.chan 0).map MhiTre.dword0 = [0] ∧
    ((parseXferEvent longEvent (fun _ => ⟨[],⟨0,0,false⟩⟩) longPort).map fun p => p.chan.xferLog.map MhiResult.bytesXferd) =
    some [0] ∧
    bytesOf id longEvent.getEvLen (batch (TransferFifo.bufWindow 0x4000 ring) longPort.chan 0) = [0xffff] := by
  decide

end MhiHost.TransferLengths
