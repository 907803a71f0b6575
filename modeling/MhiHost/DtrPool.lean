import MhiHost.Runs
import MhiHost.RxBuffers
import MhiHost.UciWrite

/-! The receive buffers of `mhi_dtr.c`. The probe fills the ring once; from then on every
buffer comes back through `mhi_dtr_dl_xfer_cb`, which queues it again, frees it, or forgets it.
The queue calls of both take no lock up to where they move the write pointers, and are cut there.
A buffer is named by its allocation number. -/
namespace MhiHost.DtrPool
open NetRing (mhiGetFreeDescCount outstanding outstandingOf)
open RxBuffers (onRing ringBufs Standing standingRetire)
open Cyclic (Window)
open Relation (ReflTransGen)

def sizeofDtrCtrlMsg : Nat := 20

/- `mhi_queue_buf` up to the write pointers: the element is written, and not yet the ring's. -/
def fill (p : Port) (buf : Nat) (reply : DmaReply) : Port × Option Errno :=
  if mhiPmInErrorState p.cntrl.pmState then (p,some .eio)
  else if mhiIsRingFull p.chan.treRing then (p,some .enomem)
  else
    let out := fillBufInfo p {BufInfo.zero with vAddr := buf, cbBuf := buf, len := sizeofDtrCtrlMsg} reply
    let ch := {p.chan with bufMem := Function.update p.chan.bufMem p.chan.bufRing.wp out.1}
    match out.2 with
    | some e => ({p with chan := ch},some e)
    | none =>
      let tre : MhiTre := ⟨out.1.pAddr,MhiTre.dataDword0 sizeofDtrCtrlMsg,
        MhiTre.dataDword1 (decide (p.chan.intmod ≠ 0)) (MhiFlags.eot &&& MhiFlags.eot != 0)
          (MhiFlags.eot &&& MhiFlags.eob != 0) (MhiFlags.eot &&& MhiFlags.chain != 0)⟩
      ({p with chan := {ch with treMem := Function.update p.chan.treMem p.chan.treRing.wp tre}},none)

def advance (p : Port) (buf : Nat) : Port :=
  mhiQueueBufFinish {p with chan := {p.chan with
    treRing := mhiAddRingElement p.chan.treRing
    bufRing := mhiAddRingElement p.chan.bufRing}} buf

theorem queueCut (p : Port) (buf : Nat) (reply : DmaReply) : mhiQueueBuf p buf sizeofDtrCtrlMsg MhiFlags.eot reply =
    match fill p buf reply with
    | (out,some e) => (out,some e)
    | (out,none) => (advance out buf,none) := by
  unfold mhiQueueBuf mhiQueueBufFill fill
  by_cases error : mhiPmInErrorState p.cntrl.pmState = true
  · simp only [error,if_true]
  by_cases full : mhiIsRingFull p.chan.treRing = true
  · simp only [error,full,if_true]
    rfl
  simp only [error,full,mhiGenTre]
  cases (fillBufInfo p {BufInfo.zero with vAddr := buf, cbBuf := buf, len := sizeofDtrCtrlMsg} reply).2 with
  | some e => rfl
  | none => rfl

inductive Probe where
  | filling (left : Nat) (ret : Option Errno)
  | submitting (left : Nat) (buf : Nat)
  | queuing (left : Nat) (buf : Nat)
  | done (ret : Option Errno)
  deriving DecidableEq, Repr

def Probe.hand : Probe → List Nat
  | .submitting _ buf | .queuing _ buf => [buf]
  | _ => []

def Probe.inside : Probe → List Nat
  | .queuing _ buf => [buf]
  | _ => []

def Probe.left : Probe → Nat
  | .filling left _ | .submitting left _ | .queuing left _ => left
  | .done _ => 0

/- `calls` are the callbacks under way, `requeuing` the buffers of those inside their queue call;
`odd` counts the messages of a wrong length and `refused` the buffers that could not be queued
again. -/
structure Dtr where
  port : Port
  probe : Probe
  calls : List MhiResult
  requeuing : List Nat
  next : Nat
  freed : List Nat
  lost : List Nat
  odd : Nat
  refused : Nat

namespace Dtr

def probed (p : Port) : Dtr := ⟨p,.filling (mhiGetFreeDescCount p).toNat (some .eio),[],[],0,[],[],0,0⟩

def kmalloc (s : Dtr) (left : Nat) (ok : Bool) : Dtr :=
  if ok then {s with next := s.next+1, probe := .submitting left s.next} else {s with probe := .done (some .enomem)}

def submit (s : Dtr) (left buf : Nat) (reply : DmaReply) : Dtr :=
  match fill s.port buf reply with
  | (port,none) => {s with port := port, probe := .queuing left buf}
  | (port,some e) => {s with port := port, probe := .done (some e), freed := s.freed ++ [buf]}

def queued (s : Dtr) (left buf : Nat) : Dtr := {s with port := advance s.port buf, probe := .filling left none}

def dlXferCb (s : Dtr) (r : MhiResult) (reply : DmaReply) : Dtr :=
  if r.transactionStatus = some .enotconn then {s with freed := s.freed ++ [r.bufAddr]}
  else if r.bytesXferd ≠ sizeofDtrCtrlMsg then {s with lost := s.lost ++ [r.bufAddr], odd := s.odd+1}
  else match fill s.port r.bufAddr reply with
    | (port,none) => {s with port := port, requeuing := s.requeuing ++ [r.bufAddr]}
    | (port,some _) => {s with port := port, lost := s.lost ++ [r.bufAddr], refused := s.refused+1}

def requeued (s : Dtr) (front back : List Nat) (buf : Nat) : Dtr :=
  {s with port := advance s.port buf, requeuing := front ++ back}

def inside (s : Dtr) : List Nat := s.probe.inside ++ s.requeuing

end Dtr

def Requeues (r : MhiResult) : Prop := r.transactionStatus ≠ some .enotconn ∧ r.bytesXferd = sizeofDtrCtrlMsg

/- Whatever else happens to the controller and to the channel's state; the reset of the
channel reports its buffers as any completion does. `may` is asked where a queue call begins. -/
inductive Step (may : Dtr → Prop) : Dtr → Dtr → Prop where
  | kmalloc {s left ret} (ok : Bool) (here : s.probe = .filling (left+1) ret) : Step may s (s.kmalloc left ok)
  | submit {s left buf} (reply : DmaReply) (here : s.probe = .submitting left buf) (asked : may s) :
      Step may s (s.submit left buf reply)
  | queued {s left buf} (here : s.probe = .queuing left buf) : Step may s (s.queued left buf)
  | filled {s ret} (here : s.probe = .filling 0 ret) : Step may s {s with probe := .done ret}
  | completed {s} (r : MhiResult) (some : 0 < outstanding s.port)
      (named : r.bufAddr = (s.port.chan.bufMem s.port.chan.bufRing.rp).cbBuf) :
      Step may s {s with port := retire s.port r, calls := s.calls ++ [r]}
  | called {s} (r : MhiResult) (front back : List MhiResult) (reply : DmaReply) (here : s.calls = front ++ r :: back)
      (asked : Requeues r → may s) : Step may s ({s with calls := front ++ back}.dlXferCb r reply)
  | requeued {s} (front back : List Nat) (buf : Nat) (here : s.requeuing = front ++ buf :: back) :
      Step may s (s.requeued front back buf)
  | beside {s} (c : Cntrl) (st : ChState) : Step may s {s with port := ⟨c,{s.port.chan with chState := st}⟩}

def Apart (s : Dtr) : Prop := s.inside = []

def held (s : Dtr) : List Nat := s.probe.hand ++ onRing s.port ++ s.calls.map MhiResult.bufAddr ++ s.requeuing
def places (s : Dtr) : List Nat := held s ++ (s.freed ++ s.lost)

structure Kept (s : Dtr) : Prop where
  conserved : (places s).Perm (List.range s.next)
  forgotten : s.lost.length = s.odd+s.refused
  room : ∀ r ∈ s.calls, ∀ reply, (fill s.port r.bufAddr reply).2 = none ↔
    mhiPmInErrorState s.port.cntrl.pmState = false ∧ reply.ok = true

/- The element at the write pointer is the one that was written for this buffer. -/
def Written (p : Port) (buf : Nat) : Prop := (p.chan.bufMem p.chan.bufRing.wp).cbBuf = buf

structure Inv (elements : Nat) (s : Dtr) : Prop where
  standing : Standing s.port
  whole : s.port.chan.treRing.elements = elements
  budget : s.probe.left+s.probe.hand.length+outstanding s.port+s.calls.length+s.requeuing.length < elements
  alone : s.inside.length ≤ 1
  written : ∀ buf ∈ s.inside, Written s.port buf
  balance : ∀ x, (places s).count x = (List.range s.next).count x
  forgotten : s.lost.length = s.odd+s.refused

section Ring
variable {p out : Port} {buf : Nat} {reply : DmaReply} {err : Option Errno}

theorem outstandingLength (p : Port) : (onRing p).length = outstanding p := by
  have walked : ∀ (n : Nat) (ch : Chan), (ringBufs ch n).length = n := by
    intro n
    induction n with
    | zero => exact fun _ => rfl
    | succ n ih => exact fun ch => congrArg (·+1) (ih _)
  exact walked _ _

theorem besideStanding {wt wb : Window} {h t : Nat} {ch : Chan} (fifo : Fifo (fun _ _ => True) wt wb ch h t p.chan.accepted)
    (before : Fifo (fun _ _ => True) wt wb p.chan h t p.chan.accepted) (wide : wt.count ≤ wb.count)
    (noBus : p.chan.bufRing.iommuBase = 0) (accepted : ch.accepted = p.chan.accepted)
    (buf : ch.bufRing = p.chan.bufRing) (log : ch.xferLog = p.chan.xferLog) :
    Standing {p with chan := ch} ∧ onRing {p with chan := ch} = onRing p := by
  have stands : Standing {p with chan := ch} := ⟨wt,wb,h,t,accepted ▸ fifo,wide,buf ▸ noBus⟩
  refine ⟨stands,?_⟩
  have now := RxBuffers.standingOrder stands
  have then_ := RxBuffers.standingOrder ⟨wt,wb,h,t,before,wide,noBus⟩
  rw [accepted,← then_,handed,log,← handed] at now
  exact List.append_cancel_left now

theorem fillStanding (standing : Standing p) (ran : fill p buf reply = (out,err)) : Standing out ∧ onRing out = onRing p ∧
    out.chan.treRing.elements = p.chan.treRing.elements ∧ (err = none → Written out buf) := by
  obtain ⟨wt,wb,h,t,fifo,wide,noBus⟩ := standing
  unfold fill at ran
  split at ran
  · cases ran
    exact ⟨⟨wt,wb,h,t,fifo,wide,noBus⟩,rfl,rfl,nofun⟩
  split at ran
  · cases ran
    exact ⟨⟨wt,wb,h,t,fifo,wide,noBus⟩,rfl,rfl,nofun⟩
  obtain ⟨cb,-⟩ := Queueing.fillNames (p := p)
    {BufInfo.zero with vAddr := buf, cbBuf := buf, len := sizeofDtrCtrlMsg} reply
  dsimp only at ran
  split at ran
  · cases ran
    obtain ⟨stands,ring⟩ := besideStanding fifo.scribble fifo wide noBus rfl rfl rfl
    exact ⟨stands,ring,rfl,nofun⟩
  · cases ran
    have scribbled := fifo.scribble (b := (fillBufInfo p
      {BufInfo.zero with vAddr := buf, cbBuf := buf, len := sizeofDtrCtrlMsg} reply).1)
    have written : ∀ tre : MhiTre, Fifo (fun _ _ => True) wt wb {p.chan with
        bufMem := Function.update p.chan.bufMem p.chan.bufRing.wp (fillBufInfo p
          {BufInfo.zero with vAddr := buf, cbBuf := buf, len := sizeofDtrCtrlMsg} reply).1
        treMem := Function.update p.chan.treMem p.chan.treRing.wp tre} h t p.chan.accepted := by
      intro tre
      refine ⟨scribbled.tre,scribbled.buf,?_,scribbled.order⟩
      dsimp only
      rw [fifo.tre.wp,wt.viewUpdate _ _ fifo.tre.room]
      exact scribbled.paired
    obtain ⟨stands,ring⟩ := besideStanding (written _) fifo wide noBus rfl rfl rfl
    refine ⟨stands,ring,rfl,fun _ => ?_⟩
    have last := congrArg BufInfo.cbBuf (Function.update_self p.chan.bufRing.wp
      (fillBufInfo p {BufInfo.zero with vAddr := buf, cbBuf := buf, len := sizeofDtrCtrlMsg} reply).1 p.chan.bufMem)
    exact last.trans cb

theorem advanceStanding (standing : Standing p) (room : outstanding p+1 < p.chan.treRing.elements) (written : Written p buf) :
    Standing (advance p buf) ∧ onRing (advance p buf) = onRing p ++ [buf] ∧
      (advance p buf).chan.treRing.elements = p.chan.treRing.elements := by
  obtain ⟨wt,wb,h,t,fifo,wide,noBus⟩ := standing
  have order := RxBuffers.standingOrder ⟨wt,wb,h,t,fifo,wide,noBus⟩
  rw [outstandingOf fifo.tre,fifo.tre.spans.elements] at room
  have ordered := fifo.tre.ordered
  have moved : Fifo (fun _ _ => True) wt wb {p.chan with
      treRing := mhiAddRingElement p.chan.treRing, bufRing := mhiAddRingElement p.chan.bufRing} h (t+1)
      (p.chan.accepted ++ [buf]) := by
    refine ⟨Ring.addHolds fifo.tre (by omega),Ring.addHolds fifo.buf (by omega),?_,?_⟩
    · dsimp only
      rw [wt.viewPush _ ordered,wb.viewPush _ ordered]
      exact List.rel_append fifo.paired (.cons trivial .nil)
    · have before := fifo.order
      rw [Written,fifo.buf.wp] at written
      rw [handed] at before ⊢
      rw [wb.viewPush _ ordered,List.map_append,← List.append_assoc,before,List.map_singleton,written]
  have finished : ∀ q : Port, q.chan = {p.chan with
      treRing := mhiAddRingElement p.chan.treRing, bufRing := mhiAddRingElement p.chan.bufRing} →
      Fifo (fun _ _ => True) wt wb (accept (ringIfAccessible q) buf).chan h (t+1) (p.chan.accepted ++ [buf]) ∧
      (accept (ringIfAccessible q) buf).chan.accepted = p.chan.accepted ++ [buf] ∧
      (accept (ringIfAccessible q) buf).chan.bufRing.iommuBase = 0 ∧
      (accept (ringIfAccessible q) buf).chan.xferLog = p.chan.xferLog ∧
      (accept (ringIfAccessible q) buf).chan.treRing.elements = p.chan.treRing.elements := by
    intro q same
    have rung : Fifo (fun _ _ => True) wt wb (ringIfAccessible q).chan h (t+1) (p.chan.accepted ++ [buf]) :=
      Fifo.ringIf (same ▸ moved)
    refine ⟨rung.of rung.tre rfl rfl rfl rfl,?_⟩
    unfold ringIfAccessible
    split
    · simp only [accept,mhiRingChanDb,same]
      exact ⟨trivial,noBus,trivial,rfl⟩
    · simp only [accept,same]
      exact ⟨trivial,noBus,trivial,rfl⟩
  obtain ⟨fifo',accepted,bus,log,elements⟩ := finished
    {p with
      cntrl := countUplink p.chan.dir 1 (wakeToggle (resumeIfSuspended p.cntrl))
      chan := {p.chan with treRing := mhiAddRingElement p.chan.treRing, bufRing := mhiAddRingElement p.chan.bufRing}} rfl
  have stands : Standing (advance p buf) := ⟨wt,wb,h,t+1,by rw [advance,mhiQueueBufFinish]; exact accepted ▸ fifo',wide,bus⟩
  have after := RxBuffers.standingOrder stands
  have handed' : handed (advance p buf).chan = handed p.chan := congrArg (List.map MhiResult.bufAddr) log
  rw [handed',show (advance p buf).chan.accepted = p.chan.accepted ++ [buf] from accepted,← order,List.append_assoc] at after
  exact ⟨stands,List.append_cancel_left after,elements⟩

theorem fillRoom (standing : Standing p) (room : outstanding p+1 < p.chan.treRing.elements) :
    (fill p buf reply).2 = none ↔ mhiPmInErrorState p.cntrl.pmState = false ∧ reply.ok = true := by
  obtain ⟨wt,wb,h,t,fifo,-,-⟩ := standing
  rw [outstandingOf fifo.tre,fifo.tre.spans.elements] at room
  have free : mhiIsRingFull p.chan.treRing = false := by
    refine Bool.eq_false_iff.mpr fun full => ?_
    have last := (Ring.fullIff fifo.tre).mp full
    have ordered := fifo.tre.ordered
    omega
  have whole : (mhiQueueBuf p buf sizeofDtrCtrlMsg MhiFlags.eot reply).2 = (fill p buf reply).2 := by
    rw [queueCut]
    split
    · rename_i ran
      rw [ran]
    · rename_i ran
      rw [ran]
  rw [← whole,UciWrite.queueAccepts,free]
  simp

end Ring

section Steps
variable {elements : Nat} {s : Dtr}

theorem invKmalloc {left : Nat} {ret : Option Errno} (ok : Bool) (here : s.probe = .filling (left+1) ret) (inv : Inv elements s) :
    Inv elements (s.kmalloc left ok) := by
  have budget := inv.budget
  have balance := inv.balance
  have alone := inv.alone
  have written := inv.written
  rw [here] at budget
  rw [Dtr.inside,here] at alone written
  cases ok with
  | false =>
    refine ⟨inv.standing,inv.whole,?_,alone,written,?_,inv.forgotten⟩
    · simp only [Dtr.kmalloc,Probe.left,Probe.hand] at budget ⊢
      simp only [Bool.false_eq_true,if_false,List.length_nil] at budget ⊢
      omega
    · intro x
      have before := balance x
      rw [places,held,here] at before
      exact before
  | true =>
    refine ⟨inv.standing,inv.whole,?_,alone,written,?_,inv.forgotten⟩
    · simp only [Dtr.kmalloc,Probe.left,Probe.hand] at budget ⊢
      simp only [if_true,List.length_nil,List.length_singleton] at budget ⊢
      omega
    · intro x
      have before := balance x
      rw [places,held,here] at before
      simp only [Probe.hand,List.nil_append] at before
      simp only [places,held,Dtr.kmalloc,if_true,Probe.hand,List.count_append,List.range_succ] at before ⊢
      omega

theorem invSubmit {left buf : Nat} {reply : DmaReply} (here : s.probe = .submitting left buf) (apart : Apart s)
    (inv : Inv elements s) : Inv elements (s.submit left buf reply) := by
  have budget := inv.budget
  have balance := inv.balance
  rw [here] at budget
  rw [Apart,Dtr.inside,here] at apart
  simp only [Probe.left,Probe.hand,List.length_singleton] at budget
  simp only [Probe.inside,List.nil_append] at apart
  unfold Dtr.submit
  cases ran : fill s.port buf reply with
  | mk port err =>
    obtain ⟨stands,ring,whole,written⟩ := fillStanding inv.standing ran
    have same : outstanding port = outstanding s.port := by rw [← outstandingLength,ring,outstandingLength]
    cases err with
    | none =>
      refine ⟨stands,whole.trans inv.whole,?_,?_,?_,?_,inv.forgotten⟩
      · simp only [Probe.left,Probe.hand,List.length_singleton]
        omega
      · simp only [Dtr.inside,Probe.inside,apart,List.append_nil,List.length_singleton]
        omega
      · simp only [Dtr.inside,Probe.inside,apart,List.append_nil,List.mem_singleton]
        rintro _ rfl
        exact written rfl
      · intro x
        have before := balance x
        rw [places,held,here] at before
        simp only [places,held,ring,Probe.hand,List.count_append] at before ⊢
        omega
    | some e =>
      refine ⟨stands,whole.trans inv.whole,?_,?_,?_,?_,inv.forgotten⟩
      · simp only [Probe.left,Probe.hand,List.length_nil]
        omega
      · simp only [Dtr.inside,Probe.inside,apart,List.append_nil,List.length_nil]
        omega
      · simp only [Dtr.inside,Probe.inside,apart,List.append_nil]
        nofun
      · intro x
        have before := balance x
        rw [places,held,here] at before
        simp only [places,held,ring,Probe.hand,List.count_append,List.nil_append] at before ⊢
        omega

theorem advancing {buf : Nat} {n : Nat} (inv : Inv elements s) (inside : buf ∈ s.inside)
    (room : outstanding s.port+1+n < elements) :
    Standing (advance s.port buf) ∧ onRing (advance s.port buf) = onRing s.port ++ [buf] ∧
      (advance s.port buf).chan.treRing.elements = elements ∧ outstanding (advance s.port buf) = outstanding s.port+1 := by
  have whole := inv.whole
  obtain ⟨stands,ring,same⟩ := advanceStanding inv.standing (by omega) (inv.written buf inside)
  refine ⟨stands,ring,same.trans whole,?_⟩
  rw [← outstandingLength,ring,List.length_append,outstandingLength]
  rfl

theorem invQueued {left buf : Nat} (here : s.probe = .queuing left buf) (inv : Inv elements s) :
    Inv elements (s.queued left buf) := by
  have budget := inv.budget
  have balance := inv.balance
  have alone := inv.alone
  have inside : buf ∈ s.inside := by simp [Dtr.inside,here,Probe.inside]
  rw [here] at budget
  rw [Dtr.inside,here] at alone
  simp only [Probe.left,Probe.hand,List.length_singleton] at budget
  simp only [Probe.inside,List.length_append,List.length_singleton] at alone
  have rest : s.requeuing = [] := List.length_eq_zero_iff.mp (by omega)
  obtain ⟨stands,ring,whole,grown⟩ := advancing (n := 0) inv inside (by omega)
  refine ⟨stands,whole,?_,?_,?_,fun x => ?_,inv.forgotten⟩
  · simp only [Dtr.queued,Probe.left,Probe.hand,List.length_nil]
    omega
  · simp only [Dtr.inside,Dtr.queued,Probe.inside,rest,List.append_nil,List.length_nil]
    omega
  · simp only [Dtr.inside,Dtr.queued,Probe.inside,rest,List.append_nil]
    nofun
  · have before := balance x
    rw [places,held,here] at before
    simp only [places,held,Dtr.queued,ring,Probe.hand,List.count_append,List.nil_append] at before ⊢
    omega

theorem invFilled {ret : Option Errno} (here : s.probe = .filling 0 ret) (inv : Inv elements s) :
    Inv elements {s with probe := .done ret} := by
  have budget := inv.budget
  have balance := inv.balance
  have alone := inv.alone
  have written := inv.written
  rw [here] at budget
  rw [Dtr.inside,here] at alone written
  refine ⟨inv.standing,inv.whole,budget,alone,written,fun x => ?_,inv.forgotten⟩
  have before := balance x
  rw [places,held,here] at before
  exact before

theorem invCompleted {r : MhiResult} (some : 0 < outstanding s.port)
    (named : r.bufAddr = (s.port.chan.bufMem s.port.chan.bufRing.rp).cbBuf) (inv : Inv elements s) :
    Inv elements {s with port := retire s.port r, calls := s.calls++[r]} := by
  obtain ⟨stands,ring⟩ := RxBuffers.standingRetire inv.standing some named
  have shorter := congrArg List.length ring
  rw [List.length_cons,outstandingLength,outstandingLength] at shorter
  have budget := inv.budget
  refine ⟨stands,inv.whole,?_,inv.alone,inv.written,fun x => ?_,inv.forgotten⟩
  · simp only [List.length_append,List.length_singleton]
    omega
  · have before := inv.balance x
    simp only [places,held,ring,List.count_append,List.count_cons,List.map_append,List.map_cons,List.map_nil,
      List.count_nil] at before ⊢
    omega

theorem invCalled {r : MhiResult} {front back : List MhiResult} {reply : DmaReply} (here : s.calls = front++r :: back)
    (apart : Requeues r → Apart s) (inv : Inv elements s) : Inv elements ({s with calls := front++back}.dlXferCb r reply) := by
  have budget := inv.budget
  have balance := inv.balance
  rw [here] at budget
  simp only [List.length_append,List.length_cons] at budget
  have taken : ∀ x, (s.calls.map MhiResult.bufAddr).count x =
      ((front++back).map MhiResult.bufAddr).count x+[r.bufAddr].count x := by
    intro x
    simp only [here,List.map_append,List.map_cons,List.count_append,List.count_cons,List.count_nil]
    omega
  simp only [places,held,List.count_append] at balance
  unfold Dtr.dlXferCb
  by_cases reset : r.transactionStatus = some .enotconn
  · rw [if_pos reset]
    refine ⟨inv.standing,inv.whole,?_,inv.alone,inv.written,fun x => ?_,inv.forgotten⟩
    · simp only [List.length_append]
      omega
    · have before := balance x
      have moved := taken x
      simp only [places,held,List.count_append]
      omega
  · rw [if_neg reset]
    by_cases odd : r.bytesXferd ≠ sizeofDtrCtrlMsg
    · rw [if_pos odd]
      refine ⟨inv.standing,inv.whole,?_,inv.alone,inv.written,fun x => ?_,?_⟩
      · simp only [List.length_append]
        omega
      · have before := balance x
        have moved := taken x
        simp only [places,held,List.count_append]
        omega
      · have forgotten := inv.forgotten
        simp only [List.length_append,List.length_singleton]
        omega
    · rw [if_neg odd]
      obtain ⟨probe,none_⟩ := List.append_eq_nil_iff.mp (apart ⟨reset,not_not.mp odd⟩)
      cases ran : fill s.port r.bufAddr reply with
      | mk port err =>
        obtain ⟨stands,ring,whole,written⟩ := fillStanding inv.standing ran
        have same : outstanding port = outstanding s.port := by rw [← outstandingLength,ring,outstandingLength]
        cases err with
        | none =>
          refine ⟨stands,whole.trans inv.whole,?_,?_,?_,fun x => ?_,inv.forgotten⟩
          · simp only [List.length_append,List.length_singleton]
            omega
          · simp only [Dtr.inside,probe,none_,List.nil_append,List.length_singleton]
            omega
          · simp only [Dtr.inside,probe,none_,List.nil_append,List.mem_singleton]
            rintro _ rfl
            exact written rfl
          · have before := balance x
            have moved := taken x
            simp only [places,held,ring,List.count_append]
            omega
        | some e =>
          refine ⟨stands,whole.trans inv.whole,?_,?_,?_,fun x => ?_,?_⟩
          · simp only [List.length_append]
            omega
          · simp only [Dtr.inside,probe,none_,List.nil_append,List.length_nil]
            omega
          · simp only [Dtr.inside,probe,none_,List.nil_append]
            nofun
          · have before := balance x
            have moved := taken x
            simp only [places,held,ring,List.count_append]
            omega
          · have forgotten := inv.forgotten
            simp only [List.length_append,List.length_singleton]
            omega

theorem invRequeued {front back : List Nat} {buf : Nat} (here : s.requeuing = front++buf :: back) (inv : Inv elements s) :
    Inv elements (s.requeued front back buf) := by
  have budget := inv.budget
  have alone := inv.alone
  have inside : buf ∈ s.inside := by simp [Dtr.inside,here]
  rw [here] at budget
  rw [Dtr.inside,here] at alone
  simp only [List.length_append,List.length_cons] at budget alone
  have first : s.probe.inside = [] := List.length_eq_zero_iff.mp (by omega)
  have others : front = [] ∧ back = [] := ⟨List.length_eq_zero_iff.mp (by omega),List.length_eq_zero_iff.mp (by omega)⟩
  obtain ⟨rfl,rfl⟩ := others
  obtain ⟨stands,ring,whole,grown⟩ := advancing (n := 0) inv inside (by omega)
  simp only [List.length_nil] at budget
  refine ⟨stands,whole,?_,?_,?_,fun x => ?_,inv.forgotten⟩
  · simp only [Dtr.requeued,List.append_nil,List.length_nil]
    omega
  · simp only [Dtr.inside,Dtr.requeued,first,List.append_nil,List.length_nil]
    omega
  · simp only [Dtr.inside,Dtr.requeued,first,List.append_nil]
    nofun
  · have before := inv.balance x
    simp only [places,held,here,Dtr.requeued,ring,List.count_append,List.nil_append,List.append_nil] at before ⊢
    omega

theorem invBeside (c : Cntrl) (st : ChState) (inv : Inv elements s) :
    Inv elements {s with port := ⟨c,{s.port.chan with chState := st}⟩} := by
  obtain ⟨wt,wb,h,t,fifo,wide,noBus⟩ := inv.standing
  have same : Fifo (fun _ _ => True) wt wb {s.port.chan with chState := st} h t s.port.chan.accepted :=
    fifo.of fifo.tre rfl rfl rfl rfl
  have ring : onRing ⟨c,{s.port.chan with chState := st}⟩ = onRing s.port :=
    (RxBuffers.onRingView (p := ⟨c,_⟩) same).trans (RxBuffers.onRingView fifo).symm
  refine ⟨⟨wt,wb,h,t,same,wide,noBus⟩,inv.whole,inv.budget,inv.alone,inv.written,fun x => ?_,inv.forgotten⟩
  have before := inv.balance x
  rw [places,held] at before ⊢
  rw [ring]
  exact before

theorem invStep {s' : Dtr} (step : Step Apart s s') (inv : Inv elements s) : Inv elements s' := by
  cases step with
  | kmalloc ok here => exact invKmalloc ok here inv
  | submit reply here asked => exact invSubmit here asked inv
  | queued here => exact invQueued here inv
  | filled here => exact invFilled here inv
  | completed r some named => exact invCompleted some named inv
  | called r front back reply here asked => exact invCalled here asked inv
  | requeued front back buf here => exact invRequeued here inv
  | beside c st => exact invBeside c st inv

theorem Inv.kept (inv : Inv elements s) : Kept s where
  conserved := List.perm_iff_count.mpr inv.balance
  forgotten := inv.forgotten
  room r inside reply := by
    have some : 0 < s.calls.length := List.length_pos_of_mem inside
    have budget := inv.budget
    have whole := inv.whole
    exact fillRoom inv.standing (by omega)

theorem invProbed {p : Port} (standing : Standing p) (empty : outstanding p = 0) :
    Inv p.chan.treRing.elements (Dtr.probed p) := by
  have ring : onRing p = [] := RxBuffers.onRingNone empty
  obtain ⟨wt,wb,h,t,fifo,wide,noBus⟩ := standing
  have avail := Ring.availOf fifo.tre
  have counted := wt.counted
  have elements := fifo.tre.spans.elements
  have ordered := fifo.tre.ordered
  have same := empty
  rw [outstandingOf fifo.tre] at same
  refine ⟨⟨wt,wb,h,t,fifo,wide,noBus⟩,rfl,?_,Nat.zero_le 1,nofun,fun x => ?_,rfl⟩
  · simp only [Dtr.probed,Probe.left,Probe.hand,List.length_nil,empty,mhiGetFreeDescCount]
    omega
  · simp only [places,held,Dtr.probed,Probe.hand,ring]
    rfl

end Steps

theorem invRun {elements : Nat} {s s' : Dtr} (run : ReflTransGen (Step Apart) s s') (inv : Inv elements s) : Inv elements s' :=
  Runs.keeps (fun _ _ step inv => invStep step inv) run inv

theorem stepOver {may : Dtr → Prop} {s s' : Dtr} {ret : Option Errno} (step : Step may s s')
    (finished : s.probe = .done ret) : s'.probe = .done ret ∧ s'.next = s.next := by
  cases step with
  | kmalloc ok here => cases finished.symm.trans here
  | submit reply here asked => cases finished.symm.trans here
  | queued here => cases finished.symm.trans here
  | filled here => cases finished.symm.trans here
  | completed r some named => exact ⟨finished,rfl⟩
  | called r front back reply here asked =>
    unfold Dtr.dlXferCb
    split
    · exact ⟨finished,rfl⟩
    · split
      · exact ⟨finished,rfl⟩
      · split <;> exact ⟨finished,rfl⟩
  | requeued front back buf here => exact ⟨finished,rfl⟩
  | beside c st => exact ⟨finished,rfl⟩

theorem runOver {may : Dtr → Prop} {s s' : Dtr} {ret : Option Errno} (run : ReflTransGen (Step may) s s')
    (finished : s.probe = .done ret) :
    s'.probe = .done ret ∧ s'.next = s.next :=
  Runs.keeps (I := fun s' => s'.probe = .done ret ∧ s'.next = s.next)
    (fun _ _ step before => (stepOver step before.1).imp_right (·.trans before.2)) run ⟨finished,rfl⟩

theorem Kept.counted {s : Dtr} (kept : Kept s) : (held s).length+s.freed.length+s.odd+s.refused = s.next := by
  have whole := kept.conserved.length_eq
  have forgotten := kept.forgotten
  simp only [places,List.length_append,List.length_range] at whole
  omega

theorem dtrPool {p : Port} {s : Dtr} (standing : Standing p) (empty : outstanding p = 0)
    (run : ReflTransGen (Step Apart) (Dtr.probed p) s) : Kept s ∧ ∀ ret s', s.probe = .done ret → ReflTransGen (Step Apart) s s' →
      (held s').length+s'.freed.length+s'.odd+s'.refused = (held s).length+s.freed.length+s.odd+s.refused := by
  have inv := invRun run (invProbed standing empty)
  refine ⟨inv.kept,fun ret s' finished later => ?_⟩
  rw [inv.kept.counted,(invRun later inv).kept.counted]
  exact (runOver later finished).2

namespace Sample

def port : Port := {RxBuffers.Sample.port with chan := {(mhiInitChanCtxt RxBuffers.Sample.chan (some 0x4000)).1 with chState := .enabled}}
def reply : DmaReply := ⟨0x9000,0,true⟩
def odd : MhiResult := ⟨0,some .fromDevice,12,none⟩
def filled : Dtr := (((Dtr.probed port).kmalloc 2 true).submit 2 0 reply).queued 2 0
def finished : Dtr := filled.kmalloc 1 false
def reported : Dtr := {finished with port := retire finished.port odd, calls := [odd]}
def starved : Dtr := {reported with calls := []}.dlXferCb odd reply

theorem standing : Standing port ∧ outstanding port = 0 :=
  ⟨(RxBuffers.preparedStanding RxBuffers.Sample.probed.folded (by decide)).1,by decide⟩

theorem fills {may : Dtr → Prop} (asked : may ((Dtr.probed port).kmalloc 2 true)) :
    ReflTransGen (Step may) (Dtr.probed port) filled :=
  ((ReflTransGen.single (.kmalloc true rfl)).tail (.submit reply rfl asked)).tail (.queued rfl)

theorem finishes : ReflTransGen (Step Apart) (Dtr.probed port) finished := (@fills Apart rfl).tail (.kmalloc false rfl)

theorem starves : ReflTransGen (Step Apart) finished starved :=
  (ReflTransGen.single (.completed odd (by decide) (by decide))).tail (.called odd [] [] reply rfl fun _ => rfl)

def message : MhiResult := ⟨0,some .fromDevice,20,none⟩
def second : Dtr := (filled.kmalloc 1 true).submit 1 1 reply
def answered : Dtr := {second with port := retire second.port message, calls := [message]}
def crossed : Dtr := {answered with calls := []}.dlXferCb message reply
def doubled : Dtr := (crossed.queued 1 1).requeued [] [] 0

theorem doubles : ReflTransGen (Step fun _ => True) (Dtr.probed port) doubled :=
  ((((((fills trivial).tail (.kmalloc true rfl)).tail (.submit reply rfl trivial)).tail
    (.completed message (by decide) (by decide))).tail (.called message []
      [] reply rfl fun _ => trivial)).tail (.queued rfl)).tail
    (.requeued [] [] 0 rfl)

end Sample

theorem dtrPoolSample : (held Sample.finished = [0] ∧ held Sample.starved = [] ∧ Sample.starved.lost = [0]) ∧
    ReflTransGen (Step Apart) Sample.finished Sample.starved ∧ Kept Sample.finished ∧
    ∀ ret s', Sample.finished.probe = .done ret → ReflTransGen (Step Apart) Sample.finished s' →
      (held s').length+s'.freed.length+s'.odd+s'.refused =
        (held Sample.finished).length+Sample.finished.freed.length+Sample.finished.odd+Sample.finished.refused :=
  ⟨by decide,Sample.starves,dtrPool Sample.standing.1 Sample.standing.2 Sample.finishes⟩

theorem crossedQueueCallsLose : ¬∀ s, ReflTransGen (Step fun _ => True) (Dtr.probed Sample.port) s → Kept s := by
  intro claim
  have conserved := (claim _ Sample.doubles).conserved
  have gone : 1 ∉ places Sample.doubled := by decide
  exact gone (conserved.mem_iff.mpr (by decide))

end MhiHost.DtrPool
