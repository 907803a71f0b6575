import MhiHost.Ledger
import MhiHost.Setup
import Mathlib.Logic.Relation

/-! Everything that can run against one controller, interleaved. A channel's mutex
is held by at most one prepare, unprepare or remove; its lock keeps a completion
together with the state it checked; `mhi_queue_buf` is in flight between filling its
TRE and taking pm_lock. Calls made inside a client callback are steps of their own.
`Q` says in which situations of a channel queue calls are made on it. -/
namespace MhiHost
open Cyclic (Window)

inductive Reason where
  | unprepare
  | remove (found : ChState)
  deriving DecidableEq, Repr

/- Where the call that owns a channel's mutex stands. `unfilled` is a prepare that
ran out of buffers; it has dropped the mutex and will unprepare. After `emptied` of
a removal the mutex is free again, but the channel's state admits no other call. -/
inductive ChanOp where
  | idle | preparing | starting | unfilled
  | stopping (waits : Bool)
  | resetting (r : Reason)
  | emptied (r : Reason)
  deriving DecidableEq, Repr

structure Turn where
  ev : MhiTre
  evTre : Nat
  devRp : Nat
  called : Option Nat
  deriving DecidableEq, Repr

structure Threads where
  host : Host
  op : Nat → ChanOp
  turn : Nat → Option Turn
  filled : Nat → List Nat
  entered : Nat

structure Station where
  core : Core
  op : ChanOp
  turn : Option Turn
  filled : List Nat
  deriving DecidableEq, Repr

namespace Threads
def chan (s : Threads) (i : Nat) : Chan := s.host.chans i
def station (s : Threads) (i : Nat) : Station := ⟨(s.chan i).core,s.op i,s.turn i,s.filled i⟩
def port (s : Threads) (i : Nat) : Port := s.host.port i
def setPort (s : Threads) (i : Nat) (p : Port) : Threads := {s with host := s.host.setPort i p}
def setOp (s : Threads) (i : Nat) (o : ChanOp) : Threads := {s with op := Function.update s.op i o}
def setTurn (s : Threads) (i : Nat) (t : Option Turn) : Threads := {s with turn := Function.update s.turn i t}
def setFilled (s : Threads) (i : Nat) (f : List Nat) : Threads := {s with filled := Function.update s.filled i f}
def withHost (s : Threads) (h : Host) : Threads := {s with host := h}
def start (h : Host) : Threads := ⟨h,fun _ => .idle,fun _ => none,fun _ => [],h.cntrl.resumes⟩
end Threads

/- `parse_xfer_event` up to its loop: a channel that is not enabled ignores the event. -/
def beginTurn (ch : Chan) (ev : MhiTre) : Option Turn :=
  if ch.chState ≠ .enabled then none
  else
    let evTre := mhiToVirtual ch.treRing ev.getEvPtr
    some ⟨ev,evTre,xferGoal ch.treRing evTre,none⟩

def prepareOutcome (waited : Chan × Bool) (err : Option Errno) : ChanOp :=
  if !waited.2 || decide (waited.1.ccs ≠ EvCc.success) then .idle
  else if err.isSome then .unfilled else .idle

def unprepareOutcome (old : ChanOp) : Unprepare → ChanOp
  | .refused => old
  | .failed => .stopping false
  | .waiting => .stopping true

def stopWaiting (h : Host) (i : Nat) (waits inTime : Bool) : Host :=
  if waits then h.setChan i (waitForCompletion (h.chans i) inTime).1 else h

def enterReset (h : Host) (i : Nat) (r : Reason) : Option (Host × ChanOp) :=
  if (h.chans i).offloadCh then some (h,if r = .unprepare then .idle else .emptied r)
  else (resetBegin h i).map (fun h => (h,.resetting r))

inductive QuietStep (w : Nat → Window) (Q : Station → Prop) (i : Nat) : Threads → Threads → Prop where
  | fill {s p err} (buf len flags : Nat) (reply : DmaReply) (allowed : Q (s.station i))
      (ran : mhiQueueBufFill (s.port i) buf len flags reply = (p,err)) :
      QuietStep w Q i s ((s.setPort i p).setFilled i (if err.isNone then buf :: s.filled i else s.filled i))
  | event {s} (ev : MhiTre) (unlocked : s.turn i = none) (code : isXferCode ev.getEvCode = true)
      (named : (s.chan i).chState = .enabled → NamesOutstanding (w i) (s.chan i) ev) :
      QuietStep w Q i s (s.setTurn i (beginTurn (s.chan i) ev))
  | take {s} (t : Turn) (busy : s.turn i = some t) (called : t.called = none)
      (more : (s.chan i).treRing.rp ≠ t.devRp) :
      QuietStep w Q i s ((s.setPort i (retire (s.port i) (xferResult (s.port i) t.ev t.evTre))).setTurn i
        (some {t with called := some (s.chan i).bufRing.rp}))
  | leave {s} (t : Turn) (busy : s.turn i = some t) (called : t.called = none)
      (done : (s.chan i).treRing.rp = t.devRp) : QuietStep w Q i s (s.setTurn i none)
  | prepareSend {s h err} (stands : s.op i = .preparing) (ran : prepareSend s.host i = (h,err)) :
      QuietStep w Q i s ((s.withHost h).setOp i (if err.isNone then .starting else .idle))
  | unprepareBegin {s h out} (free : s.op i = .idle ∨ s.op i = .unfilled) (unlocked : s.turn i = none)
      (ran : unprepareBegin s.host i = (h,out)) :
      QuietStep w Q i s ((s.withHost h).setOp i (unprepareOutcome (s.op i) out))
  | unprepareReset {s h o} (waits inTime : Bool) (stands : s.op i = .stopping waits)
      (ran : enterReset (stopWaiting s.host i waits inTime) i .unprepare = some (h,o)) :
      QuietStep w Q i s ((s.withHost h).setOp i o)
  | resetTurn {s} (r : Reason) (stands : s.op i = .resetting r)
      (more : (s.chan i).treRing.rp ≠ (s.chan i).treRing.wp) :
      QuietStep w Q i s (s.setPort i (resetOne [] (s.port i)))
  | resetEnd {s} (r : Reason) (stands : s.op i = .resetting r)
      (done : (s.chan i).treRing.rp = (s.chan i).treRing.wp) : QuietStep w Q i s (s.setOp i (.emptied r))
  | unprepareDeinit {s} (stands : s.op i = .emptied .unprepare) :
      QuietStep w Q i s ((s.withHost (s.host.setChan i (mhiDeinitChanCtxt (s.chan i)))).setOp i .idle)
  | removeWake {s} : QuietStep w Q i s (s.withHost (removeWake s.host i))
  | removeBegin {s h o} (free : s.op i = .idle ∨ s.op i = .unfilled) (unlocked : s.turn i = none)
      (ran : enterReset (removeSuspend s.host i) i (.remove (s.chan i).chState) = some (h,o)) :
      QuietStep w Q i s ((s.withHost h).setOp i o)
  | removeDeinit {s} (found : ChState) (stands : s.op i = .emptied (.remove found)) :
      QuietStep w Q i s ((s.withHost (removeDeinit s.host i found)).setOp i .idle)

inductive ChanStep (w : Nat → Window) (Q : Station → Prop) (i : Nat) : Threads → Threads → Prop where
  | quiet {s s'} (step : QuietStep w Q i s s') : ChanStep w Q i s s'
  | queue {s} (q : QueueReq) (allowed : Q (s.station i)) (locked : q.payload ≠ .buf) :
      ChanStep w Q i s (s.setPort i (mhiQueue (s.port i) q).1)
  | finish {s} (buf : Nat) (part : buf ∈ s.filled i) :
      ChanStep w Q i s ((s.setPort i (mhiQueueBufFinish (s.port i) buf)).setFilled i ((s.filled i).erase buf))
  | doorbell {s p} (ev : MhiTre) (unlocked : s.turn i = none) (code : isDbCode ev.getEvCode = true)
      (ran : parseXferEvent ev (fun _ => ⟨[],⟨0,0,false⟩⟩) (s.port i) = some p) : ChanStep w Q i s (s.setPort i p)
  | settle {s} (b : Nat) (t : Turn) (reply : DmaReply) (busy : s.turn i = some t) (called : t.called = some b) :
      ChanStep w Q i s ((s.setPort i (recycleBuf {s.port i with
        cntrl := countUplink (s.chan i).dir (-1) s.host.cntrl} b reply)).setTurn i (some {t with called := none}))
  | prepareBegin {s h err} (vz : Option Nat) (free : s.op i = .idle)
      (block : ∀ base, vz = some base → Allocated base (sizeofMhiBufInfo * (s.chan i).bufRing.elements))
      (ran : prepareBegin s.host i vz = (h,err)) :
      ChanStep w Q i s ((s.withHost h).setOp i (if err.isNone then .preparing else .idle))
  | prepareFinish {s h err} (inTime : Bool) (reply : Nat → Option Nat × DmaReply) (stands : s.op i = .starting)
      (ran : prepareFinish (s.host.setChan i (waitForCompletion (s.chan i) inTime).1) i
        (waitForCompletion (s.chan i) inTime).2 reply = (h,err)) :
      ChanStep w Q i s ((s.withHost h).setOp i (prepareOutcome (waitForCompletion (s.chan i) inTime) err))

inductive HostStep : Threads → Threads → Prop where
  | cmdCompletion {s} (ev : MhiTre) : HostStep s (s.withHost (mhiProcessCmdCompletion s.host ev))
  | m1 {s} : HostStep s (s.withHost (mhiPmM1Transition s.host))
  | m3 {s} : HostStep s (s.withHost (mhiPmM3Transition s.host).1)
  | suspendBegin {s} : HostStep s (s.withHost (suspendBegin s.host).1)
  | suspendAwake {s} (inTime : Bool) : HostStep s (s.withHost (suspendAwake s.host inTime).1)
  | suspendEnter {s h err} (ran : suspendEnter s.host = (h,err)) :
      HostStep s {s with host := h, entered := if err.isNone then h.cntrl.resumes else s.entered}
  | resume {s} : HostStep s (s.withHost (resumeBegin s.host).1)
  | trouble {s} (state : PmState) (bad : mhiPmInErrorState state = true) :
      HostStep s (s.withHost (s.host.setPm (mhiTrysetPmState s.host.cntrl.pmState state)))
  | wake {s} (force : Bool) : HostStep s (s.withHost {s.host with cntrl := mhiAssertDevWake s.host.cntrl force})
  | release {s} (override : Bool) :
      HostStep s (s.withHost {s.host with cntrl := mhiDeassertDevWake s.host.cntrl override})
  | execEnv {s} (ee : ExecEnv) : HostStep s (s.withHost {s.host with cntrl := {s.host.cntrl with ee := ee}})
  | eventRings {s} (events : List MhiEvent) : HostStep s (s.withHost {s.host with events := events})

inductive Step (w : Nat → Window) (Q : Station → Prop) : Threads → Threads → Prop where
  | chan {s s'} (i : Nat) (known : i < s.host.maxChan) (step : ChanStep w Q i s s') : Step w Q s s'
  | m0 {s} : Step w Q s (s.withHost (mhiPmM0Transition s.host).1)
  | host {s s'} (step : HostStep s s') : Step w Q s s'

namespace Sample
variable (Q : Station → Prop)

def begun : Threads := ((Threads.start ready).withHost (prepareBegin ready 0 (some 0x4000)).1).setOp 0 .preparing
def sent : Threads := (begun.withHost (prepareSend begun.host 0).1).setOp 0 .starting
def startDone : MhiTre := ⟨0x83000,EvCc.success <<< 24,PktType.cmdCompletionEvent <<< 16⟩
def answered : Threads := sent.withHost (mhiProcessCmdCompletion sent.host startDone)
def noBuffers : Nat → Option Nat × DmaReply := fun _ => (none,⟨0,0,false⟩)
def waited : Chan × Bool := waitForCompletion (answered.chan 0) true
def opened : Threads :=
  (answered.withHost (prepareFinish (answered.host.setChan 0 waited.1) 0 waited.2 noBuffers).1).setOp 0 .idle

theorem opens : Relation.ReflTransGen (Step window Q) (Threads.start ready) opened := by
  have one : Step window Q (Threads.start ready) begun :=
    .chan 0 (by decide) (@ChanStep.prepareBegin _ _ 0 (Threads.start ready) _ none (some 0x4000) rfl
      (fun base same => by cases same; decide) rfl)
  have two : Step window Q begun sent := .chan 0 (by decide) (.quiet (@QuietStep.prepareSend _ _ 0 begun _ none rfl rfl))
  have three : Step window Q sent answered := .host (.cmdCompletion startDone)
  have four : Step window Q answered opened :=
    .chan 0 (by decide) (@ChanStep.prepareFinish _ _ 0 answered _ none true noBuffers rfl rfl)
  exact (((Relation.ReflTransGen.single one).tail two).tail three).tail four

end Sample

end MhiHost
