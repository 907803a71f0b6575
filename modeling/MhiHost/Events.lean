import MhiHost.Power
import Mathlib.Data.List.Forall2
import Mathlib.Logic.Relation

/-! Event processing: what the host does with one event, and the passes over a ring cut
where the device can act. The device owns the elements from its own pointer up to the
context's write pointer and posts into them; it may do so between any two parts of a
pass. `posted` and `examined` record, ring by ring, what was written and what was read. -/
namespace MhiHost

def parseRscEvent (ev : MhiTre) (script : CbScript) (p : Port) : Port :=
  if p.chan.chState ≠ .enabled then p
  else
    let cell := p.chan.bufRing.base + ev.getEvCookie
    let info := p.chan.bufMem cell
    let result : MhiResult := ⟨info.cbBuf,some p.chan.dir,min ev.getEvLen (info.len % 2 ^ 16),
      if ev.getEvCode = EvCc.overflow then some .eoverflow else none⟩
    let called := queueAll {p with chan := {p.chan with xferLog := p.chan.xferLog ++ [result]}} script.calls
    {called with chan := {called.chan with
      treRing := mhiDelRingElement called.chan.treRing
      bufMem := Function.update called.chan.bufMem cell {called.chan.bufMem cell with used := false}}}

/- A SYS_ERR is left to the controller where RDDM is supported. -/
def sysErrEvent (h : Host) : Host :=
  if h.cntrl.ee = .rddm ∨ h.rddmImage = true then h
  else
    let state := mhiTrysetPmState h.cntrl.pmState .sysErrDetect
    if state = .sysErrDetect then mhiPmSysErrHandler (h.setPm state) else h.setPm state

def stateChangeEvent (h : Host) (code : Nat) : Host :=
  if code = DevState.m0.code then (mhiPmM0Transition h).1
  else if code = DevState.m1.code then mhiPmM1Transition h
  else if code = DevState.m3.code then (mhiPmM3Transition h).1
  else if code = DevState.sysErr.code then sysErrEvent h
  else h

def eeEvent (h : Host) (code : Nat) : Host :=
  if code = ExecEnv.sbl.code then mhiQueueStateTransition h .sbl
  else if code = ExecEnv.fp.code then mhiQueueStateTransition h .fp
  else if code = ExecEnv.wfw.code ∨ code = ExecEnv.amss.code then mhiQueueStateTransition h .missionMode
  else if code = ExecEnv.rddm.code then setExecEnv (h.statusCb .eeRddm) .rddm
  else h

/- Events of a channel outside the table are dropped. -/
def txEvent (h : Host) (ev : MhiTre) (script : Nat → CbScript) : Option Host :=
  if ev.getEvChid < h.maxChan then
    (parseXferEvent ev script (h.port ev.getEvChid)).map (fun p => h.setPort ev.getEvChid p)
  else some h

def ctrlEvent (h : Host) (ev : MhiTre) (script : Nat → CbScript) : Option Host :=
  if ev.getEvType = PktType.bwReqEvent then
    some ({h with linkInfo := (ev.getEvLinkspeed,ev.getEvLinkwidth)}.statusCb .bwReq)
  else if ev.getEvType = PktType.stateChangeEvent then some (stateChangeEvent h ev.getEvState)
  else if ev.getEvType = PktType.cmdCompletionEvent then some (mhiProcessCmdCompletion h ev)
  else if ev.getEvType = PktType.eeEvent then some (eeEvent h ev.getEvExecenv)
  else if ev.getEvType = PktType.txEvent then txEvent h ev script
  else some h

def dataEvent (h : Host) (ev : MhiTre) (script : Nat → CbScript) : Option Host :=
  if ev.getEvType = PktType.txEvent then txEvent h ev script
  else if ev.getEvType = PktType.rscTxEvent ∧ ev.getEvChid < h.maxChan then
    some (h.setPort ev.getEvChid (parseRscEvent ev (script 0) (h.port ev.getEvChid)))
  else some h

def processEvent (h : Host) (kind : ErDataType) (ev : MhiTre) (script : Nat → CbScript) : Option Host :=
  match kind with
  | .ctrl => ctrlEvent h ev script
  | .data => dataEvent h ev script

def countsQuota (h : Host) (kind : ErDataType) (ev : MhiTre) : Bool :=
  decide (ev.getEvChid < h.maxChan) && (decide (ev.getEvType = PktType.txEvent) ||
    decide (kind = .data) && decide (ev.getEvType = PktType.rscTxEvent))

/- A pass over one ring: the device pointer it last read and how many events had been
posted by then, what is left of its quota, and whether the element at rp has been handled
but not yet given back. -/
structure Pass where
  devRp : Nat
  seen : Nat
  quota : Nat
  handled : Bool
  deriving DecidableEq, Repr

def passEnds (e : MhiEvent) (p : Pass) : Bool :=
  decide (p.devRp = e.ring.rp) || decide (e.dataType = .data) && decide (p.quota = 0)

structure Service where
  host : Host
  pass : Nat → Option Pass
  posted : Nat → List MhiTre
  examined : Nat → List MhiTre

namespace Service
def start (h : Host) : Service := ⟨h,fun _ => none,fun _ => [],fun _ => []⟩
def setEvent (s : Service) (e : Nat) (ev : MhiEvent) : Service := {s with host := {s.host with events := s.host.events.set e ev}}
def setPass (s : Service) (e : Nat) (p : Option Pass) : Service := {s with pass := Function.update s.pass e p}
def withHost (s : Service) (h : Host) : Service := {s with host := h}
def post (s : Service) (e : Nat) (t : MhiTre) : Service :=
  {s with posted := Function.update s.posted e (s.posted e ++ [t])}
def examine (s : Service) (e : Nat) (t : MhiTre) : Service :=
  {s with examined := Function.update s.examined e (s.examined e ++ [t])}
end Service

def devicePost (e : MhiEvent) (t : MhiTre) : MhiEvent :=
  {e with
    mem := Function.update e.mem (mhiToVirtual e.ring e.ctxtRp) t
    ctxtRp := if e.ring.iommuBase + e.ring.len ≤ e.ctxtRp + e.ring.elSize then e.ring.iommuBase
      else e.ctxtRp + e.ring.elSize}

def recycleEvent (e : MhiEvent) : MhiEvent := {e with ring := mhiRecycleEvRingElement e.ring}
def readPointer (e : MhiEvent) : Nat := mhiToVirtual e.ring e.ctxtRp

inductive Rewrite where
  | ready | mission | m0 | reset
  deriving DecidableEq, Repr

def isM0Event (kind : ErDataType) (t : MhiTre) : Bool :=
  decide (kind = .ctrl) && decide (t.getEvType = PktType.stateChangeEvent) && decide (t.getEvState = DevState.m0.code)

/- `may` says when a ring-writing operation runs. The reset follows `tasklet_kill`. -/
inductive ServiceStep (may : Rewrite → Host → Prop) : Service → Service → Prop where
  | post {s} (e : Nat) (ev : MhiEvent) (t : MhiTre) (found : s.host.events[e]? = some ev) (own : ev.offloadEv = false)
      (credit : ev.ctxtRp ≠ ev.ring.ctxtWp) : ServiceStep may s ((s.setEvent e (devicePost ev t)).post e t)
  | enter {s} (e : Nat) (ev : MhiEvent) (quota : Nat) (found : s.host.events[e]? = some ev) (own : ev.offloadEv = false)
      (free : s.pass e = none) (access : mhiEventAccessInvalid s.host.cntrl.pmState = false) :
      ServiceStep may s (s.setPass e (some ⟨readPointer ev,(s.posted e).length,quota,false⟩))
  | examine {s h} (e : Nat) (ev : MhiEvent) (p : Pass) (script : Nat → CbScript) (found : s.host.events[e]? = some ev)
      (busy : s.pass e = some p) (fresh : p.handled = false) (more : passEnds ev p = false)
      (allowed : isM0Event ev.dataType (ev.mem ev.ring.rp) = true → may .m0 s.host)
      (ran : processEvent s.host ev.dataType (ev.mem ev.ring.rp) script = some h) :
      ServiceStep may s (((s.withHost h).examine e (ev.mem ev.ring.rp)).setPass e (some
        {p with quota := if countsQuota s.host ev.dataType (ev.mem ev.ring.rp) then p.quota - 1 else p.quota, handled := true}))
  | recycle {s} (e : Nat) (ev : MhiEvent) (p : Pass) (found : s.host.events[e]? = some ev) (busy : s.pass e = some p)
      (handled : p.handled = true) :
      ServiceStep may s ((s.setEvent e (recycleEvent ev)).setPass e
        (some {p with devRp := readPointer (recycleEvent ev), seen := (s.posted e).length, handled := false}))
  | leave {s} (e : Nat) (ev : MhiEvent) (p : Pass) (found : s.host.events[e]? = some ev) (busy : s.pass e = some p)
      (fresh : p.handled = false) (done : passEnds ev p = true) :
      ServiceStep may s ((if mhiDbAccessValid s.host.cntrl then
        (s.withHost {s.host with cntrl := (mhiRingErDb s.host.cntrl ev).1}).setEvent e (mhiRingErDb s.host.cntrl ev).2
        else s).setPass e none)
  | ready {s} (reply : ReadyReply) (allowed : may .ready s.host) :
      ServiceStep may s (s.withHost (mhiReadyStateTransition s.host reply).1)
  | mission {s} (inTime : Bool) (reply : CreateReply) (allowed : may .mission s.host) :
      ServiceStep may s (s.withHost (missionModeFinish s.host inTime reply).1)
  | m0 {s} (allowed : may .m0 s.host) : ServiceStep may s (s.withHost (mhiPmM0Transition s.host).1)
  | reset {s} (killed : ∀ e, s.pass e = none) (allowed : may .reset s.host) : ServiceStep may s (.start (resetRings s.host))
  | controller {s} (c : Cntrl) : ServiceStep may s (s.withHost {s.host with cntrl := c})

end MhiHost
