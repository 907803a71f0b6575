import MhiHost.Events
import MhiHost.Stations

/-! What runs beside the state transition worker: the interrupt and control-event
handlers, suspend and resume. Of all they write, the worker's fate depends on the power
state, the transition list and the devices; each is followed on these three. -/
namespace MhiHost

def mhiIntvecThreadedHandler (h : Host) (state : DevState) (ee : ExecEnv) : Host :=
  if !mhiRegAccessValid h.cntrl.pmState then h
  else
    let old := h.cntrl.ee
    let detected := mhiTrysetPmState h.cntrl.pmState .sysErrDetect
    let h := setExecEnv h ee
    let h := if state = .sysErr then h.setPm detected
      else if state = .ready ∧ old = .edl ∧ ee = .fp then mhiQueueStateTransition h .ready else h
    if h.rddmImage then if ee = .rddm ∧ ee ≠ old then h.statusCb .eeRddm else h
    else if state = .sysErr ∧ detected = .sysErrDetect then
      if mhiInPbl ee then h.statusCb .fatalError else mhiPmSysErrHandler h
    else h

/- `mhi_ctrl_ev_task` around its pass over the ring: without register access it only asks
for a resume, and after a pass that found nothing it looks for a SYS_ERR. -/
def mhiCtrlEvTask (h : Host) (found : Bool) (state : DevState) : Host :=
  if !mhiRegAccessValid h.cntrl.pmState then {h with cntrl := mhiTriggerResume h.cntrl}
  else if found || decide (state ≠ .sysErr) then h
  else
    let detected := mhiTrysetPmState h.cntrl.pmState .sysErrDetect
    if detected = .sysErrDetect then mhiPmSysErrHandler (h.setPm detected) else h.setPm detected

namespace Handlers

def Tried (ok : PmState → Prop) (pm pm' : PmState) : Prop := pm' = pm ∨ ∃ st, ok st ∧ pm' = mhiTrysetPmState pm st

structure Frame (ok : PmState → Prop) (h h' : Host) : Prop where
  pm : Tried ok h.cntrl.pmState h'.cntrl.pmState
  list : ∃ items, h'.transitionList = h.transitionList ++ items
  devices : h'.devices = h.devices

def Shared (st : PmState) : Prop := st ≠ .disable ∧ st ≠ .por ∧ st ≠ .shutdownProcess ∧ st ≠ .ldErrFatalDetect

section Frames
variable {ok : PmState → Prop} {h h' : Host}

theorem frameSame (pm : h'.cntrl.pmState = h.cntrl.pmState) (list : h'.transitionList = h.transitionList)
    (devices : h'.devices = h.devices) : Frame ok h h' := ⟨.inl pm,⟨[],by rw [list, List.append_nil]⟩,devices⟩

theorem frameTry (st : PmState) (allowed : ok st) (pm : h'.cntrl.pmState = mhiTrysetPmState h.cntrl.pmState st)
    (list : h'.transitionList = h.transitionList) (devices : h'.devices = h.devices) : Frame ok h h' :=
  ⟨.inr ⟨st,allowed,pm⟩,⟨[],by rw [list, List.append_nil]⟩,devices⟩

theorem Frame.queue (frame : Frame ok h h') (st : DevStTransition) : Frame ok h (mhiQueueStateTransition h' st) := by
  obtain ⟨items,list⟩ := frame.list
  exact ⟨frame.pm,⟨items ++ [st],by simp [mhiQueueStateTransition,list]⟩,frame.devices⟩

theorem Frame.sysErr (frame : Frame ok h h') : Frame ok h (mhiPmSysErrHandler h') := by
  unfold mhiPmSysErrHandler
  split
  · exact frame
  · exact frame.queue .sysErr

end Frames

theorem queuedPm {b b' : Book} {k k' : Core} {err : Option Errno} (queued : Queued b k err b' k') : b'.pm = b.pm := by
  cases queued <;> simp

theorem queuePm (p : Port) (q : QueueReq) : (mhiQueue p q).1.cntrl.pmState = p.cntrl.pmState := queuedPm (queueView p q)

theorem queueAllPm (qs : List QueueReq) (p : Port) : (queueAll p qs).cntrl.pmState = p.cntrl.pmState := by
  induction qs generalizing p with
  | nil => rfl
  | cons q rest ih => exact (ih (mhiQueue p q).1).trans (queuePm p q)

theorem uplinkPm (dir : DmaDir) (d : Int) (c : Cntrl) : (countUplink dir d c).pmState = c.pmState := by
  unfold countUplink
  split <;> rfl

theorem recyclePm (p : Port) (b : Nat) (reply : DmaReply) : (recycleBuf p b reply).cntrl.pmState = p.cntrl.pmState := by
  unfold recycleBuf
  split
  · dsimp only
    have queued := queueBufView p (p.chan.bufMem b).cbBuf (p.chan.bufMem b).len MhiFlags.eot reply
    split
    · rename_i ran
      rw [ran] at queued
      exact queuedPm queued
    · rename_i ran
      rw [ran] at queued
      exact queuedPm queued
  · rfl

theorem xferLoopPm {ev : MhiTre} {evTre devRp : Nat} {script : Nat → CbScript} {fuel i : Nat} {p out : Port}
    (ran : xferLoop ev evTre devRp script fuel i p = some out) : out.cntrl.pmState = p.cntrl.pmState := by
  induction fuel generalizing i p with
  | zero =>
    simp only [xferLoop] at ran
    split at ran <;> cases ran
    rfl
  | succ fuel ih =>
    simp only [xferLoop] at ran
    split at ran
    · cases ran
      rfl
    · refine (ih ran).trans ?_
      unfold xferOne
      dsimp only
      rw [recyclePm]
      dsimp only
      rw [uplinkPm, queueAllPm]
      rfl

theorem parseXferPm {ev : MhiTre} {script : Nat → CbScript} {p out : Port} (ran : parseXferEvent ev script p = some out) :
    out.cntrl.pmState = p.cntrl.pmState := by
  unfold parseXferEvent at ran
  split at ran
  · cases ran
    rfl
  split at ran
  · exact xferLoopPm ran
  split at ran
  · cases ran
    exact congrArg Book.pm (dbModeView p).1
  · cases ran
    rfl

theorem parseRscPm (ev : MhiTre) (script : CbScript) (p : Port) :
    (parseRscEvent ev script p).cntrl.pmState = p.cntrl.pmState := by
  unfold parseRscEvent
  split
  · rfl
  · exact queueAllPm _ _

section Events
variable {ok : PmState → Prop} {h h' : Host}

theorem txFrame {t : MhiTre} {script} (ran : txEvent h t script = some h') : Frame ok h h' := by
  unfold txEvent at ran
  split at ran
  · obtain ⟨p,parsed,rfl⟩ := Option.map_eq_some_iff.mp ran
    exact frameSame (parseXferPm parsed) rfl rfl
  · cases ran
    exact frameSame rfl rfl rfl

theorem m0Pm (h : Host) : (mhiPmM0Transition h).1.cntrl.pmState = mhiTrysetPmState h.cntrl.pmState .m0 ∨
    (mhiPmM0Transition h).1.cntrl.pmState = h.cntrl.pmState := by
  obtain ⟨_,⟨reached,book,_⟩ | ⟨book,_⟩⟩ := m0View h
  · exact .inl ((congrArg Book.pm book).trans reached.symm)
  · exact .inr (congrArg Book.pm book)

theorem chansAside (h : Host) : (m0Chans h).transitionList = h.transitionList ∧ (m0Chans h).devices = h.devices := by
  obtain ⟨_,_,same⟩ := m0ChansFrame h
  rw [same]
  exact ⟨rfl,rfl⟩

theorem missionAside (h : Host) : (m0Mission h).transitionList = h.transitionList ∧ (m0Mission h).devices = h.devices := by
  unfold m0Mission
  dsimp only
  split <;> exact ⟨rfl,rfl⟩

theorem m0Frame (allowed : ok .m0) : Frame ok h (mhiPmM0Transition h).1 := by
  have rest : (mhiPmM0Transition h).1.transitionList = h.transitionList ∧ (mhiPmM0Transition h).1.devices = h.devices := by
    unfold mhiPmM0Transition
    dsimp only
    split
    · exact ⟨rfl,rfl⟩
    · dsimp only
      rw [(chansAside _).1, (chansAside _).2]
      split
      · exact missionAside _
      · exact ⟨rfl,rfl⟩
  rcases m0Pm h with pm | pm
  · exact frameTry .m0 allowed pm rest.1 rest.2
  · exact frameSame pm rest.1 rest.2

theorem m1Frame (allowed : ok .m2) : Frame ok h (mhiPmM1Transition h) := by
  have rest : (mhiPmM1Transition h).transitionList = h.transitionList ∧ (mhiPmM1Transition h).devices = h.devices := by
    unfold mhiPmM1Transition
    dsimp only
    split
    · exact ⟨rfl,rfl⟩
    · split <;> exact ⟨rfl,rfl⟩
  exact frameTry .m2 allowed (congrArg Book.pm (m1View h).2.2) rest.1 rest.2

theorem detectFrame (allowed : ok .sysErrDetect) : Frame ok h (h.setPm (mhiTrysetPmState h.cntrl.pmState .sysErrDetect)) :=
  frameTry .sysErrDetect allowed rfl rfl rfl

theorem sysErrFrame (allowed : ok .sysErrDetect) : Frame ok h (sysErrEvent h) := by
  unfold sysErrEvent
  split
  · exact frameSame rfl rfl rfl
  dsimp only
  split
  · exact (detectFrame allowed).sysErr
  · exact detectFrame allowed

theorem eeFrame (h : Host) (code : Nat) : Frame ok h (eeEvent h code) := by
  have same : Frame ok h h := frameSame rfl rfl rfl
  unfold eeEvent
  split
  · exact same.queue .sbl
  split
  · exact same.queue .fp
  split
  · exact same.queue .missionMode
  split
  · exact frameSame rfl rfl rfl
  · exact same

end Events

theorem eventFrame {h h' : Host} {kind : ErDataType} {t : MhiTre} {script} (ran : processEvent h kind t script = some h') :
    Frame Shared h h' := by
  have same : Frame Shared h h := frameSame rfl rfl rfl
  cases kind with
  | ctrl =>
    simp only [processEvent,ctrlEvent] at ran
    split at ran
    · cases ran
      exact frameSame rfl rfl rfl
    split at ran
    · cases ran
      unfold stateChangeEvent
      split
      · exact m0Frame (by simp [Shared])
      split
      · exact m1Frame (by simp [Shared])
      split
      · exact frameTry .m3 (by simp [Shared]) rfl rfl rfl
      split
      · exact sysErrFrame (by simp [Shared])
      · exact same
    split at ran
    · cases ran
      exact frameSame rfl rfl rfl
    split at ran
    · cases ran
      exact eeFrame h _
    split at ran
    · exact txFrame ran
    · cases ran
      exact same
  | data =>
    simp only [processEvent,dataEvent] at ran
    split at ran
    · exact txFrame ran
    split at ran
    · cases ran
      exact frameSame (parseRscPm _ _ _) rfl rfl
    · cases ran
      exact same

theorem intvecFrame (h : Host) (state : DevState) (ee : ExecEnv) : Frame Shared h (mhiIntvecThreadedHandler h state ee) := by
  unfold mhiIntvecThreadedHandler
  split
  · exact frameSame rfl rfl rfl
  dsimp only
  have moved : Frame Shared h (if state = .sysErr then (setExecEnv h ee).setPm (mhiTrysetPmState h.cntrl.pmState .sysErrDetect)
      else if state = .ready ∧ h.cntrl.ee = .edl ∧ ee = .fp then mhiQueueStateTransition (setExecEnv h ee) .ready
      else setExecEnv h ee) := by
    split
    · exact frameTry .sysErrDetect (by simp [Shared]) rfl rfl rfl
    split
    · have stored : Frame Shared h (setExecEnv h ee) := frameSame rfl rfl rfl
      exact stored.queue .ready
    · exact frameSame rfl rfl rfl
  generalize (if state = .sysErr then _ else _ : Host) = mid at moved
  split
  · split <;> exact ⟨moved.pm,moved.list,moved.devices⟩
  split
  · split
    · exact ⟨moved.pm,moved.list,moved.devices⟩
    · exact moved.sysErr
  · exact moved

theorem ctrlTaskFrame (h : Host) (found : Bool) (state : DevState) : Frame Shared h (mhiCtrlEvTask h found state) := by
  unfold mhiCtrlEvTask
  split
  · exact frameSame rfl rfl rfl
  split
  · exact frameSame rfl rfl rfl
  dsimp only
  split
  · exact (detectFrame (by simp [Shared])).sysErr
  · exact detectFrame (by simp [Shared])

inductive Handler : Host → Host → Prop where
  | event {h h'} (kind : ErDataType) (t : MhiTre) (script : Nat → CbScript) (ran : processEvent h kind t script = some h') :
      Handler h h'
  | intvec {h} (state : DevState) (ee : ExecEnv) : Handler h (mhiIntvecThreadedHandler h state ee)
  | ctrlTask {h} (found : Bool) (state : DevState) : Handler h (mhiCtrlEvTask h found state)
  | suspend {h} : Handler h (suspendEnter h).1
  | resume {h} : Handler h (resumeBegin h).1
  | other {h h'} (pm : h'.cntrl.pmState = h.cntrl.pmState) (list : h'.transitionList = h.transitionList)
      (devices : h'.devices = h.devices) : Handler h h'

theorem handlerFrame {h h' : Host} (ran : Handler h h') : Frame Shared h h' := by
  cases ran with
  | event kind t script ran => exact eventFrame ran
  | intvec state ee => exact intvecFrame h state ee
  | ctrlTask found state => exact ctrlTaskFrame h found state
  | suspend =>
    unfold suspendEnter
    split
    · exact frameSame rfl rfl rfl
    dsimp only
    split <;> exact frameTry .m3Enter (by simp [Shared]) rfl rfl rfl
  | resume =>
    unfold resumeBegin
    split
    · exact frameSame rfl rfl rfl
    split
    · exact frameSame rfl rfl rfl
    dsimp only
    split <;> exact frameTry .m3Exit (by simp [Shared]) rfl rfl rfl
  | other pm list devices => exact frameSame pm list devices

end Handlers
end MhiHost
