import MhiHost.CoreLocks

/-! The order of the locks: no function takes one out of order or sleeps with softirqs off, and so
no thread is left waiting for ever. A sleep is taken to end, by its timeout or by a wake-up. -/
namespace MhiHost.CoreLocks
open LockLevels (Mode Levels Climbs steps maybe)

@[simp] def height : Lock → Nat
  | .stWorker => 1
  | .refill _ => 2
  | .udev _ | .uciDrvMutex | .chanLock _ => 3
  | .readLock _ | .writeLock _ => 4
  | .pmMutex | .chanMutex _ => 5
  | .intvec => 6
  | .task _ | .napi _ => 8
  | .rxLock _ | .pmLock => 9
  | .eventLock _ | .cmdLock => 10
  | .chan _ => 11
  | .wlock | .dlPendingLock _ | .transitionLock => 15

/- A reader who passes the queue waits for a writer only, and a writer holds on to nothing but what
comes last: so `pm_lock` may be read with any of the other spinlocks held. -/
@[simp] def want : Lock → Mode → Nat
  | .pmLock,.shared => 14
  | .chan _,.shared => 12
  | lock,_ => height lock

@[simp] def held : Lock → Mode → Nat
  | .pmLock,.exclusive => 14
  | .chan _,.exclusive => 12
  | lock,_ => height lock

theorem wantHeld {lock : Lock} {taker holder : Mode} (waits : taker.Waits holder) : want lock taker ≤ held lock holder := by
  revert waits
  cases lock <;> cases taker <;> cases holder <;> simp [Mode.Waits]

theorem wantBelow (lock : Lock) (mode : Mode) : want lock mode ≤ 15 := by
  cases lock <;> cases mode <;> simp

theorem maskedHigh {lock : Lock} (off : masks lock = true) (mode : Mode) : 7 ≤ held lock mode := by
  revert off
  cases lock <;> cases mode <;> simp [masks]

theorem unmaskedLow {lock : Lock} (on : masks lock = false) (mode : Mode) : held lock mode ≤ 7 := by
  revert on
  cases lock <;> cases mode <;> simp [masks]

def levels : Levels masks := ⟨want,held,7,15,wantHeld,wantBelow,maskedHigh,unmaskedLow⟩

section Combinators
variable {n : Nat} {lock : Lock} {mode : Mode} {body : Code}

@[simp] theorem climbsHold : Climbs levels n (.hold lock mode body) ↔
    n < want lock mode ∧ Climbs levels (max n (held lock mode)) body := Iff.rfl

@[simp] theorem climbsMutex : Climbs levels n (mutex lock body) ↔
    n < 7 ∧ n < want lock .exclusive ∧ Climbs levels (max n (held lock .exclusive)) body := Iff.rfl

@[simp] theorem climbsSpin : Climbs levels n (spin lock body) ↔
    n < want lock .exclusive ∧ Climbs levels (max n (held lock .exclusive)) body := Iff.rfl

@[simp] theorem climbsWrite : Climbs levels n (write lock body) ↔
    n < want lock .exclusive ∧ Climbs levels (max n (held lock .exclusive)) body := Iff.rfl

@[simp] theorem climbsRead : Climbs levels n (read lock body) ↔
    n < want lock .shared ∧ Climbs levels (max n (held lock .shared)) body := Iff.rfl

@[simp] theorem climbsFlush : Climbs levels n (flush lock) ↔ n < 7 ∧ n < want lock .exclusive := Iff.rfl

@[simp] theorem climbsSleep : Climbs levels n .sleep ↔ n < 7 := Iff.rfl

end Combinators

section Climbing
variable {n : Nat}

/-! Below which level a function may be called. -/

theorem assertClimbs (low : n < 15) : Climbs levels n mhiAssertDevWake := by
  simp [mhiAssertDevWake,low]

theorem deassertClimbs (low : n < 15) : Climbs levels n mhiDeassertDevWake := by
  simp [mhiDeassertDevWake,low]

theorem toggleClimbs (low : n < 15) : Climbs levels n wakeToggle := by
  simp [wakeToggle,assertClimbs low,deassertClimbs low]

theorem transitionClimbs (low : n < 15) : Climbs levels n mhiQueueStateTransition := by
  simp [mhiQueueStateTransition,low]

theorem sysErrClimbs (low : n < 15) : Climbs levels n mhiPmSysErrHandler := by
  simp [mhiPmSysErrHandler,transitionClimbs low]

theorem readyClimbs (low : n < 7) : Climbs levels n mhiReadyStateTransition := by
  simp [mhiReadyStateTransition]
  omega

theorem m0Climbs (low : n < 9) : Climbs levels n mhiPmM0Transition := by
  have inside : max n 9 < 15 := by omega
  simp [mhiPmM0Transition,assertClimbs inside,deassertClimbs inside]
  omega

theorem m1Climbs (low : n < 9) : Climbs levels n mhiPmM1Transition := by
  have inside : max n 9 < 15 := by omega
  simp [mhiPmM1Transition,assertClimbs inside,deassertClimbs inside]
  omega

theorem m3Climbs (low : n < 9) : Climbs levels n mhiPmM3Transition := by
  simp [mhiPmM3Transition,low]

theorem getSyncClimbs (low : n < 7) : Climbs levels n mhiDeviceGetSync := by
  have inside : max n 9 < 15 := by omega
  simp [mhiDeviceGetSync,assertClimbs inside,deassertClimbs inside]
  omega

theorem getClimbs (low : n < 14) : Climbs levels n mhiDeviceGet := by
  have inside : max n 9 < 15 := by omega
  simp [mhiDeviceGet,assertClimbs inside,low]

theorem putClimbs (low : n < 14) : Climbs levels n mhiDevicePut := by
  have inside : max n 9 < 15 := by omega
  simp [mhiDevicePut,deassertClimbs inside,low]

theorem suspendClimbs (low : n < 5) : Climbs levels n mhiPmSuspend := by
  have inside : max n 9 < 15 := by omega
  simp [mhiPmSuspend,assertClimbs inside,deassertClimbs inside]
  omega

theorem resumeClimbs (low : n < 5) : Climbs levels n mhiPmResume := by
  simp [mhiPmResume]
  omega

theorem queueBufShared {chan : Nat} (low : n < 12) : Climbs levels n (mhiQueueBuf .shared chan) := by
  have inside : max n 9 < 15 := by omega
  simp [mhiQueueBuf,toggleClimbs inside]
  omega

theorem queueBufQueued {chan : Nat} (low : n < 9) : Climbs levels n (mhiQueueBuf .queued chan) := by
  have inside : max n 9 < 15 := by omega
  simp [mhiQueueBuf,toggleClimbs inside]
  omega

theorem queueLockedClimbs {chan : Nat} (low : n < 12) : Climbs levels n (queueLocked chan) := by
  have inside : max n 9 < 15 := by omega
  simp [queueLocked,toggleClimbs inside]
  omega

theorem xferCbClimbs (low : n < 12) : Climbs levels n xferCb := by
  simp [xferCb,queueBufShared low]
  omega

theorem parseXferClimbs {chan : Nat} (low : n < 11) : Climbs levels n (parseXferEvent chan) := by
  have inside : max n 11 < 12 := by omega
  simp [parseXferEvent,xferCbClimbs inside,queueBufShared inside]
  omega

theorem parseRscClimbs {chan : Nat} (low : n < 11) : Climbs levels n (parseRscEvent chan) := by
  have inside : max n 11 < 12 := by omega
  simp [parseRscEvent,xferCbClimbs inside]
  omega

theorem cmdCompletionClimbs (low : n < 11) : Climbs levels n mhiProcessCmdCompletion := by
  simp [mhiProcessCmdCompletion,low]

theorem ctrlEventClimbs (low : n < 9) : Climbs levels n ctrlEvent := by
  have spare : n < 15 := by omega
  have below : n < 11 := by omega
  simp [ctrlEvent,low,m0Climbs low,m1Climbs low,m3Climbs low,sysErrClimbs spare,transitionClimbs spare,
    cmdCompletionClimbs below,parseXferClimbs below]

theorem ctrlRingClimbs (low : n < 9) : Climbs levels n mhiProcessCtrlEvRing := by
  simp [mhiProcessCtrlEvRing,ctrlEventClimbs low]
  omega

theorem dataRingClimbs (low : n < 11) : Climbs levels n mhiProcessDataEventRing := by
  simp [mhiProcessDataEventRing,parseXferClimbs low,parseRscClimbs low]
  omega

theorem pollClimbs {event : Nat} (low : n < 10) : Climbs levels n (mhiPoll event) := by
  have inside : max n 10 < 11 := by omega
  simp [mhiPoll,low,dataRingClimbs inside]

theorem evTaskClimbs {event : Nat} (low : n < 8) : Climbs levels n (mhiEvTask event) := by
  have inside : max n 10 < 11 := by omega
  simp [mhiEvTask,dataRingClimbs inside]
  omega

theorem ctrlEvTaskClimbs {event : Nat} (low : n < 8) : Climbs levels n (mhiCtrlEvTask event) := by
  have inside : max n 8 < 9 := by omega
  have spare : max n 8 < 15 := by omega
  simp [mhiCtrlEvTask,ctrlRingClimbs inside,sysErrClimbs spare]
  omega

theorem intvecClimbs (low : n < 6) : Climbs levels n mhiIntvecThreadedHandler := by
  have inside : max n 14 < 15 := by omega
  have spare : max n 6 < 15 := by omega
  simp [mhiIntvecThreadedHandler,transitionClimbs inside,sysErrClimbs spare]
  omega

theorem sendCmdClimbs (low : n < 10) : Climbs levels n mhiSendCmd := by
  simp [mhiSendCmd]
  omega

theorem resetChanClimbs (low : n < 10) : Climbs levels n mhiResetChan := by
  have inside : max n 9 < 12 := by omega
  simp [mhiResetChan,mhiMarkStaleEvents,mhiResetDataChan,xferCbClimbs inside]
  omega

theorem unprepareClimbs {chan : Nat} (low : n < 5) : Climbs levels n (mhiUnprepareChannel chan) := by
  have inside : max n 5 < 10 := by omega
  have spare : max n 9 < 15 := by omega
  simp [mhiUnprepareChannel,toggleClimbs spare,sendCmdClimbs inside,resetChanClimbs inside]
  omega

theorem prepareClimbs {chan : Nat} (low : n < 5) : Climbs levels n (mhiPrepareChannel chan) := by
  have inside : max n 5 < 10 := by omega
  have spare : max n 9 < 15 := by omega
  simp [mhiPrepareChannel,toggleClimbs spare,sendCmdClimbs inside,unprepareClimbs low]
  omega

theorem prepareTransferClimbs {ul dl : Nat} (low : n < 5) : Climbs levels n (mhiPrepareForTransfer ul dl) := by
  simp [mhiPrepareForTransfer,prepareClimbs low,unprepareClimbs low]

theorem unprepareTransferClimbs {ul dl : Nat} (low : n < 5) : Climbs levels n (mhiUnprepareFromTransfer ul dl) := by
  simp [mhiUnprepareFromTransfer,unprepareClimbs low]

theorem fillClimbs {dl : Nat} (low : n < 7) : Climbs levels n (fillRing dl) := by
  have queue : n < 9 := by omega
  simp [fillRing,low,queueBufQueued queue]

theorem chanReleaseClimbs {node ul dl : Nat} (low : n < 4) : Climbs levels n (mhiUciDevChanRelease node ul dl) := by
  have inner : n < 5 := by omega
  simp [mhiUciDevChanRelease,unprepareTransferClimbs inner,low]
  omega

theorem startChanClimbs {node ul dl : Nat} (low : n < 3) : Climbs levels n (mhiUciDevStartChan node ul dl) := by
  have prepare : max n 3 < 5 := by omega
  have inbound : max n 3 < 7 := by omega
  have release : max n 3 < 4 := by omega
  simp [mhiUciDevStartChan,mhiQueueInbound,prepareTransferClimbs prepare,fillClimbs inbound,chanReleaseClimbs release]
  omega

theorem uciOpenClimbs {node ul dl : Nat} (low : n < 3) : Climbs levels n (mhiUciOpen node ul dl) := by
  simp [mhiUciOpen,startChanClimbs low,low]
  omega

theorem uciReleaseClimbs {node ul dl : Nat} (low : n < 3) : Climbs levels n (mhiUciRelease node ul dl) := by
  have release : max n 3 < 4 := by omega
  simp [mhiUciRelease,chanReleaseClimbs release,low]
  omega

theorem uciPollClimbs {node : Nat} (low : n < 15) : Climbs levels n (mhiUciPoll node) := by
  simp [mhiUciPoll,low]

theorem uciWriteClimbs {node ul : Nat} (low : n < 4) : Climbs levels n (mhiUciWrite node ul) := by
  have queue : max n 4 < 9 := by omega
  simp [mhiUciWrite,queueBufQueued queue]
  omega

theorem uciReadClimbs {node dl : Nat} (low : n < 4) : Climbs levels n (mhiUciRead node dl) := by
  have queue : max n 4 < 9 := by omega
  simp [mhiUciRead,queueBufQueued queue]
  omega

theorem uciProbeClimbs (low : n < 3) : Climbs levels n mhiUciProbe := by
  simp [mhiUciProbe]
  omega

theorem uciRemoveClimbs {node : Nat} (low : n < 3) : Climbs levels n (mhiUciRemove node) := by
  simp [mhiUciRemove]
  omega

theorem submitClimbs {net dl : Nat} (low : n < 9) : Climbs levels n (rxAllocSubmit net dl) := by
  have queue : max n 9 < 12 := by omega
  simp [rxAllocSubmit,mhiQueueSkb,queueLockedClimbs queue,low]

theorem refillClimbs {net dl : Nat} (low : n < 2) : Climbs levels n (mhiNetRxRefillWork net dl) := by
  have submit : max n 2 < 9 := by omega
  simp [mhiNetRxRefillWork,submitClimbs submit,low]

theorem netOpenClimbs {net ul dl : Nat} (low : n < 3) : Climbs levels n (mhiNetOpen net ul dl) := by
  have prepare : max n 3 < 5 := by omega
  have submit : n < 9 := by omega
  simp [mhiNetOpen,prepareTransferClimbs prepare,submitClimbs submit,low]
  omega

theorem netStopClimbs {net ul dl : Nat} (low : n < 2) : Climbs levels n (mhiNetStop net ul dl) := by
  have unprepare : max n 3 < 5 := by omega
  simp [mhiNetStop,unprepareTransferClimbs unprepare]
  omega

theorem xmitClimbs {ul : Nat} (low : n < 12) : Climbs levels n (mhiNetXmit ul) ∧ Climbs levels n (Mbim.mhiNdoXmit ul) := by
  simp [mhiNetXmit,Mbim.mhiNdoXmit,mhiQueueSkb,queueLockedClimbs low]

theorem netPollClimbs {net event dl : Nat} (low : n < 8) : Climbs levels n (mhiNetPoll net event dl) := by
  have poll : max n 8 < 10 := by omega
  have submit : max n 8 < 9 := by omega
  simp [mhiNetPoll,pollClimbs poll,submitClimbs submit,low]

theorem netRemoveClimbs {net ul dl : Nat} (low : n < 2) : Climbs levels n (mhiNetRemove net ul dl) := by
  simp [mhiNetRemove,netStopClimbs low]
  omega

theorem mbimRefillClimbs {net dl : Nat} (low : n < 2) : Climbs levels n (Mbim.mhiNetRxRefillWork net dl) := by
  have queue : max n 2 < 12 := by omega
  simp [Mbim.mhiNetRxRefillWork,mhiQueueSkb,queueLockedClimbs queue,low]

theorem mbimStopClimbs {net : Nat} (low : n < 2) : Climbs levels n (Mbim.mhiNdoStop net) := by
  simp [Mbim.mhiNdoStop]
  omega

theorem mbimProbeClimbs {ul dl : Nat} (low : n < 5) : Climbs levels n (Mbim.mhiNetProbe ul dl) := by
  simp [Mbim.mhiNetProbe,prepareTransferClimbs low]
  omega

theorem mbimRemoveClimbs {net ul dl : Nat} (low : n < 2) : Climbs levels n (Mbim.mhiNetRemove net ul dl) := by
  have unprepare : n < 5 := by omega
  simp [Mbim.mhiNetRemove,mbimStopClimbs low,unprepareTransferClimbs unprepare]
  omega

theorem dtrProbeClimbs {ul dl : Nat} (low : n < 5) : Climbs levels n (mhiDtrProbe ul dl) := by
  have fill : n < 7 := by omega
  simp [mhiDtrProbe,mhiDtrQueueInbound,prepareTransferClimbs low,fillClimbs fill]

theorem clientProbeClimbs {ul dl : Nat} (low : n < 3) : Climbs levels n (clientProbe ul dl) := by
  have inner : n < 5 := by omega
  simp [clientProbe,mhiNetProbe,uciProbeClimbs low,mbimProbeClimbs inner,dtrProbeClimbs inner]
  omega

theorem clientRemoveClimbs {index ul dl : Nat} (low : n < 2) : Climbs levels n (clientRemove index ul dl) := by
  have node : n < 3 := by omega
  simp [clientRemove,uciRemoveClimbs node,netRemoveClimbs low,mbimRemoveClimbs low]

theorem driverProbeClimbs {ul dl : Nat} (low : n < 3) : Climbs levels n (mhiDriverProbe ul dl) := by
  have inner : n < 5 := by omega
  have vote : n < 7 := by omega
  have back : n < 14 := by omega
  simp [mhiDriverProbe,getSyncClimbs vote,prepareClimbs inner,clientProbeClimbs low,unprepareTransferClimbs inner,
    putClimbs back]

theorem resetOnRemoveClimbs {chan : Nat} (low : n < 5) : Climbs levels n (resetOnRemove chan) := by
  have reset : max n 5 < 10 := by omega
  simp [resetOnRemove,resetChanClimbs reset]
  omega

theorem driverRemoveClimbs {index ul dl : Nat} (low : n < 2) : Climbs levels n (mhiDriverRemove index ul dl) := by
  have inner : n < 5 := by omega
  have back : max n 9 < 14 := by omega
  simp [mhiDriverRemove,resetOnRemoveClimbs inner,clientRemoveClimbs low,putClimbs back]
  omega

theorem createClimbs (low : n < 3) : Climbs levels n mhiCreateDevices := by
  simp [mhiCreateDevices,driverProbeClimbs low]
  omega

theorem destroyClimbs (low : n < 2) : Climbs levels n mhiDestroyDevice := by
  simp [mhiDestroyDevice,driverRemoveClimbs low]
  omega

theorem fwLoadClimbs (low : n < 7) : Climbs levels n mhiFwLoadHandler := by
  simp [mhiFwLoadHandler,mhiFwLoadSbl,mhiFwLoadAmss,readyClimbs low]
  omega

theorem missionClimbs (low : n < 3) : Climbs levels n mhiPmMissionModeTransition := by
  have vote : n < 7 := by omega
  have inside : max n 9 < 15 := by omega
  simp [mhiPmMissionModeTransition,getSyncClimbs vote,deassertClimbs inside,createClimbs low]
  omega

theorem disableClimbs (low : n < 2) : Climbs levels n mhiPmDisableTransition := by
  have ready : max n 5 < 7 := by omega
  simp [mhiPmDisableTransition,destroyClimbs low,readyClimbs ready]
  omega

theorem workerClimbs (low : n < 1) : Climbs levels n mhiPmStWorker := by
  have lowest : max n 1 < 2 := by omega
  have create : max n 1 < 3 := by omega
  have load : max n 1 < 7 := by omega
  simp [mhiPmStWorker,transition,fwLoadClimbs load,createClimbs create,missionClimbs create,
    readyClimbs load,disableClimbs lowest]
  omega

theorem asyncUpClimbs (low : n < 5) : Climbs levels n mhiAsyncPowerUp := by
  have queue : max n 5 < 15 := by omega
  simp [mhiAsyncPowerUp,mhiInitIrqSetup,mhiDeinitFreeIrq,transitionClimbs queue]
  omega

theorem downClimbs (low : n < 1) : Climbs levels n mhiPowerDown := by
  have queue : n < 15 := by omega
  simp [mhiPowerDown,mhiDeinitFreeIrq,transitionClimbs queue]
  omega

theorem syncUpClimbs (low : n < 1) : Climbs levels n mhiSyncPowerUp := by
  have up : n < 5 := by omega
  have queue : n < 15 := by omega
  simp [mhiSyncPowerUp,asyncUpClimbs up,transitionClimbs queue,downClimbs low]
  omega

theorem pciClimbs (low : n < 1) :
    Climbs levels n mhiPciProbe ∧ Climbs levels n mhiPciRemove ∧ Climbs levels n mhiPciStatusCbWorkFunc := by
  have up : n < 5 := by omega
  simp [mhiPciProbe,mhiPciRemove,mhiPciStatusCbWorkFunc,mhiPrepareForPowerUp,mhiUnprepareAfterPowerDown,
    asyncUpClimbs up,downClimbs low]
  omega

theorem rddmClimbs (low : n < 7) : Climbs levels n mhiDownloadRddmImg ∧ Climbs levels n mhiForceRddmMode := by
  simp [mhiDownloadRddmImg,mhiForceRddmMode,low]

end Climbing

theorem entryClimbs (entry : Entry) : Climbs levels 0 entry.code := by
  cases entry with
  | intvecThreadedHandler => exact intvecClimbs (by decide)
  | stWorker => exact workerClimbs (by decide)
  | suspend => exact suspendClimbs (by decide)
  | resume => exact resumeClimbs (by decide)
  | deviceGet => exact getClimbs (by decide)
  | deviceGetSync => exact getSyncClimbs (by decide)
  | devicePut => exact putClimbs (by decide)
  | driverProbe ul dl => exact driverProbeClimbs (by decide)
  | driverRemove index ul dl => exact driverRemoveClimbs (by decide)
  | syncPowerUp => exact syncUpClimbs (by decide)
  | statusCbWork => exact (pciClimbs (by decide)).2.2
  | pciProbe => exact (pciClimbs (by decide)).1
  | pciRemove => exact (pciClimbs (by decide)).2.1
  | downloadRddmImg => exact (rddmClimbs (by decide)).1
  | forceRddmMode => exact (rddmClimbs (by decide)).2
  | uciOpen node ul dl => exact uciOpenClimbs (by decide)
  | uciRelease node ul dl => exact uciReleaseClimbs (by decide)
  | uciPoll node => exact uciPollClimbs (by decide)
  | uciWrite node ul => exact uciWriteClimbs (by decide)
  | uciRead node dl => exact uciReadClimbs (by decide)
  | netOpen net ul dl => exact netOpenClimbs (by decide)
  | netStop net ul dl => exact netStopClimbs (by decide)
  | netRefill net dl => exact refillClimbs (by decide)
  | mbimStop net => exact mbimStopClimbs (by decide)
  | mbimRefill net dl => exact mbimRefillClimbs (by decide)

theorem softirqClimbs (softirq : Softirq) : Climbs levels levels.floor softirq.code := by
  cases softirq with
  | evTask event => exact evTaskClimbs (by decide)
  | ctrlEvTask event => exact ctrlEvTaskClimbs (by decide)
  | netPoll net event dl => exact netPollClimbs (by decide)
  | netXmit ul => exact (xmitClimbs (by decide)).1
  | ndoXmit ul => exact (xmitClimbs (by decide)).2
  | dma chan => exact queueLockedClimbs (by decide)

section System
variable {ι : Type} [DecidableEq ι]

theorem coreProgresses {program : ι → List Entry} {cpus : ι → LockLevels.Cpu Lock} (run : System program cpus) :
    (∀ i, ¬Relation.TransGen (LockLevels.WaitsFor cpus) i i) ∧
    (∀ i, (cpus i).Busy → ∃ j, Relation.ReflTransGen (LockLevels.WaitsFor cpus) i j ∧ LockLevels.Clear cpus j) ∧
    ∀ i rest, (cpus i).running = .code .sleep :: rest →
      (cpus i).softirq = none ∧ ∀ lock mode, (cpus i).Holds lock mode → masks lock = false := by
  have programs : ∀ i, Climbs levels 0 (steps ((program i).map Entry.code)) := by
    intro i
    rw [LockLevels.climbsSteps]
    intro c inside
    obtain ⟨entry,_,same⟩ := List.mem_map.mp inside
    rw [← same]
    exact entryClimbs entry
  have kept := LockLevels.runInv programs softirqClimbs run
  exact ⟨fun i => LockLevels.noCycle kept,fun i busy => LockLevels.progress kept busy,
    fun i rest sleeps => LockLevels.sleepsOpen kept sleeps⟩

end System

namespace Sample

def program : Bool → List Entry
  | true => [.intvecThreadedHandler]
  | false => [.devicePut]

def both (handler client : List (LockLevels.Item Lock)) : Bool → LockLevels.Cpu Lock
  | true => ⟨handler,none⟩
  | false => ⟨client,none⟩

def client : List (LockLevels.Item Lock) := [.code mhiDevicePut,.code .skip]

def inHandler (items : List (LockLevels.Item Lock)) : List (LockLevels.Item Lock) :=
  items ++ [.drop .intvec .exclusive,.code .skip]

def writing : Bool → LockLevels.Cpu Lock :=
  both (inHandler [.code (maybe mhiQueueStateTransition),.drop .pmLock .exclusive,
    .code (steps [maybe mhiPmSysErrHandler])]) client

theorem handlerActs {handler after client : List (LockLevels.Item Lock)}
    (turn : LockLevels.Turn (LockLevels.Free (both handler client)) handler after)
    (run : System program (both handler client)) : System program (both after client) := by
  have next : Function.update (both handler client) true ⟨after,none⟩ = both after client := by
    funext i
    cases i <;> rfl
  exact run.tail (next ▸ .acts (.thread rfl turn))

theorem clientActs {handler after client : List (LockLevels.Item Lock)}
    (turn : LockLevels.Turn (LockLevels.Free (both handler client)) client after)
    (run : System program (both handler client)) : System program (both handler after) := by
  have next : Function.update (both handler client) false ⟨after,none⟩ = both handler after := by
    funext i
    cases i <;> rfl
  exact run.tail (next ▸ .acts (.thread rfl turn))

theorem begun : System program (both [.code (steps [mhiIntvecThreadedHandler])] [.code (steps [mhiDevicePut])]) := by
  have first : LockLevels.start (fun i => steps ((program i).map Entry.code)) =
      both [.code (steps [mhiIntvecThreadedHandler])] [.code (steps [mhiDevicePut])] := by
    funext i
    cases i <;> rfl
  exact first ▸ .refl

theorem written : System program writing := by
  have alone : System program (both [.code mhiIntvecThreadedHandler,.code .skip] client) :=
    clientActs .seq (handlerActs .seq begun)
  have running : System program (both (inHandler [.code (steps [write .pmLock (maybe mhiQueueStateTransition),
      maybe mhiPmSysErrHandler])]) client) := by
    refine handlerActs (LockLevels.Turn.hold ?_) alone
    intro i holder has
    cases i <;> simp [both,client,LockLevels.Cpu.Holds] at has
  refine handlerActs (LockLevels.Turn.hold ?_) (handlerActs LockLevels.Turn.seq running)
  intro i holder has
  cases i <;> simp [both,client,LockLevels.Cpu.Holds] at has

end Sample

theorem coreProgressesSample : LockLevels.WaitsFor Sample.writing false true ∧
    ∃ j, Relation.ReflTransGen (LockLevels.WaitsFor Sample.writing) false j ∧ LockLevels.Clear Sample.writing j :=
  ⟨⟨.pmLock,.shared,.exclusive,rfl,.inl (.tail _ (.head _)),rfl⟩,
    (coreProgresses Sample.written).2.1 false (.inl (List.cons_ne_nil _ _))⟩

end MhiHost.CoreLocks
