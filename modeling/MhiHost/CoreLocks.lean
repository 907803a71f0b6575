import MhiHost.LockLevels

/-! The locks of the MHI core and of its clients: what every function takes, sleeps under and waits
for, in which order. Every branch may be taken and every loop may go round; a channel, a ring or a
node is any number. The locks that the driver core and the network stack take around these calls
are outside, and so is what they do inside theirs. -/
namespace MhiHost.CoreLocks
open LockLevels (Mode steps maybe)

/- The locks, and what else a function waits for until somebody has done with it: a running work
item, tasklet, interrupt thread or `napi` poll. -/
inductive Lock where
  | stWorker
  | refill (net : Nat)
  | udev (node : Nat)
  | uciDrvMutex
  | chanLock (net : Nat)
  | readLock (node : Nat)
  | writeLock (node : Nat)
  | pmMutex
  | chanMutex (chan : Nat)
  | intvec
  | task (event : Nat)
  | napi (net : Nat)
  | rxLock (net : Nat)
  | pmLock
  | eventLock (event : Nat)
  | cmdLock
  | chan (chan : Nat)
  | wlock
  | dlPendingLock (node : Nat)
  | transitionLock
  deriving DecidableEq, Repr

/- Work items, mutexes and the interrupt thread leave softirqs on. -/
def masks : Lock → Bool
  | .stWorker | .refill _ | .udev _ | .uciDrvMutex | .chanLock _ | .readLock _ | .writeLock _ | .pmMutex
  | .chanMutex _ | .intvec => false
  | _ => true

abbrev Code := LockLevels.Code Lock

def mutex (lock : Lock) (body : Code) : Code := .seq .sleep (.hold lock .exclusive body)

def spin (lock : Lock) (body : Code) : Code := .hold lock .exclusive body

def write (lock : Lock) (body : Code) : Code := .hold lock .exclusive body

def read (lock : Lock) (body : Code) : Code := .hold lock .shared body

def flush (lock : Lock) : Code := .seq .sleep (.await lock)

/-! Power management. -/

def mhiAssertDevWake : Code := maybe (spin .wlock .skip)

def mhiDeassertDevWake : Code := maybe (spin .wlock .skip)

def wakeToggle : Code := maybe (steps [mhiAssertDevWake,mhiDeassertDevWake])

def mhiQueueStateTransition : Code := maybe (spin .transitionLock .skip)

def mhiPmSysErrHandler : Code := maybe mhiQueueStateTransition

def mhiReadyStateTransition : Code :=
  steps [.sleep,maybe (steps [write .pmLock .skip,
    maybe (read .pmLock (.loop (.any fun event => spin (.eventLock event) .skip)))])]

def mhiPmM0Transition : Code :=
  steps [write .pmLock .skip,maybe (read .pmLock (steps [mhiAssertDevWake,
    maybe (steps [.loop (.any fun event => spin (.eventLock event) .skip),spin .cmdLock .skip]),
    .loop (.any fun chan => steps [maybe (write (.chan chan) .skip),read (.chan chan) .skip]),mhiDeassertDevWake]))]

def mhiPmM1Transition : Code :=
  steps [write .pmLock .skip,maybe (read .pmLock (steps [mhiAssertDevWake,mhiDeassertDevWake]))]

def mhiPmM3Transition : Code := write .pmLock .skip

def mhiDeviceGetSync : Code :=
  steps [read .pmLock mhiAssertDevWake,.sleep,maybe (read .pmLock mhiDeassertDevWake)]

def mhiDeviceGet : Code := read .pmLock mhiAssertDevWake

def mhiDevicePut : Code := read .pmLock mhiDeassertDevWake

def mhiPmSuspend : Code :=
  maybe (steps [read .pmLock mhiAssertDevWake,.sleep,read .pmLock mhiDeassertDevWake,
    maybe (steps [write .pmLock .skip,maybe (steps [.sleep,.loop (.any fun chan => mutex (.chanMutex chan) .skip)])])])

def mhiPmResume : Code :=
  maybe (steps [.loop (.any fun chan => mutex (.chanMutex chan) .skip),write .pmLock .skip,maybe .sleep])

/-! The event rings and the queue calls. A transfer callback is that of `uci.c`, of `mhi_dtr.c`,
which queues the buffer again, or one that takes no lock. -/

/- `read_lock_irqsave`: in a thread that has softirqs on, the reader lines up. -/
def mhiQueueBuf (mode : Mode) (chan : Nat) : Code :=
  maybe (.hold .pmLock mode (steps [wakeToggle,maybe (.hold (.chan chan) mode .skip)]))

def queueLocked (chan : Nat) : Code :=
  maybe (read .pmLock (maybe (steps [wakeToggle,maybe (read (.chan chan) .skip)])))

def mhiQueueSkb (chan : Nat) : Code := queueLocked chan

def mhiQueueDma (chan : Nat) : Code := queueLocked chan

def xferCb : Code :=
  maybe (.choice (.any fun node => spin (.dlPendingLock node) .skip) (.any fun chan => mhiQueueBuf .shared chan))

def parseXferEvent (chan : Nat) : Code :=
  .choice (write (.chan chan) (maybe (read .pmLock .skip)))
    (read (.chan chan) (.loop (steps [xferCb,maybe (mhiQueueBuf .shared chan)])))

def parseRscEvent (chan : Nat) : Code := read (.chan chan) (maybe xferCb)

def mhiProcessCmdCompletion : Code := .any fun chan => write (.chan chan) .skip

def ctrlEvent : Code :=
  maybe (.choice (write .pmLock .skip) (.choice mhiPmM0Transition (.choice mhiPmM1Transition (.choice mhiPmM3Transition
    (.choice (steps [write .pmLock .skip,mhiPmSysErrHandler]) (.choice mhiProcessCmdCompletion
      (.choice mhiQueueStateTransition (.any parseXferEvent))))))))

def mhiProcessCtrlEvRing : Code := maybe (steps [.loop ctrlEvent,read .pmLock .skip])

def mhiProcessDataEventRing : Code :=
  maybe (steps [.loop (maybe (.any fun chan => .choice (parseXferEvent chan) (parseRscEvent chan))),read .pmLock .skip])

def mhiEvTask (event : Nat) : Code := .hold (.task event) .exclusive (spin (.eventLock event) mhiProcessDataEventRing)

def mhiCtrlEvTask (event : Nat) : Code :=
  .hold (.task event) .exclusive
    (maybe (steps [mhiProcessCtrlEvRing,maybe (steps [write .pmLock .skip,maybe mhiPmSysErrHandler])]))

def mhiPoll (event : Nat) : Code := spin (.eventLock event) mhiProcessDataEventRing

/- The transition is queued under `pm_lock`, in the one writer's section that takes another lock. -/
def mhiIntvecThreadedHandler : Code :=
  .hold .intvec .exclusive (steps [write .pmLock (maybe mhiQueueStateTransition),maybe mhiPmSysErrHandler])

/-! The channels and the devices on them. -/

def mhiSendCmd : Code := spin .cmdLock (maybe (read .pmLock .skip))

def mhiMarkStaleEvents (event : Nat) : Code := spin (.eventLock event) .skip

def mhiResetDataChan : Code := .loop (maybe xferCb)

def mhiResetChan : Code := maybe (read .pmLock (steps [.any mhiMarkStaleEvents,mhiResetDataChan]))

def mhiUnprepareChannel (chan : Nat) : Code :=
  mutex (.chanMutex chan) (steps [write (.chan chan) .skip,maybe (steps [read .pmLock wakeToggle,
    maybe (steps [mhiSendCmd,maybe .sleep]),maybe (steps [mhiResetChan,.sleep])])])

def mhiPrepareChannel (chan : Nat) : Code :=
  maybe (steps [mutex (.chanMutex chan) (maybe (steps [.sleep,read .pmLock wakeToggle,
      maybe (steps [mhiSendCmd,maybe (steps [.sleep,maybe (steps [write (.chan chan) .skip,
        maybe (steps [.loop .sleep,read .pmLock (maybe (read (.chan chan) .skip))])])])]),
      maybe .sleep])),
    maybe (mhiUnprepareChannel chan)])

def mhiPrepareForTransfer (ul dl : Nat) : Code :=
  steps [maybe (mhiPrepareChannel ul),maybe (mhiPrepareChannel dl),maybe (mhiUnprepareChannel ul)]

def mhiUnprepareFromTransfer (ul dl : Nat) : Code :=
  steps [maybe (mhiUnprepareChannel dl),maybe (mhiUnprepareChannel ul)]

/-! `uci.c` -/

def fillRing (dl : Nat) : Code := .loop (steps [.sleep,mhiQueueBuf .queued dl])

def mhiQueueInbound (dl : Nat) : Code := fillRing dl

def mhiUciDevChanRelease (node ul dl : Nat) : Code :=
  steps [maybe (mhiUnprepareFromTransfer ul dl),spin (.dlPendingLock node) .skip,mutex (.readLock node) .skip]

def mhiUciDevStartChan (node ul dl : Nat) : Code :=
  mutex (.udev node) (maybe (steps [.sleep,mhiPrepareForTransfer ul dl,maybe (mhiQueueInbound dl),
    maybe (mhiUciDevChanRelease node ul dl)]))

def mhiUciOpen (node ul dl : Nat) : Code :=
  steps [mutex .uciDrvMutex .skip,maybe (mhiUciDevStartChan node ul dl)]

def mhiUciRelease (node ul dl : Nat) : Code := mutex (.udev node) (maybe (mhiUciDevChanRelease node ul dl))

def mhiUciPoll (node : Nat) : Code := maybe (spin (.dlPendingLock node) .skip)

def mhiUciWrite (node ul : Nat) : Code :=
  maybe (mutex (.writeLock node) (.loop (steps [maybe .sleep,maybe (steps [.sleep,mhiQueueBuf .queued ul])])))

def mhiUciRead (node dl : Nat) : Code :=
  maybe (mutex (.readLock node) (steps [spin (.dlPendingLock node) .skip,
    maybe (steps [.sleep,maybe (spin (.dlPendingLock node) .skip)]),
    maybe (steps [.sleep,maybe (mhiQueueBuf .queued dl)])]))

def mhiUciProbe : Code :=
  steps [.sleep,maybe (steps [mutex .uciDrvMutex .sleep,.sleep,maybe (mutex .uciDrvMutex .skip)])]

def mhiUciRemove (node : Nat) : Code := steps [mutex (.udev node) .sleep,mutex .uciDrvMutex .skip]

/-! The network drivers: `mhi_net.c`, and `mhi_net_mbim.c` under `Mbim`. -/

def rxAllocSubmit (net dl : Nat) : Code := .loop (spin (.rxLock net) (mhiQueueSkb dl))

def mhiNetRxRefillWork (net dl : Nat) : Code := .hold (.refill net) .exclusive (rxAllocSubmit net dl)

def mhiNetOpen (net ul dl : Nat) : Code :=
  maybe (steps [mutex (.chanLock net) (maybe (mhiPrepareForTransfer ul dl)),maybe (rxAllocSubmit net dl)])

def mhiNetStop (net ul dl : Nat) : Code :=
  steps [flush (.napi net),flush (.refill net),mutex (.chanLock net) (maybe (mhiUnprepareFromTransfer ul dl))]

def mhiNetXmit (ul : Nat) : Code := maybe (mhiQueueSkb ul)

def Mbim.mhiNdoXmit (ul : Nat) : Code := maybe (mhiQueueSkb ul)

def mhiNetPoll (net event dl : Nat) : Code :=
  .hold (.napi net) .exclusive (maybe (steps [mhiPoll event,maybe (rxAllocSubmit net dl)]))

def mhiNetProbe : Code := .sleep

def mhiNetRemove (net ul dl : Nat) : Code :=
  steps [.sleep,maybe (mhiNetStop net ul dl),mutex (.chanLock net) .skip]

def Mbim.mhiNetRxRefillWork (net dl : Nat) : Code := .hold (.refill net) .exclusive (.loop (mhiQueueSkb dl))

def Mbim.mhiNdoStop (net : Nat) : Code := flush (.refill net)

def Mbim.mhiNetProbe (ul dl : Nat) : Code := steps [.sleep,maybe (steps [mhiPrepareForTransfer ul dl,maybe .sleep])]

def Mbim.mhiNetRemove (net ul dl : Nat) : Code :=
  steps [.sleep,maybe (Mbim.mhiNdoStop net),mhiUnprepareFromTransfer ul dl]

/-! `mhi_dtr.c` -/

def mhiDtrQueueInbound (dl : Nat) : Code := fillRing dl

def mhiDtrProbe (ul dl : Nat) : Code := steps [mhiPrepareForTransfer ul dl,maybe (mhiDtrQueueInbound dl)]

/-! Binding and unbinding, the state worker, and power up and down. -/

def clientProbe (ul dl : Nat) : Code :=
  .choice mhiUciProbe (.choice mhiNetProbe (.choice (Mbim.mhiNetProbe ul dl) (mhiDtrProbe ul dl)))

def clientRemove (index ul dl : Nat) : Code :=
  maybe (.choice (mhiUciRemove index) (.choice (mhiNetRemove index ul dl) (Mbim.mhiNetRemove index ul dl)))

def mhiDriverProbe (ul dl : Nat) : Code :=
  steps [mhiDeviceGetSync,maybe (steps [maybe (mhiPrepareChannel ul),
    maybe (steps [clientProbe ul dl,maybe (mhiPrepareChannel dl)]),maybe (mhiUnprepareFromTransfer ul dl),mhiDevicePut])]

def resetOnRemove (chan : Nat) : Code :=
  maybe (steps [write (.chan chan) .skip,mutex (.chanMutex chan) (steps [write (.chan chan) .skip,maybe mhiResetChan])])

/- The votes left are returned in a reader's section within a reader's section. -/
def mhiDriverRemove (index ul dl : Nat) : Code :=
  maybe (steps [resetOnRemove dl,resetOnRemove ul,clientRemove index ul dl,
    maybe (mutex (.chanMutex dl) (maybe .sleep)),maybe (mutex (.chanMutex ul) (maybe .sleep)),
    read .pmLock (.loop mhiDevicePut)])

def mhiCreateDevices : Code := .loop (steps [.sleep,maybe (.any fun ul => .any fun dl => mhiDriverProbe ul dl)])

def mhiDestroyDevice : Code :=
  maybe (steps [.sleep,maybe (.any fun index => .any fun ul => .any fun dl => mhiDriverRemove index ul dl)])

def mhiFwLoadAmss : Code := steps [read .pmLock .skip,maybe .sleep]

def mhiFwLoadSbl : Code := steps [read .pmLock .skip,maybe (steps [.sleep,maybe (read .pmLock .skip)])]

def mhiFwLoadHandler : Code :=
  maybe (steps [maybe (steps [.sleep,mhiFwLoadSbl,maybe (steps [write .pmLock .skip,maybe .sleep])]),
    maybe (steps [mhiReadyStateTransition,maybe (steps [.sleep,maybe mhiFwLoadAmss]),maybe .sleep])])

def mhiPmMissionModeTransition : Code :=
  steps [write .pmLock .skip,maybe (steps [mhiDeviceGetSync,maybe (.choice (read .pmLock mhiDeassertDevWake)
    (steps [read .pmLock (.loop (.any fun event => spin (.eventLock event) .skip)),mhiCreateDevices,
      read .pmLock mhiDeassertDevWake]))])]

def mhiPmDisableTransition : Code :=
  steps [mutex .pmMutex (steps [write .pmLock .skip,maybe (steps [maybe .sleep,.loop (.any fun event => flush (.task event))])]),
    maybe (steps [.loop mhiDestroyDevice,mutex .pmMutex (.choice mhiReadyStateTransition (write .pmLock .skip))])]

def transition : Code :=
  .choice (steps [write .pmLock .skip,maybe mhiFwLoadHandler]) (.choice (steps [write .pmLock .skip,mhiCreateDevices])
    (.choice mhiPmMissionModeTransition (.choice mhiReadyStateTransition mhiPmDisableTransition)))

def mhiPmStWorker : Code :=
  .hold .stWorker .exclusive (steps [spin .transitionLock .skip,.loop (maybe transition)])

def mhiDeinitFreeIrq : Code := flush .intvec

def mhiInitIrqSetup : Code := steps [.sleep,maybe (flush .intvec)]

def mhiAsyncPowerUp : Code :=
  maybe (mutex .pmMutex (steps [maybe .sleep,maybe (steps [mhiInitIrqSetup,
    maybe (steps [write .pmLock .skip,maybe .sleep,.choice mhiQueueStateTransition mhiDeinitFreeIrq])]),maybe .sleep]))

def mhiPowerDown : Code :=
  steps [maybe (mutex .pmMutex (write .pmLock .skip)),mhiQueueStateTransition,flush .stWorker,mhiDeinitFreeIrq,maybe .sleep]

def mhiSyncPowerUp : Code :=
  steps [mhiAsyncPowerUp,maybe (steps [.sleep,maybe mhiQueueStateTransition,maybe mhiPowerDown])]

def mhiPrepareForPowerUp : Code := mutex .pmMutex .sleep

def mhiUnprepareAfterPowerDown : Code := .sleep

def mhiPciStatusCbWorkFunc : Code :=
  steps [mhiPowerDown,mhiUnprepareAfterPowerDown,mhiPrepareForPowerUp,maybe mhiAsyncPowerUp]

def mhiPciProbe : Code :=
  steps [.sleep,maybe (steps [mhiPrepareForPowerUp,maybe (steps [mhiAsyncPowerUp,maybe mhiUnprepareAfterPowerDown])])]

def mhiPciRemove : Code := steps [mhiPowerDown,mhiUnprepareAfterPowerDown]

def mhiDownloadRddmImg : Code := maybe .sleep

def mhiForceRddmMode : Code := maybe .sleep

inductive Entry where
  | intvecThreadedHandler
  | stWorker
  | suspend
  | resume
  | deviceGet
  | deviceGetSync
  | devicePut
  | driverProbe (ul dl : Nat)
  | driverRemove (index ul dl : Nat)
  | syncPowerUp
  | statusCbWork
  | pciProbe
  | pciRemove
  | downloadRddmImg
  | forceRddmMode
  | uciOpen (node ul dl : Nat)
  | uciRelease (node ul dl : Nat)
  | uciPoll (node : Nat)
  | uciWrite (node ul : Nat)
  | uciRead (node dl : Nat)
  | netOpen (net ul dl : Nat)
  | netStop (net ul dl : Nat)
  | netRefill (net dl : Nat)
  | mbimStop (net : Nat)
  | mbimRefill (net dl : Nat)

def Entry.code : Entry → Code
  | .intvecThreadedHandler => mhiIntvecThreadedHandler
  | .stWorker => mhiPmStWorker
  | .suspend => mhiPmSuspend
  | .resume => mhiPmResume
  | .deviceGet => mhiDeviceGet
  | .deviceGetSync => mhiDeviceGetSync
  | .devicePut => mhiDevicePut
  | .driverProbe ul dl => mhiDriverProbe ul dl
  | .driverRemove index ul dl => mhiDriverRemove index ul dl
  | .syncPowerUp => mhiSyncPowerUp
  | .statusCbWork => mhiPciStatusCbWorkFunc
  | .pciProbe => mhiPciProbe
  | .pciRemove => mhiPciRemove
  | .downloadRddmImg => mhiDownloadRddmImg
  | .forceRddmMode => mhiForceRddmMode
  | .uciOpen node ul dl => mhiUciOpen node ul dl
  | .uciRelease node ul dl => mhiUciRelease node ul dl
  | .uciPoll node => mhiUciPoll node
  | .uciWrite node ul => mhiUciWrite node ul
  | .uciRead node dl => mhiUciRead node dl
  | .netOpen net ul dl => mhiNetOpen net ul dl
  | .netStop net ul dl => mhiNetStop net ul dl
  | .netRefill net dl => mhiNetRxRefillWork net dl
  | .mbimStop net => Mbim.mhiNdoStop net
  | .mbimRefill net dl => Mbim.mhiNetRxRefillWork net dl

inductive Softirq where
  | evTask (event : Nat)
  | ctrlEvTask (event : Nat)
  | netPoll (net event dl : Nat)
  | netXmit (ul : Nat)
  | ndoXmit (ul : Nat)
  | dma (chan : Nat)

def Softirq.code : Softirq → Code
  | .evTask event => mhiEvTask event
  | .ctrlEvTask event => mhiCtrlEvTask event
  | .netPoll net event dl => mhiNetPoll net event dl
  | .netXmit ul => mhiNetXmit ul
  | .ndoXmit ul => Mbim.mhiNdoXmit ul
  | .dma chan => mhiQueueDma chan

def System {ι : Type} [DecidableEq ι] (program : ι → List Entry) (cpus : ι → LockLevels.Cpu Lock) : Prop :=
  Relation.ReflTransGen (LockLevels.Step masks Softirq.code)
    (LockLevels.start fun i => steps ((program i).map Entry.code)) cpus

end MhiHost.CoreLocks
