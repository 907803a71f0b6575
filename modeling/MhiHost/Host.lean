import MhiHost.Config

/-! The whole controller: channels, event rings, the primary command ring, the
pending state transitions and the devices created for channels. Functions follow
`pm.c` and `main.c`; what the hardware or the kernel answers is an argument, and a
function that sleeps is cut where it sleeps. -/
namespace MhiHost

inductive ErDataType where
  | data | ctrl
  deriving DecidableEq, Repr

inductive MhiCallback where
  | idle | pendingData | lpmEnter | lpmExit | eeRddm | eeMissionMode | sysError | fatalError | bwReq
  deriving DecidableEq, Repr

structure MhiEvent where
  ring : Ring
  mem : Nat → MhiTre
  ctxtRp : Nat
  rbase : Nat
  dbCfg : DbCfg
  dataType : ErDataType
  hwRing : Bool
  clManage : Bool
  offloadEv : Bool

structure Device where
  id : Nat
  ulChan : Option Nat
  dlChan : Option Nat
  bound : Bool
  deriving DecidableEq, Repr

structure Host where
  cntrl : Cntrl
  regs : Nat
  maxChan : Nat
  chans : Nat → Chan
  cmdRing : Ring
  cmdMem : Nat → MhiTre
  events : List MhiEvent
  transitionList : List DevStTransition
  rddmImage : Bool
  linkInfo : Nat × Nat
  devices : List Device
  nextDev : Nat
  callbacks : List MhiCallback
  stateReqs : List DevState

namespace Host
def port (h : Host) (i : Nat) : Port := ⟨h.cntrl,h.chans i⟩
def setChan (h : Host) (i : Nat) (ch : Chan) : Host := {h with chans := Function.update h.chans i ch}
def setPort (h : Host) (i : Nat) (p : Port) : Host :=
  {h with cntrl := p.cntrl, chans := Function.update h.chans i p.chan}
def setPm (h : Host) (s : PmState) : Host := {h with cntrl := {h.cntrl with pmState := s}}
def statusCb (h : Host) (cb : MhiCallback) : Host := {h with callbacks := h.callbacks ++ [cb]}
def mhiSetMhiState (h : Host) (s : DevState) : Host := {h with stateReqs := h.stateReqs ++ [s]}
end Host

def mhiRingErDb (c : Cntrl) (e : MhiEvent) : Cntrl × MhiEvent :=
  let out := processDb c e.dbCfg e.ring.dbAddr e.ring.ctxtWp
  (out.1,{e with dbCfg := out.2})

/- "Add elements": every element but one becomes the device's. The read pointer
is not touched. -/
def addElements (e : MhiEvent) : MhiEvent :=
  {e with ring := {e.ring with
    wp := e.ring.base + e.ring.len - e.ring.elSize
    ctxtWp := e.ring.iommuBase + e.ring.len - e.ring.elSize}}

def forEvents (act : Cntrl → MhiEvent → Cntrl × MhiEvent) : Cntrl → List MhiEvent → Cntrl × List MhiEvent
  | c, [] => (c,[])
  | c, e :: rest =>
    let out := act c e
    let tail := forEvents act out.1 rest
    (tail.1,out.2 :: tail.2)

def readyEvent (c : Cntrl) (e : MhiEvent) : Cntrl × MhiEvent :=
  if e.offloadEv || e.hwRing then (c,e) else mhiRingErDb c (addElements e)
def m0Event (c : Cntrl) (e : MhiEvent) : Cntrl × MhiEvent :=
  if e.offloadEv then (c,e) else mhiRingErDb c (if e.hwRing then addElements e else e)
def missionEvent (c : Cntrl) (e : MhiEvent) : Cntrl × MhiEvent :=
  if e.offloadEv || !e.hwRing then (c,e)
  else if mhiDbAccessValid c then mhiRingErDb c (addElements e) else (c,addElements e)
def resetEvent (c : Cntrl) (e : MhiEvent) : Cntrl × MhiEvent :=
  if e.offloadEv then (c,e)
  else (c,{e with
    ring := {e.ring with rp := e.ring.base, wp := e.ring.base, ctxtWp := e.rbase}
    ctxtRp := e.rbase})

def Host.passEvents (h : Host) (act : Cntrl → MhiEvent → Cntrl × MhiEvent) : Host :=
  let out := forEvents act h.cntrl h.events
  {h with cntrl := out.1, events := out.2}

def mhiRingCmdDb (h : Host) : Host :=
  let db := h.cmdRing.db
  {h with cmdRing := {h.cmdRing with ctxtWp := db}, cntrl := mhiWriteDb h.cntrl h.cmdRing.dbAddr db}

def cmdTre (old : MhiTre) (chan : Nat) (cmd : CmdType) : MhiTre :=
  match cmd with
  | .resetChan => ⟨0,0,MhiTre.cmdDword1 chan .resetChan⟩
  | .startChan => ⟨0,0,MhiTre.cmdDword1 chan .startChan⟩
  | _ => old

def mhiSendCmd (h : Host) (chan : Nat) (cmd : CmdType) : Host × Option Errno :=
  if getNrAvailRingElements h.cmdRing = 0 then (h,some .enomem)
  else
    let wp := h.cmdRing.wp
    let queued := {h with
      cmdMem := Function.update h.cmdMem wp (cmdTre (h.cmdMem wp) chan cmd)
      cmdRing := mhiAddRingElement h.cmdRing}
    (if mhiDbAccessValid queued.cntrl then mhiRingCmdDb queued else queued,none)

/- Completions count; `complete_all` saturates the count for good. -/
def uintMax : Nat := 2 ^ 32 - 1
def complete (ch : Chan) : Chan :=
  if ch.completion = uintMax then ch else {ch with completion := ch.completion + 1}
def completeAll (ch : Chan) : Chan := {ch with completion := uintMax}
def reinitCompletion (ch : Chan) : Chan := {ch with completion := 0}
def takeCompletion (ch : Chan) : Chan :=
  if ch.completion = uintMax then ch else {ch with completion := ch.completion - 1}

def mhiProcessCmdCompletion (h : Host) (ev : MhiTre) : Host :=
  let pkt := h.cmdMem (mhiToVirtual h.cmdRing ev.getEvPtr)
  let i := pkt.getCmdChid
  {h.setChan i (complete {h.chans i with ccs := ev.getEvCode}) with cmdRing := mhiDelRingElement h.cmdRing}

def m0Chan (h : Host) (i : Nat) : Host :=
  let old := h.chans i
  let ch := if old.dbCfg.resetReq then {old with dbCfg := {old.dbCfg with dbMode := true}} else old
  if ch.treRing.base ≠ 0 ∧ ch.treRing.wp ≠ ch.treRing.rp then h.setPort i (mhiRingChanDb ⟨h.cntrl,ch⟩)
  else h.setChan i ch

def m0Mission (h : Host) : Host :=
  let rung := h.passEvents m0Event
  if rung.cmdRing.rp ≠ rung.cmdRing.wp then mhiRingCmdDb rung else rung

def m0Chans (h : Host) : Host := (List.range h.maxChan).foldl m0Chan h

def mhiPmM0Transition (h : Host) : Host × Option Errno :=
  let cur := mhiTrysetPmState h.cntrl.pmState .m0
  let h := {h with cntrl := {h.cntrl with devState := .m0, pmState := cur}}
  if cur ≠ .m0 then (h,some .eio)
  else
    let h := {h with cntrl := mhiAssertDevWake h.cntrl true}
    let h := if mhiInMissionMode h.cntrl.ee then m0Mission h else h
    let h := m0Chans h
    ({h with cntrl := mhiDeassertDevWake h.cntrl false},none)

def mhiPmM1Transition (h : Host) : Host :=
  let state := mhiTrysetPmState h.cntrl.pmState .m2
  if state ≠ .m2 then h.setPm state
  else
    let h := (h.setPm .m2).mhiSetMhiState .m2
    let h := {h with cntrl := {h.cntrl with devState := .m2}}
    if h.cntrl.pendingPkts ≠ 0 ∨ h.cntrl.devWake ≠ 0 then
      {h with cntrl := mhiDeassertDevWake (mhiAssertDevWake h.cntrl true) true}
    else h.statusCb .idle

def mhiPmM3Transition (h : Host) : Host × Option Errno :=
  let state := mhiTrysetPmState h.cntrl.pmState .m3
  let h := {h with cntrl := {h.cntrl with devState := .m3, pmState := state}}
  (h,if state ≠ .m3 then some .eio else none)

def suspendBegin (h : Host) : Host × Option Errno :=
  if h.cntrl.pmState = .disable then (h,some .einval)
  else if mhiPmInErrorState h.cntrl.pmState then (h,some .eio)
  else if h.cntrl.devWake ≠ 0 ∨ h.cntrl.pendingPkts ≠ 0 then (h,some .ebusy)
  else ({h with cntrl := mhiAssertDevWake h.cntrl false},none)

def suspendAwake (h : Host) (inTime : Bool) : Host × Option Errno :=
  let h := {h with cntrl := mhiDeassertDevWake h.cntrl false}
  (h,if !inTime || mhiPmInErrorState h.cntrl.pmState then some .eio else none)

def suspendEnter (h : Host) : Host × Option Errno :=
  if h.cntrl.devWake ≠ 0 ∨ h.cntrl.pendingPkts ≠ 0 then (h,some .ebusy)
  else
    let state := mhiTrysetPmState h.cntrl.pmState .m3Enter
    if state ≠ .m3Enter then (h.setPm state,some .eio) else ((h.setPm state).mhiSetMhiState .m3,none)

def resumeBegin (h : Host) : Host × Option Errno :=
  if h.cntrl.pmState = .disable then (h,none)
  else if mhiPmInErrorState h.cntrl.pmState then (h,some .eio)
  else
    let state := mhiTrysetPmState h.cntrl.pmState .m3Exit
    if state ≠ .m3Exit then (h.setPm state,some .eio) else ((h.setPm state).mhiSetMhiState .m0,none)

def mhiQueueStateTransition (h : Host) (st : DevStTransition) : Host :=
  {h with transitionList := h.transitionList ++ [st]}

def mhiPmSysErrHandler (h : Host) : Host :=
  if h.rddmImage then h else mhiQueueStateTransition h .sysErr

/- What the device answered while `mhi_ready_state_transition` waited and while
the MMIO registers were set up. -/
structure ReadyReply where
  ready : Bool
  chdbOff : Option Nat
  erdbOff : Option Nat
  deriving DecidableEq, Repr

def crdbLower : Nat := 0x70
def mhiDevWakeDb : Nat := 127

def eventDbs (base : Nat) : Nat → List MhiEvent → List MhiEvent
  | _, [] => []
  | val, e :: rest =>
    (if e.offloadEv then e else {e with ring := {e.ring with dbAddr := base + val}}) :: eventDbs base (val + 8) rest

/- Doorbell addresses and the wake doorbell; the context base registers that
`mhi_init_mmio` also programs are read by no modelled function. -/
def mhiInitMmio (h : Host) (reply : ReadyReply) : Host × Option Errno :=
  match reply.chdbOff with
  | none => (h,some .eio)
  | some val =>
    let c := {h.cntrl with wakeDb := h.regs + val + 8 * mhiDevWakeDb}
    let c := {mhiWriteReg (mhiWriteReg c c.wakeDb 4 0) c.wakeDb 0 0 with wakeSet := false}
    let h := {h with
      cntrl := c
      chans := fun i => if i < h.maxChan then
        {h.chans i with treRing := {(h.chans i).treRing with dbAddr := h.regs + val + 8 * i}} else h.chans i}
    match reply.erdbOff with
    | none => (h,some .eio)
    | some val =>
      ({h with
        events := eventDbs h.regs val h.events
        cmdRing := {h.cmdRing with dbAddr := h.regs + crdbLower}},none)

def mhiReadyStateTransition (h : Host) (reply : ReadyReply) : Host × Option Errno :=
  if mhiPmInFatalState h.cntrl.pmState then (h,some .eio)
  else if !reply.ready then (h,some .etimedout)
  else
    let cur := mhiTrysetPmState h.cntrl.pmState .por
    let h := {h with cntrl := {h.cntrl with devState := .ready, pmState := cur}}
    if cur ≠ .por then (h,some .eio)
    else if !mhiRegAccessValid h.cntrl.pmState then (h,some .eio)
    else
      match mhiInitMmio h reply with
      | (h,some _) => (h,some .eio)
      | (h,none) => ((h.passEvents readyEvent).mhiSetMhiState .m0,none)

/- `mhi_create_devices`: `alloc` and `add` answer for the allocator and the
driver core, by channel; a client driver may bind as soon as the device is added. -/
structure CreateReply where
  alloc : Nat → Bool
  add : Nat → Bool
  binds : Nat → Bool

def pairedWith (h : Host) (i : Nat) : Bool :=
  decide (i + 1 < h.maxChan) && (h.chans (i + 1)).configured && decide ((h.chans (i + 1)).name = (h.chans i).name)

def addDevice (h : Host) (i : Nat) (reply : CreateReply) (ul dl : Option Nat) : Host :=
  if reply.add i then {h with devices := h.devices ++ [⟨h.nextDev,ul,dl,reply.binds i⟩], nextDev := h.nextDev + 1}
  else {h with nextDev := h.nextDev + 1}

def takeChan (h : Host) (i : Nat) : Host := h.setChan i {h.chans i with mhiDev := some h.nextDev}

def createFrom (reply : CreateReply) : Nat → Nat → Host → Host
  | 0, _, h => h
  | fuel+1, i, h =>
    if h.maxChan ≤ i then h
    else
      let ch := h.chans i
      if !ch.configured || ch.mhiDev.isSome || (ch.eeMask &&& h.cntrl.ee.bit == 0) then
        createFrom reply fuel (i + 1) h
      else if !reply.alloc i then h
      else match ch.dir with
        | .bidirectional | .none => h
        | dir =>
          let ul := if dir = .toDevice then some i else none
          let dl := if dir = .toDevice then none else some i
          if pairedWith h i then
            let second := i + 1
            let uplink := decide ((h.chans second).dir = .toDevice)
            let h := takeChan (takeChan h i) second
            let h := addDevice h i reply (if uplink then some second else ul) (if uplink then dl else some second)
            createFrom reply fuel (i + 2) h
          else createFrom reply fuel (i + 1) (addDevice (takeChan h i) i reply ul dl)

def mhiCreateDevices (h : Host) (reply : CreateReply) : Host := createFrom reply h.maxChan 0 h

/- Up to the wait for M0: the environment is read and the wake vote is taken. -/
def missionModeBegin (h : Host) (ee : ExecEnv) : Host × Option Errno :=
  let h := if mhiRegAccessValid h.cntrl.pmState then {h with cntrl := {h.cntrl with ee := ee}} else h
  if !mhiInMissionMode h.cntrl.ee then (h,some .eio)
  else
    let h := h.statusCb .eeMissionMode
    ({h with cntrl := resumeIfSuspended (mhiAssertDevWake h.cntrl true)},none)

def missionModeFinish (h : Host) (inTime : Bool) (reply : CreateReply) : Host × Option Errno :=
  if !inTime || mhiPmInErrorState h.cntrl.pmState then
    ({h with cntrl := mhiDeassertDevWake h.cntrl false},some .eio)
  else
    let h := mhiCreateDevices (h.passEvents missionEvent) reply
    ({h with cntrl := mhiDeassertDevWake h.cntrl false},none)

end MhiHost
