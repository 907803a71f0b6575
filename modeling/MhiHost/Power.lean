import MhiHost.Lifecycle

/-! The state transition worker and the power-down path of `pm.c`: the SYS_ERR and
shutdown transition, firmware loading, and what one item of the transition list does.
An item that sleeps is cut there; where the worker then stands is a `Job`. -/
namespace MhiHost

theorem m0ChansFrame (h : Host) : ∃ cntrl chans, m0Chans h = {h with cntrl := cntrl, chans := chans} := by
  unfold m0Chans
  generalize List.range h.maxChan = l
  induction l generalizing h with
  | nil => exact ⟨h.cntrl,h.chans,rfl⟩
  | cons i rest ih =>
    have one : ∃ cntrl chans, m0Chan h i = {h with cntrl := cntrl, chans := chans} := by
      unfold m0Chan
      dsimp only
      split <;> split <;> exact ⟨_,_,rfl⟩
    obtain ⟨_,_,first⟩ := one
    obtain ⟨cntrl,chans,last⟩ := ih (m0Chan h i)
    rw [List.foldl_cons, last, first]
    exact ⟨cntrl,chans,rfl⟩

def Created (h h' : Host) : Prop := ∃ devices next chans, h' = {h with devices := devices, nextDev := next, chans := chans}

theorem Created.trans {a b c : Host} (first : Created a b) (second : Created b c) : Created a c := by
  obtain ⟨_,_,_,rfl⟩ := first
  obtain ⟨devices,next,chans,rfl⟩ := second
  exact ⟨devices,next,chans,rfl⟩

theorem takeCreated (h : Host) (i : Nat) : Created h (takeChan h i) := ⟨h.devices,h.nextDev,_,rfl⟩

theorem addCreated (h : Host) (i : Nat) (reply : CreateReply) (ul dl : Option Nat) : Created h (addDevice h i reply ul dl) := by
  unfold addDevice
  split
  · exact ⟨_,_,h.chans,rfl⟩
  · exact ⟨h.devices,_,h.chans,rfl⟩

theorem fromCreated (reply : CreateReply) (fuel i : Nat) (h : Host) : Created h (createFrom reply fuel i h) := by
  have same : ∀ g : Host, Created g g := fun g => ⟨g.devices,g.nextDev,g.chans,rfl⟩
  induction fuel generalizing i h with
  | zero => exact same h
  | succ fuel ih =>
    unfold createFrom
    split
    · exact same h
    dsimp only
    split
    · exact ih _ _
    split
    · exact same h
    split
    · exact same h
    · exact same h
    · split
      · exact (((takeCreated h i).trans (takeCreated _ _)).trans (addCreated _ _ _ _ _)).trans (ih _ _)
      · exact ((takeCreated h i).trans (addCreated _ _ _ _ _)).trans (ih _ _)

def removeFirst (h : Host) (c : Option Nat) (script : Nat → List QueueReq) : Option (Host × ChState) :=
  match c with
  | none => some (h,.disabled)
  | some i => do
    let reset ← removeReset (removeWake h i) i script
    some (reset,(h.chans i).chState)

def removeLast (h : Host) (c : Option Nat) (found : ChState) : Host :=
  match c with
  | none => h
  | some i => removeDeinit h i found

def mhiDriverRemove (h : Host) (d : Device) (script : Bool → Nat → List QueueReq) : Option Host := do
  let (h,dl) ← removeFirst h d.dlChan (script false)
  let (h,ul) ← removeFirst h d.ulChan (script true)
  some (removeLast (removeLast h d.dlChan dl) d.ulChan ul)

def dropDevice (h : Host) (d : Device) : Host :=
  {h with
    devices := h.devices.filter (fun e => decide (e ≠ d))
    chans := fun i => if d.ulChan = some i ∨ d.dlChan = some i then {h.chans i with mhiDev := none} else h.chans i}

def mhiDestroyDevice (script : Nat → Bool → Nat → List QueueReq) (h : Host) (d : Device) : Option Host :=
  (if d.bound then mhiDriverRemove h d (script d.id) else some h).map (fun h => dropDevice h d)

def disableBegin (h : Host) (target : PmState) : Host × Option PmState :=
  let h := if target = .sysErrProcess then h.statusCb .sysError else h
  let prev := h.cntrl.pmState
  let cur := mhiTrysetPmState prev target
  if cur ≠ target then (h.setPm cur,none)
  else
    let h := {h with cntrl := {h.cntrl with pmState := cur, ee := .disableTransition, devState := .reset}}
    (if mhiRegAccessValid prev then h.mhiSetMhiState .reset else h,some prev)

/- A device stuck in reset ends a SYS_ERR transition here. -/
def disableStuck (target prev : PmState) (cleared : Bool) : Bool :=
  mhiRegAccessValid prev && !cleared && decide (target = .sysErrProcess)

def resetRings (h : Host) : Host :=
  {h.passEvents resetEvent with
    cmdRing := {h.cmdRing with rp := h.cmdRing.base, wp := h.cmdRing.base, ctxtWp := h.cmdRing.iommuBase}}

def disableFinish (h : Host) (target : PmState) (reply : ReadyReply) : Host :=
  let h := resetRings h
  if target = .sysErrProcess then (mhiReadyStateTransition h reply).1
  else h.setPm (mhiTrysetPmState h.cntrl.pmState .disable)

def fwLoadBegin (h : Host) : Bool := !mhiPmInErrorState h.cntrl.pmState

structure FwReply where
  loaded : Bool
  table : Bool
  ready : ReadyReply
  deriving DecidableEq, Repr

def fwLoadFinish (h : Host) (passThru edl : Bool) (reply : FwReply) : Host :=
  if passThru then (mhiReadyStateTransition h reply.ready).1
  else if !reply.loaded || edl then h
  else
    let h := {h with cntrl := {h.cntrl with devState := .reset}}
    if !reply.table then h else (mhiReadyStateTransition h reply.ready).1

def readExecEnv (h : Host) (ee : ExecEnv) : Host :=
  if mhiRegAccessValid h.cntrl.pmState then {h with cntrl := {h.cntrl with ee := ee}} else h

def setExecEnv (h : Host) (ee : ExecEnv) : Host := {h with cntrl := {h.cntrl with ee := ee}}

inductive Job where
  | loading (passThru edl : Bool)
  | mission
  | resetting (target prev : PmState)
  | destroying (target : PmState) (left : List Device)
  deriving DecidableEq, Repr

structure ItemReply where
  ee : ExecEnv
  ready : ReadyReply
  create : CreateReply

/- One item of the list, up to its first sleep. `mhi_ready_state_transition` sleeps
before it does anything. -/
def beginItem (h : Host) (st : DevStTransition) (reply : ItemReply) : Host × Option Job :=
  match st with
  | .pbl =>
    let h := readExecEnv h reply.ee
    if mhiInPbl h.cntrl.ee && fwLoadBegin h then
      (h,some (.loading (decide (h.cntrl.ee = .pthru)) (decide (h.cntrl.ee = .edl)))) else (h,none)
  | .sbl => (mhiCreateDevices (setExecEnv h .sbl) reply.create,none)
  | .fp => (mhiCreateDevices (setExecEnv h .fp) reply.create,none)
  | .missionMode =>
    match missionModeBegin h reply.ee with
    | (h,some _) => (h,none)
    | (h,none) => (h,some .mission)
  | .ready => ((mhiReadyStateTransition h reply.ready).1,none)
  | .sysErr => ((disableBegin h .sysErrProcess).1,(disableBegin h .sysErrProcess).2.map (.resetting .sysErrProcess))
  | .disable => ((disableBegin h .shutdownProcess).1,(disableBegin h .shutdownProcess).2.map (.resetting .shutdownProcess))

end MhiHost
