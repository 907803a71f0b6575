import MhiHost.Host

/-! Channel preparation, unpreparation and driver removal, cut where the source
sleeps or drops a lock. Between two parts of one call the channel's mutex stays
held, so no other call on the same channel can begin there. -/
namespace MhiHost

def deinitOwned (ch : Chan) : Chan := if ch.offloadCh then ch else mhiDeinitChanCtxt ch

/- `mhi_prepare_channel` up to and including `reinit_completion`. -/
def prepareBegin (h : Host) (i : Nat) (vz : Option Nat) : Host × Option Errno :=
  let ch := h.chans i
  if h.cntrl.ee.bit &&& ch.eeMask = 0 then (h,some .enotconn)
  else if ch.chState ≠ .disabled then (h,some .eio)
  else if ch.offloadCh then (h.setChan i (reinitCompletion ch),none)
  else match mhiInitChanCtxt ch vz with
    | (ch,some e) => (h.setChan i ch,some e)
    | (ch,none) => (h.setChan i (reinitCompletion ch),none)

def prepareSend (h : Host) (i : Nat) : Host × Option Errno :=
  if mhiPmInErrorState h.cntrl.pmState then (h.setChan i (deinitOwned (h.chans i)),some .eio)
  else
    match mhiSendCmd {h with cntrl := wakeToggle h.cntrl} (h.chans i).chan .startChan with
    | (h,some e) => (h.setChan i (deinitOwned (h.chans i)),some e)
    | (h,none) => (h,none)

def preAllocLoop (reply : Nat → Option Nat × DmaReply) : Nat → Nat → Port → Port × Option Errno
  | 0, _, p => (p,none)
  | left+1, i, p =>
    match (reply i).1 with
    | none => (p,some .enomem)
    | some buf =>
      match mhiGenTre p {BufInfo.zero with vAddr := buf, cbBuf := buf, len := p.cntrl.bufferLen}
          MhiFlags.eot (reply i).2 with
      | (p,some e) => ({p with chan := {p.chan with freed := p.chan.freed ++ [buf]}},some e)
      | (p,none) => preAllocLoop reply left (i + 1) p

def preAllocate (p : Port) (reply : Nat → Option Nat × DmaReply) : Port × Option Errno :=
  if p.chan.preAlloc then
    match preAllocLoop reply (getNrAvailRingElements p.chan.treRing).toNat 0 p with
    | (p,some e) => (p,some e)
    | (p,none) => (ringIfAccessible p,none)
  else (p,none)

def waitForCompletion (ch : Chan) (inTime : Bool) : Chan × Bool :=
  if inTime && decide (0 < ch.completion) then (takeCompletion ch,true) else (ch,false)

/- From the end of the wait on. With pre-allocated buffers missing the caller
goes on to unprepare the channel, which by then is enabled. -/
def prepareFinish (h : Host) (i : Nat) (answered : Bool) (reply : Nat → Option Nat × DmaReply) :
    Host × Option Errno :=
  let ch := h.chans i
  if !answered || decide (ch.ccs ≠ EvCc.success) then (h.setChan i (deinitOwned ch),some .eio)
  else
    let out := preAllocate ⟨h.cntrl,{ch with chState := .enabled}⟩ reply
    (h.setPort i out.1,out.2)

inductive Unprepare where
  | refused | failed | waiting
  deriving DecidableEq, Repr

def unprepareOff (h : Host) (i : Nat) : Host × Bool :=
  if (h.chans i).chState ≠ .enabled then (h,false)
  else (h.setChan i (reinitCompletion {h.chans i with chState := .disabled}),true)

def unprepareSend (h : Host) (i : Nat) : Host × Unprepare :=
  if mhiPmInErrorState h.cntrl.pmState then (h,.failed)
  else match mhiSendCmd {h with cntrl := wakeToggle h.cntrl} (h.chans i).chan .resetChan with
    | (h,some _) => (h,.failed)
    | (h,none) => (h,.waiting)

def unprepareBegin (h : Host) (i : Nat) : Host × Unprepare :=
  match unprepareOff h i with
  | (h,false) => (h,.refused)
  | (h,true) => unprepareSend h i

def nextTre (r : Ring) (p : Nat) : Nat := if p + sizeofMhiTre = r.base + r.len then r.base else p + sizeofMhiTre

def markStale (chan : Nat) (t : MhiTre) : MhiTre :=
  if t.getEvType = PktType.txEvent ∧ t.getEvChid = chan then
    {t with dword1 := (chan <<< 24) ||| (PktType.staleEvent <<< 16)} else t

def staleLoop (chan devRp : Nat) : Nat → Nat → MhiEvent → Option MhiEvent
  | 0, p, e => if p = devRp then some e else none
  | fuel+1, p, e =>
    if p = devRp then some e
    else staleLoop chan devRp fuel (nextTre e.ring p)
      {e with mem := Function.update e.mem p (markStale chan (e.mem p))}

def mhiMarkStaleEvents (e : MhiEvent) (chan : Nat) : Option MhiEvent :=
  staleLoop chan (mhiToVirtual e.ring e.ctxtRp) e.ring.elements e.ring.rp e

/- The stale marking that precedes the reset. The event ring a channel uses always
exists; see `mhi_register_controller`. -/
def resetBegin (h : Host) (i : Nat) : Option Host :=
  match h.events[(h.chans i).erIndex]? with
  | none => none
  | some e => do
    let e ← mhiMarkStaleEvents e (h.chans i).chan
    some {h with events := h.events.set (h.chans i).erIndex e}

def mhiResetChan (h : Host) (i : Nat) (script : Nat → List QueueReq) : Option Host :=
  if (h.chans i).offloadCh then some h
  else do
    let h ← resetBegin h i
    let p ← mhiResetDataChan script (h.port i)
    some (h.setPort i p)

def unprepareFinish (h : Host) (i : Nat) (script : Nat → List QueueReq) : Option Host :=
  if (h.chans i).offloadCh then some h
  else do
    let h ← mhiResetChan h i script
    some (h.setChan i (mhiDeinitChanCtxt (h.chans i)))

def removeWake (h : Host) (i : Nat) : Host :=
  h.setChan i (completeAll {h.chans i with ccs := EvCc.invalid})

def removeSuspend (h : Host) (i : Nat) : Host := h.setChan i {h.chans i with chState := .suspended}

def removeReset (h : Host) (i : Nat) (script : Nat → List QueueReq) : Option Host :=
  mhiResetChan (removeSuspend h i) i script

def removeDeinit (h : Host) (i : Nat) (found : ChState) : Host :=
  let ch := h.chans i
  h.setChan i {(if found = .enabled then deinitOwned ch else ch) with chState := .disabled}

end MhiHost
