import MhiHost.Ring

/-! One channel beside the controller words its functions touch: doorbells, wake
votes, the three queue calls, transfer completions and the channel reset. Client
callbacks are scripts of queue calls; DMA mapping answers are inputs. `xferLog`,
`accepted` and `freed` record what the client and the allocator were told. -/
namespace MhiHost

structure Cntrl where
  pmState : PmState
  dbAccess : Nat
  ee : ExecEnv
  devState : DevState
  devWake : Int
  pendingPkts : Int
  wakeDb : Nat
  wakeSet : Bool
  bounceBuf : Bool
  bufferLen : Nat
  resumes : Nat
  mmio : List (Nat × Nat)
  deriving DecidableEq, Repr

structure DbCfg where
  resetReq : Bool
  dbMode : Bool
  brstmode : BrstMode
  dbVal : Nat
  deriving DecidableEq, Repr

structure BufInfo where
  vAddr : Nat
  bbAddr : Nat
  wp : Nat
  cbBuf : Nat
  pAddr : Nat
  len : Nat
  dir : DmaDir
  used : Bool
  preMapped : Bool
  deriving DecidableEq, Repr

def sizeofMhiBufInfo : Nat := 56
def BufInfo.zero : BufInfo := ⟨0,0,0,0,0,0,.bidirectional,false,false⟩

structure MhiResult where
  bufAddr : Nat
  dir : Option DmaDir
  bytesXferd : Nat
  transactionStatus : Option Errno
  deriving DecidableEq, Repr

structure Chan where
  name : String
  chan : Nat
  bufRing : Ring
  treRing : Ring
  bufMem : Nat → BufInfo
  treMem : Nat → MhiTre
  erIndex : Nat
  intmod : Nat
  dir : DmaDir
  dbCfg : DbCfg
  eeMask : Nat
  chState : ChState
  ccs : Nat
  completion : Nat
  mhiDev : Option Nat
  configured : Bool
  offloadCh : Bool
  preAlloc : Bool
  xferLog : List MhiResult
  accepted : List Nat
  freed : List Nat

structure Port where
  cntrl : Cntrl
  chan : Chan

def mhiDbAccessValid (c : Cntrl) : Bool := c.pmState.within c.dbAccess

def mhiWriteReg (c : Cntrl) (base offset val : Nat) : Cntrl :=
  {c with mmio := c.mmio ++ [(base + offset,val)]}
def mhiWriteDb (c : Cntrl) (dbAddr dbVal : Nat) : Cntrl :=
  mhiWriteReg (mhiWriteReg c dbAddr 4 (dbVal / 2 ^ 32)) dbAddr 0 (dbVal % 2 ^ 32)

def mhiDbBrstmode (c : Cntrl) (cfg : DbCfg) (dbAddr dbVal : Nat) : Cntrl × DbCfg :=
  if cfg.dbMode then (mhiWriteDb c dbAddr dbVal,{cfg with dbVal := dbVal, dbMode := false}) else (c,cfg)
def mhiDbBrstmodeDisable (c : Cntrl) (cfg : DbCfg) (dbAddr dbVal : Nat) : Cntrl × DbCfg :=
  (mhiWriteDb c dbAddr dbVal,{cfg with dbVal := dbVal})
def processDb (c : Cntrl) (cfg : DbCfg) (dbAddr dbVal : Nat) : Cntrl × DbCfg :=
  match cfg.brstmode with
  | .enable => mhiDbBrstmode c cfg dbAddr dbVal
  | .disable => mhiDbBrstmodeDisable c cfg dbAddr dbVal

def mhiRingChanDb (p : Port) : Port :=
  let db := p.chan.treRing.db
  let out := processDb p.cntrl p.chan.dbCfg p.chan.treRing.dbAddr db
  ⟨out.1,{p.chan with treRing := {p.chan.treRing with ctxtWp := db}, dbCfg := out.2}⟩

def mhiAssertDevWake (c : Cntrl) (force : Bool) : Cntrl :=
  if force then
    let c := {c with devWake := c.devWake + 1}
    if mhiWakeDbForceSetValid c.pmState && !c.wakeSet then {mhiWriteDb c c.wakeDb 1 with wakeSet := true} else c
  else if c.devWake ≠ 0 then {c with devWake := c.devWake + 1}
  else
    let c := {c with devWake := c.devWake + 1}
    if decide (c.devWake = 1) && mhiWakeDbSetValid c.pmState && !c.wakeSet then
      {mhiWriteDb c c.wakeDb 1 with wakeSet := true} else c

def mhiDeassertDevWake (c : Cntrl) (override : Bool) : Cntrl :=
  if c.devWake ≠ 1 then {c with devWake := c.devWake - 1}
  else
    let c := {c with devWake := c.devWake - 1}
    if decide (c.devWake = 0) && mhiWakeDbClearValid c.pmState && !override && c.wakeSet then
      {mhiWriteDb c c.wakeDb 0 with wakeSet := false} else c

def mhiToggleDevWake (c : Cntrl) : Cntrl := mhiDeassertDevWake (mhiAssertDevWake c false) true

def wakeToggle (c : Cntrl) : Cntrl := if PmState.m2.within c.dbAccess then c else mhiToggleDevWake c

def mhiTriggerResume (c : Cntrl) : Cntrl := {c with resumes := c.resumes + 1}

structure DmaReply where
  handle : Nat
  vaddr : Nat
  ok : Bool
  deriving DecidableEq, Repr

def mhiMapSingleNoBb (d : DmaReply) (b : BufInfo) : BufInfo × Option Errno :=
  ({b with pAddr := d.handle},if d.ok then none else some .enomem)
def mhiMapSingleUseBb (d : DmaReply) (b : BufInfo) : BufInfo × Option Errno :=
  if d.ok then ({b with pAddr := d.handle, bbAddr := d.vaddr},none) else (b,some .enomem)
def mapSingle (c : Cntrl) (d : DmaReply) (b : BufInfo) : BufInfo × Option Errno :=
  if c.bounceBuf then mhiMapSingleUseBb d b else mhiMapSingleNoBb d b

/- The element at the buffer ring's wp is written before the mapping can fail. -/
def fillBufInfo (p : Port) (info : BufInfo) (reply : DmaReply) : BufInfo × Option Errno :=
  let old := p.chan.bufMem p.chan.bufRing.wp
  let filled := {old with
    preMapped := info.preMapped
    pAddr := if info.preMapped then info.pAddr else old.pAddr
    vAddr := if info.preMapped then old.vAddr else info.vAddr
    cbBuf := info.cbBuf
    wp := p.chan.treRing.wp
    dir := p.chan.dir
    len := info.len}
  if info.preMapped then (filled,none) else mapSingle p.cntrl reply filled

def mhiGenTre (p : Port) (info : BufInfo) (flags : Nat) (reply : DmaReply) : Port × Option Errno :=
  let out := fillBufInfo p info reply
  let ch := {p.chan with bufMem := Function.update p.chan.bufMem p.chan.bufRing.wp out.1}
  match out.2 with
  | some e => ({p with chan := ch},some e)
  | none =>
    let tre : MhiTre := ⟨out.1.pAddr,MhiTre.dataDword0 info.len,
      MhiTre.dataDword1 (decide (p.chan.intmod ≠ 0)) (flags &&& MhiFlags.eot != 0)
        (flags &&& MhiFlags.eob != 0) (flags &&& MhiFlags.chain != 0)⟩
    ({p with chan := {ch with
      treMem := Function.update p.chan.treMem p.chan.treRing.wp tre
      treRing := mhiAddRingElement p.chan.treRing
      bufRing := mhiAddRingElement p.chan.bufRing}},none)

def resumeIfSuspended (c : Cntrl) : Cntrl :=
  if mhiPmInSuspendState c.pmState then mhiTriggerResume c else c
def countUplink (dir : DmaDir) (delta : Int) (c : Cntrl) : Cntrl :=
  if dir = .toDevice then {c with pendingPkts := c.pendingPkts + delta} else c
def ringIfAccessible (p : Port) : Port := if mhiDbAccessValid p.cntrl then mhiRingChanDb p else p
def accept (p : Port) (cb : Nat) : Port := {p with chan := {p.chan with accepted := p.chan.accepted ++ [cb]}}

def queueLocked (p : Port) (info : BufInfo) (flags : Nat) (reply : DmaReply) : Port × Option Errno :=
  if p.chan.preAlloc then (p,some .einval)
  else if mhiIsRingFull p.chan.treRing then (p,some .enomem)
  else if mhiPmInErrorState p.cntrl.pmState then (p,some .eio)
  else
    let woken := {p with cntrl := wakeToggle (resumeIfSuspended p.cntrl)}
    match mhiGenTre woken info flags reply with
    | (out,some e) => (out,some e)
    | (out,none) =>
      (accept (ringIfAccessible {out with cntrl := countUplink out.chan.dir 1 out.cntrl}) info.cbBuf,none)

def mhiQueueSkb (p : Port) (skb data len flags : Nat) (reply : DmaReply) : Port × Option Errno :=
  queueLocked p {BufInfo.zero with vAddr := data, cbBuf := skb, len := len} flags reply
def mhiQueueDma (p : Port) (mhiBuf dmaAddr len flags : Nat) (reply : DmaReply) : Port × Option Errno :=
  queueLocked p {BufInfo.zero with pAddr := dmaAddr, cbBuf := mhiBuf, preMapped := true, len := len} flags reply

/- `mhi_queue_buf` up to the point where it takes pm_lock: the TRE is filled. -/
def mhiQueueBufFill (p : Port) (buf len flags : Nat) (reply : DmaReply) : Port × Option Errno :=
  if mhiPmInErrorState p.cntrl.pmState then (p,some .eio)
  else if mhiIsRingFull p.chan.treRing then (p,some .enomem)
  else mhiGenTre p {BufInfo.zero with vAddr := buf, cbBuf := buf, len := len} flags reply

def mhiQueueBufFinish (p : Port) (buf : Nat) : Port :=
  let woken := wakeToggle (resumeIfSuspended p.cntrl)
  accept (ringIfAccessible {p with cntrl := countUplink p.chan.dir 1 woken}) buf

def mhiQueueBuf (p : Port) (buf len flags : Nat) (reply : DmaReply) : Port × Option Errno :=
  match mhiQueueBufFill p buf len flags reply with
  | (out,some e) => (out,some e)
  | (out,none) => (mhiQueueBufFinish out buf,none)

inductive Payload where
  | buf
  | skb (data : Nat)
  | dma (dmaAddr : Nat)
  deriving DecidableEq, Repr

structure QueueReq where
  payload : Payload
  cb : Nat
  len : Nat
  flags : Nat
  reply : DmaReply
  deriving DecidableEq, Repr

def mhiQueue (p : Port) (q : QueueReq) : Port × Option Errno :=
  match q.payload with
  | .buf => mhiQueueBuf p q.cb q.len q.flags q.reply
  | .skb data => mhiQueueSkb p q.cb data q.len q.flags q.reply
  | .dma dmaAddr => mhiQueueDma p q.cb dmaAddr q.len q.flags q.reply

def queueAll (p : Port) (qs : List QueueReq) : Port := qs.foldl (fun p q => (mhiQueue p q).1) p

structure CbScript where
  calls : List QueueReq
  recycle : DmaReply
  deriving DecidableEq, Repr

def retire (p : Port) (r : MhiResult) : Port :=
  {p with chan := {p.chan with
    bufRing := mhiDelRingElement p.chan.bufRing
    treRing := mhiDelRingElement p.chan.treRing
    xferLog := p.chan.xferLog ++ [r]}}

def recycleBuf (p : Port) (bufInfo : Nat) (reply : DmaReply) : Port :=
  if p.chan.preAlloc then
    let info := p.chan.bufMem bufInfo
    match mhiQueueBuf p info.cbBuf info.len MhiFlags.eot reply with
    | (out,none) => out
    | (out,some _) => {out with chan := {out.chan with freed := out.chan.freed ++ [info.cbBuf]}}
  else p

def xferResult (p : Port) (ev : MhiTre) (evTre : Nat) : MhiResult :=
  let info := p.chan.bufMem p.chan.bufRing.rp
  let xferLen := if p.chan.treRing.rp = evTre then ev.getEvLen else info.len % 2 ^ 16
  ⟨info.cbBuf,some p.chan.dir,min xferLen (info.len % 2 ^ 16),
    if ev.getEvCode = EvCc.overflow then some .eoverflow else none⟩

def xferOne (ev : MhiTre) (evTre : Nat) (script : CbScript) (p : Port) : Port :=
  let bufInfo := p.chan.bufRing.rp
  let called := queueAll (retire p (xferResult p ev evTre)) script.calls
  recycleBuf {called with cntrl := countUplink called.chan.dir (-1) called.cntrl} bufInfo script.recycle

def xferLoop (ev : MhiTre) (evTre devRp : Nat) (script : Nat → CbScript) : Nat → Nat → Port → Option Port
  | 0, _, p => if p.chan.treRing.rp = devRp then some p else none
  | fuel+1, i, p =>
    if p.chan.treRing.rp = devRp then some p
    else xferLoop ev evTre devRp script fuel (i + 1) (xferOne ev evTre (script i) p)

def isXferCode (code : Nat) : Bool := decide (code = EvCc.overflow ∨ code = EvCc.eob ∨ code = EvCc.eot)
def isDbCode (code : Nat) : Bool := decide (code = EvCc.oob ∨ code = EvCc.dbMode)

def dbModeEvent (p : Port) : Port :=
  let p := {p with chan := {p.chan with dbCfg := {p.chan.dbCfg with dbMode := true}}}
  if p.chan.treRing.wp ≠ p.chan.treRing.rp then ringIfAccessible p else p

def xferGoal (r : Ring) (evTre : Nat) : Nat :=
  let after := (evTre + sizeofMhiTre) % wordSpan
  if r.base + r.len ≤ after then r.base else after

/- The read pointer visits every element within one turn, so a loop that has not
met its end after `elements` turns never does. -/
def parseXferEvent (ev : MhiTre) (script : Nat → CbScript) (p : Port) : Option Port :=
  if p.chan.chState ≠ .enabled then some p
  else if isXferCode ev.getEvCode then
    let evTre := mhiToVirtual p.chan.treRing ev.getEvPtr
    xferLoop ev evTre (xferGoal p.chan.treRing evTre) script p.chan.treRing.elements 0 p
  else if isDbCode ev.getEvCode then some (dbModeEvent p)
  else some p

def resetOne (calls : List QueueReq) (p : Port) : Port :=
  let info := p.chan.bufMem p.chan.bufRing.rp
  let counted := {p with cntrl := countUplink p.chan.dir (-1) p.cntrl}
  if p.chan.preAlloc then
    {counted with chan := {counted.chan with
      bufRing := mhiDelRingElement p.chan.bufRing
      treRing := mhiDelRingElement p.chan.treRing
      freed := p.chan.freed ++ [info.cbBuf]}}
  else queueAll (retire counted ⟨info.cbBuf,none,0,some .enotconn⟩) calls

def resetLoop (script : Nat → List QueueReq) : Nat → Nat → Port → Option Port
  | 0, _, p => if p.chan.treRing.rp = p.chan.treRing.wp then some p else none
  | fuel+1, i, p =>
    if p.chan.treRing.rp = p.chan.treRing.wp then some p
    else resetLoop script fuel (i + 1) (resetOne (script i) p)

def mhiResetDataChan (script : Nat → List QueueReq) (p : Port) : Option Port :=
  resetLoop script p.chan.treRing.elements 0 p

/- `vz` is what vzalloc returned; a failed call has already cleared the base. -/
def mhiInitChanCtxt (ch : Chan) (vz : Option Nat) : Chan × Option Errno :=
  let bufRing := {ch.bufRing with
    elSize := sizeofMhiBufInfo, len := sizeofMhiBufInfo * ch.bufRing.elements, base := vz.getD 0}
  match vz with
  | none => ({ch with bufRing := bufRing},some .enomem)
  | some base => ({ch with
      bufRing := {bufRing with rp := base, wp := base}
      treRing := {ch.treRing with ctxtWp := ch.treRing.iommuBase, rp := ch.treRing.base, wp := ch.treRing.base}
      bufMem := fun _ => BufInfo.zero
      dbCfg := {ch.dbCfg with dbMode := true}},none)

def mhiDeinitChanCtxt (ch : Chan) : Chan := {ch with bufRing := {ch.bufRing with base := 0}}

end MhiHost
