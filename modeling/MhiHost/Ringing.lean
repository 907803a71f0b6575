import MhiHost.Occupancy

/-! `mhi_ring_chan_db` in pieces. Queue calls and the M0 handler hold `pm_lock` and the lock of
the channel as readers while they ring, so that several of them can be inside for one channel.
What else a call does is the step that `Threads` has for it. -/
namespace MhiHost.Ringing
open Cyclic (Window)

def queueLocked (p : Port) (info : BufInfo) (flags : Nat) (reply : DmaReply) : Port × Option Errno :=
  if p.chan.preAlloc then (p,some .einval)
  else if mhiIsRingFull p.chan.treRing then (p,some .enomem)
  else if mhiPmInErrorState p.cntrl.pmState then (p,some .eio)
  else
    let woken := {p with cntrl := wakeToggle (resumeIfSuspended p.cntrl)}
    match mhiGenTre woken info flags reply with
    | (out,some e) => (out,some e)
    | (out,none) => (accept {out with cntrl := countUplink out.chan.dir 1 out.cntrl} info.cbBuf,none)

def mhiQueue (p : Port) (q : QueueReq) : Port × Option Errno :=
  match q.payload with
  | .buf => mhiQueueBufFill p q.cb q.len q.flags q.reply
  | .skb data => queueLocked p {BufInfo.zero with vAddr := data, cbBuf := q.cb, len := q.len} q.flags q.reply
  | .dma dmaAddr =>
    queueLocked p {BufInfo.zero with pAddr := dmaAddr, cbBuf := q.cb, preMapped := true, len := q.len} q.flags q.reply

def mhiQueueBufFinish (p : Port) (buf : Nat) : Port :=
  accept {p with cntrl := countUplink p.chan.dir 1 (wakeToggle (resumeIfSuspended p.cntrl))} buf

def preAllocate (p : Port) (reply : Nat → Option Nat × DmaReply) : Port × Option Errno :=
  if p.chan.preAlloc then preAllocLoop reply (getNrAvailRingElements p.chan.treRing).toNat 0 p else (p,none)

def prepareFinish (h : Host) (i : Nat) (answered : Bool) (reply : Nat → Option Nat × DmaReply) : Host × Option Errno :=
  let ch := h.chans i
  if !answered || decide (ch.ccs ≠ EvCc.success) then (h.setChan i (deinitOwned ch),some .eio)
  else
    let out := preAllocate ⟨h.cntrl,{ch with chState := .enabled}⟩ reply
    (h.setPort i out.1,out.2)

def recycleBuf (p : Port) (bufInfo : Nat) (reply : DmaReply) : Port × Option Nat :=
  if p.chan.preAlloc then
    let info := p.chan.bufMem bufInfo
    match mhiQueueBufFill p info.cbBuf info.len MhiFlags.eot reply with
    | (out,none) => (out,some info.cbBuf)
    | (out,some _) => ({out with chan := {out.chan with freed := out.chan.freed ++ [info.cbBuf]}},none)
  else (p,none)

def m0Enter (h : Host) : Host := {h with cntrl := {h.cntrl with devState := .m0, pmState := mhiTrysetPmState h.cntrl.pmState .m0}}
def m0Start (h : Host) : Host :=
  let h := {h with cntrl := mhiAssertDevWake h.cntrl true}
  if mhiInMissionMode h.cntrl.ee then m0Mission h else h
def m0End (h : Host) : Host := {h with cntrl := mhiDeassertDevWake h.cntrl false}

section Whole

theorem queueLockedWhole (p : Port) (info : BufInfo) (flags : Nat) (reply : DmaReply) :
    MhiHost.queueLocked p info flags reply =
      match queueLocked p info flags reply with
      | (out,none) => (ringIfAccessible out,none)
      | out => out := by
  unfold MhiHost.queueLocked queueLocked
  split
  · rfl
  split
  · rfl
  split
  · rfl
  dsimp only
  cases mhiGenTre {p with cntrl := wakeToggle (resumeIfSuspended p.cntrl)} info flags reply with
  | mk out err =>
    cases err with
    | some e => rfl
    | none =>
      dsimp only [ringIfAccessible,accept]
      split <;> rfl

theorem finishWhole (p : Port) (buf : Nat) : MhiHost.mhiQueueBufFinish p buf = ringIfAccessible (mhiQueueBufFinish p buf) := by
  unfold MhiHost.mhiQueueBufFinish mhiQueueBufFinish
  dsimp only [ringIfAccessible,accept]
  split <;> rfl

theorem preAllocateWhole (p : Port) (reply : Nat → Option Nat × DmaReply) : MhiHost.preAllocate p reply =
    match preAllocate p reply with
    | (out,none) => (if p.chan.preAlloc then ringIfAccessible out else out,none)
    | out => out := by
  unfold MhiHost.preAllocate preAllocate
  split
  · cases preAllocLoop reply (getNrAvailRingElements p.chan.treRing).toNat 0 p with
    | mk out err => cases err <;> rfl
  · rfl

theorem m0Whole (h : Host) : mhiPmM0Transition h =
    if (m0Enter h).cntrl.pmState ≠ .m0 then (m0Enter h,some .eio) else (m0End (m0Chans (m0Start (m0Enter h))),none) := rfl

end Whole

section Heads

def Steady (b b' : Book) : Prop := b'.pm = b.pm ∧ b'.dbAccess = b.dbAccess

def Pushed (ch : Chan) (err : Option Errno) (ch' : Chan) : Prop :=
  err = none ∧ mhiIsRingFull ch.treRing = false ∧ ch'.core = ch.core.push ∨ err.isSome = true ∧ ch'.core = ch.core

theorem fillHead {p out : Port} {buf len flags : Nat} {reply : DmaReply} {err : Option Errno}
    (ran : mhiQueueBufFill p buf len flags reply = (out,err)) : out.cntrl = p.cntrl ∧ Pushed p.chan err out.chan := by
  obtain ⟨cntrl,⟨fits,free,core⟩ | ⟨⟨e,failed⟩,core⟩⟩ := queueBufFillView p buf len flags reply
  · rw [ran] at cntrl fits core
    exact ⟨cntrl,.inl ⟨fits,free,core⟩⟩
  · rw [ran] at cntrl failed core
    exact ⟨cntrl,.inr ⟨by rw [show err = some e from failed]; rfl,core⟩⟩

theorem lockedHead {p out : Port} {info : BufInfo} {flags : Nat} {reply : DmaReply} {err : Option Errno}
    (ran : queueLocked p info flags reply = (out,err)) :
    Steady p.cntrl.book out.cntrl.book ∧ Pushed p.chan err out.chan := by
  unfold queueLocked at ran
  split at ran
  · cases ran
    exact ⟨⟨rfl,rfl⟩,.inr ⟨rfl,rfl⟩⟩
  split at ran
  · cases ran
    exact ⟨⟨rfl,rfl⟩,.inr ⟨rfl,rfl⟩⟩
  rename_i free
  split at ran
  · cases ran
    exact ⟨⟨rfl,rfl⟩,.inr ⟨rfl,rfl⟩⟩
  dsimp only at ran
  split at ran
  · rename_i mid e gen
    obtain ⟨cntrl,core⟩ := genTreView gen
    cases ran
    refine ⟨?_,.inr ⟨rfl,core⟩⟩
    simp [Steady,cntrl]
  · rename_i mid gen
    obtain ⟨cntrl,core⟩ := genTreView gen
    cases ran
    refine ⟨?_,.inl ⟨rfl,eq_false_of_ne_true free,core⟩⟩
    simp [Steady,acceptCntrl,cntrl]

theorem queueHead {p out : Port} {q : QueueReq} {err : Option Errno} (ran : mhiQueue p q = (out,err)) :
    Steady p.cntrl.book out.cntrl.book ∧ Pushed p.chan err out.chan := by
  unfold mhiQueue at ran
  split at ran
  · obtain ⟨cntrl,pushed⟩ := fillHead ran
    exact ⟨by rw [cntrl]; exact ⟨rfl,rfl⟩,pushed⟩
  · exact lockedHead ran
  · exact lockedHead ran

theorem finishHead (p : Port) (buf : Nat) : Steady p.cntrl.book (mhiQueueBufFinish p buf).cntrl.book ∧
    (mhiQueueBufFinish p buf).chan.core = p.chan.core := by
  refine ⟨?_,rfl⟩
  simp [Steady,mhiQueueBufFinish,acceptCntrl]

theorem countKeeps (dir : DmaDir) (d : Int) (c : Cntrl) :
    Steady c.book (countUplink dir d c).book ∧ (countUplink dir d c).mmio = c.mmio := by
  refine ⟨by simp [Steady],?_⟩
  unfold countUplink
  split <;> rfl

theorem recycleHead {p out : Port} {b : Nat} {reply : DmaReply} {filled : Option Nat}
    (ran : recycleBuf p b reply = (out,filled)) :
    out.cntrl = p.cntrl ∧ (filled = none ∧ out.chan.core = p.chan.core ∨
      p.chan.preAlloc = true ∧ filled.isSome = true ∧ mhiIsRingFull p.chan.treRing = false ∧
        out.chan.core = p.chan.core.push) := by
  unfold recycleBuf at ran
  split at ran
  · rename_i alloc
    dsimp only at ran
    cases filling : mhiQueueBufFill p (p.chan.bufMem b).cbBuf (p.chan.bufMem b).len MhiFlags.eot reply with
    | mk mid err =>
      obtain ⟨cntrl,⟨rfl,free,core⟩ | ⟨failed,core⟩⟩ := fillHead filling
      · rw [filling] at ran
        cases ran
        exact ⟨cntrl,.inr ⟨alloc,rfl,free,core⟩⟩
      · obtain ⟨e,rfl⟩ := Option.isSome_iff_exists.mp failed
        rw [filling] at ran
        cases ran
        exact ⟨cntrl,.inl ⟨rfl,core⟩⟩
  · cases ran
    exact ⟨rfl,.inl ⟨rfl,rfl⟩⟩

theorem preAllocateHead {p out : Port} {reply : Nat → Option Nat × DmaReply} {err : Option Errno}
    (ran : preAllocate p reply = (out,err)) : out.cntrl = p.cntrl ∧
      (p.chan.preAlloc = false ∧ err = none ∧ out.chan.core = p.chan.core ∨
        p.chan.preAlloc = true ∧ ∃ n ≤ (getNrAvailRingElements p.chan.treRing).toNat, out.chan.core = p.chan.core.pushes n) := by
  unfold preAllocate at ran
  split at ran
  · rename_i alloc
    obtain ⟨cntrl,n,few,core⟩ := preAllocLoopView ran
    exact ⟨cntrl,.inr ⟨alloc,n,few,core⟩⟩
  · rename_i client
    cases ran
    exact ⟨rfl,.inl ⟨eq_false_of_ne_true client,rfl,rfl⟩⟩

theorem prepareFinishHead {h h' : Host} {i : Nat} {answered : Bool} {reply : Nat → Option Nat × DmaReply} {err : Option Errno}
    (ran : prepareFinish h i answered reply = (h',err)) : Touches i h h' ∧ h'.cntrl = h.cntrl ∧
    ((!answered || decide ((h.chans i).ccs ≠ EvCc.success)) = true ∧ err.isSome = true ∧
    (h'.chans i).core = (h.chans i).core.released ∨
      (!answered || decide ((h.chans i).ccs ≠ EvCc.success)) = false ∧
        ((h.chans i).preAlloc = false ∧ err = none ∧ (h'.chans i).core = (h.chans i).core.enable ∨
          (h.chans i).preAlloc = true ∧ ∃ n ≤ (getNrAvailRingElements (h.chans i).treRing).toNat,
            (h'.chans i).core = (h.chans i).core.enable.pushes n)) := by
  unfold prepareFinish at ran
  dsimp only at ran
  split at ran
  · rename_i unanswered
    cases ran
    exact ⟨.setChan i h _,rfl,.inl ⟨unanswered,rfl,by simp [deinitOwnedCore]⟩⟩
  · rename_i answered
    cases filled : preAllocate ⟨h.cntrl,{h.chans i with chState := .enabled}⟩ reply with
    | mk out e =>
      rw [filled] at ran
      cases ran
      obtain ⟨cntrl,rest⟩ := preAllocateHead filled
      refine ⟨.setPort i h _,cntrl,.inr ⟨eq_false_of_ne_true answered,?_⟩⟩
      simp only [setPortSelf]
      rcases rest with ⟨client,none,core⟩ | ⟨alloc,n,few,core⟩
      · exact .inl ⟨client,none,core⟩
      · exact .inr ⟨alloc,n,few,core⟩

theorem m0EnterHead (h : Host) : (m0Enter h).chans = h.chans ∧ (m0Enter h).maxChan = h.maxChan ∧
    (m0Enter h).cntrl.dbAccess = h.cntrl.dbAccess ∧ (m0Enter h).cntrl.mmio = h.cntrl.mmio ∧
    ((m0Enter h).cntrl.pmState = .m0 ∨ (m0Enter h).cntrl.pmState = h.cntrl.pmState) := by
  refine ⟨rfl,rfl,rfl,rfl,?_⟩
  exact trysetCases h.cntrl.pmState .m0

theorem m0StartHead (h : Host) : (m0Start h).maxChan = h.maxChan ∧ (m0Start h).chans = h.chans ∧
    (m0Start h).cntrl.book = h.cntrl.book := by
  unfold m0Start
  dsimp only
  split
  · obtain ⟨maxChan,chans,book⟩ := m0MissionView {h with cntrl := mhiAssertDevWake h.cntrl true}
    exact ⟨maxChan,chans,by rw [book]; exact assertBook _ _⟩
  · exact ⟨rfl,rfl,assertBook _ _⟩

end Heads

/- How far a call of `mhi_ring_chan_db` has come: `wp` is read, stored in the context, the
doorbell's mode is looked at, its two words are written, and the mode is reset. -/
inductive Stage where
  | entered
  | loaded (db : Nat)
  | stored (db : Nat)
  | chosen (db : Nat)
  | upper (db : Nat)
  | lower
  deriving DecidableEq, Repr

/- `filled` is a prepare that has yet to take `pm_lock`; `moved`, `arming` and `testing` are the
M0 handler's, and `loop` is set where it rings. -/
inductive Pc where
  | idle
  | filled (i : Nat)
  | moved
  | arming (i : Nat)
  | testing (i : Nat)
  | ringing (i : Nat) (stage : Stage) (loop : Bool)
  deriving DecidableEq, Repr

/- `armedAt` is how many register writes had been made when `db_mode` was last set. -/
structure Scene (τ : Type) where
  threads : Threads
  pc : τ → Pc
  armedAt : Nat → Nat

def Pc.inside (i : Nat) : Pc → Bool
  | .ringing _ .entered _ => false
  | .ringing j _ _ => decide (j = i)
  | _ => false

def Pc.unlocked : Pc → Bool
  | .idle | .filled _ | .moved => true
  | _ => false

def Pc.after (i : Nat) (loop : Bool) : Pc := if loop then .arming (i+1) else .idle

def Spares (i : Nat) (s s' : Threads) : Prop :=
  ∃ more, s'.host.cntrl.mmio = s.host.cntrl.mmio ++ more ∧
    ∀ write ∈ more, write.1 ≠ (s.chan i).treRing.dbAddr ∧ write.1 ≠ (s.chan i).treRing.dbAddr + 4

def Live (st : Station) : Prop := st.core.bufBase ≠ 0

section
variable {τ : Type} [DecidableEq τ]

namespace Scene
def start (h : Host) : Scene τ := ⟨Threads.start h,fun _ => .idle,fun _ => 0⟩
def turn (s : Scene τ) (t : τ) (pc : Pc) : Scene τ := {s with pc := Function.update s.pc t pc}
def chan (s : Scene τ) (i : Nat) : Chan := s.threads.chan i
def goes (s : Scene τ) (threads : Threads) : Scene τ := {s with threads := threads}
def setChan (s : Scene τ) (i : Nat) (ch : Chan) : Scene τ := s.goes (s.threads.withHost (s.threads.host.setChan i ch))
def write (s : Scene τ) (i offset val : Nat) : Scene τ :=
  s.goes (s.threads.withHost {s.threads.host with cntrl := mhiWriteReg s.threads.host.cntrl (s.chan i).treRing.dbAddr offset val})
def arm (s : Scene τ) (i : Nat) : Scene τ := {s with armedAt := Function.update s.armedAt i s.threads.host.cntrl.mmio.length}
def rings (s : Scene τ) (t : τ) (i : Nat) (due : Bool) : Scene τ :=
  s.turn t (if due && mhiDbAccessValid s.threads.host.cntrl then .ringing i .entered false else .idle)
end Scene

def Free (i : Nat) (s : Scene τ) : Prop := ∀ t, (s.pc t).inside i = false

/- `own` are the channels at whose doorbell nothing else lies. `may` says when a ring reads `wp`
and when a prepare sets up the context. A doorbell event and `reset_req` take the channel's
lock as writers, a change of power state takes `pm_lock` as one. -/
inductive Step (own : Nat → Prop) (w : Nat → Window) (may : Nat → Scene τ → Prop) : Scene τ → Scene τ → Prop where
  | quiet {s s'} (i : Nat) (known : i < s.threads.host.maxChan) (step : QuietStep w Live i s.threads s')
      (apart : ∀ j, own j → Spares j s.threads s') : Step own w may s (s.goes s')
  | host {s s'} (step : HostStep s.threads s')
      (locked : s'.host.cntrl.pmState ≠ s.threads.host.cntrl.pmState → ∀ t, (s.pc t).unlocked = true)
      (apart : ∀ j, own j → Spares j s.threads s') : Step own w may s (s.goes s')
  | setup {s h err} (i : Nat) (known : i < s.threads.host.maxChan) (vz : Option Nat) (free : s.threads.op i = .idle)
      (block : ∀ base, vz = some base → Allocated base (sizeofMhiBufInfo * (s.chan i).bufRing.elements))
      (ran : prepareBegin s.threads.host i vz = (h,err)) (allowed : may i s) :
      Step own w may s ((if err.isNone then s.arm i else s).goes
        ((s.threads.withHost h).setOp i (if err.isNone then .preparing else .idle)))
  | doorbell {s p} (i : Nat) (known : i < s.threads.host.maxChan) (ev : MhiTre) (unlocked : s.threads.turn i = none)
      (locked : Free i s) (code : isDbCode ev.getEvCode = true)
      (ran : parseXferEvent ev (fun _ => ⟨[],⟨0,0,false⟩⟩) (s.threads.port i) = some p)
      (apart : ∀ j, own j → j ≠ i → Spares j s.threads (s.threads.setPort i p)) :
      Step own w may s ((if (s.chan i).chState = .enabled then s.arm i else s).goes (s.threads.setPort i p))
  | queue {s p err} (t : τ) (i : Nat) (known : i < s.threads.host.maxChan) (here : s.pc t = .idle) (q : QueueReq)
      (allowed : Live (s.threads.station i)) (locked : q.payload ≠ .buf) (ran : mhiQueue (s.threads.port i) q = (p,err))
      (apart : ∀ j, own j → Spares j s.threads (s.threads.setPort i p)) :
      Step own w may s ((s.goes (s.threads.setPort i p)).rings t i err.isNone)
  | finish {s} (t : τ) (i : Nat) (known : i < s.threads.host.maxChan) (here : s.pc t = .idle) (buf : Nat)
      (part : buf ∈ s.threads.filled i)
      (apart : ∀ j, own j → Spares j s.threads (s.threads.setPort i (mhiQueueBufFinish (s.threads.port i) buf))) :
      Step own w may s ((s.goes ((s.threads.setPort i (mhiQueueBufFinish (s.threads.port i) buf)).setFilled i
        ((s.threads.filled i).erase buf))).rings t i true)
  | settle {s p filled} (i : Nat) (known : i < s.threads.host.maxChan) (b : Nat) (u : Turn) (reply : DmaReply)
      (busy : s.threads.turn i = some u) (called : u.called = some b)
      (ran : recycleBuf {s.threads.port i with cntrl := countUplink (s.chan i).dir (-1) s.threads.host.cntrl} b reply = (p,filled)) :
      Step own w may s (s.goes (((s.threads.setPort i p).setTurn i (some {u with called := none})).setFilled i
        (filled.toList ++ s.threads.filled i)))
  | prepareFinish {s h err} (t : τ) (i : Nat) (known : i < s.threads.host.maxChan) (here : s.pc t = .idle) (inTime : Bool)
      (reply : Nat → Option Nat × DmaReply) (stands : s.threads.op i = .starting)
      (ran : prepareFinish (s.threads.host.setChan i (waitForCompletion (s.chan i) inTime).1) i
        (waitForCompletion (s.chan i) inTime).2 reply = (h,err)) :
      Step own w may s ((s.goes ((s.threads.withHost h).setOp i (prepareOutcome (waitForCompletion (s.chan i) inTime) err))).turn t
        (if err.isNone && (s.chan i).preAlloc then .filled i else .idle))
  | filled {s} (t : τ) (i : Nat) (here : s.pc t = .filled i) : Step own w may s (s.rings t i true)
  | m0Enter {s} (t : τ) (here : s.pc t = .idle) (locked : ∀ u, (s.pc u).unlocked = true) :
      Step own w may s ((s.goes (s.threads.withHost (m0Enter s.threads.host))).turn t
        (if (m0Enter s.threads.host).cntrl.pmState = .m0 then .moved else .idle))
  | m0Start {s} (t : τ) (here : s.pc t = .moved)
      (apart : ∀ j, own j → Spares j s.threads (s.threads.withHost (m0Start s.threads.host))) :
      Step own w may s ((s.goes (s.threads.withHost (m0Start s.threads.host))).turn t (.arming 0))
  | arm {s} (t : τ) (i : Nat) (known : i < s.threads.host.maxChan) (here : s.pc t = .arming i)
      (asked : (s.chan i).dbCfg.resetReq = true) (unlocked : s.threads.turn i = none) (locked : Free i s) :
      Step own w may s (((s.arm i).setChan i {s.chan i with dbCfg := {(s.chan i).dbCfg with dbMode := true}}).turn t (.testing i))
  | pass {s} (t : τ) (i : Nat) (known : i < s.threads.host.maxChan) (here : s.pc t = .arming i)
      (unasked : (s.chan i).dbCfg.resetReq = false) : Step own w may s (s.turn t (.testing i))
  | ring {s} (t : τ) (i : Nat) (here : s.pc t = .testing i) (based : (s.chan i).treRing.base ≠ 0)
      (loaded : (s.chan i).treRing.wp ≠ (s.chan i).treRing.rp) : Step own w may s (s.turn t (.ringing i .entered true))
  | skip {s} (t : τ) (i : Nat) (here : s.pc t = .testing i)
      (empty : ¬((s.chan i).treRing.base ≠ 0 ∧ (s.chan i).treRing.wp ≠ (s.chan i).treRing.rp)) :
      Step own w may s (s.turn t (.arming (i+1)))
  | m0End {s} (t : τ) (i : Nat) (here : s.pc t = .arming i) (done : s.threads.host.maxChan ≤ i)
      (apart : ∀ j, own j → Spares j s.threads (s.threads.withHost (m0End s.threads.host))) :
      Step own w may s ((s.goes (s.threads.withHost (m0End s.threads.host))).turn t .idle)
  | load {s} (t : τ) (i : Nat) (loop : Bool) (here : s.pc t = .ringing i .entered loop) (allowed : may i s) :
      Step own w may s (s.turn t (.ringing i (.loaded (s.chan i).treRing.db) loop))
  | store {s} (t : τ) (i db : Nat) (loop : Bool) (here : s.pc t = .ringing i (.loaded db) loop) :
      Step own w may s ((s.setChan i {s.chan i with treRing := {(s.chan i).treRing with ctxtWp := db}}).turn t
        (.ringing i (.stored db) loop))
  | unarmed {s} (t : τ) (i db : Nat) (loop : Bool) (here : s.pc t = .ringing i (.stored db) loop)
      (burst : (s.chan i).dbCfg.brstmode = .enable) (off : (s.chan i).dbCfg.dbMode = false) :
      Step own w may s (s.turn t (.after i loop))
  | choose {s} (t : τ) (i db : Nat) (loop : Bool) (here : s.pc t = .ringing i (.stored db) loop)
      (due : (s.chan i).dbCfg.brstmode = .disable ∨ (s.chan i).dbCfg.dbMode = true) :
      Step own w may s ((s.setChan i {s.chan i with dbCfg := {(s.chan i).dbCfg with dbVal := db}}).turn t (.ringing i (.chosen db) loop))
  | upper {s} (t : τ) (i db : Nat) (loop : Bool) (here : s.pc t = .ringing i (.chosen db) loop)
      (apart : ∀ j, own j → j ≠ i → Spares j s.threads (s.write i 4 (db / 2^32)).threads) :
      Step own w may s ((s.write i 4 (db / 2^32)).turn t (.ringing i (.upper db) loop))
  | lower {s} (t : τ) (i db : Nat) (loop : Bool) (here : s.pc t = .ringing i (.upper db) loop)
      (apart : ∀ j, own j → j ≠ i → Spares j s.threads (s.write i 0 (db % 2^32)).threads) :
      Step own w may s ((s.write i 0 (db % 2^32)).turn t (.ringing i .lower loop))
  | clear {s} (t : τ) (i : Nat) (loop : Bool) (here : s.pc t = .ringing i .lower loop) :
      Step own w may s ((s.setChan i {s.chan i with dbCfg := {(s.chan i).dbCfg with
        dbMode := (s.chan i).dbCfg.brstmode != .enable && (s.chan i).dbCfg.dbMode}}).turn t (.after i loop))

end

def ringDb (p : Port) (db : Nat) : Port :=
  let out := processDb p.cntrl p.chan.dbCfg p.chan.treRing.dbAddr db
  ⟨out.1,{p.chan with treRing := {p.chan.treRing with ctxtWp := db}, dbCfg := out.2}⟩

theorem ringDbWhole (p : Port) : ringDb p p.chan.treRing.db = mhiRingChanDb p := rfl

theorem processDue {cfg : DbCfg} (due : cfg.brstmode = .disable ∨ cfg.dbMode = true) (c : Cntrl) (a v : Nat) :
    processDb c cfg a v =
    (mhiWriteDb c a v,{cfg with dbVal := v, dbMode := cfg.brstmode != .enable && cfg.dbMode}) := by
  unfold processDb mhiDbBrstmode mhiDbBrstmodeDisable
  rcases cfg with ⟨resetReq,dbMode,brstmode,dbVal⟩
  cases brstmode with
  | enable => exact if_pos (due.resolve_left BrstMode.noConfusion)
  | disable => rfl

theorem processUndue {cfg : DbCfg} (burst : cfg.brstmode = .enable) (off : cfg.dbMode = false) (c : Cntrl) (a v : Nat) :
    processDb c cfg a v = (c,cfg) := by
  unfold processDb mhiDbBrstmode
  rw [burst,off]
  rfl

section Undisturbed
variable {τ : Type} [DecidableEq τ] {own : Nat → Prop} {w : Nat → Window} {may : Nat → Scene τ → Prop} {s : Scene τ} {t : τ}
  {i db : Nat} {loop : Bool}

theorem restWhole (alone : ∀ j, own j → j = i) (here : s.pc t = .ringing i (.loaded db) loop) :
    Relation.ReflTransGen (Step own w may) s
      ((s.goes (s.threads.setPort i (ringDb (s.threads.port i) db))).turn t (.after i loop)) := by
  let stored := (s.setChan i {s.chan i with treRing := {(s.chan i).treRing with ctxtWp := db}}).turn t (.ringing i (.stored db) loop)
  have store : Step own w may s stored := .store t i db loop here
  have storedHere : stored.pc t = .ringing i (.stored db) loop := Function.update_self _ _ _
  have storedChan : stored.chan i = {s.chan i with treRing := {(s.chan i).treRing with ctxtWp := db}} :=
    Function.update_self _ _ _
  have apart {offset val : Nat} (s' : Scene τ) (j : Nat) (ours : own j) (other : j ≠ i) : Spares j s'.threads (s'.write i offset val).threads :=
    absurd (alone j ours) other
  by_cases due : (s.chan i).dbCfg.brstmode = .disable ∨ (s.chan i).dbCfg.dbMode = true
  · let chosen := (stored.setChan i {stored.chan i with dbCfg := {(stored.chan i).dbCfg with dbVal := db}}).turn t
      (.ringing i (.chosen db) loop)
    have choose : Step own w may stored chosen := .choose t i db loop storedHere (by rw [storedChan]; exact due)
    let upper := (chosen.write i 4 (db / 2^32)).turn t (.ringing i (.upper db) loop)
    have first : Step own w may chosen upper := .upper t i db loop (Function.update_self _ _ _) (apart chosen)
    let lower := (upper.write i 0 (db % 2^32)).turn t (.ringing i .lower loop)
    have second : Step own w may upper lower := .lower t i db loop (Function.update_self _ _ _) (apart upper)
    have clear := @Step.clear _ _ own w may lower t i loop (Function.update_self _ _ _)
    refine ((((Relation.ReflTransGen.single store).tail choose).tail first).tail second).trans ?_
    convert Relation.ReflTransGen.single clear using 1
    simp only [lower,upper,chosen,stored,Scene.turn,Scene.goes,Scene.setChan,Scene.write,Scene.chan,Threads.chan,
      Threads.withHost,Threads.setPort,Threads.port,
      Host.setPort,Host.setChan,Host.port,Function.update_idem,Function.update_self,ringDb,processDue (show
      (s.threads.host.chans i).dbCfg.brstmode = .disable ∨ (s.threads.host.chans i).dbCfg.dbMode = true from due)]
    rfl
  · have burst : (s.chan i).dbCfg.brstmode = .enable := by
      cases mode : (s.chan i).dbCfg.brstmode with
      | enable => rfl
      | disable => exact absurd (.inl mode) due
    have off : (s.chan i).dbCfg.dbMode = false := eq_false_of_ne_true fun on => due (.inr on)
    have unarmed : Step own w may stored (stored.turn t (.after i loop)) :=
      .unarmed t i db loop storedHere (by rw [storedChan]; exact burst) (by rw [storedChan]; exact off)
    refine (Relation.ReflTransGen.single store).trans ?_
    convert Relation.ReflTransGen.single unarmed using 1
    simp only [stored,Scene.turn,Scene.goes,Scene.setChan,Scene.chan,Threads.chan,Threads.withHost,Threads.setPort,Threads.port,
      Host.setPort,Host.setChan,Host.port,Function.update_idem,ringDb,processUndue (show (s.threads.host.chans i).dbCfg.brstmode = .enable from burst) off]

theorem ringWhole (alone : ∀ j, own j → j = i) (here : s.pc t = .ringing i .entered loop) (allowed : may i s) :
    Relation.ReflTransGen (Step own w may) s
      ((s.goes (s.threads.setPort i (mhiRingChanDb (s.threads.port i)))).turn t (.after i loop)) := by
  have load : Step own w may s (s.turn t (.ringing i (.loaded (s.chan i).treRing.db) loop)) := .load t i loop here allowed
  refine (Relation.ReflTransGen.single load).trans ?_
  have rest := @restWhole τ _ own w may (s.turn t (.ringing i (.loaded (s.chan i).treRing.db) loop)) t i _ loop alone
    (Function.update_self _ _ _)
  convert rest using 1
  simp only [Scene.turn,Scene.goes,Function.update_idem]
  rfl

end Undisturbed
section Sounds
variable {w : Window} {k : Core} {o : ChanOp} {t : Option Turn} {f f' : List Nat}

theorem soundPush (level : Level w k t) (free : mhiIsRingFull k.tre = false) (sound : Sound w ⟨k,o,t,f⟩) :
    Sound w ⟨k.push,o,t,f'⟩ :=
  sound.reshape (.push k) (.inr (levelPush level free)) sound.locked

theorem soundPushed {ch ch' : Chan} {err : Option Errno} (pushed : Pushed ch err ch') (level : Level w ch.core t)
    (sound : Sound w ⟨ch.core,o,t,f⟩) : Sound w ⟨ch'.core,o,t,f'⟩ := by
  rcases pushed with ⟨-,free,core⟩ | ⟨-,core⟩
  · rw [core]
    exact soundPush level free sound
  · rw [core]
    exact sound.reshape (.refl _) (.inr level) sound.locked

theorem soundBell (ctxtWp : Nat) (cfg : DbCfg) (sound : Sound w ⟨k,o,t,f⟩) :
    Sound w ⟨{k with tre := {k.tre with ctxtWp := ctxtWp}, dbCfg := cfg},o,t,f⟩ := by
  refine sound.reshape ⟨rfl,rfl,rfl,rfl,rfl,rfl,fun spans => spans.moved k.tre.rp k.tre.wp ctxtWp k.tre.dbAddr⟩ ?_ sound.locked
  rcases sound.level with rest | ⟨tres,own,h,n,held,goal⟩
  · exact .inl rest
  · exact .inr ⟨tres,own,h,n,held.rung ctxtWp,goal⟩

theorem soundCalled {u : Turn} (sound : Sound w ⟨k,o,some u,f⟩) :
    Level w k (some {u with called := none}) ∧ Sound w ⟨k,o,some {u with called := none},f⟩ := by
  have level : Level w k (some {u with called := none}) :=
    levelOf sound.busy rfl rfl (fun v some => ⟨u,rfl,by cases some; rfl⟩)
  exact ⟨level,sound.reshape (.refl k) (.inr level) (fun _ => sound.locked (by simp))⟩

end Sounds

theorem calmSteady {w : Window} {Q : Station → Prop} {b b' : Book} {st st' : Station} (moved : Calm w Q b st b' st') :
    Steady b b' := by
  cases moved with
  | resetTurn more => simp [Steady]
  | _ => exact ⟨rfl,rfl⟩

theorem doorbellRan {ev : MhiTre} {script : Nat → CbScript} {p p' : Port} (code : isDbCode ev.getEvCode = true)
    (ran : parseXferEvent ev script p = some p') :
    p.chan.chState ≠ .enabled ∧ p' = p ∨ p.chan.chState = .enabled ∧ p' = dbModeEvent p := by
  unfold parseXferEvent at ran
  by_cases on : p.chan.chState = .enabled
  · simp only [on,dbCodeOnly code,code,ne_eq,not_true,if_false,if_true,Bool.false_eq_true] at ran
    cases ran
    exact .inr ⟨on,rfl⟩
  · rw [if_pos on] at ran
    cases ran
    exact .inl ⟨on,rfl⟩

structure Plain (w : Nat → Window) (n : Nat) (m2NoDb : Bool) (s : Threads) : Prop where
  maxChan : s.host.maxChan = n
  access : s.host.cntrl.dbAccess = dbAccessOf m2NoDb
  sound : AllSound w n s.view

namespace Plain
variable {w : Nat → Window} {n i : Nat} {m2NoDb : Bool} {s s' : Threads}

theorem beside (plain : Plain w n m2NoDb s) (beside : Beside i s s') (access : s'.host.cntrl.dbAccess = s.host.cntrl.dbAccess)
    (here : i < n → Sound (w i) (s'.station i)) : Plain w n m2NoDb s' := by
  refine ⟨beside.host.maxChan.trans plain.maxChan,access.trans plain.access,fun j inside => ?_⟩
  by_cases same : j = i
  · subst j
    exact here inside
  · have station : s'.station j = s.station j := by
      simp only [Threads.station,Threads.chan,beside.host.others j same,beside.op j same,beside.turn j same,beside.filled j same]
    show Sound (w j) (s'.station j)
    rw [station]
    exact plain.sound j inside

theorem withHost {h : Host} (plain : Plain w n m2NoDb s) (maxChan : h.maxChan = s.host.maxChan) (chans : h.chans = s.host.chans)
    (access : h.cntrl.dbAccess = s.host.cntrl.dbAccess) : Plain w n m2NoDb (s.withHost h) := by
  refine ⟨maxChan.trans plain.maxChan,access.trans plain.access,fun j inside => ?_⟩
  have station : (s.withHost h).station j = s.station j := by rw [stationWithHost,chans]; rfl
  show Sound (w j) ((s.withHost h).station j)
  rw [station]
  exact plain.sound j inside

theorem moves (plain : Plain w n m2NoDb s) (maxChan : s'.host.maxChan = s.host.maxChan)
    (access : s'.host.cntrl.dbAccess = s.host.cntrl.dbAccess)
    (moved : s'.view = s.view ∨ Move w Live s.host.maxChan s.view s'.view) : Plain w n m2NoDb s' := by
  refine ⟨maxChan.trans plain.maxChan,access.trans plain.access,?_⟩
  rcases moved with view | moved
  · rw [view]
    exact plain.sound
  · rw [plain.maxChan] at moved
    exact soundMove (fun _ _ live _ => live) moved plain.sound

theorem bell {ch : Chan} (plain : Plain w n m2NoDb s)
    (here : i < n → Sound (w i) ⟨ch.core,s.op i,s.turn i,s.filled i⟩) : Plain w n m2NoDb (s.withHost (s.host.setChan i ch)) := by
  refine plain.beside (.withHost (.setChan i s.host ch)) rfl fun inside => ?_
  rw [stationWithHost,setChanSelf]
  exact here inside

end Plain

section
variable {τ : Type} [DecidableEq τ] {own : Nat → Prop} {w : Nat → Window} {may : Nat → Scene τ → Prop} {n : Nat} {m2NoDb : Bool}
  {s s' : Scene τ}

theorem stepPlain (step : Step own w may s s') (plain : Plain w n m2NoDb s.threads) : Plain w n m2NoDb s'.threads := by
  have station (i : Nat) (inside : i < n) : Sound (w i) ⟨(s.chan i).core,s.threads.op i,s.threads.turn i,s.threads.filled i⟩ :=
    plain.sound i inside
  cases step with
  | quiet i known step apart =>
    refine plain.moves (quietBeside step).host.maxChan ?_ (chanMoves known (.quiet step))
    rcases quietShows step with ⟨book,-⟩ | moved
    · exact congrArg Book.dbAccess book
    · exact (calmSteady moved).2
  | @host after step locked apart =>
    obtain ⟨maxChan,moved⟩ := hostMoves step
    refine plain.moves maxChan ?_ (moved.imp_right .drift)
    show after.view.book.dbAccess = s.threads.view.book.dbAccess
    rcases moved with view | moved
    · rw [view]
    · generalize after.view = v at moved
      cases moved <;> rfl
  | setup i known vz free block ran allowed =>
    have cntrl := (prepareBeginView ran).2.1
    exact plain.moves (prepareBeginView ran).1.maxChan (congrArg Cntrl.dbAccess cntrl)
      (chanMoves known (.prepareBegin vz free block ran))
  | doorbell i known ev unlocked locked code ran apart =>
    refine plain.moves rfl ?_ (chanMoves known (.doorbell ev unlocked code ran))
    rcases doorbellRan code ran with ⟨-,rfl⟩ | ⟨-,rfl⟩
    · rfl
    · exact congrArg Book.dbAccess (dbModeView (s.threads.port i)).1
  | @queue p _ t i known here q allowed locked ran apart =>
    obtain ⟨steady,pushed⟩ := queueHead ran
    refine plain.beside (.setPort p) steady.2 fun inside => ?_
    show Sound (w i) ((s.threads.setPort i p).station i)
    rw [stationSetPort]
    exact soundPushed pushed ((station i inside).held allowed) (station i inside)
  | finish t i known here buf part apart =>
    obtain ⟨steady,core⟩ := finishHead (s.threads.port i) buf
    refine plain.beside ((Beside.setPort _).setFilled _) steady.2 fun inside => ?_
    show Sound (w i) (((s.threads.setPort i _).setFilled i _).station i)
    rw [stationSetFilled,stationSetPort,core]
    exact ⟨(station i inside).config,(station i inside).laid,(station i inside).level,(station i inside).live,
      (station i inside).off,
      (station i inside).locked⟩
  | @settle p filled i known b u reply busy called ran =>
    obtain ⟨cntrl,cases⟩ := recycleHead ran
    have access : p.cntrl.dbAccess = s.threads.host.cntrl.dbAccess := by rw [cntrl]; exact (countKeeps _ _ _).1.2
    refine plain.beside (((Beside.setPort p).setTurn _).setFilled _) access fun inside => ?_
    have before := station i inside
    rw [busy] at before
    obtain ⟨level,sound⟩ := soundCalled before
    show Sound (w i) ((((s.threads.setPort i p).setTurn i _).setFilled i _).station i)
    rw [stationSetFilled,stationSetTurn,stationSetPort]
    rcases cases with ⟨-,core⟩ | ⟨-,-,free,core⟩
    · rw [core]
      exact sound.reshape (.refl _) (.inr level) sound.locked
    · rw [core]
      exact soundPush level free sound
  | @prepareFinish h err t i known here inTime reply stands ran =>
    obtain ⟨touched,cntrl,outcome⟩ := prepareFinishHead ran
    refine plain.beside ((Beside.withHost ((Touches.setChan i _ _).trans touched)).setOp _)
      (congrArg Cntrl.dbAccess cntrl) fun inside => ?_
    have before := station i inside
    rw [stands] at before
    have waited := waitCore (s.chan i) inTime
    have tre : (waitForCompletion (s.chan i) inTime).1.treRing = (s.chan i).core.tre := congrArg Core.tre waited
    have alloc : (waitForCompletion (s.chan i) inTime).1.preAlloc = (s.chan i).core.preAlloc := congrArg Core.preAlloc waited
    show Sound (w i) (((s.threads.withHost h).setOp i _).station i)
    rw [stationSetOp,stationWithHost]
    rw [setChanSelf,waited,tre,alloc] at outcome
    rcases outcome with ⟨silent,-,core⟩ | ⟨answered,⟨client,rfl,core⟩ | ⟨filled,m,few,core⟩⟩
    · rw [core,prepareOutcome,if_pos silent]
      exact soundPhase (.abandoned (.inr rfl)) before
    · rw [core,prepareOutcome,answered]
      exact before.enable (.inl rfl)
    · rw [core,prepareOutcome,answered]
      have ends : (if err.isSome then ChanOp.unfilled else .idle) = .idle ∨
          (if err.isSome then ChanOp.unfilled else .idle) = .unfilled := by
        split
        · exact .inr rfl
        · exact .inl rfl
      exact (soundPrefill ends few filled before).2
  | filled t i here => exact plain
  | m0Enter t here locked => exact plain.withHost rfl rfl rfl
  | m0Start t here apart =>
    obtain ⟨maxChan,chans,book⟩ := m0StartHead s.threads.host
    exact plain.withHost maxChan chans (congrArg Book.dbAccess book)
  | arm t i known here asked unlocked locked => exact plain.bell fun inside => soundBell _ _ (station i inside)
  | pass t i known here unasked => exact plain
  | ring t i here based loaded => exact plain
  | skip t i here empty => exact plain
  | m0End t i here done apart => exact plain.withHost rfl rfl (congrArg Book.dbAccess (deassertBook _ _))
  | load t i loop here allowed => exact plain
  | store t i db loop here => exact plain.bell fun inside => soundBell _ _ (station i inside)
  | unarmed t i db loop here burst off => exact plain
  | choose t i db loop here due => exact plain.bell fun inside => soundBell _ _ (station i inside)
  | upper t i db loop here apart => exact plain.withHost rfl rfl rfl
  | lower t i db loop here apart => exact plain.withHost rfl rfl rfl
  | clear t i loop here => exact plain.bell fun inside => soundBell _ _ (station i inside)

end
end MhiHost.Ringing
