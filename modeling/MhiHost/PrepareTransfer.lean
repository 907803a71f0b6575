import MhiHost.RxBuffers
import MhiHost.StaleMarking
import MhiHost.Teardown

/-! `mhi_prepare_for_transfer` as a whole: both channels of a device, and the way back when
one of them fails. What the rest of the driver does meanwhile comes in at every point where
the call holds no lock on what it needs next. -/
namespace MhiHost.PrepareTransfer
open Cyclic (Window)
open RxBuffers (ringBufs bufsView)

/- What one channel's part of the call meets: what happens elsewhere at its pauses, what the
allocators and the mapping answer, whether its two waits end in time. -/
structure Course where
  pause : Nat → Host → Host
  vz : Option Nat
  inTime : Bool
  reply : Nat → Option Nat × DmaReply
  stopInTime : Bool
  script : Nat → List QueueReq

structure Outcome where
  host : Host
  err : Option Errno
  got : List Nat

def kmallocs (reply : Nat → Option Nat × DmaReply) : Nat → Nat → List Nat
  | 0, _ => []
  | left+1, i =>
    match (reply i).1 with
    | none => []
    | some buf => buf :: if (reply i).2.ok then kmallocs reply left (i + 1) else []

def started (waited : Chan × Bool) : Bool := waited.2 && decide (waited.1.ccs = EvCc.success)

section Code
variable (c : Course) (h : Host) (i : Nat)

def mhiUnprepareChannel : Option Host :=
  match unprepareOff (c.pause 3 h) i with
  | (h,false) => some h
  | (h,true) =>
    match unprepareSend (c.pause 4 h) i with
    | (h,.waiting) => unprepareFinish (stopWaiting (c.pause 5 h) i true c.stopInTime) i c.script
    | (h,_) => unprepareFinish h i c.script

/- The end of the wait for START; past an answered one an error is of the pre-allocation. -/
def prepareAnswered : Option Outcome :=
  let waited := waitForCompletion (h.chans i) c.inTime
  let got := if started waited && waited.1.preAlloc then
      kmallocs c.reply (getNrAvailRingElements waited.1.treRing).toNat 0 else []
  match prepareFinish (h.setChan i waited.1) i waited.2 c.reply with
  | (h,none) => some ⟨h,none,got⟩
  | (h,some e) => if started waited then (mhiUnprepareChannel c h i).map (⟨·,some e,got⟩) else some ⟨h,some e,got⟩

def mhiPrepareChannel : Option Outcome :=
  match prepareBegin (c.pause 0 h) i c.vz with
  | (h,some e) => some ⟨h,some e,[]⟩
  | (h,none) =>
    match prepareSend (c.pause 1 h) i with
    | (h,some e) => some ⟨h,some e,[]⟩
    | (h,none) => prepareAnswered c (c.pause 2 h) i

def prepareDir (dir : Option Nat) : Option Outcome :=
  match dir with
  | none => some ⟨h,none,[]⟩
  | some i => mhiPrepareChannel c h i

def unprepareDir (dir : Option Nat) : Option Host :=
  match dir with
  | none => some h
  | some i => mhiUnprepareChannel c h i

end Code

/- Uplink first; only a downlink channel that fails has something to be taken back. -/
def mhiPrepareForTransfer (d : Device) (ul dl : Course) (h : Host) : Option Outcome := do
  let up ← prepareDir ul h d.ulChan
  if up.err.isSome then some up
  else
    let down ← prepareDir dl up.host d.dlChan
    if down.err.isSome then
      let h ← unprepareDir ul down.host d.ulChan
      some ⟨h,down.err,up.got ++ down.got⟩
    else some ⟨down.host,none,up.got ++ down.got⟩

def channels (d : Device) : List Nat := d.ulChan.toList ++ d.dlChan.toList

def Untouched (ch ch' : Chan) : Prop := ∃ n ccs cfg db,
  ch' = {ch with completion := n, ccs := ccs, dbCfg := cfg, treRing := {ch.treRing with ctxtWp := db}}

def Located (e : MhiEvent) : Prop := ∃ (w : Window) (a t : Nat), w.size = sizeofMhiTre ∧ e.ring.Over w ∧
  e.ring.rp = w.slot a ∧ mhiToVirtual e.ring e.ctxtRp = w.slot t

def Marks (h : Host) (i : Nat) : Prop :=
  (h.chans i).offloadCh = false → ∃ e, h.events[(h.chans i).erIndex]? = some e ∧ Located e

/- What `parse_ch_cfg`, `mhi_init_dev_ctxt` and `mhi_create_devices` fix of a device's channel.
`parse_ch_cfg` makes a pre-allocated channel an inbound one; that it is no offload channel as
well is assumed, its rings could not be filled. -/
structure Built (w : Window) (ch : Chan) : Prop where
  named : ∃ ee : ExecEnv, ee.bit &&& ch.eeMask ≠ 0
  core : ch.preAlloc = true → ch.dir = .fromDevice ∧ ch.offloadCh = false
  laid : ch.offloadCh = false → w.size = sizeofMhiTre ∧ ch.treRing.Over w
  locals : 0 < ch.bufRing.elements ∧ ch.bufRing.elements < 2 ^ 32
  noBus : ch.bufRing.iommuBase = 0

structure Attached (w : Nat → Window) (d : Device) (h : Host) : Prop where
  built : ∀ i ∈ channels d, Built (w i) (h.chans i)
  marks : ∀ i ∈ channels d, Marks h i
  uplink : ∀ i, d.ulChan = some i → (h.chans i).dir ≠ .fromDevice
  apart : ∀ i, ¬(d.ulChan = some i ∧ d.dlChan = some i)

structure Elsewhere (d : Device) (h h' : Host) : Prop where
  pending : h'.cntrl.pendingPkts = h.cntrl.pendingPkts
  chans : ∀ i ∈ channels d, Untouched (h.chans i) (h'.chans i)
  marks : (∀ i ∈ channels d, Marks h i) → ∀ i ∈ channels d, Marks h' i

structure Course.Fair (c : Course) (d : Device) (elements : Nat) : Prop where
  pause : ∀ n h, Elsewhere d h (c.pause n h)
  block : ∀ base, c.vz = some base → Allocated base (sizeofMhiBufInfo * elements)

def outstanding (w : Nat → Window) (h : Host) (i : Nat) : Nat := (Ring.outstanding (w i) (h.chans i).treRing).length
def freed (d : Device) (h : Host) : List Nat := (channels d).flatMap fun i => (h.chans i).freed

structure Undone (w : Nat → Window) (d : Device) (h : Host) (out : Outcome) : Prop where
  state : ∀ i ∈ channels d, (out.host.chans i).chState = (h.chans i).chState
  base : ∀ i ∈ channels d, (out.host.chans i).bufRing.base = (h.chans i).bufRing.base
  tres : ∀ i ∈ channels d, outstanding w out.host i = outstanding w h i
  pending : out.host.cntrl.pendingPkts = h.cntrl.pendingPkts
  once : (freed d out.host).Perm (freed d h ++ out.got)

def AllOrNothing (w : Nat → Window) (d : Device) (h : Host) : Prop :=
  ∀ ul dl : Course, (∀ i, d.ulChan = some i → ul.Fair d (h.chans i).bufRing.elements) →
    (∀ i, d.dlChan = some i → dl.Fair d (h.chans i).bufRing.elements) →
      ∃ out, mhiPrepareForTransfer d ul dl h = some out ∧
        (out.err = none → ∀ i ∈ channels d, (out.host.chans i).chState = .enabled) ∧
        (out.err ≠ none → Undone w d h out)

def Fits (ch : Chan) : Prop := ch.preAlloc = true → ch.treRing.elements ≤ ch.bufRing.elements+1

def Clean (w : Window) (ch : Chan) : Prop := ch.chState = .disabled → ch.offloadCh = false →
  ch.bufRing.base = 0 ∧ (Ring.outstanding w ch.treRing).length = 0 ∧ Fits ch

section Frames
variable {w : Window} {ch mid ch' : Chan}

theorem untouchedRefl (ch : Chan) : Untouched ch ch := ⟨ch.completion,ch.ccs,ch.dbCfg,ch.treRing.ctxtWp,rfl⟩

theorem Untouched.trans (first : Untouched ch mid) (second : Untouched mid ch') : Untouched ch ch' := by
  obtain ⟨_,_,_,_,one⟩ := first
  obtain ⟨n,ccs,cfg,db,two⟩ := second
  exact ⟨n,ccs,cfg,db,by rw [two,one]⟩

structure Kin (w : Window) (ch ch' : Chan) : Prop where
  chan : ch'.chan = ch.chan
  erIndex : ch'.erIndex = ch.erIndex
  eeMask : ch'.eeMask = ch.eeMask
  dir : ch'.dir = ch.dir
  preAlloc : ch'.preAlloc = ch.preAlloc
  offloadCh : ch'.offloadCh = ch.offloadCh
  elements : ch'.bufRing.elements = ch.bufRing.elements
  iommuBase : ch'.bufRing.iommuBase = ch.bufRing.iommuBase
  spans : ch.treRing.Over w → ch'.treRing.Over w

theorem kinRefl (w : Window) (ch : Chan) : Kin w ch ch := ⟨rfl,rfl,rfl,rfl,rfl,rfl,rfl,rfl,id⟩

theorem Kin.trans (first : Kin w ch mid) (second : Kin w mid ch') : Kin w ch ch' :=
  ⟨second.chan.trans first.chan,second.erIndex.trans first.erIndex,second.eeMask.trans first.eeMask,second.dir.trans first.dir,
    second.preAlloc.trans first.preAlloc,second.offloadCh.trans first.offloadCh,second.elements.trans first.elements,
    second.iommuBase.trans first.iommuBase,fun spans => second.spans (first.spans spans)⟩

theorem Untouched.kin (same : Untouched ch ch') : Kin w ch ch' := by
  obtain ⟨n,ccs,cfg,db,is⟩ := same
  subst is
  exact ⟨rfl,rfl,rfl,rfl,rfl,rfl,rfl,rfl,fun spans => spans.moved _ _ _ _⟩

theorem Kin.built (kin : Kin w ch ch') (built : Built w ch) : Built w ch' where
  named := kin.eeMask ▸ built.named
  core := by
    rw [kin.preAlloc,kin.dir,kin.offloadCh]
    exact built.core
  laid := fun own => ⟨(built.laid (kin.offloadCh.symm.trans own)).1,kin.spans (built.laid (kin.offloadCh.symm.trans own)).2⟩
  locals := by
    rw [kin.elements]
    exact built.locals
  noBus := kin.iommuBase.trans built.noBus

end Frames

section Hosts
variable {w : Nat → Window} {d : Device} {i : Nat} {h mid h' : Host}

structure Within (w : Nat → Window) (d : Device) (i : Nat) (h h' : Host) : Prop where
  pending : h'.cntrl.pendingPkts = h.cntrl.pendingPkts
  others : ∀ j ∈ channels d, j ≠ i → Untouched (h.chans j) (h'.chans j)
  own : Kin (w i) (h.chans i) (h'.chans i)
  marks : ∀ j ∈ channels d, Marks h' j

theorem Within.trans (first : Within w d i h mid) (second : Within w d i mid h') : Within w d i h h' :=
  ⟨second.pending.trans first.pending,fun j member other => (first.others j member other).trans (second.others j member other),
    first.own.trans second.own,second.marks⟩

theorem Within.attached (within : Within w d i h h') (attached : Attached w d h) : Attached w d h' := by
  have kin : ∀ j ∈ channels d, Kin (w j) (h.chans j) (h'.chans j) := by
    intro j member
    rcases eq_or_ne j i with rfl | other
    · exact within.own
    · exact (within.others j member other).kin
  refine ⟨fun j member => (kin j member).built (attached.built j member),within.marks,fun j is => ?_,attached.apart⟩
  rw [(kin j (List.mem_append_left _ (by simp [is]))).dir]
  exact attached.uplink j is

theorem elsewhereWithin (attached : Attached w d h) (elsewhere : Elsewhere d h h') (member : i ∈ channels d) :
    Within w d i h h' ∧ Untouched (h.chans i) (h'.chans i) :=
  ⟨⟨elsewhere.pending,fun j member _ => elsewhere.chans j member,(elsewhere.chans i member).kin,elsewhere.marks attached.marks⟩,
    elsewhere.chans i member⟩

theorem setWithin {ch : Chan} (attached : Attached w d h) (pending : h'.cntrl.pendingPkts = h.cntrl.pendingPkts)
    (events : h'.events = h.events) (chans : h'.chans = Function.update h.chans i ch) (kin : Kin (w i) (h.chans i) ch) :
    Within w d i h h' := by
  have same : h'.chans i = ch := by
    rw [chans]
    exact Function.update_self _ _ _
  have others : ∀ j, j ≠ i → h'.chans j = h.chans j := by
    intro j other
    rw [chans]
    exact Function.update_of_ne other _ _
  refine ⟨pending,fun j _ other => ?_,same ▸ kin,fun j member => ?_⟩
  · rw [others j other]
    exact untouchedRefl _
  · have marks := attached.marks j member
    unfold Marks at marks ⊢
    rw [events]
    rcases eq_or_ne j i with rfl | other
    · rw [same,kin.offloadCh,kin.erIndex]
      exact marks
    · rw [others j other]
      exact marks

theorem stillWithin (attached : Attached w d h) (pending : h'.cntrl.pendingPkts = h.cntrl.pendingPkts)
    (events : h'.events = h.events) (chans : h'.chans = h.chans) : Within w d i h h' :=
  setWithin attached pending events (chans.trans (Function.update_eq_self i h.chans).symm) (kinRefl _ _)

end Hosts

/-! One channel, up to its START. -/
section Starting
variable {w : Nat → Window} {d : Device} {i : Nat} {h h' : Host} {err : Option Errno}

structure Fresh (w : Window) (ch : Chan) : Prop where
  tre : ch.treRing.Holds w 0 0
  buf : ∃ wb : Window, wb.count = ch.bufRing.elements ∧ ch.bufRing.Holds wb 0 0
  mem : ch.bufMem = fun _ => BufInfo.zero

structure Alien (before after : Chan) : Prop where
  base : after.bufRing.base = before.bufRing.base
  rp : after.treRing.rp = before.treRing.rp
  wp : after.treRing.wp = before.treRing.wp

structure Open (w : Window) (before ch : Chan) : Prop where
  state : ch.chState = .disabled
  freed : ch.freed = before.freed
  alien : before.offloadCh = true → Alien before ch
  own : before.offloadCh = false → Fresh w ch

structure NoMemory (before after : Chan) : Prop where
  was : before.chState = .disabled
  own : before.offloadCh = false
  state : after.chState = .disabled
  base : after.bufRing.base = 0
  rp : after.treRing.rp = before.treRing.rp
  wp : after.treRing.wp = before.treRing.wp
  freed : after.freed = before.freed

theorem Open.untouched {w : Window} {before ch ch' : Chan} (opened : Open w before ch) (same : Untouched ch ch') :
    Open w before ch' := by
  obtain ⟨n,ccs,cfg,db,is⟩ := same
  subst is
  refine ⟨opened.state,opened.freed,fun alien => ?_,fun own => ?_⟩
  · have kept := opened.alien alien
    exact ⟨kept.base,kept.rp,kept.wp⟩
  · have fresh := opened.own own
    exact ⟨fresh.tre.rung db,fresh.buf,fresh.mem⟩

theorem freshInit {w : Window} {ch : Chan} {base : Nat} (built : Built w ch) (own : ch.offloadCh = false)
    (block : Allocated base (sizeofMhiBufInfo * ch.bufRing.elements)) : Fresh w (mhiInitChanCtxt ch (some base)).1 := by
  have fits := block.2
  have noBus := built.noBus
  let wb : Window := ⟨base,sizeofMhiBufInfo,ch.bufRing.elements,by decide,built.locals.1⟩
  have fifo : Fifo (fun _ _ => True) w wb (mhiInitChanCtxt ch (some base)).1 0 0 (handed ch) :=
    Fifo.fresh (built.laid own).2 block rfl rfl rfl (by omega)
  exact ⟨fifo.tre,⟨wb,rfl,fifo.buf⟩,rfl⟩

theorem beginRuns {vz : Option Nat} (attached : Attached w d h) (member : i ∈ channels d)
    (block : ∀ base, vz = some base → Allocated base (sizeofMhiBufInfo * (h.chans i).bufRing.elements))
    (ran : prepareBegin h i vz = (h',err)) : Within w d i h h' ∧
      (err ≠ none ∧ (h' = h ∨ NoMemory (h.chans i) (h'.chans i)) ∨
        err = none ∧ (h.chans i).chState = .disabled ∧ Open (w i) (h.chans i) (h'.chans i)) := by
  have built := attached.built i member
  have still : Within w d i h h := stillWithin attached rfl rfl rfl
  unfold prepareBegin at ran
  dsimp only at ran
  split at ran
  · cases ran
    exact ⟨still,.inl ⟨by simp,.inl rfl⟩⟩
  split at ran
  · cases ran
    exact ⟨still,.inl ⟨by simp,.inl rfl⟩⟩
  rename_i off
  have off : (h.chans i).chState = .disabled := not_not.mp off
  split at ran
  · rename_i alien
    cases ran
    refine ⟨setWithin attached rfl rfl rfl ⟨rfl,rfl,rfl,rfl,rfl,rfl,rfl,rfl,id⟩,.inr ⟨rfl,off,?_⟩⟩
    rw [setChanSelf]
    refine ⟨off,rfl,fun _ => ⟨rfl,rfl,rfl⟩,fun own => ?_⟩
    rw [own] at alien
    cases alien
  · rename_i own
    have own : (h.chans i).offloadCh = false := eq_false_of_ne_true own
    cases vz with
    | none =>
      simp only [mhiInitChanCtxt] at ran
      cases ran
      refine ⟨setWithin attached rfl rfl rfl ⟨rfl,rfl,rfl,rfl,rfl,rfl,rfl,rfl,id⟩,.inl ⟨by simp,.inr ?_⟩⟩
      rw [setChanSelf]
      exact ⟨off,own,off,rfl,rfl,rfl,rfl⟩
    | some base =>
      have fresh := freshInit built own (block base rfl)
      simp only [mhiInitChanCtxt] at ran fresh
      cases ran
      refine ⟨setWithin attached rfl rfl rfl ⟨rfl,rfl,rfl,rfl,rfl,rfl,rfl,rfl,fun spans => spans.moved _ _ _ _⟩,.inr ⟨rfl,off,?_⟩⟩
      rw [setChanSelf]
      refine ⟨off,rfl,fun alien => ?_,fun _ => ⟨fresh.tre,fresh.buf,rfl⟩⟩
      rw [own] at alien
      cases alien

structure Closed (before after : Chan) (got : List Nat) : Prop where
  state : after.chState = .disabled
  alien : before.offloadCh = true → Alien before after
  own : before.offloadCh = false → after.bufRing.base = 0 ∧ after.treRing.rp = after.treRing.wp
  freed : (before.offloadCh = false → Fits before) → after.freed.Perm (before.freed ++ got)

theorem Open.closed {w : Window} {before ch : Chan} (opened : Open w before ch) (kin : Kin w before ch) :
    Closed before (deinitOwned ch) [] := by
  unfold deinitOwned
  cases owned : ch.offloadCh with
  | true =>
    rw [if_pos rfl]
    refine ⟨opened.state,opened.alien,fun own => ?_,fun _ => ?_⟩
    · rw [kin.offloadCh,own] at owned
      cases owned
    · rw [opened.freed,List.append_nil]
  | false =>
    rw [if_neg (by simp)]
    refine ⟨opened.state,fun alien => ?_,fun own => ?_,fun _ => ?_⟩
    · rw [kin.offloadCh,alien] at owned
      cases owned
    · have fresh := opened.own own
      exact ⟨rfl,(Ring.emptyIff fresh.tre).mpr rfl⟩
    · show ch.freed.Perm _
      rw [opened.freed,List.append_nil]

theorem deinitKin (w : Window) (ch : Chan) : Kin w ch (deinitOwned ch) := by
  unfold deinitOwned
  split
  · exact kinRefl _ _
  · exact ⟨rfl,rfl,rfl,rfl,rfl,rfl,rfl,rfl,id⟩

theorem commandSent {chan : Nat} {cmd : CmdType} (ran : mhiSendCmd {h with cntrl := wakeToggle h.cntrl} chan cmd = (h',err)) :
    h'.cntrl.pendingPkts = h.cntrl.pendingPkts ∧ h'.events = h.events ∧ h'.chans = h.chans := by
  obtain ⟨_,chans,book⟩ := sendCmdView ran
  refine ⟨congrArg Book.pending (book.trans (wakeToggleBook _)),?_,chans⟩
  unfold mhiSendCmd at ran
  split at ran
  · cases ran
    rfl
  · dsimp only at ran
    split at ran <;> cases ran <;> rfl

theorem sendRuns (attached : Attached w d h) (ran : prepareSend h i = (h',err)) : Within w d i h h' ∧
    (err ≠ none ∧ h'.chans i = deinitOwned (h.chans i) ∨ err = none ∧ h'.chans i = h.chans i) := by
  unfold prepareSend at ran
  split at ran
  · cases ran
    exact ⟨setWithin attached rfl rfl rfl (deinitKin _ _),.inl ⟨by simp,setChanSelf _ _ _⟩⟩
  · cases sent : mhiSendCmd {h with cntrl := wakeToggle h.cntrl} (h.chans i).chan .startChan with
    | mk mid e =>
      obtain ⟨pending,events,chans⟩ := commandSent sent
      rw [sent] at ran
      cases e with
      | some e =>
        cases ran
        refine ⟨setWithin attached pending events ?_ (deinitKin _ _),.inl ⟨by simp,?_⟩⟩
        · show Function.update mid.chans i (deinitOwned (mid.chans i)) = _
          rw [chans]
        · rw [setChanSelf,chans]
      | none =>
        cases ran
        exact ⟨stillWithin attached pending events chans,.inr ⟨rfl,congrFun chans i⟩⟩

end Starting

/-! The way back of a channel that has been enabled. -/
section Stopping
variable {w : Nat → Window} {d : Device} {i : Nat} {h h' : Host}

theorem ringBufsSame {ch ch' : Chan} (mem : ch'.bufMem = ch.bufMem) (ring : ch'.bufRing = ch.bufRing) (n : Nat) :
    ringBufs ch' n = ringBufs ch n := by
  induction n generalizing ch ch' with
  | zero => rfl
  | succ n ih =>
    rw [ringBufs,ringBufs,mem,ring]
    exact congrArg _ (ih rfl rfl)

theorem resetNone {w : Window} {p : Port} {a fuel n : Nat} (script : Nat → List QueueReq) (tre : p.chan.treRing.Holds w a a) :
    ∃ rp rp', rp = p.chan.treRing.wp ∧ resetLoop script fuel n p = some {p with chan := {p.chan with
      treRing := {p.chan.treRing with rp := rp}
      bufRing := {p.chan.bufRing with rp := rp'}
      freed := p.chan.freed ++ ringBufs p.chan (a-a)}} := by
  have empty := (Ring.emptyIff tre).mpr rfl
  refine ⟨p.chan.treRing.rp,p.chan.bufRing.rp,empty,?_⟩
  have nothing : p.chan.freed ++ ringBufs p.chan (a-a) = p.chan.freed := by
    rw [Nat.sub_self,ringBufs,List.append_nil]
  rw [nothing]
  cases fuel <;> rw [resetLoop,if_pos empty]

theorem resetFrees {w : Window} {p : Port} {a b fuel n : Nat} (script : Nat → List QueueReq) (tre : p.chan.treRing.Holds w a b)
    (core : p.chan.preAlloc = true) (dir : p.chan.dir = .fromDevice) (enough : b-a ≤ fuel) :
    ∃ rp rp', rp = p.chan.treRing.wp ∧ resetLoop script fuel n p = some {p with chan := {p.chan with
      treRing := {p.chan.treRing with rp := rp}
      bufRing := {p.chan.bufRing with rp := rp'}
      freed := p.chan.freed ++ ringBufs p.chan (b-a)}} := by
  have ordered := tre.ordered
  induction fuel generalizing p a n with
  | zero =>
    have same : a = b := by omega
    subst same
    exact resetNone script tre
  | succ fuel ih =>
    rcases Nat.eq_or_lt_of_le ordered with same | filled
    · subst same
      exact resetNone script tre
    · have more : ¬p.chan.treRing.rp = p.chan.treRing.wp := fun empty => Nat.ne_of_lt filled ((Ring.emptyIff tre).mp empty)
      have one : resetOne (script n) p = {p with chan := {p.chan with
          treRing := mhiDelRingElement p.chan.treRing
          bufRing := mhiDelRingElement p.chan.bufRing
          freed := p.chan.freed ++ [(p.chan.bufMem p.chan.bufRing.rp).cbBuf]}} := by
        unfold resetOne
        dsimp only
        rw [if_pos core,dir]
        rfl
      have left : b-a = (b-(a+1))+1 := by omega
      have fewer := Ring.delHolds tre filled
      obtain ⟨rp,rp',last,ran⟩ := @ih {p with chan := {p.chan with
          treRing := mhiDelRingElement p.chan.treRing
          bufRing := mhiDelRingElement p.chan.bufRing
          freed := p.chan.freed ++ [(p.chan.bufMem p.chan.bufRing.rp).cbBuf]}} (a+1) (n+1) fewer core dir (by omega) filled
      refine ⟨rp,rp',last,?_⟩
      have rest : p.chan.freed ++ ringBufs p.chan (b-a) = (p.chan.freed ++ [(p.chan.bufMem p.chan.bufRing.rp).cbBuf]) ++
          ringBufs {p.chan with
            treRing := mhiDelRingElement p.chan.treRing
            bufRing := mhiDelRingElement p.chan.bufRing
            freed := p.chan.freed ++ [(p.chan.bufMem p.chan.bufRing.rp).cbBuf]} (b-(a+1)) := by
        have same : ringBufs {p.chan with bufRing := mhiDelRingElement p.chan.bufRing} (b-(a+1)) = ringBufs {p.chan with
            treRing := mhiDelRingElement p.chan.treRing
            bufRing := mhiDelRingElement p.chan.bufRing
            freed := p.chan.freed ++ [(p.chan.bufMem p.chan.bufRing.rp).cbBuf]} (b-(a+1)) := by
          apply ringBufsSame <;> rfl
        rw [left,ringBufs,same,List.append_assoc,List.singleton_append]
      rw [resetLoop,if_neg more,one,ran,rest]
      rfl

def Loaded (w : Window) (ch : Chan) (bufs : List Nat) : Prop :=
  bufs = [] ∧ ch.treRing.rp = ch.treRing.wp ∨ ch.preAlloc = true ∧ ch.dir = .fromDevice ∧ ∃ a b,
    ch.treRing.Holds w a b ∧ ringBufs ch (b-a) = bufs

theorem Loaded.untouched {w : Window} {ch ch' : Chan} {bufs : List Nat} (loaded : Loaded w ch bufs) (same : Untouched ch ch') :
    Loaded w ch' bufs := by
  obtain ⟨n,ccs,cfg,db,is⟩ := same
  subst is
  rcases loaded with empty | ⟨core,dir,a,b,tre,view⟩
  · exact .inl empty
  · exact .inr ⟨core,dir,a,b,tre.rung db,by rw [← view]; apply ringBufsSame <;> rfl⟩

theorem Loaded.state {w : Window} {ch : Chan} {bufs : List Nat} (loaded : Loaded w ch bufs) (st : ChState) :
    Loaded w {ch with chState := st} bufs := by
  rcases loaded with empty | ⟨core,dir,a,b,tre,view⟩
  · exact .inl empty
  · exact .inr ⟨core,dir,a,b,tre,by rw [← view]; apply ringBufsSame <;> rfl⟩

theorem marksRuns (attached : Attached w d h) (member : i ∈ channels d) (own : (h.chans i).offloadCh = false) :
    ∃ h', resetBegin h i = some h' ∧ h'.cntrl = h.cntrl ∧ h'.chans = h.chans ∧ ∀ j ∈ channels d, Marks h' j := by
  obtain ⟨e,found,wr,a,t,tres,spans,rp,goal⟩ := attached.marks i member own
  obtain ⟨m,near,last⟩ := wr.slotAhead a t
  rw [last] at goal
  have elements := spans.elements
  obtain ⟨mem,ran,-⟩ := @StaleMarking.staleRun wr (h.chans i).chan a (a+m) e e.ring.elements spans tres (by omega) (by omega) (by omega)
  rw [← rp,← goal] at ran
  refine ⟨{h with events := h.events.set (h.chans i).erIndex {e with mem := mem}},?_,rfl,rfl,fun j inside own' => ?_⟩
  · unfold resetBegin mhiMarkStaleEvents
    rw [found]
    dsimp only
    rw [ran]
    rfl
  · obtain ⟨e',found',located⟩ := attached.marks j inside own'
    show ∃ e'', (h.events.set (h.chans i).erIndex {e with mem := mem})[(h.chans j).erIndex]? = some e'' ∧ Located e''
    by_cases same : (h.chans i).erIndex = (h.chans j).erIndex
    · rw [← same]
      have known := (List.getElem?_eq_some_iff.mp found).1
      rw [List.getElem?_set_self known]
      exact ⟨_,rfl,wr,a,a+m,tres,spans,rp,goal⟩
    · rw [List.getElem?_set_ne same]
      exact ⟨e',found',located⟩

structure Stopped (before after : Chan) (bufs : List Nat) : Prop where
  state : after.chState = .disabled
  alien : before.offloadCh = true → Alien before after ∧ after.freed = before.freed
  own : before.offloadCh = false → after.bufRing.base = 0 ∧ after.treRing.rp = after.treRing.wp ∧
    after.freed = before.freed ++ bufs

theorem loadedReset {w : Window} {p : Port} {bufs : List Nat} (script : Nat → List QueueReq) (spans : p.chan.treRing.Over w)
    (loaded : Loaded w p.chan bufs) : ∃ tre buf, mhiResetDataChan script p = some {p with chan := {p.chan with
      treRing := {p.chan.treRing with rp := tre}
      bufRing := {p.chan.bufRing with rp := buf}
      freed := p.chan.freed ++ bufs}} ∧ tre = p.chan.treRing.wp := by
  unfold mhiResetDataChan
  rcases loaded with ⟨none,empty⟩ | ⟨core,dir,a,b,tre,view⟩
  · refine ⟨p.chan.treRing.rp,p.chan.bufRing.rp,?_,empty⟩
    have counted := w.counted
    have elements := spans.elements
    obtain ⟨fuel,some⟩ : ∃ fuel, p.chan.treRing.elements = fuel+1 := ⟨p.chan.treRing.elements-1,by omega⟩
    rw [some,resetLoop,if_pos empty,none,List.append_nil]
  · have room := tre.room
    have elements := tre.spans.elements
    obtain ⟨rp,rp',last,ran⟩ := resetFrees (n := 0) script tre core dir (show b-a ≤ p.chan.treRing.elements by omega)
    rw [view] at ran
    exact ⟨rp,rp',ran,last⟩

theorem finishStops {bufs : List Nat} (script : Nat → List QueueReq) (attached : Attached w d h) (member : i ∈ channels d)
    (state : (h.chans i).chState = .disabled) (loaded : (h.chans i).offloadCh = false → Loaded (w i) (h.chans i) bufs) :
    ∃ h', unprepareFinish h i script = some h' ∧ Within w d i h h' ∧ Stopped (h.chans i) (h'.chans i) bufs := by
  unfold unprepareFinish mhiResetChan
  cases owned : (h.chans i).offloadCh with
  | true =>
    rw [if_pos rfl]
    refine ⟨h,rfl,stillWithin attached rfl rfl rfl,state,fun _ => ⟨⟨rfl,rfl,rfl⟩,rfl⟩,fun own => ?_⟩
    rw [owned] at own
    cases own
  | false =>
    rw [if_neg (by simp)]
    obtain ⟨mid,marked,cntrl,chans,marks⟩ := marksRuns attached member owned
    have spans := ((attached.built i member).laid owned).2
    have port : mid.port i = h.port i := by
      unfold Host.port
      rw [cntrl,chans]
    obtain ⟨tre,buf,reset,done⟩ := @loadedReset (w i) (h.port i) bufs script spans (loaded owned)
    rw [← port] at reset
    have still : Within w d i h mid := ⟨congrArg Cntrl.pendingPkts cntrl,fun j _ _ => by rw [chans]; exact untouchedRefl _,
      by rw [chans]; exact kinRefl _ _,marks⟩
    have last : (h.chans i).treRing.Over (w i) → ∀ rp, ({(h.chans i).treRing with rp := rp} : Ring).Over (w i) :=
      fun spans rp => spans.moved rp _ _ _
    refine ⟨_,by rw [marked]; dsimp only [bind,Option.bind]; rw [if_neg (by simp),reset],?_,?_⟩
    · refine still.trans (setWithin (still.attached attached) rfl rfl (Function.update_idem _ _ _) ?_)
      rw [setPortSelf,port,chans]
      exact ⟨rfl,rfl,rfl,rfl,rfl,rfl,rfl,rfl,fun spans => last spans tre⟩
    · rw [setChanSelf,setPortSelf,port]
      refine ⟨state,fun alien => ?_,fun _ => ⟨rfl,done,rfl⟩⟩
      rw [owned] at alien
      cases alien

theorem Stopped.since {before ch after : Chan} {bufs : List Nat} (stopped : Stopped ch after bufs)
    (same : Untouched {before with chState := .disabled} ch) : Stopped before after bufs := by
  obtain ⟨n,ccs,cfg,db,is⟩ := same
  subst is
  refine ⟨stopped.state,fun alien => ?_,stopped.own⟩
  obtain ⟨rings,freed⟩ := stopped.alien alien
  exact ⟨⟨rings.base,rings.rp,rings.wp⟩,freed⟩

theorem waitUntouched (ch : Chan) (inTime : Bool) : Untouched ch (waitForCompletion ch inTime).1 := by
  unfold waitForCompletion
  split
  · unfold takeCompletion
    dsimp only
    split
    · exact untouchedRefl ch
    · exact ⟨ch.completion-1,ch.ccs,ch.dbCfg,ch.treRing.ctxtWp,rfl⟩
  · exact untouchedRefl ch

theorem waitWithin {inTime : Bool} (attached : Attached w d h) :
    Within w d i h (h.setChan i (waitForCompletion (h.chans i) inTime).1) :=
  setWithin attached rfl rfl rfl (waitUntouched _ _).kin

theorem stopSends {out : Unprepare} (attached : Attached w d h) (ran : unprepareSend h i = (h',out)) :
    Within w d i h h' ∧ h'.chans = h.chans := by
  unfold unprepareSend at ran
  split at ran
  · cases ran
    exact ⟨stillWithin attached rfl rfl rfl,rfl⟩
  · cases sent : mhiSendCmd {h with cntrl := wakeToggle h.cntrl} (h.chans i).chan .resetChan with
    | mk mid e =>
      obtain ⟨pending,events,chans⟩ := commandSent sent
      rw [sent] at ran
      cases e with
      | some e =>
        cases ran
        exact ⟨stillWithin attached pending events chans,chans⟩
      | none =>
        cases ran
        exact ⟨stillWithin attached pending events chans,chans⟩

theorem unprepareStops {c : Course} {bufs : List Nat} (fair : ∀ n h, Elsewhere d h (c.pause n h)) (attached : Attached w d h)
    (member : i ∈ channels d) (enabled : (h.chans i).chState = .enabled)
    (loaded : (h.chans i).offloadCh = false → Loaded (w i) (h.chans i) bufs) :
    ∃ h', mhiUnprepareChannel c h i = some h' ∧ Within w d i h h' ∧ Stopped (h.chans i) (h'.chans i) bufs := by
  obtain ⟨paused,same₀⟩ := elsewhereWithin (i := i) attached (fair 3 h) member
  have on : ((c.pause 3 h).chans i).chState = .enabled := by
    obtain ⟨_,_,_,_,is⟩ := same₀
    rw [is]
    exact enabled
  let off := (c.pause 3 h).setChan i (reinitCompletion {(c.pause 3 h).chans i with chState := .disabled})
  have begun : unprepareOff (c.pause 3 h) i = (off,true) := by
    unfold unprepareOff
    rw [if_neg (by simp [on])]
  have toOff : Within w d i h off := paused.trans
    (setWithin (paused.attached attached) rfl rfl rfl ⟨rfl,rfl,rfl,rfl,rfl,rfl,rfl,rfl,id⟩)
  have ceased : Untouched {h.chans i with chState := .disabled} (off.chans i) := by
    rw [setChanSelf]
    obtain ⟨n,ccs,cfg,db,is⟩ := same₀
    exact ⟨0,ccs,cfg,db,by rw [is]; rfl⟩
  obtain ⟨paused',same₁⟩ := elsewhereWithin (i := i) (toOff.attached attached) (fair 4 off) member
  have toSend := toOff.trans paused'
  have ceased := ceased.trans same₁
  -- what the reset needs holds for every channel that has only been waited for
  have stops : ∀ mid, Within w d i h mid → Untouched {h.chans i with chState := .disabled} (mid.chans i) →
      ∃ h', unprepareFinish mid i c.script = some h' ∧ Within w d i h h' ∧ Stopped (h.chans i) (h'.chans i) bufs := by
    intro mid within since
    have state : (mid.chans i).chState = .disabled := by
      obtain ⟨_,_,_,_,is⟩ := since
      rw [is]
    have ready : (mid.chans i).offloadCh = false → Loaded (w i) (mid.chans i) bufs := by
      intro own
      exact ((loaded (within.own.offloadCh.symm.trans own)).state .disabled).untouched since
    obtain ⟨h',ran,last,stopped⟩ := finishStops c.script (within.attached attached) member state ready
    exact ⟨h',ran,within.trans last,stopped.since since⟩
  unfold mhiUnprepareChannel
  rw [begun]
  dsimp only
  cases sent : unprepareSend (c.pause 4 off) i with
  | mk mid out =>
    obtain ⟨sends,chans⟩ := stopSends (toSend.attached attached) sent
    have within := toSend.trans sends
    have since : Untouched {h.chans i with chState := .disabled} (mid.chans i) := by
      rw [chans]
      exact ceased
    cases out with
    | refused => exact stops mid within since
    | failed => exact stops mid within since
    | waiting =>
      obtain ⟨paused'',same₂⟩ := elsewhereWithin (i := i) (within.attached attached) (fair 5 mid) member
      have waits := within.trans paused''
      refine stops _ (waits.trans (waitWithin (waits.attached attached))) ?_
      show Untouched _ (((c.pause 5 mid).setChan i _).chans i)
      rw [setChanSelf]
      exact (since.trans same₂).trans (waitUntouched _ _)

end Stopping

/-! The pre-allocation. -/
section Filling
variable {w wb : Window} {p out : Port} {reply : Nat → Option Nat × DmaReply} {err : Option Errno}

def bufInfo (p : Port) (buf : Nat) : BufInfo := {BufInfo.zero with vAddr := buf, cbBuf := buf, len := p.cntrl.bufferLen}

theorem genTreRuns (p : Port) (buf : Nat) (answer : DmaReply) : ∃ b tre, b.cbBuf = buf ∧
    mhiGenTre p (bufInfo p buf) MhiFlags.eot answer =
      if answer.ok then
        ({p with chan := {p.chan with
          bufMem := Function.update p.chan.bufMem p.chan.bufRing.wp b
          treMem := Function.update p.chan.treMem p.chan.treRing.wp tre
          treRing := mhiAddRingElement p.chan.treRing
          bufRing := mhiAddRingElement p.chan.bufRing}},none)
      else ({p with chan := {p.chan with bufMem := Function.update p.chan.bufMem p.chan.bufRing.wp b}},some .enomem) := by
  have filled : (fillBufInfo p (bufInfo p buf) answer).1.cbBuf = buf ∧
      (fillBufInfo p (bufInfo p buf) answer).2 = if answer.ok then none else some .enomem := by
    unfold fillBufInfo mapSingle mhiMapSingleUseBb mhiMapSingleNoBb
    cases p.cntrl.bounceBuf with
    | true => cases answer.ok <;> exact ⟨rfl,rfl⟩
    | false => cases answer.ok <;> exact ⟨rfl,rfl⟩
  obtain ⟨cb,mapped⟩ := filled
  unfold mhiGenTre
  dsimp only
  rw [mapped]
  cases answer.ok with
  | true => exact ⟨_,_,cb,rfl⟩
  | false => exact ⟨_,⟨0,0,0⟩,cb,rfl⟩

theorem loopKin {left i : Nat} (ran : preAllocLoop reply left i p = (out,err)) :
    out.cntrl = p.cntrl ∧ out.chan.chState = p.chan.chState ∧ Kin w p.chan out.chan := by
  induction left generalizing i p with
  | zero =>
    cases ran
    exact ⟨rfl,rfl,kinRefl _ _⟩
  | succ left ih =>
    unfold preAllocLoop at ran
    cases answer : (reply i).1 with
    | none =>
      rw [answer] at ran
      cases ran
      exact ⟨rfl,rfl,kinRefl _ _⟩
    | some buf =>
      obtain ⟨b,tre,-,gen⟩ := genTreRuns p buf (reply i).2
      rw [answer] at ran
      dsimp only at ran
      unfold bufInfo at gen
      rw [gen] at ran
      cases ok : (reply i).2.ok with
      | false =>
        simp only [ok] at ran
        cases ran
        exact ⟨rfl,rfl,rfl,rfl,rfl,rfl,rfl,rfl,rfl,rfl,id⟩
      | true =>
        simp only [ok] at ran
        obtain ⟨cntrl,state,kin⟩ := ih ran
        refine ⟨cntrl,state,@Kin.trans w p.chan _ out.chan ?_ kin⟩
        exact ⟨rfl,rfl,rfl,rfl,rfl,rfl,rfl,rfl,fun spans => spans.moved _ _ _ _⟩

theorem loopGivesUp {left k : Nat} {e : Errno} (room : left+k+1 = w.count) (fits : w.count ≤ wb.count+1)
    (tre : p.chan.treRing.Holds w 0 k) (buf : p.chan.bufRing.Holds wb 0 k) (ran : preAllocLoop reply left k p = (out,some e)) :
    ∃ t, out.chan.treRing.Holds w 0 t ∧ out.chan.bufRing.Holds wb 0 t ∧
      (out.chan.freed ++ (wb.view out.chan.bufMem 0 t).map BufInfo.cbBuf).Perm
        (p.chan.freed ++ (wb.view p.chan.bufMem 0 k).map BufInfo.cbBuf ++ kmallocs reply left k) := by
  induction left generalizing k p with
  | zero => cases ran
  | succ left ih =>
    unfold preAllocLoop at ran
    unfold kmallocs
    cases answer : (reply k).1 with
    | none =>
      rw [answer] at ran
      cases ran
      refine ⟨k,tre,buf,?_⟩
      rw [List.append_nil]
    | some b =>
      obtain ⟨info,cell,cb,gen⟩ := genTreRuns p b (reply k).2
      rw [answer] at ran
      dsimp only at ran
      unfold bufInfo at gen
      rw [gen] at ran
      cases ok : (reply k).2.ok with
      | false =>
        simp only [ok] at ran
        cases ran
        refine ⟨k,tre,buf,?_⟩
        show ((p.chan.freed ++ [b]) ++ (wb.view (Function.update p.chan.bufMem p.chan.bufRing.wp info) 0 k).map BufInfo.cbBuf).Perm _
        rw [buf.wp,wb.viewUpdate _ _ buf.room,List.append_assoc,List.append_assoc]
        exact List.Perm.append_left _ List.perm_append_comm
      | true =>
        simp only [ok] at ran
        have pushed : (wb.view (Function.update p.chan.bufMem p.chan.bufRing.wp info) 0 (k+1)).map BufInfo.cbBuf =
            (wb.view p.chan.bufMem 0 k).map BufInfo.cbBuf ++ [b] := by
          rw [buf.wp,wb.viewWrite _ _ (Nat.zero_le k) buf.room,List.map_append,List.map_singleton,cb]
        -- the last push may fill the local ring to the brim, but nothing can fail after it
        rcases Nat.eq_zero_or_pos left with last | more
        · subst last
          cases ran
        · obtain ⟨t,tre',buf',perm⟩ := ih (by omega) (Ring.addHolds tre (by omega)) (Ring.addHolds buf (by omega)) ran
          refine ⟨t,tre',buf',perm.trans ?_⟩
          show (p.chan.freed ++ (wb.view (Function.update p.chan.bufMem p.chan.bufRing.wp info) 0 (k+1)).map BufInfo.cbBuf ++ _).Perm _
          rw [pushed,if_pos rfl]
          simp only [List.append_assoc,List.singleton_append]
          exact List.Perm.refl _

end Filling

/-! One channel's part of the call. -/
section Channel
variable {w : Nat → Window} {d : Device} {i : Nat} {h h' : Host}

structure Empty (before after : Chan) (got : List Nat) : Prop where
  got : got = []
  freed : after.freed = before.freed
  alien : before.offloadCh = true → Alien before after
  own : before.offloadCh = false → after.treRing.rp = after.treRing.wp

inductive Ended (before after : Chan) (got : List Nat) : Option Errno → Prop where
  | refused {e} (same : Untouched before after) (none : got = []) : Ended before after got (some e)
  | noMemory {e} (lost : NoMemory before after) (none : got = []) : Ended before after got (some e)
  | closed {e} (was : before.chState = .disabled) (closed : Closed before after got) : Ended before after got (some e)
  | opened (was : before.chState = .disabled) (on : after.chState = .enabled)
      (client : before.preAlloc = false → Empty before after got) : Ended before after got none

theorem Ended.since {before ch after : Chan} {got : List Nat} {err : Option Errno} (ended : Ended ch after got err)
    (same : Untouched before ch) : Ended before after got err := by
  obtain ⟨n,ccs,cfg,db,is⟩ := same
  subst is
  cases ended with
  | refused same none => exact .refused (Untouched.trans ⟨n,ccs,cfg,db,rfl⟩ same) none
  | noMemory lost none => exact .noMemory ⟨lost.was,lost.own,lost.state,lost.base,lost.rp,lost.wp,lost.freed⟩ none
  | closed was closed =>
    refine .closed was ⟨closed.state,fun alien => ?_,closed.own,closed.freed⟩
    have kept := closed.alien alien
    exact ⟨kept.base,kept.rp,kept.wp⟩
  | opened was on client =>
    refine .opened was on fun own => ?_
    have empty := client own
    refine ⟨empty.got,empty.freed,fun alien => ?_,empty.own⟩
    have kept := empty.alien alien
    exact ⟨kept.base,kept.rp,kept.wp⟩

theorem finishUnstarted {waited : Chan × Bool} {reply : Nat → Option Nat × DmaReply} (unstarted : started waited = false) :
    prepareFinish (h.setChan i waited.1) i waited.2 reply = (h.setChan i (deinitOwned waited.1),some .eio) := by
  have missed : (!waited.2 || decide (waited.1.ccs ≠ EvCc.success)) = true := by
    unfold started at unstarted
    cases answered : waited.2 with
    | false => rfl
    | true =>
      rw [answered,Bool.true_and] at unstarted
      simpa using unstarted
  unfold prepareFinish
  rw [setChanSelf]
  dsimp only
  rw [if_pos missed]
  unfold Host.setChan
  rw [Function.update_idem]

theorem finishStarted {waited : Chan × Bool} {reply : Nat → Option Nat × DmaReply} (went : started waited = true) :
    prepareFinish (h.setChan i waited.1) i waited.2 reply =
      (h.setPort i (preAllocate ⟨h.cntrl,{waited.1 with chState := .enabled}⟩ reply).1,
        (preAllocate ⟨h.cntrl,{waited.1 with chState := .enabled}⟩ reply).2) := by
  have taken : (!waited.2 || decide (waited.1.ccs ≠ EvCc.success)) = false := by
    unfold started at went
    obtain ⟨answered,success⟩ := Bool.and_eq_true_iff.mp went
    rw [answered]
    simpa using success
  unfold prepareFinish
  rw [setChanSelf]
  dsimp only
  rw [taken,if_neg (by simp)]
  unfold Host.setPort Host.setChan
  rw [Function.update_idem]

theorem fillRuns {w : Window} {p out : Port} {reply : Nat → Option Nat × DmaReply} {err : Option Errno} (fresh : Fresh w p.chan)
    (core : p.chan.preAlloc = true) (dir : p.chan.dir = .fromDevice) (fits : p.chan.treRing.elements ≤ p.chan.bufRing.elements+1)
    (ran : preAllocate p reply = (out,err)) :
    out.cntrl.pendingPkts = p.cntrl.pendingPkts ∧ out.chan.chState = p.chan.chState ∧ Kin w p.chan out.chan ∧
      (err ≠ none → ∃ bufs, Loaded w out.chan bufs ∧
        (out.chan.freed ++ bufs).Perm (p.chan.freed ++ kmallocs reply (getNrAvailRingElements p.chan.treRing).toNat 0)) := by
  obtain ⟨wb,count,buf⟩ := fresh.buf
  have elements := fresh.tre.spans.elements
  have counted := w.counted
  have avail : (getNrAvailRingElements p.chan.treRing).toNat = w.count-1 := by
    rw [Ring.availOf fresh.tre,Int.toNat_natCast]
    omega
  unfold preAllocate at ran
  rw [if_pos core] at ran
  cases loop : preAllocLoop reply (getNrAvailRingElements p.chan.treRing).toNat 0 p with
  | mk mid e =>
    obtain ⟨cntrl,state,kin⟩ := loopKin (w := w) loop
    rw [loop] at ran
    cases e with
    | none =>
      cases ran
      have rung := congrArg Book.pending (ringIfView mid).1
      obtain ⟨db,tre⟩ := (Teardown.Alike.ringIf mid).tre
      refine ⟨rung.trans (congrArg Cntrl.pendingPkts cntrl),?_,kin.trans ?_,fun failed => absurd rfl failed⟩
      · rw [← state]
        unfold ringIfAccessible
        split <;> rfl
      · unfold ringIfAccessible
        split
        · exact ⟨rfl,rfl,rfl,rfl,rfl,rfl,rfl,rfl,fun spans => spans.moved _ _ _ _⟩
        · exact kinRefl _ _
    | some e =>
      cases ran
      have nothing : (wb.view p.chan.bufMem 0 0).map BufInfo.cbBuf = [] := by
        rw [wb.viewEmpty]
        rfl
      rw [avail] at loop
      obtain ⟨t,tre,buf',perm⟩ := loopGivesUp (by omega) (by omega) fresh.tre buf loop
      refine ⟨congrArg Cntrl.pendingPkts cntrl,state,kin,fun _ =>
        ⟨_,.inr ⟨kin.preAlloc.trans core,kin.dir.trans dir,0,t,tre,bufsView buf'⟩,?_⟩⟩
      rw [nothing,List.append_nil] at perm
      rw [avail]
      exact perm

theorem answeredEnds {c : Course} {before : Chan} (attached : Attached w d h) (member : i ∈ channels d)
    (fair : ∀ n h, Elsewhere d h (c.pause n h)) (was : before.chState = .disabled) (kin : Kin (w i) before (h.chans i))
    (opened : Open (w i) before (h.chans i)) (spans : before.offloadCh = false → before.treRing.Over (w i))
    (fits : before.offloadCh = false → Fits before) :
    ∃ out, prepareAnswered c h i = some out ∧ Within w d i h out.host ∧ Ended before (out.host.chans i) out.got out.err := by
  have same := waitUntouched (h.chans i) c.inTime
  generalize waits : waitForCompletion (h.chans i) c.inTime = waited at same
  have kin := kin.trans (same.kin (w := w i))
  have opened := opened.untouched same
  have built := (same.kin (w := w i)).built (attached.built i member)
  unfold prepareAnswered
  rw [waits]
  dsimp only
  cases went : started waited with
  | false =>
    rw [finishUnstarted went]
    refine ⟨_,rfl,setWithin attached rfl rfl rfl ((same.kin (w := w i)).trans (deinitKin _ _)),?_⟩
    rw [setChanSelf]
    exact .closed was (opened.closed kin)
  | true =>
    rw [finishStarted went]
    cases core : waited.1.preAlloc with
    | false =>
      have client : preAllocate ⟨h.cntrl,{waited.1 with chState := .enabled}⟩ c.reply =
          (⟨h.cntrl,{waited.1 with chState := .enabled}⟩,none) := if_neg (by simp [core])
      rw [client]
      refine ⟨_,rfl,setWithin attached rfl rfl rfl ((same.kin (w := w i)).trans ⟨rfl,rfl,rfl,rfl,rfl,rfl,rfl,rfl,id⟩),?_⟩
      rw [setPortSelf]
      refine .opened was rfl fun _ => ⟨rfl,opened.freed,fun alien => ?_,fun own => ?_⟩
      · have kept := opened.alien alien
        exact ⟨kept.base,kept.rp,kept.wp⟩
      · exact (Ring.emptyIff (opened.own own).tre).mpr rfl
    | true =>
      obtain ⟨dir,own⟩ := built.core core
      have own : before.offloadCh = false := kin.offloadCh.symm.trans own
      have fresh := opened.own own
      have filling : Fresh (w i) {waited.1 with chState := .enabled} := ⟨fresh.tre,fresh.buf,fresh.mem⟩
      have room : waited.1.treRing.elements ≤ waited.1.bufRing.elements+1 := by
        rw [fresh.tre.spans.elements,← (spans own).elements,kin.elements]
        exact fits own (kin.preAlloc.symm.trans core)
      cases filled : preAllocate ⟨h.cntrl,{waited.1 with chState := .enabled}⟩ c.reply with
      | mk p e =>
        obtain ⟨pending,state,kin',gaveUp⟩ := fillRuns filling core dir room filled
        have enabling : Kin (w i) waited.1 {waited.1 with chState := .enabled} := ⟨rfl,rfl,rfl,rfl,rfl,rfl,rfl,rfl,id⟩
        have within : Within w d i h (h.setPort i p) :=
          setWithin attached pending rfl rfl (((same.kin (w := w i)).trans enabling).trans kin')
        cases e with
        | none =>
          refine ⟨_,rfl,within,.opened was ?_ fun client => ?_⟩
          · rw [setPortSelf]
            exact state
          · rw [kin.preAlloc,client] at core
            cases core
        | some e =>
          obtain ⟨bufs,loaded,perm⟩ := gaveUp (by simp)
          obtain ⟨h',ran,last,stopped⟩ := unprepareStops fair (within.attached attached) member
            (by rw [setPortSelf]; exact state) (fun _ => by rw [setPortSelf]; exact loaded)
          rw [setPortSelf] at stopped
          have own' : p.chan.offloadCh = false := (kin'.offloadCh.trans kin.offloadCh).trans own
          obtain ⟨base,empty,freed⟩ := stopped.own own'
          dsimp only
          rw [if_pos rfl,ran]
          refine ⟨_,rfl,within.trans last,.closed was ⟨stopped.state,fun alien => ?_,fun _ => ⟨base,empty⟩,fun _ => ?_⟩⟩
          · rw [own] at alien
            cases alien
          · rw [freed,Bool.true_and,if_pos rfl,← opened.freed]
            exact perm

theorem prepareEnds {c : Course} (attached : Attached w d h) (member : i ∈ channels d)
    (fair : c.Fair d (h.chans i).bufRing.elements)
    (fits : (h.chans i).chState = .disabled → (h.chans i).offloadCh = false → Fits (h.chans i)) :
    ∃ out, mhiPrepareChannel c h i = some out ∧ Within w d i h out.host ∧
      Ended (h.chans i) (out.host.chans i) out.got out.err := by
  obtain ⟨paused,same₀⟩ := elsewhereWithin (i := i) attached (fair.pause 0 h) member
  unfold mhiPrepareChannel
  cases begun : prepareBegin (c.pause 0 h) i c.vz with
  | mk h₁ e =>
    obtain ⟨within,how⟩ := beginRuns (paused.attached attached) member
      (fun base is => paused.own.elements ▸ fair.block base is) begun
    have from₀ := within
    have within := paused.trans within
    cases e with
    | some e =>
      refine ⟨_,rfl,within,?_⟩
      rcases how with ⟨-,same | lost⟩ | ⟨none,-⟩
      · rw [same]
        exact .refused same₀ rfl
      · exact Ended.since (.noMemory lost rfl) same₀
      · cases none
    | none =>
      rcases how with ⟨failed,-⟩ | ⟨-,off,opened⟩
      · exact absurd rfl failed
      obtain ⟨paused',same₁⟩ := elsewhereWithin (i := i) (within.attached attached) (fair.pause 1 h₁) member
      have within := within.trans paused'
      have from₀ := from₀.trans paused'
      have opened := opened.untouched same₁
      dsimp only
      cases sent : prepareSend (c.pause 1 h₁) i with
      | mk h₂ e =>
        obtain ⟨sends,how⟩ := sendRuns (within.attached attached) sent
        have within := within.trans sends
        cases e with
        | some e =>
          refine ⟨_,rfl,within,?_⟩
          rcases how with ⟨-,closed⟩ | ⟨none,-⟩
          · rw [closed]
            exact Ended.since (.closed off (opened.closed from₀.own)) same₀
          · cases none
        | none =>
          rcases how with ⟨failed,-⟩ | ⟨-,still⟩
          · exact absurd rfl failed
          obtain ⟨paused'',same₂⟩ := elsewhereWithin (i := i) (within.attached attached) (fair.pause 2 h₂) member
          have within := within.trans paused''
          have opened : Open (w i) ((c.pause 0 h).chans i) ((c.pause 2 h₂).chans i) := (still ▸ opened).untouched same₂
          have built := (paused.attached attached).built i member
          have fits' : ((c.pause 0 h).chans i).offloadCh = false → Fits ((c.pause 0 h).chans i) := by
            obtain ⟨_,_,_,_,is⟩ := same₀
            rw [is] at off ⊢
            exact fits off
          obtain ⟨out,ran,last,ended⟩ := answeredEnds (within.attached attached) member fair.pause off
            ((from₀.trans sends).trans paused'').own opened (fun own => (built.laid own).2) fits'
          exact ⟨out,ran,within.trans last,ended.since same₀⟩

end Channel

/-! Both channels. -/
section Whole
variable {w : Nat → Window} {d : Device} {i : Nat} {h h' : Host}

structure Restored (w : Window) (before after : Chan) (got : List Nat) : Prop where
  state : after.chState = before.chState
  base : after.bufRing.base = before.bufRing.base
  tres : (Ring.outstanding w after.treRing).length = (Ring.outstanding w before.treRing).length
  freed : after.freed.Perm (before.freed ++ got)

theorem emptyLength {w : Window} {r : Ring} (empty : r.rp = r.wp) : (Ring.outstanding w r).length = 0 := by
  rw [Ring.outstanding,Window.cellsLength,empty,Window.used,Nat.add_sub_cancel_left,Nat.mod_self]

theorem sameLength {w : Window} {r r' : Ring} (rp : r'.rp = r.rp) (wp : r'.wp = r.wp) :
    (Ring.outstanding w r').length = (Ring.outstanding w r).length := by
  rw [Ring.outstanding,rp,wp]
  rfl

theorem Untouched.restored {w : Window} {before after : Chan} (same : Untouched before after) : Restored w before after [] := by
  obtain ⟨n,ccs,cfg,db,is⟩ := same
  subst is
  exact ⟨rfl,rfl,rfl,by rw [List.append_nil]⟩

theorem Restored.untouched {w : Window} {before ch after : Chan} {got : List Nat} (restored : Restored w before ch got)
    (same : Untouched ch after) : Restored w before after got := by
  obtain ⟨n,ccs,cfg,db,is⟩ := same
  subst is
  exact ⟨restored.state,restored.base,restored.tres,restored.freed⟩

theorem Restored.since {w : Window} {before ch after : Chan} {got : List Nat} (restored : Restored w ch after got)
    (same : Untouched before ch) : Restored w before after got := by
  obtain ⟨n,ccs,cfg,db,is⟩ := same
  subst is
  exact ⟨restored.state,restored.base,restored.tres,restored.freed⟩

theorem Ended.restored {w : Window} {before after : Chan} {got : List Nat} {err : Option Errno}
    (ended : Ended before after got err)
    (failed : err ≠ none) (clean : Clean w before) : Restored w before after got := by
  cases ended with
  | refused same none =>
    rw [none]
    exact same.restored
  | noMemory lost none =>
    obtain ⟨base,-,-⟩ := clean lost.was lost.own
    refine ⟨lost.state.trans lost.was.symm,lost.base.trans base.symm,sameLength lost.rp lost.wp,?_⟩
    rw [none,lost.freed,List.append_nil]
  | closed was closed =>
    cases owned : before.offloadCh with
    | true =>
      have kept := closed.alien owned
      have noRing : before.offloadCh = false → Fits before := fun own => absurd (owned.symm.trans own) (by simp)
      exact ⟨closed.state.trans was.symm,kept.base,sameLength kept.rp kept.wp,closed.freed noRing⟩
    | false =>
      obtain ⟨base,tres,fits⟩ := clean was owned
      obtain ⟨base',empty⟩ := closed.own owned
      exact ⟨closed.state.trans was.symm,base'.trans base.symm,(emptyLength empty).trans tres.symm,closed.freed fun _ => fits⟩
  | opened was on client => exact absurd rfl failed

theorem Stopped.restored {w : Window} {before ch after : Chan} {got : List Nat} (stopped : Stopped ch after [])
    (was : before.chState = .disabled)
    (empty : Empty before ch got) (offload : ch.offloadCh = before.offloadCh) (clean : Clean w before) :
    Restored w before after got := by
  cases owned : before.offloadCh with
  | true =>
    obtain ⟨back,freed⟩ := stopped.alien (offload.trans owned)
    have kept := empty.alien owned
    refine ⟨stopped.state.trans was.symm,back.base.trans kept.base,sameLength (back.rp.trans kept.rp) (back.wp.trans kept.wp),?_⟩
    rw [freed,empty.freed,empty.got,List.append_nil]
  | false =>
    obtain ⟨base,tres,-⟩ := clean was owned
    obtain ⟨base',none,freed⟩ := stopped.own (offload.trans owned)
    refine ⟨stopped.state.trans was.symm,base'.trans base.symm,(emptyLength none).trans tres.symm,?_⟩
    rw [freed,empty.freed,empty.got]

theorem undoneOf {out : Outcome} (gots : Nat → List Nat) (pending : out.host.cntrl.pendingPkts = h.cntrl.pendingPkts)
    (restored : ∀ i ∈ channels d, Restored (w i) (h.chans i) (out.host.chans i) (gots i))
    (got : out.got = (channels d).flatMap gots) :
    Undone w d h out where
  state := fun i member => (restored i member).state
  base := fun i member => (restored i member).base
  tres := fun i member => (restored i member).tres
  pending := pending
  once := by
    rw [got]
    have each : (freed d out.host).Perm ((channels d).flatMap fun i => (h.chans i).freed ++ gots i) :=
      List.Perm.flatMap_left _ fun i member => (restored i member).freed
    exact each.trans (List.flatMap_append_perm _ _ _).symm

theorem dirEnds {c : Course} {dir : Option Nat} (attached : Attached w d h) (member : ∀ i, dir = some i → i ∈ channels d)
    (fair : ∀ i, dir = some i → c.Fair d (h.chans i).bufRing.elements)
    (fits : ∀ i, dir = some i → (h.chans i).chState = .disabled → (h.chans i).offloadCh = false → Fits (h.chans i)) :
    ∃ out, prepareDir c h dir = some out ∧ Attached w d out.host ∧ (dir = none → out = ⟨h,none,[]⟩) ∧
      ∀ i, dir = some i → Within w d i h out.host ∧ Ended (h.chans i) (out.host.chans i) out.got out.err := by
  cases dir with
  | none => exact ⟨_,rfl,attached,fun _ => rfl,fun _ is => (nomatch is)⟩
  | some i =>
    obtain ⟨out,ran,within,ended⟩ := prepareEnds attached (member i rfl) (fair i rfl) (fits i rfl)
    refine ⟨out,ran,within.attached attached,fun none => (nomatch none),fun j is => ?_⟩
    cases is
    exact ⟨within,ended⟩

theorem uplinkMember {d : Device} {i : Nat} (is : d.ulChan = some i) : i ∈ channels d := by
  unfold channels
  rw [is]
  exact List.mem_append_left _ (by simp)

theorem downlinkMember {d : Device} {i : Nat} (is : d.dlChan = some i) : i ∈ channels d := by
  unfold channels
  rw [is]
  exact List.mem_append_right _ (by simp)

theorem uplinkClient (attached : Attached w d h) (is : d.ulChan = some i) : (h.chans i).preAlloc = false := by
  by_contra core
  have core : (h.chans i).preAlloc = true := by simpa using core
  exact attached.uplink i is ((attached.built i (uplinkMember is)).core core).1

def Ready (w : Nat → Window) (d : Device) (h : Host) : Prop :=
  (∀ i, d.ulChan = some i → Clean (w i) (h.chans i)) ∧
    ((∀ i, d.ulChan = some i → (h.chans i).chState = .disabled) → ∀ i, d.dlChan = some i → Clean (w i) (h.chans i))

theorem uplinkBack {up : Outcome} {ul : Course} {mid : Host} {j : Nat} (fair : ∀ n h, Elsewhere d h (ul.pause n h))
    (attached : Attached w d h)
    (isUl : d.ulChan = some i) (other : i ≠ j) (first : Within w d i h up.host)
    (opened : Ended (h.chans i) (up.host.chans i) up.got none) (second : Within w d j up.host mid) :
    ∃ h', mhiUnprepareChannel ul mid i = some h' ∧ Within w d i mid h' ∧ Stopped (mid.chans i) (h'.chans i) [] ∧
      (h.chans i).chState = .disabled ∧ Empty (h.chans i) (mid.chans i) up.got ∧
        (mid.chans i).offloadCh = (h.chans i).offloadCh := by
  have later := second.attached (first.attached attached)
  have still := second.others i (uplinkMember isUl) other
  have offload := (still.kin (w := w i)).offloadCh.trans first.own.offloadCh
  cases opened with
  | opened was on empty =>
    have empty := empty (uplinkClient attached isUl)
    have kept : Empty (h.chans i) (mid.chans i) up.got := by
      obtain ⟨n,ccs,cfg,db,is⟩ := still
      rw [is]
      refine ⟨empty.got,empty.freed,fun alien => ?_,empty.own⟩
      have rings := empty.alien alien
      exact ⟨rings.base,rings.rp,rings.wp⟩
    have enabled : (mid.chans i).chState = .enabled := by
      obtain ⟨_,_,_,_,is⟩ := still
      rw [is]
      exact on
    have loaded : (mid.chans i).offloadCh = false → Loaded (w i) (mid.chans i) [] :=
      fun own => .inl ⟨rfl,kept.own (offload.symm.trans own)⟩
    obtain ⟨h',ran,last,stopped⟩ := unprepareStops fair later (uplinkMember isUl) enabled loaded
    exact ⟨h',ran,last,stopped,was,kept,offload⟩

theorem downlinkFails {up down : Outcome} {ul : Course} {j : Nat} (fair : ul.Fair d (h.chans i).bufRing.elements)
    (attached : Attached w d h)
    (ready : Ready w d h) (isUl : d.ulChan = some i) (isDl : d.dlChan = some j) (first : Within w d i h up.host)
    (opened : Ended (h.chans i) (up.host.chans i) up.got none) (second : Within w d j up.host down.host)
    (ended : Ended (up.host.chans j) (down.host.chans j) down.got down.err) (failed : down.err ≠ none) :
    ∃ h', mhiUnprepareChannel ul down.host i = some h' ∧ Undone w d h ⟨h',down.err,up.got ++ down.got⟩ := by
  have other : i ≠ j := fun same => attached.apart i ⟨isUl,same ▸ isDl⟩
  obtain ⟨h',ran,last,stopped,was,kept,offload⟩ := uplinkBack fair.pause attached isUl other first opened second
  have cleanDl : Clean (w j) (h.chans j) := ready.2 (fun k is => by cases isUl.symm.trans is; exact was) j isDl
  have away := first.others j (downlinkMember isDl) other.symm
  have cleanUp : Clean (w j) (up.host.chans j) := by
    obtain ⟨n,ccs,cfg,db,is⟩ := away
    rw [is]
    exact cleanDl
  refine ⟨h',ran,undoneOf (fun k => if k = i then up.got else down.got) ?_ ?_ ?_⟩
  · exact (last.pending.trans second.pending).trans first.pending
  · intro k member
    unfold channels at member
    rw [isUl,isDl] at member
    rcases eq_or_ne k i with rfl | away'
    · rw [if_pos rfl]
      exact stopped.restored was kept offload (ready.1 k isUl)
    · have is : k = j := by simpa [away'] using member
      subst is
      rw [if_neg away']
      exact ((ended.restored failed cleanUp).since away).untouched (last.others k (downlinkMember isDl) away')
  · unfold channels
    rw [isUl,isDl]
    show _ = (if i = i then up.got else down.got) ++ ((if j = i then up.got else down.got) ++ [])
    rw [if_pos rfl,if_neg other.symm,List.append_nil]

theorem oneFails {out : Outcome} {err : Option Errno} (member : i ∈ channels d) (once : (channels d).Nodup)
    (within : Within w d i h out.host)
    (ended : Ended (h.chans i) (out.host.chans i) out.got err) (failed : err ≠ none) (clean : Clean (w i) (h.chans i)) :
    Undone w d h out := by
  refine undoneOf (fun k => if k = i then out.got else []) within.pending (fun k inside => ?_) ?_
  · rcases eq_or_ne k i with rfl | other
    · rw [if_pos rfl]
      exact ended.restored failed clean
    · rw [if_neg other]
      exact (within.others k inside other).restored
  · obtain ⟨front,back,split⟩ := List.append_of_mem member
    rw [split] at once ⊢
    have apart := List.nodup_middle.mp once
    have outside : ∀ k ∈ front ++ back, (if k = i then out.got else []) = [] := by
      intro k inside
      rw [if_neg]
      rintro rfl
      exact (List.nodup_cons.mp apart).1 inside
    have front' : (front.flatMap fun k => if k = i then out.got else []) = [] :=
      List.flatMap_eq_nil_iff.mpr fun k inside => outside k (List.mem_append_left _ inside)
    have back' : (back.flatMap fun k => if k = i then out.got else []) = [] :=
      List.flatMap_eq_nil_iff.mpr fun k inside => outside k (List.mem_append_right _ inside)
    rw [List.flatMap_append,List.flatMap_cons,front',back',if_pos rfl,List.nil_append,List.append_nil]

theorem channelsOnce (attached : Attached w d h) : (channels d).Nodup := by
  have apart := attached.apart
  unfold channels
  cases ul : d.ulChan with
  | none => cases dl : d.dlChan <;> simp
  | some i =>
    cases dl : d.dlChan with
    | none => simp
    | some j =>
      have other : i ≠ j := fun same => apart i ⟨ul,same ▸ dl⟩
      simpa using other

theorem readyWhole (attached : Attached w d h) (ready : Ready w d h) : AllOrNothing w d h := by
  intro ul dl fairUl fairDl
  have once := channelsOnce attached
  have fitsUl : ∀ i, d.ulChan = some i → (h.chans i).chState = .disabled → (h.chans i).offloadCh = false → Fits (h.chans i) :=
    fun i is off own => (ready.1 i is off own).2.2
  obtain ⟨up,ranUp,attachedUp,noUp,endsUp⟩ := dirEnds attached (fun _ => uplinkMember) fairUl fitsUl
  have wholeUl : up.err ≠ none → Undone w d h up := by
    intro failed
    cases isUl : d.ulChan with
    | none =>
      rw [noUp isUl] at failed
      exact absurd rfl failed
    | some i =>
      obtain ⟨within,ended⟩ := endsUp i isUl
      exact oneFails (uplinkMember isUl) once within ended failed (ready.1 i isUl)
  cases errUl : up.err with
  | some e =>
    have ran : mhiPrepareForTransfer d ul dl h = some up := by simp [mhiPrepareForTransfer,ranUp,errUl]
    refine ⟨up,ran,fun none => ?_,wholeUl⟩
    rw [errUl] at none
    cases none
  | none =>
    have offUl : ∀ i, d.ulChan = some i → (h.chans i).chState = .disabled := by
      intro i isUl
      obtain ⟨-,ended⟩ := endsUp i isUl
      rw [errUl] at ended
      cases ended with
      | opened was on client => exact was
    -- the downlink channel is still as the call found it
    have awayDl : ∀ j, d.dlChan = some j → Untouched (h.chans j) (up.host.chans j) := by
      intro j isDl
      cases isUl : d.ulChan with
      | none =>
        rw [noUp isUl]
        exact untouchedRefl _
      | some i => exact (endsUp i isUl).1.others j (downlinkMember isDl) fun same => attached.apart i ⟨isUl,same ▸ isDl⟩
    have cleanDl : ∀ j, d.dlChan = some j → Clean (w j) (up.host.chans j) := by
      intro j isDl
      obtain ⟨n,ccs,cfg,db,is⟩ := awayDl j isDl
      rw [is]
      exact ready.2 offUl j isDl
    have fairDl' : ∀ j, d.dlChan = some j → dl.Fair d (up.host.chans j).bufRing.elements := by
      intro j isDl
      obtain ⟨n,ccs,cfg,db,is⟩ := awayDl j isDl
      rw [is]
      exact fairDl j isDl
    obtain ⟨down,ranDown,-,noDown,endsDown⟩ := dirEnds attachedUp (fun _ => downlinkMember) fairDl' fun j isDl off own =>
      (cleanDl j isDl off own).2.2
    cases errDl : down.err with
    | none =>
      have ran : mhiPrepareForTransfer d ul dl h = some ⟨down.host,none,up.got ++ down.got⟩ := by
        simp [mhiPrepareForTransfer,ranUp,errUl,ranDown,errDl]
      refine ⟨_,ran,fun _ i member => ?_,fun failed => absurd rfl failed⟩
      have opens : ∀ {before after : Chan} {got}, Ended before after got none → after.chState = .enabled := by
        intro before after got ended
        cases ended with
        | opened was on client => exact on
      rcases List.mem_append.mp member with isUl | isDl
      · have isUl : d.ulChan = some i := Option.mem_toList.mp isUl
        have on := opens (errUl ▸ (endsUp i isUl).2)
        cases isDl : d.dlChan with
        | none =>
          rw [noDown isDl]
          exact on
        | some j =>
          obtain ⟨_,_,_,_,is⟩ := (endsDown j isDl).1.others i (uplinkMember isUl) fun same => attached.apart i ⟨isUl,same ▸ isDl⟩
          rw [is]
          exact on
      · have isDl : d.dlChan = some i := Option.mem_toList.mp isDl
        exact opens (errDl ▸ (endsDown i isDl).2)
    | some e =>
      have failed : down.err ≠ none := by simp [errDl]
      cases isDl : d.dlChan with
      | none =>
        rw [noDown isDl] at errDl
        cases errDl
      | some j =>
        obtain ⟨second,ended⟩ := endsDown j isDl
        cases isUl : d.ulChan with
        | none =>
          have back : unprepareDir ul down.host d.ulChan = some down.host := by
            rw [isUl]
            rfl
          have ran : mhiPrepareForTransfer d ul dl h = some ⟨down.host,down.err,up.got ++ down.got⟩ := by
            simp [mhiPrepareForTransfer,ranUp,errUl,ranDown,errDl,back]
          refine ⟨_,ran,fun none => absurd none failed,fun _ => ?_⟩
          rw [noUp isUl] at second ended ⊢
          exact oneFails (downlinkMember isDl) once second ended failed
            (ready.2 (fun i is => (nomatch isUl.symm.trans is)) j isDl)
        | some i =>
          obtain ⟨first,opened⟩ := endsUp i isUl
          rw [errUl] at opened
          obtain ⟨h',back,undone⟩ := downlinkFails (fairUl i isUl) attached ready isUl isDl first opened second ended failed
          have back : unprepareDir ul down.host d.ulChan = some h' := by
            rw [isUl]
            exact back
          have ran : mhiPrepareForTransfer d ul dl h = some ⟨h',down.err,up.got ++ down.got⟩ := by
            simp [mhiPrepareForTransfer,ranUp,errUl,ranDown,errDl,back]
          exact ⟨_,ran,fun none => absurd none failed,fun _ => undone⟩

end Whole

/-! Outcomes that show a channel that is not clean. -/
section Outcomes
variable {w : Nat → Window} {d : Device} {i : Nat} {h h' : Host} {e : ExecEnv}

def atEe (e : ExecEnv) (h : Host) : Host := {h with cntrl := {h.cntrl with ee := e}}
def inTrouble (h : Host) : Host := {h with cntrl := {h.cntrl with pmState := .sysErrDetect}}
def roomy : Ring := ⟨0,0,0,0,0,1,2,2,0⟩
def running (h : Host) : Host := {h with cntrl := {h.cntrl with pmState := .m0}, cmdRing := roomy}
def answer (i : Nat) (h : Host) : Host := h.setChan i {h.chans i with completion := 1, ccs := EvCc.success}

def broken (e : ExecEnv) : Course where
  pause := fun
    | 0 => atEe e
    | 1 => inTrouble
    | _ => id
  vz := some 1
  inTime := false
  reply := fun _ => (none,⟨0,0,false⟩)
  stopInTime := false
  script := fun _ => []

def smooth (e : ExecEnv) (i : Nat) (reply : Nat → Option Nat × DmaReply) : Course where
  pause := fun
    | 0 => atEe e
    | 1 => running
    | 2 => answer i
    | _ => id
  vz := some 1
  inTime := true
  reply := reply
  stopInTime := false
  script := fun _ => []

theorem elsewhereStill (chans : h'.chans = h.chans) (events : h'.events = h.events)
    (pending : h'.cntrl.pendingPkts = h.cntrl.pendingPkts) :
    Elsewhere d h h' := by
  refine ⟨pending,fun j _ => ?_,fun marks j member => ?_⟩
  · rw [chans]
    exact untouchedRefl _
  · have mark := marks j member
    unfold Marks at mark ⊢
    rw [chans,events]
    exact mark

theorem elsewhereAnswer : Elsewhere d h (answer i h) := by
  have kept : ∀ j, Untouched (h.chans j) ((answer i h).chans j) := by
    intro j
    rcases eq_or_ne j i with rfl | other
    · exact ⟨1,EvCc.success,_,_,setChanSelf _ _ _⟩
    · show Untouched _ (Function.update h.chans i _ j)
      rw [Function.update_of_ne other]
      exact untouchedRefl _
  refine ⟨rfl,fun j _ => kept j,fun marks j member => ?_⟩
  have mark := marks j member
  obtain ⟨n,ccs,cfg,db,is⟩ := kept j
  unfold Marks at mark ⊢
  rw [is]
  exact mark

theorem oneFits {ch : Chan} {v : Window} (built : Built v ch) : ∀ base, some 1 = some base →
    Allocated base (sizeofMhiBufInfo * ch.bufRing.elements) := by
  rintro base same
  cases same
  have small := built.locals.2
  unfold Allocated sizeofMhiBufInfo wordSpan
  omega

theorem brokenFair {n : Nat} (room : ∀ base, some 1 = some base → Allocated base (sizeofMhiBufInfo * n)) :
    (broken e).Fair d n := by
  refine ⟨fun k h => ?_,room⟩
  match k with
  | 0 => exact elsewhereStill rfl rfl rfl
  | 1 => exact elsewhereStill rfl rfl rfl
  | _+2 => exact elsewhereStill rfl rfl rfl

theorem smoothFair {n : Nat} {reply : Nat → Option Nat × DmaReply}
    (room : ∀ base, some 1 = some base → Allocated base (sizeofMhiBufInfo * n)) : (smooth e i reply).Fair d n := by
  refine ⟨fun k h => ?_,room⟩
  match k with
  | 0 => exact elsewhereStill rfl rfl rfl
  | 1 => exact elsewhereStill rfl rfl rfl
  | 2 => exact elsewhereAnswer
  | _+3 => exact elsewhereStill rfl rfl rfl

theorem begins (off : (h.chans i).chState = .disabled) (named : e.bit &&& (h.chans i).eeMask ≠ 0) :
    ∃ h', prepareBegin (atEe e h) i (some 1) = (h',none) := by
  have matched : ¬((atEe e h).cntrl.ee.bit &&& ((atEe e h).chans i).eeMask = 0) := named
  have off : ¬((atEe e h).chans i).chState ≠ .disabled := not_not.mpr off
  unfold prepareBegin
  dsimp only
  rw [if_neg matched,if_neg off]
  split
  · exact ⟨_,rfl⟩
  · exact ⟨_,rfl⟩

theorem brokenFails (attached : Attached w d h) (member : i ∈ channels d) (off : (h.chans i).chState = .disabled)
    (own : (h.chans i).offloadCh = false) (named : e.bit &&& (h.chans i).eeMask ≠ 0) :
    ∃ h', mhiPrepareChannel (broken e) h i = some ⟨h',some .eio,[]⟩ ∧ Within w d i h h' ∧
      (h'.chans i).bufRing.base = 0 ∧ (h'.chans i).treRing.rp = (h'.chans i).treRing.wp := by
  obtain ⟨h₁,begun⟩ := begins off named
  obtain ⟨paused,same₀⟩ := elsewhereWithin (i := i) attached ((brokenFair (oneFits (attached.built i member))).pause 0 h) member
  obtain ⟨within,how⟩ := beginRuns (paused.attached attached) member (oneFits ((paused.attached attached).built i member)) begun
  rcases how with ⟨failed,-⟩ | ⟨-,-,opened⟩
  · exact absurd rfl failed
  have sent : prepareSend (inTrouble h₁) i = ((inTrouble h₁).setChan i (deinitOwned ((inTrouble h₁).chans i)),some .eio) :=
    if_pos rfl
  have reached : Within w d i h (inTrouble h₁) :=
    (paused.trans within).trans (stillWithin ((paused.trans within).attached attached) rfl rfl rfl)
  obtain ⟨sends,-⟩ := @sendRuns w d i (inTrouble h₁) _ _ (reached.attached attached) sent
  obtain ⟨base,empty⟩ := (opened.closed within.own).own own
  refine ⟨_,?_,reached.trans sends,?_⟩
  · unfold mhiPrepareChannel
    rw [show (broken e).pause 0 h = atEe e h from rfl,show (broken e).vz = some 1 from rfl,begun]
    dsimp only
    rw [show (broken e).pause 1 h₁ = inTrouble h₁ from rfl,sent]
  · rw [setChanSelf]
    exact ⟨base,empty⟩

theorem commandSpace (h : Host) (chan : Nat) (cmd : CmdType) (space : getNrAvailRingElements h.cmdRing ≠ 0) :
    ∃ h', mhiSendCmd h chan cmd = (h',none) := by
  unfold mhiSendCmd
  rw [if_neg space]
  exact ⟨_,rfl⟩

theorem smoothStarts {reply : Nat → Option Nat × DmaReply} (attached : Attached w d h) (member : i ∈ channels d)
    (off : (h.chans i).chState = .disabled) (named : e.bit &&& (h.chans i).eeMask ≠ 0) :
    ∃ h', mhiPrepareChannel (smooth e i reply) h i = prepareAnswered (smooth e i reply) h' i ∧ Within w d i h h' ∧
      Open (w i) (h.chans i) (h'.chans i) ∧ (h'.chans i).completion = 1 ∧ (h'.chans i).ccs = EvCc.success := by
  obtain ⟨h₁,begun⟩ := begins off named
  have paused : Within w d i h (atEe e h) := stillWithin attached rfl rfl rfl
  obtain ⟨within,how⟩ := beginRuns (paused.attached attached) member (oneFits (attached.built i member)) begun
  rcases how with ⟨failed,-⟩ | ⟨-,-,opened⟩
  · exact absurd rfl failed
  have reached : Within w d i h (running h₁) :=
    (paused.trans within).trans (stillWithin ((paused.trans within).attached attached) rfl rfl rfl)
  obtain ⟨h₂,sent⟩ : ∃ h₂, prepareSend (running h₁) i = (h₂,none) := by
    have healthy : ¬mhiPmInErrorState (running h₁).cntrl.pmState = true := show ¬mhiPmInErrorState .m0 = true by decide
    have space : getNrAvailRingElements (running h₁).cmdRing ≠ 0 := show getNrAvailRingElements roomy ≠ 0 by decide
    obtain ⟨h₂,ran⟩ := commandSpace {running h₁ with cntrl := wakeToggle (running h₁).cntrl} ((running h₁).chans i).chan
      .startChan space
    unfold prepareSend
    rw [if_neg healthy,ran]
    exact ⟨h₂,rfl⟩
  obtain ⟨sends,how⟩ := sendRuns (reached.attached attached) sent
  have still : h₂.chans i = h₁.chans i := by
    rcases how with ⟨failed,-⟩ | ⟨-,same⟩
    · exact absurd rfl failed
    · exact same
  have sends := reached.trans sends
  obtain ⟨answers,same⟩ := elsewhereWithin (i := i) (sends.attached attached) (elsewhereAnswer (i := i)) member
  refine ⟨answer i h₂,?_,sends.trans answers,(still ▸ opened).untouched same,?_,?_⟩
  · unfold mhiPrepareChannel
    rw [show (smooth e i reply).pause 0 h = atEe e h from rfl,show (smooth e i reply).vz = some 1 from rfl,begun]
    dsimp only
    rw [show (smooth e i reply).pause 1 h₁ = running h₁ from rfl,sent]
    rfl
  · show ((answer i h₂).chans i).completion = 1
    unfold answer
    rw [setChanSelf]
  · unfold answer
    rw [setChanSelf]

theorem answeredStarted {ch : Chan} (one : ch.completion = 1) (success : ch.ccs = EvCc.success) :
    started (waitForCompletion ch true) = true := by
  have taken : waitForCompletion ch true = (takeCompletion ch,true) := by
    unfold waitForCompletion
    rw [one]
    rfl
  have kept : (takeCompletion ch).ccs = ch.ccs := by
    unfold takeCompletion
    split <;> rfl
  rw [taken,started,kept,success]
  rfl

theorem smoothOpens {reply : Nat → Option Nat × DmaReply} (attached : Attached w d h) (member : i ∈ channels d)
    (off : (h.chans i).chState = .disabled) (named : e.bit &&& (h.chans i).eeMask ≠ 0) (client : (h.chans i).preAlloc = false) :
    ∃ up, mhiPrepareChannel (smooth e i reply) h i = some up ∧ up.err = none := by
  obtain ⟨h',ran,within,-,one,success⟩ := @smoothStarts w d i h e reply attached member off named
  have went := answeredStarted one success
  have own : (waitForCompletion (h'.chans i) true).1.preAlloc = false := by
    rw [((waitUntouched (h'.chans i) true).kin (w := w i)).preAlloc,within.own.preAlloc]
    exact client
  have nothing : preAllocate ⟨h'.cntrl,{(waitForCompletion (h'.chans i) true).1 with chState := .enabled}⟩ reply =
      (⟨h'.cntrl,{(waitForCompletion (h'.chans i) true).1 with chState := .enabled}⟩,none) := if_neg (by simp [own])
  rw [ran]
  unfold prepareAnswered
  dsimp only [smooth]
  rw [finishStarted went,nothing]
  exact ⟨_,rfl,rfl⟩

def overfull (n k : Nat) : Option Nat × DmaReply := (some (k+1),⟨0,0,decide (k < n)⟩)

theorem loopOverruns {w wb : Window} {p out : Port} {left k : Nat} {err : Option Errno} (room : left+k+1 = w.count)
    (short : wb.count+2 ≤ w.count) (reached : k ≤ wb.count) (tre : p.chan.treRing.Holds w 0 k) (spans : p.chan.bufRing.Over wb)
    (wp : p.chan.bufRing.wp = wb.slot k) (others : ∀ cell, cell ≠ wb.slot 0 → (p.chan.bufMem cell).cbBuf ≠ 1)
    (ran : preAllocLoop (overfull wb.count) left k p = (out,err)) : err ≠ none ∧ out.chan.treRing.Holds w 0 wb.count ∧
      (∀ cell, (out.chan.bufMem cell).cbBuf ≠ 1) ∧ out.chan.freed = p.chan.freed ++ [wb.count+1] := by
  induction left generalizing k p with
  | zero => omega
  | succ left ih =>
    unfold preAllocLoop at ran
    obtain ⟨info,cell,cb,gen⟩ := genTreRuns p (k+1) (overfull wb.count k).2
    unfold bufInfo at gen
    rw [show (overfull wb.count k).1 = some (k+1) from rfl] at ran
    dsimp only at ran
    rw [gen] at ran
    rcases Nat.lt_or_eq_of_le reached with more | last
    · have ok : (overfull wb.count k).2.ok = true := decide_eq_true more
      rw [if_pos ok] at ran
      dsimp only at ran
      have later := fun room reached tre spans wp others => @ih _ (k+1) room reached tre spans wp others ran
      refine later (by omega) more ?_ ?_ ?_ ?_
      · exact Ring.addHolds tre (by omega)
      · exact spans.moved _ _ _ _
      · show (mhiAddRingElement p.chan.bufRing).wp = _
        rw [spans.addWp,wp,wb.nextSlot]
      · intro c away
        show (Function.update p.chan.bufMem p.chan.bufRing.wp info c).cbBuf ≠ 1
        rw [wp]
        by_cases here : c = wb.slot k
        · rw [here,Function.update_self,cb]
          rintro first
          exact away (by rw [here,show k = 0 by omega])
        · rw [Function.update_of_ne here]
          exact others c away
    · have failed : ¬(overfull wb.count k).2.ok = true := by
        show ¬decide (k < wb.count) = true
        rw [last,decide_eq_true_iff]
        exact Nat.lt_irrefl _
      rw [if_neg failed] at ran
      cases ran
      have counted := wb.counted
      refine ⟨by simp,last ▸ tre,fun c => ?_,by rw [last]⟩
      show (Function.update p.chan.bufMem p.chan.bufRing.wp info c).cbBuf ≠ 1
      rw [wp]
      by_cases here : c = wb.slot k
      · rw [here,Function.update_self,cb]
        omega
      · rw [Function.update_of_ne here]
        refine others c fun zero => here ?_
        rw [zero,last,← wb.slotTurn 0,Nat.zero_add]

theorem ringBufsAvoid {x : Nat} {ch : Chan} (avoid : ∀ cell, (ch.bufMem cell).cbBuf ≠ x) (n : Nat) : x ∉ ringBufs ch n := by
  induction n generalizing ch with
  | zero => exact List.not_mem_nil
  | succ n ih =>
    rw [ringBufs,List.mem_cons]
    rintro (first | rest)
    · exact avoid _ first.symm
    · exact @ih {ch with bufRing := mhiDelRingElement ch.bufRing} avoid rest

theorem overfullFails (attached : Attached w d h) (member : i ∈ channels d) (off : (h.chans i).chState = .disabled)
    (named : e.bit &&& (h.chans i).eeMask ≠ 0) (core : (h.chans i).preAlloc = true)
    (short : (h.chans i).bufRing.elements+2 ≤ (h.chans i).treRing.elements) :
    ∃ out, mhiPrepareChannel (smooth e i (overfull (h.chans i).bufRing.elements)) h i = some out ∧ Within w d i h out.host ∧
      out.err ≠ none ∧ 1 ∈ out.got ∧ (out.host.chans i).freed.count 1 = (h.chans i).freed.count 1 := by
  obtain ⟨dir,own⟩ := (attached.built i member).core core
  have spans := ((attached.built i member).laid own).2
  obtain ⟨mid,ran,within,opened,one,success⟩ :=
    @smoothStarts w d i h e (overfull (h.chans i).bufRing.elements) attached member off named
  have went := answeredStarted one success
  have same := waitUntouched (mid.chans i) true
  generalize waits : waitForCompletion (mid.chans i) true = waited at same went
  have kin := within.own.trans (same.kin (w := w i))
  have fresh := (opened.untouched same).own own
  have freed := (opened.untouched same).freed
  obtain ⟨wb,count,buf⟩ := fresh.buf
  have count : wb.count = (h.chans i).bufRing.elements := count.trans kin.elements
  have elements := spans.elements
  have counted := (w i).counted
  have avail : (getNrAvailRingElements waited.1.treRing).toNat = (w i).count-1 := by
    rw [Ring.availOf fresh.tre,Int.toNat_natCast]
    omega
  have core' : waited.1.preAlloc = true := kin.preAlloc.trans core
  cases loop : preAllocLoop (overfull wb.count) ((w i).count-1) 0 ⟨mid.cntrl,{waited.1 with chState := .enabled}⟩ with
  | mk p err =>
    obtain ⟨failed,tre,avoid,freed'⟩ := @loopOverruns (w i) wb ⟨mid.cntrl,{waited.1 with chState := .enabled}⟩ p ((w i).count-1) 0 err
      (by omega) (by omega) (Nat.zero_le _) fresh.tre buf.spans buf.wp (fun cell _ => by
        show (waited.1.bufMem cell).cbBuf ≠ 1
        rw [fresh.mem]
        exact Nat.zero_ne_one) loop
    obtain ⟨cntrl,state,kin'⟩ := loopKin (w := w i) loop
    obtain ⟨e',is⟩ := Option.ne_none_iff_exists'.mp failed
    subst is
    have filled : preAllocate ⟨mid.cntrl,{waited.1 with chState := .enabled}⟩ (overfull wb.count) = (p,some e') := by
      unfold preAllocate
      dsimp only
      rw [if_pos core',avail,loop]
    have enabling : Kin (w i) waited.1 {waited.1 with chState := .enabled} := ⟨rfl,rfl,rfl,rfl,rfl,rfl,rfl,rfl,id⟩
    have reached : Within w d i h (mid.setPort i p) := within.trans
      (setWithin (within.attached attached) (congrArg Cntrl.pendingPkts cntrl) rfl rfl (((same.kin (w := w i)).trans enabling).trans kin'))
    have loaded : Loaded (w i) p.chan (ringBufs p.chan (wb.count-0)) :=
      .inr ⟨kin'.preAlloc.trans core',(kin'.dir.trans kin.dir).trans dir,0,wb.count,tre,rfl⟩
    have fair := (@smoothFair d i e _ (overfull wb.count) (oneFits (attached.built i member))).pause
    obtain ⟨h',back,last,stopped⟩ := unprepareStops fair (reached.attached attached) member
      (by rw [setPortSelf]; exact state) (fun _ => by rw [setPortSelf]; exact loaded)
    rw [setPortSelf] at stopped
    obtain ⟨-,-,log⟩ := stopped.own ((kin'.offloadCh.trans kin.offloadCh).trans own)
    have answered : prepareAnswered (smooth e i (overfull wb.count)) mid i =
        some ⟨h',some e',kmallocs (overfull wb.count) ((w i).count-1) 0⟩ := by
      unfold prepareAnswered
      rw [show (smooth e i (overfull wb.count)).inTime = true from rfl,waits]
      dsimp only
      rw [finishStarted went,show (smooth e i (overfull wb.count)).reply = overfull wb.count from rfl,filled]
      dsimp only
      rw [went,core',avail,if_pos rfl,back]
      rfl
    rw [← count]
    rw [← count] at ran
    refine ⟨_,ran.trans answered,reached.trans last,by simp,?_,?_⟩
    · obtain ⟨n,more⟩ : ∃ n, (w i).count-1 = n+1 := ⟨(w i).count-2,by omega⟩
      rw [more]
      exact List.mem_cons_self
    · have none : List.count 1 (ringBufs p.chan (wb.count-0)) = 0 := List.count_eq_zero.mpr (ringBufsAvoid avoid _)
      have other : List.count 1 [wb.count+1] = 0 := List.count_eq_zero.mpr (by
        have counted := wb.counted
        rw [List.mem_singleton]
        omega)
      rw [log,freed',List.count_append,List.count_append,none,other]
      exact congrArg (List.count 1) freed

structure Behind (w : Nat → Window) (d : Device) (h : Host) (ul : Course) (up : Outcome) (j : Nat) : Prop where
  fair : ∀ i, d.ulChan = some i → ul.Fair d (h.chans i).bufRing.elements
  ran : prepareDir ul h d.ulChan = some up
  opens : up.err = none
  attached : Attached w d up.host
  away : Untouched (h.chans j) (up.host.chans j)
  back : ∀ mid, Within w d j up.host mid → ∃ h', unprepareDir ul mid d.ulChan = some h' ∧ Untouched (mid.chans j) (h'.chans j) ∧
    ∀ i, d.ulChan = some i → (h'.chans i).freed = (h.chans i).freed

theorem behind {j : Nat} (attached : Attached w d h) (isDl : d.dlChan = some j)
    (off : ∀ i, d.ulChan = some i → (h.chans i).chState = .disabled) : ∃ ul up, Behind w d h ul up j := by
  cases isUl : d.ulChan with
  | none =>
    refine ⟨broken .amss,⟨h,none,[]⟩,fun i is => ?_,by rw [isUl]; rfl,rfl,attached,untouchedRefl _,fun mid _ => ?_⟩
    · cases isUl.symm.trans is
    · refine ⟨mid,by rw [isUl]; rfl,untouchedRefl _,fun i is => ?_⟩
      cases isUl.symm.trans is
  | some i =>
    have member := uplinkMember isUl
    have other : i ≠ j := fun same => attached.apart i ⟨isUl,same ▸ isDl⟩
    have client := uplinkClient attached isUl
    obtain ⟨e,named⟩ := (attached.built i member).named
    obtain ⟨up,ran,succeeded⟩ :=
      @smoothOpens w d i h e (fun _ => (none,⟨0,0,false⟩)) attached member (off i isUl) named client
    have fair := @smoothFair d i e _ (fun _ => (none,⟨0,0,false⟩)) (oneFits (attached.built i member))
    obtain ⟨up',ran',within,ended⟩ := prepareEnds attached member fair fun _ _ core => by
      rw [client] at core
      cases core
    cases ran.symm.trans ran'
    rw [succeeded] at ended
    refine ⟨_,up,fun k is => ?_,by rw [isUl]; exact ran,succeeded,within.attached attached,
      within.others j (downlinkMember isDl) other.symm,fun mid second => ?_⟩
    · cases isUl.symm.trans is
      exact fair
    · obtain ⟨h',back,last,stopped,-,kept,offload⟩ := uplinkBack fair.pause attached isUl other within ended second
      refine ⟨h',by rw [isUl]; exact back,last.others j (downlinkMember isDl) other.symm,fun k is => ?_⟩
      cases isUl.symm.trans is
      rw [← kept.freed]
      cases owned : (mid.chans i).offloadCh with
      | true => exact (stopped.alien owned).2
      | false =>
        rw [(stopped.own owned).2.2,List.append_nil]

theorem failsBehind {ul dl : Course} {up down : Outcome} {j : Nat} (behind : Behind w d h ul up j) (isDl : d.dlChan = some j)
    (ran : mhiPrepareChannel dl up.host j = some down) (failed : down.err ≠ none) (within : Within w d j up.host down.host) :
    ∃ h', mhiPrepareForTransfer d ul dl h = some ⟨h',down.err,up.got ++ down.got⟩ ∧ Untouched (down.host.chans j) (h'.chans j) ∧
      ∀ i, d.ulChan = some i → (h'.chans i).freed = (h.chans i).freed := by
  obtain ⟨h',back,away,freed⟩ := behind.back down.host within
  have ranDl : prepareDir dl up.host d.dlChan = some down := by
    rw [isDl]
    exact ran
  obtain ⟨e,is⟩ := Option.ne_none_iff_exists'.mp failed
  exact ⟨h',by simp [mhiPrepareForTransfer,behind.ran,behind.opens,ranDl,is,back],away,freed⟩

theorem downlinkClean {j : Nat} (attached : Attached w d h) (whole : AllOrNothing w d h) (isDl : d.dlChan = some j)
    (offUl : ∀ i, d.ulChan = some i → (h.chans i).chState = .disabled) : Clean (w j) (h.chans j) := by
  intro off own
  have member := downlinkMember isDl
  obtain ⟨e,named⟩ := (attached.built j member).named
  obtain ⟨ul,up,behind⟩ := behind attached isDl offUl
  obtain ⟨n,ccs,cfg,db,is⟩ := behind.away
  have fairDl : ∀ k {c : Course}, c.Fair d (h.chans j).bufRing.elements → d.dlChan = some k →
      c.Fair d (h.chans k).bufRing.elements := by
    intro k c fair isK
    cases isDl.symm.trans isK
    exact fair
  have room := oneFits (attached.built j member)
  have off' : (up.host.chans j).chState = .disabled := by
    rw [is]
    exact off
  have named' : e.bit &&& (up.host.chans j).eeMask ≠ 0 := by
    rw [is]
    exact named
  obtain ⟨mid,ran,within,base,empty⟩ := brokenFails behind.attached member off' (by rw [is]; exact own) named'
  obtain ⟨h',ranAll,away,-⟩ := failsBehind behind isDl ran (by simp) within
  obtain ⟨out,ranOut,-,undone⟩ := whole ul (broken e) behind.fair fun k isK => fairDl k (brokenFair room) isK
  cases ranAll.symm.trans ranOut
  have undone := undone (by simp)
  obtain ⟨_,_,_,_,last⟩ := away
  have baseSame := undone.base j member
  have tresSame : (Ring.outstanding (w j) (h'.chans j).treRing).length = (Ring.outstanding (w j) (h.chans j).treRing).length :=
    undone.tres j member
  rw [last] at baseSame tresSame
  refine ⟨baseSame.symm.trans base,tresSame.symm.trans (emptyLength empty),fun core => ?_⟩
  by_contra tight
  have elements : (up.host.chans j).bufRing.elements = (h.chans j).bufRing.elements := by rw [is]
  obtain ⟨down,ran',within',failed,lost,count⟩ := overfullFails behind.attached member off' named'
    (by rw [is]; exact core) (by rw [is]; dsimp only; omega)
  rw [elements] at ran'
  obtain ⟨h'',ranAll,away',freedUl⟩ := failsBehind behind isDl ran' failed within'
  obtain ⟨out,ranOut,-,undone⟩ := whole ul _ behind.fair fun k isK =>
    fairDl k (@smoothFair d j e _ (overfull (h.chans j).bufRing.elements) room) isK
  cases ranAll.symm.trans ranOut
  have once := (undone failed).once.count_eq 1
  have each : ∀ k ∈ channels d, (h''.chans k).freed.count 1 = (h.chans k).freed.count 1 := by
    intro k inside
    rcases List.mem_append.mp inside with isUl | isDl'
    · rw [freedUl k (Option.mem_toList.mp isUl)]
    · cases isDl.symm.trans (Option.mem_toList.mp isDl')
      obtain ⟨_,_,_,_,last⟩ := away'
      rw [last,count,is]
  have same : (freed d h'').count 1 = (freed d h).count 1 := by
    unfold freed
    rw [List.count_flatMap,List.count_flatMap]
    exact congrArg List.sum (List.map_congr_left each)
  have more : 0 < (up.got ++ down.got).count 1 := List.count_pos_iff.mpr (List.mem_append_right _ lost)
  rw [List.count_append,same] at once
  exact absurd (Nat.left_eq_add.mp once) (Nat.ne_of_gt more)

theorem uplinkClean (attached : Attached w d h) (whole : AllOrNothing w d h) (isUl : d.ulChan = some i) :
    Clean (w i) (h.chans i) := by
  intro off own
  have member := uplinkMember isUl
  obtain ⟨e,named⟩ := (attached.built i member).named
  obtain ⟨h',ran,-,base,empty⟩ := brokenFails attached member off own named
  have room : ∀ j, j ∈ channels d → (broken e).Fair d (h.chans j).bufRing.elements :=
    fun j inside => brokenFair (oneFits (attached.built j inside))
  obtain ⟨out,ranOut,-,undone⟩ := whole (broken e) (broken e) (fun j is => room j (uplinkMember is)) fun j is =>
      room j (downlinkMember is)
  have ranUl : prepareDir (broken e) h d.ulChan = some ⟨h',some .eio,[]⟩ := by
    rw [isUl]
    exact ran
  have ranAll : mhiPrepareForTransfer d (broken e) (broken e) h = some ⟨h',some .eio,[]⟩ := by simp [mhiPrepareForTransfer,ranUl]
  cases ranAll.symm.trans ranOut
  have undone := undone (by simp)
  refine ⟨(undone.base i member).symm.trans base,(undone.tres i member).symm.trans (emptyLength empty),fun core => ?_⟩
  rw [uplinkClient attached isUl] at core
  cases core

/- A call is all or nothing whatever its steps meet, if and only if each DISABLED channel it can
get to has neither a context nor TREs and a local ring for all it may be filled with. -/
theorem prepareWhole (attached : Attached w d h) : AllOrNothing w d h ↔ Ready w d h :=
  ⟨fun whole => ⟨fun _ isUl => uplinkClean attached whole isUl,fun offUl _ isDl => downlinkClean attached whole isDl offUl⟩,
    fun ready => readyWhole attached ready⟩

end Outcomes

/-! A device with an uplink channel and a downlink channel that the core fills. -/
section Sample

def boundDevice : Device := ⟨0,some 0,some 1,true⟩
def dlConfig (localElements : Nat) : ChannelConfig :=
  ⟨"IPCR",1,4,localElements,0,.fromDevice,ExecEnv.amss.bit,some .disable,false,false,true⟩
def boundHost (localElements : Nat) : Host := {Sample.host with
  maxChan := 2
  chans := fun i => if i = 0 then chanOf Sample.config else if i = 1 then chanOf (dlConfig localElements) else Chan.zero}
def boundLayout : Layout := {Sample.layout with chan := fun i => ⟨0x1000 + 0x100 * i,0x81000 + 0x100 * i⟩}
def boundWindow (i : Nat) : Window := treWindow (0x1000 + 0x100 * i) 4 fourElements
def boundReady (localElements : Nat) : Host := mhiInitDevCtxt (boundHost localElements) boundLayout

theorem boundAttached {n : Nat} (small : n = 0 ∨ n = 1) : Attached boundWindow boundDevice (boundReady n) := by
  have ring : Located (Sample.ready.events.headD (Sample.event false)) :=
    ⟨treWindow 0x2000 4 (by decide),0,0,rfl,⟨rfl,rfl,rfl,rfl,by decide,by decide,by decide⟩,rfl,by decide⟩
  have uplink : Built (boundWindow 0) ((boundReady n).chans 0) := by
    rcases small with rfl | rfl
    all_goals exact ⟨⟨.amss,by decide⟩,fun core => (nomatch core),
      fun _ => ⟨rfl,rfl,rfl,rfl,rfl,by decide,by decide,by decide⟩,by decide,rfl⟩
  have downlink : Built (boundWindow 1) ((boundReady n).chans 1) := by
    rcases small with rfl | rfl
    all_goals exact ⟨⟨.amss,by decide⟩,fun _ => ⟨rfl,rfl⟩,
      fun _ => ⟨rfl,rfl,rfl,rfl,rfl,by decide,by decide,by decide⟩,by decide,rfl⟩
  refine ⟨fun i member => ?_,fun i member own => ?_,fun i is => ?_,fun i both => ?_⟩
  · rcases List.mem_cons.mp member with rfl | rest
    · exact uplink
    · cases List.mem_singleton.mp rest
      exact downlink
  · rcases List.mem_cons.mp member with rfl | rest
    · exact ⟨_,rfl,ring⟩
    · cases List.mem_singleton.mp rest
      exact ⟨_,rfl,ring⟩
  · cases is
    exact fun down => nomatch down
  · obtain ⟨up,down⟩ := both
    cases up
    cases down

theorem prepareWholeBound : AllOrNothing boundWindow boundDevice (boundReady 0) := by
  refine (prepareWhole (boundAttached (.inl rfl))).mpr ⟨fun i is _ _ => ?_,fun _ i is _ _ => ?_⟩
  · cases is
    exact ⟨rfl,by decide,fun core => nomatch core⟩
  · cases is
    exact ⟨rfl,by decide,fun _ => by decide⟩

/- One local element for a ring of four, as `parse_ch_cfg` accepts it. -/
def fails (k : Nat) : Option Nat × DmaReply := (some (0x9000 + 0x1000 * k),⟨0,0,decide (k < 1)⟩)

theorem prepareFreesTwice : configureChan 2 (dlConfig 1) = some (chanOf (dlConfig 1)) ∧
    (mhiPrepareForTransfer boundDevice (smooth .amss 0 fails) (smooth .amss 1 fails) (boundReady 1)).map
      (fun out => (out.err,out.got,(out.host.chans 1).freed)) = some (some .enomem,[0x9000,0xa000],[0xa000,0xa000]) ∧
    ¬AllOrNothing boundWindow boundDevice (boundReady 1) := by
  have ends : (mhiPrepareForTransfer boundDevice (smooth .amss 0 fails) (smooth .amss 1 fails) (boundReady 1)).map
      (fun out => (out.err,out.got,freed boundDevice out.host)) = some (some .enomem,[0x9000,0xa000],[0xa000,0xa000]) := by decide
  refine ⟨rfl,by decide,fun whole => ?_⟩
  have attached := boundAttached (.inr rfl)
  have fair : ∀ i j, j ∈ channels boundDevice →
      (smooth .amss i fails).Fair boundDevice ((boundReady 1).chans j).bufRing.elements :=
    fun i j inside => smoothFair (oneFits (attached.built j inside))
  obtain ⟨out,ran,-,undone⟩ := whole (smooth .amss 0 fails) (smooth .amss 1 fails)
    (fun j is => fair 0 j (uplinkMember is)) fun j is => fair 1 j (downlinkMember is)
  rw [ran] at ends
  obtain ⟨err,rest⟩ := Prod.mk.inj (Option.some.inj ends)
  obtain ⟨got,log⟩ := Prod.mk.inj rest
  have once := (undone (by simp [err])).once.count_eq 0x9000
  rw [log,got] at once
  exact absurd once (by decide)

end Sample

end MhiHost.PrepareTransfer
