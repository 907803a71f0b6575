import MhiHost.EventLoops
import MhiHost.EventPointers
import MhiHost.Setup

/-! Which contents of an event ring, and which device pointer, keep the processing of it
inside the tables. -/
namespace MhiHost.EventTables
open Cyclic (Window)
open EventLoops
open Relation (ReflTransGen)

/-! Handling an event moves the pointers of rings and nothing else of them. -/
def Moved (r r' : Ring) : Prop := ∃ rp wp ctxtWp, r' = {r with rp := rp, wp := wp, ctxtWp := ctxtWp}

namespace Moved

theorem refl (r : Ring) : Moved r r := ⟨_,_,_,rfl⟩
theorem trans {r mid r' : Ring} (first : Moved r mid) (second : Moved mid r') : Moved r r' := by
  obtain ⟨rp,wp,ctxtWp,rfl⟩ := first
  obtain ⟨rp',wp',ctxtWp',rfl⟩ := second
  exact ⟨rp',wp',ctxtWp',rfl⟩

end Moved

def Placed (w : Window) (ch : Chan) : Prop := ch.treRing.Over w ∧ ∃ n, ch.treRing.rp = w.slot n

structure Shifts (ch ch' : Chan) : Prop where
  chState : ch'.chState = ch.chState
  tre : Moved ch.treRing ch'.treRing
  buf : Moved ch.bufRing ch'.bufRing
  placed : ∀ w, Placed w ch → Placed w ch'

namespace Shifts

theorem refl (ch : Chan) : Shifts ch ch := ⟨rfl,.refl _,.refl _,fun _ => id⟩
theorem trans {ch mid ch' : Chan} (first : Shifts ch mid) (second : Shifts mid ch') : Shifts ch ch' :=
  ⟨second.chState.trans first.chState,first.tre.trans second.tre,first.buf.trans second.buf,
    fun w placed => second.placed w (first.placed w placed)⟩

theorem ahead {ch ch' : Chan} (chState : ch'.chState = ch.chState)
    (tre : ∃ wp ctxtWp, ch'.treRing = {ch.treRing with wp := wp, ctxtWp := ctxtWp}) (buf : Moved ch.bufRing ch'.bufRing) :
    Shifts ch ch' := by
  obtain ⟨wp,ctxtWp,tre⟩ := tre
  refine ⟨chState,⟨_,wp,ctxtWp,tre⟩,buf,fun w placed => ?_⟩
  unfold Placed
  rw [tre]
  exact ⟨placed.1.moved _ _ _ _,placed.2⟩

theorem pop {ch ch' : Chan} (chState : ch'.chState = ch.chState) (tre : ch'.treRing = mhiDelRingElement ch.treRing)
    (buf : Moved ch.bufRing ch'.bufRing) : Shifts ch ch' := by
  refine ⟨chState,⟨_,_,_,tre⟩,buf,fun w placed => ?_⟩
  obtain ⟨spans,n,rp⟩ := placed
  unfold Placed
  rw [tre]
  refine ⟨spans.moved _ _ _ _,n+1,?_⟩
  rw [spans.delRp,rp,w.nextSlot]

theorem bell (c : Cntrl) (ch : Chan) : Shifts ch (mhiRingChanDb ⟨c,ch⟩).chan := ahead rfl ⟨_,_,rfl⟩ (.refl _)

theorem call {p p' : Port} {cb len : Nat} {reached : Bool} {err : Option Errno} (call : Queueing.Call p cb len reached p' err) :
    Shifts p.chan p'.chan := by
  cases err with
  | none => exact ahead call.chState ⟨_,_,call.tre⟩ ⟨_,_,_,call.buf⟩
  | some e => exact ahead call.chState ⟨_,_,call.tre⟩ (call.buf ▸ .refl _)

end Shifts

section Shifting
variable {h h' : Host} {p p' : Port} {ev : MhiTre}

theorem callsShift (qs : List QueueReq) (p : Port) : Shifts p.chan (queueAll p qs).chan := by
  induction qs generalizing p with
  | nil => exact .refl _
  | cons q rest ih => exact (Shifts.call (Queueing.queueCall p q)).trans (ih (mhiQueue p q).1)

theorem recycleShifts (c : Cntrl) (ch : Chan) (bufInfo : Nat) (reply : DmaReply) :
    Shifts ch (recycleBuf ⟨c,ch⟩ bufInfo reply).chan := by
  unfold recycleBuf
  split
  · have called := @Queueing.bufCall ⟨c,ch⟩ (ch.bufMem bufInfo).cbBuf (ch.bufMem bufInfo).len MhiFlags.eot reply
    dsimp only
    split
    · rename_i ran
      rw [ran] at called
      exact .call called
    · rename_i ran
      rw [ran] at called
      exact (Shifts.call called).trans (.ahead rfl ⟨_,_,rfl⟩ (.refl _))
  · exact .refl _

theorem turnShifts (evTre : Nat) (script : CbScript) (p : Port) : Shifts p.chan (xferOne ev evTre script p).chan := by
  have retired : Shifts p.chan (retire p (xferResult p ev evTre)).chan := .pop rfl rfl ⟨_,_,_,rfl⟩
  exact (retired.trans (callsShift script.calls _)).trans (recycleShifts _ _ p.chan.bufRing.rp script.recycle)

theorem loopShifts {evTre devRp fuel i : Nat} {script : Nat → CbScript}
    (ran : xferLoop ev evTre devRp script fuel i p = some p') :
    Shifts p.chan p'.chan := by
  induction fuel generalizing i p with
  | zero =>
    rw [xferLoop] at ran
    split at ran <;> cases ran
    exact .refl _
  | succ fuel ih =>
    rw [xferLoop] at ran
    split at ran
    · cases ran
      exact .refl _
    · exact (turnShifts evTre (script i) p).trans (ih ran)

theorem dbModeShifts (p : Port) : Shifts p.chan (dbModeEvent p).chan := by
  have armed : Shifts p.chan {p.chan with dbCfg := {p.chan.dbCfg with dbMode := true}} := .ahead rfl ⟨_,_,rfl⟩ (.refl _)
  unfold dbModeEvent ringIfAccessible
  dsimp only
  split
  · split
    · exact armed.trans (.bell p.cntrl _)
    · exact armed
  · exact armed

theorem xferShifts {script : Nat → CbScript} (ran : parseXferEvent ev script p = some p') : Shifts p.chan p'.chan := by
  unfold parseXferEvent at ran
  split at ran
  · cases ran
    exact .refl _
  split at ran
  · exact loopShifts ran
  split at ran
  · cases ran
    exact dbModeShifts p
  · cases ran
    exact .refl _

theorem loggedShifts (log : List MhiResult) (qs : List QueueReq) (p : Port) :
    Shifts p.chan (queueAll {p with chan := {p.chan with xferLog := log}} qs).chan := by
  have logged : Shifts p.chan {p.chan with xferLog := log} := .ahead rfl ⟨_,_,rfl⟩ (.refl _)
  exact logged.trans (callsShift qs ⟨p.cntrl,{p.chan with xferLog := log}⟩)

theorem rscShifts (script : CbScript) (p : Port) : Shifts p.chan (parseRscEvent ev script p).chan := by
  unfold parseRscEvent
  split
  · exact .refl _
  · exact (loggedShifts _ script.calls p).trans (.pop rfl rfl (.refl _))

structure ShiftsAll (h h' : Host) : Prop where
  maxChan : h'.maxChan = h.maxChan
  chans : ∀ i, Shifts (h.chans i) (h'.chans i)
  cmdRing : Moved h.cmdRing h'.cmdRing
  cmdMem : h'.cmdMem = h.cmdMem

theorem ShiftsAll.trans {h mid h' : Host} (first : ShiftsAll h mid) (second : ShiftsAll mid h') : ShiftsAll h h' :=
  ⟨second.maxChan.trans first.maxChan,fun i => (first.chans i).trans (second.chans i),first.cmdRing.trans second.cmdRing,
    second.cmdMem.trans first.cmdMem⟩

theorem ShiftsAll.cntrl {mid : Host} {c : Cntrl} (shifts : ShiftsAll {h with cntrl := c} mid) (c' : Cntrl) :
    ShiftsAll h {mid with cntrl := c'} := ⟨shifts.maxChan,shifts.chans,shifts.cmdRing,shifts.cmdMem⟩

theorem allSame (maxChan : h'.maxChan = h.maxChan) (chans : h'.chans = h.chans) (cmdRing : h'.cmdRing = h.cmdRing)
    (cmdMem : h'.cmdMem = h.cmdMem) : ShiftsAll h h' :=
  ⟨maxChan,fun _ => chans ▸ .refl _,cmdRing ▸ .refl _,cmdMem⟩

theorem chanShifts {ch : Chan} {i : Nat} (shifts : Shifts (h.chans i) ch) (j : Nat) :
    Shifts (h.chans j) (Function.update h.chans i ch j) := by
  by_cases same : j = i
  · rw [same,Function.update_self]
    exact shifts
  · rw [Function.update_of_ne same]
    exact .refl _

theorem portShifts {i : Nat} (shifts : Shifts (h.chans i) p.chan) : ShiftsAll h (h.setPort i p) :=
  ⟨rfl,chanShifts shifts,.refl _,rfl⟩

theorem txShifts {script : Nat → CbScript} (ran : txEvent h ev script = some h') : ShiftsAll h h' := by
  unfold txEvent at ran
  split at ran
  · obtain ⟨p,parsed,rfl⟩ := Option.map_eq_some_iff.mp ran
    exact portShifts (xferShifts parsed)
  · cases ran
    exact allSame rfl rfl rfl rfl

theorem m0ChanShifts (h : Host) (i : Nat) : ShiftsAll h (m0Chan h i) := by
  have rung : ∀ ch, Shifts (h.chans i) ch → ShiftsAll h (if ch.treRing.base ≠ 0 ∧ ch.treRing.wp ≠ ch.treRing.rp then
      h.setPort i (mhiRingChanDb ⟨h.cntrl,ch⟩) else h.setChan i ch) := by
    intro ch shifts
    split
    · exact portShifts (shifts.trans (.bell h.cntrl ch))
    · exact ⟨rfl,chanShifts shifts,.refl _,rfl⟩
  refine rung _ ?_
  split
  · exact .ahead rfl ⟨_,_,rfl⟩ (.refl _)
  · exact .refl _

theorem m0ChansShift (l : List Nat) (h : Host) : ShiftsAll h (l.foldl m0Chan h) := by
  induction l generalizing h with
  | nil => exact allSame rfl rfl rfl rfl
  | cons i rest ih => exact (m0ChanShifts h i).trans (ih (m0Chan h i))

theorem m0Shifts (h : Host) : ShiftsAll h (mhiPmM0Transition h).1 := by
  have mission : ∀ h : Host, ShiftsAll h (m0Mission h) := by
    intro h
    unfold m0Mission
    dsimp only
    split
    · exact ⟨rfl,fun _ => .refl _,⟨_,_,_,rfl⟩,rfl⟩
    · exact allSame rfl rfl rfl rfl
  unfold mhiPmM0Transition
  dsimp only
  split
  · exact allSame rfl rfl rfl rfl
  · dsimp only
    split
    · exact ((mission _).trans (m0ChansShift _ _)).cntrl _
    · exact (m0ChansShift _ _).cntrl _

theorem stateShifts (h : Host) (code : Nat) : ShiftsAll h (stateChangeEvent h code) := by
  unfold stateChangeEvent
  split
  · exact m0Shifts h
  split
  · unfold mhiPmM1Transition
    dsimp only
    split
    · exact allSame rfl rfl rfl rfl
    · split <;> exact allSame rfl rfl rfl rfl
  split
  · exact allSame rfl rfl rfl rfl
  split
  · unfold sysErrEvent mhiPmSysErrHandler
    split
    · exact allSame rfl rfl rfl rfl
    dsimp only
    split
    · split <;> exact allSame rfl rfl rfl rfl
    · exact allSame rfl rfl rfl rfl
  · exact allSame rfl rfl rfl rfl

theorem eeShifts (h : Host) (code : Nat) : ShiftsAll h (eeEvent h code) := by
  unfold eeEvent
  split
  · exact allSame rfl rfl rfl rfl
  split
  · exact allSame rfl rfl rfl rfl
  split
  · exact allSame rfl rfl rfl rfl
  split <;> exact allSame rfl rfl rfl rfl

theorem completionShifts (h : Host) (ev : MhiTre) : ShiftsAll h (mhiProcessCmdCompletion h ev) := by
  refine ⟨rfl,chanShifts ?_,⟨_,_,_,rfl⟩,rfl⟩
  unfold complete
  split <;> exact .ahead rfl ⟨_,_,rfl⟩ (.refl _)

theorem processShifts {kind : ErDataType} {script : Nat → CbScript} (ran : processEvent h kind ev script = some h') :
    ShiftsAll h h' := by
  cases kind with
  | ctrl =>
    simp only [processEvent,ctrlEvent] at ran
    split at ran
    · cases ran
      exact allSame rfl rfl rfl rfl
    split at ran
    · cases ran
      exact stateShifts h _
    split at ran
    · cases ran
      exact completionShifts h ev
    split at ran
    · cases ran
      exact eeShifts h _
    split at ran
    · exact txShifts ran
    · cases ran
      exact allSame rfl rfl rfl rfl
  | data =>
    simp only [processEvent,dataEvent] at ran
    split at ran
    · exact txShifts ran
    split at ran
    · cases ran
      exact portShifts (rscShifts (script 0) (h.port ev.getEvChid))
    · cases ran
      exact allSame rfl rfl rfl rfl

end Shifting

/-! What an event has to be. -/
section Conditions

def Meets (r : Ring) (ptr : Nat) : Prop :=
  ∃ cell, OnElement r cell ∧ ((ptr+sizeofMhiTre) % wordSpan = r.iommuBase+(cell-r.base) ∨
    cell = r.base ∧ r.base+r.len ≤ (mhiToVirtual r ptr+sizeofMhiTre) % wordSpan)

def Returns (ch : Chan) (ev : MhiTre) : Prop :=
  ch.chState = .enabled → isXferCode ev.getEvCode = true → Meets ch.treRing ev.getEvPtr

def TxSound (h : Host) (ev : MhiTre) : Prop :=
  ev.getEvType = PktType.txEvent → ev.getEvChid < h.maxChan → Returns (h.chans ev.getEvChid) ev

def CmdSound (h : Host) (ev : MhiTre) : Prop :=
  ev.getEvType = PktType.cmdCompletionEvent →
    OnElement h.cmdRing (cmdPkt h ev) ∧ (h.cmdMem (cmdPkt h ev)).getCmdChid < h.maxChan

def RscSound (h : Host) (ev : MhiTre) : Prop :=
  ev.getEvType = PktType.rscTxEvent → ev.getEvChid < h.maxChan → OnElement (h.chans ev.getEvChid).bufRing (rscCell h ev)

def Sound (kind : ErDataType) (h : Host) (ev : MhiTre) : Prop :=
  TxSound h ev ∧ match kind with
    | .ctrl => CmdSound h ev
    | .data => RscSound h ev

/- The transfer ring of a channel is laid out before the channel is enabled. -/
def TresLaid (h : Host) : Prop := ∀ i < h.maxChan, (h.chans i).chState = .enabled → ∃ w, Placed w (h.chans i)

end Conditions

section Rings
variable {w : Window} {r : Ring}

theorem elementAligned (spans : r.Over w) (cell : Nat) : OnElement r cell ↔ w.Aligned cell := by
  have limit := spans.limit
  have base := spans.base
  have placed := spans.placed
  unfold OnElement Window.Aligned
  rw [spans.elSize,← limit,base]
  constructor
  · exact fun on => on.2
  · exact fun aligned => ⟨by omega,aligned⟩

theorem elementSlot (spans : r.Over w) (cell : Nat) : OnElement r cell ↔ ∃ j, cell = w.slot j := by
  rw [elementAligned spans]
  constructor
  · exact w.alignedSlot
  · rintro ⟨j,rfl⟩
    exact w.slotAligned j

theorem meetsIff (spans : r.Over w) (ptr : Nat) : Meets r ptr ↔ ∃ j, xferGoal r (mhiToVirtual r ptr) = w.slot j := by
  have inside : ∀ j, r.base ≤ w.slot j ∧ w.slot j < r.base+r.len := by
    intro j
    have limit := spans.limit
    have base := spans.base
    obtain ⟨above,below,_⟩ := w.slotAligned j
    omega
  unfold Meets
  constructor
  · rintro ⟨cell,on,named⟩
    obtain ⟨j,rfl⟩ := (elementSlot spans cell).mp on
    exact ⟨j,(EventPointers.goalIff spans (inside j).1 (inside j).2).mpr named⟩
  · rintro ⟨j,goal⟩
    exact ⟨w.slot j,(elementSlot spans _).mpr ⟨j,rfl⟩,(EventPointers.goalIff spans (inside j).1 (inside j).2).mp goal⟩

end Rings

section Events
variable {w : Window} {h h' : Host} {p : Port} {ev : MhiTre} {kind : ErDataType}

theorem loopMeets {script : Nat → CbScript} {evTre n m fuel i : Nat} (spans : p.chan.treRing.Over w)
    (rp : p.chan.treRing.rp = w.slot n) (enough : m ≤ fuel) :
    ∃ p', xferLoop ev evTre (w.slot (n+m)) script fuel i p = some p' := by
  induction m generalizing n fuel i p with
  | zero => exact ⟨p,EventPointers.loopMet rp fuel i⟩
  | succ m ih =>
    obtain ⟨fuel,rfl⟩ : ∃ left, fuel = left+1 := ⟨fuel-1,by omega⟩
    by_cases met : p.chan.treRing.rp = w.slot (n+(m+1))
    · exact ⟨p,EventPointers.loopMet met (fuel+1) i⟩
    · rw [xferLoop,if_neg met]
      have turned := @EventPointers.turnMoves w p ev evTre (script i) spans
      have rp' := turned.rp
      rw [rp,w.nextSlot] at rp'
      have further : n+(m+1) = n+1+m := by omega
      rw [further]
      exact ih turned.spans rp' (by omega)

theorem returnsIff (placed : p.chan.chState = .enabled → ∃ w, Placed w p.chan) (script : Nat → CbScript) :
    (∃ p', parseXferEvent ev script p = some p') ↔ Returns p.chan ev := by
  unfold parseXferEvent Returns
  by_cases enabled : p.chan.chState = .enabled
  · rw [if_neg (not_not.mpr enabled)]
    by_cases code : isXferCode ev.getEvCode = true
    · rw [if_pos code]
      obtain ⟨w,spans,n,rp⟩ := placed enabled
      have spans : p.chan.treRing.Over w := spans
      have rp : p.chan.treRing.rp = w.slot n := rp
      rw [meetsIff spans]
      constructor
      · rintro ⟨p',ran⟩ _ _
        obtain ⟨m,ended,-⟩ := EventPointers.loopTurns spans rp ran
        exact ⟨n+m,ended.goal⟩
      · intro meets
        obtain ⟨j,goal⟩ := meets enabled code
        obtain ⟨m,near,same⟩ := w.slotAhead n j
        dsimp only
        rw [goal,same]
        exact loopMeets spans rp (by rw [spans.elements]; exact Nat.le_of_lt near)
    · rw [if_neg code]
      refine ⟨fun _ _ coded => absurd coded code,fun _ => ?_⟩
      split <;> exact ⟨_,rfl⟩
  · rw [if_pos enabled]
    exact ⟨fun _ on => absurd on enabled,fun _ => ⟨p,rfl⟩⟩

theorem shiftsLaid (shifts : ShiftsAll h h') (laid : TresLaid h) : TresLaid h' := by
  intro i known enabled
  have each := shifts.chans i
  obtain ⟨w,placed⟩ := laid i (shifts.maxChan ▸ known) (each.chState ▸ enabled)
  exact ⟨w,each.placed w placed⟩

theorem recycleLaid (e : Nat) (laid : TresLaid h) : TresLaid (recycleAt e h) := laid

theorem txSoundIff (laid : TresLaid h) (script : Nat → CbScript) (tx : ev.getEvType = PktType.txEvent) :
    TxSound h ev ↔ (∀ a ∈ txUses h ev, a.InRange) ∧ ∃ h', txEvent h ev script = some h' := by
  unfold TxSound txUses txEvent
  by_cases known : ev.getEvChid < h.maxChan
  · have returns := @returnsIff (h.port ev.getEvChid) ev (laid _ known) script
    rw [if_pos known,if_pos known]
    constructor
    · intro sound
      obtain ⟨p',ran⟩ := returns.mpr (sound tx known)
      refine ⟨fun a member => ?_,_,congrArg (Option.map _) ran⟩
      cases List.mem_singleton.mp member
      exact known
    · rintro ⟨-,h',ran⟩ _ _
      obtain ⟨p',ran,-⟩ := Option.map_eq_some_iff.mp ran
      exact returns.mp ⟨p',ran⟩
  · rw [if_neg known,if_neg known]
    exact ⟨fun _ => ⟨fun _ none => (List.not_mem_nil none).elim,h,rfl⟩,fun _ _ yes => absurd yes known⟩

theorem otherReturns (kind : ErDataType) (script : Nat → CbScript) (other : ev.getEvType ≠ PktType.txEvent) :
    ∃ h', processEvent h kind ev script = some h' := by
  cases kind with
  | ctrl =>
    unfold processEvent ctrlEvent
    dsimp only
    rw [if_neg other]
    split
    · exact ⟨_,rfl⟩
    split
    · exact ⟨_,rfl⟩
    split
    · exact ⟨_,rfl⟩
    split <;> exact ⟨_,rfl⟩
  | data =>
    unfold processEvent dataEvent
    dsimp only
    rw [if_neg other]
    split <;> exact ⟨_,rfl⟩

theorem txProcess (kind : ErDataType) (script : Nat → CbScript) (tx : ev.getEvType = PktType.txEvent) :
    processEvent h kind ev script = txEvent h ev script ∧ uses h ev kind = txUses h ev := by
  cases kind with
  | ctrl =>
    unfold processEvent ctrlEvent uses
    rw [tx]
    exact ⟨rfl,rfl⟩
  | data =>
    unfold processEvent dataEvent uses
    rw [tx]
    exact ⟨rfl,rfl⟩

theorem soundIff (laid : TresLaid h) (kind : ErDataType) (script : Nat → CbScript) :
    Sound kind h ev ↔ (∀ a ∈ uses h ev kind, a.InRange) ∧ ∃ h', processEvent h kind ev script = some h' := by
  by_cases tx : ev.getEvType = PktType.txEvent
  · obtain ⟨process,used⟩ := @txProcess h ev kind script tx
    have only : Sound kind h ev ↔ TxSound h ev := by
      refine and_iff_left ?_
      cases kind with
      | ctrl => exact fun cmd => absurd (tx.symm.trans cmd) (by decide)
      | data => exact fun rsc => absurd (tx.symm.trans rsc) (by decide)
    rw [only,process,used]
    exact txSoundIff laid script tx
  · have quiet : TxSound h ev := fun yes => absurd yes tx
    unfold Sound
    rw [and_iff_right quiet,and_iff_left (otherReturns kind script tx)]
    cases kind with
    | ctrl =>
      unfold CmdSound uses
      by_cases cmd : ev.getEvType = PktType.cmdCompletionEvent
      · simp [cmd,cmdUses,Access.InRange]
      · simp [cmd,tx]
    | data =>
      unfold RscSound uses rscUses
      by_cases rsc : ev.getEvType = PktType.rscTxEvent
      · by_cases known : ev.getEvChid < h.maxChan
        · simp [rsc,known,Access.InRange,PktType.rscTxEvent,PktType.txEvent]
        · simp [rsc,known,PktType.rscTxEvent,PktType.txEvent]
      · simp [rsc,tx]

theorem txSoundShifts (shifts : ShiftsAll h h') : TxSound h' ev ↔ TxSound h ev := by
  obtain ⟨_,_,_,ring⟩ := (shifts.chans ev.getEvChid).tre
  unfold TxSound Returns
  rw [shifts.maxChan,(shifts.chans ev.getEvChid).chState,ring]
  exact Iff.rfl

theorem soundShifts (shifts : ShiftsAll h h') : Sound kind h' ev ↔ Sound kind h ev := by
  refine and_congr (txSoundShifts shifts) ?_
  cases kind with
  | ctrl =>
    obtain ⟨_,_,_,ring⟩ := shifts.cmdRing
    show CmdSound h' ev ↔ CmdSound h ev
    unfold CmdSound cmdPkt
    rw [shifts.maxChan,shifts.cmdMem,ring]
    exact Iff.rfl
  | data =>
    obtain ⟨_,_,_,ring⟩ := (shifts.chans ev.getEvChid).buf
    show RscSound h' ev ↔ RscSound h ev
    unfold RscSound rscCell
    rw [shifts.maxChan,ring]
    exact Iff.rfl

theorem countsShifts (shifts : ShiftsAll h h') (ev : MhiTre) : countsQuota h' kind ev = countsQuota h kind ev := by
  unfold countsQuota
  rw [shifts.maxChan]

end Events

/-! What the device pointer has to be, and which events the loop comes to. -/
section Loops

def elementAt (r : Ring) : Nat → Nat
  | 0 => r.rp
  | n+1 => elementAt (mhiRecycleEvRingElement r) n

variable (kind : ErDataType) (h : Host) (er : MhiEvent)

/- It is the bus address of an element; or the quota ends the loop, because there is none or
because some event of the ring uses it up. -/
def Lands (quota : Nat) : Prop :=
  (∃ cell, OnElement er.ring cell ∧ er.ctxtRp % wordSpan = er.ring.iommuBase+(cell-er.ring.base)) ∨
    kind = .data ∧ (quota = 0 ∨ ∃ cell, OnElement er.ring cell ∧ countsQuota h kind (er.mem cell) = true)

def spent (n : Nat) : Nat := (List.range n).countP fun m => countsQuota h kind (er.mem (elementAt er.ring m))

def ComesTo (quota n : Nat) : Prop := (∀ m ≤ n, elementAt er.ring m ≠ readPointer er) ∧ (kind = .data → spent kind h er n < quota)

def AllSound (quota : Nat) : Prop := ∀ n, ComesTo kind h er quota n → Sound kind h (er.mem (elementAt er.ring n))

end Loops

def InsideTables {α : Type} (run : Nat → Trace Access α) : Prop :=
  (∃ fuel, (run fuel).Ends) ∧ ∀ fuel, ∀ a ∈ (run fuel).effects, a.InRange

section Running
variable {w : Window} {mem : Nat → MhiTre} {devRp e i : Nat} {kind : ErDataType} {scripts : Nat → Nat → CbScript} {first : Host}
  {s t : Stage}

structure Kept (w : Window) (mem : Nat → MhiTre) (devRp e : Nat) (first : Host) (i : Nat) (h : Host) : Prop where
  stands : Stands w mem devRp e i h
  laid : TresLaid h
  shifts : ShiftsAll first h

theorem goesKept (kept : Kept w mem devRp e first i s.host) (goes : Trace.Goes (turn kind e scripts) s t) :
    Kept w mem devRp e first (i+1) t.host := by
  obtain ⟨-,h',ran,rfl⟩ := (turnGoes kept.stands).mp goes
  have shifts := processShifts ran
  have whole := kept.shifts.trans shifts
  exact ⟨recycleStands (processStands ran kept.stands),recycleLaid e (shiftsLaid shifts kept.laid),
    ⟨whole.maxChan,whole.chans,whole.cmdRing,whole.cmdMem⟩⟩

theorem turnEnds (stands : Stands w mem devRp e i s.host) (more : More kind devRp (w.slot i) s.quota) :
    (turn kind e scripts s).Ends ↔ ∃ h', processEvent s.host kind (mem (w.slot i)) (scripts s.count) = some h' := by
  have ends : (event s.host (mem (w.slot i)) kind (scripts s.count)).Ends ↔
      ∃ h', processEvent s.host kind (mem (w.slot i)) (scripts s.count) = some h' := by
    unfold event Trace.Ends
    cases processEvent s.host kind (mem (w.slot i)) (scripts s.count) with
    | none => simp
    | some h' => simp
  rw [turnStands scripts stands,if_pos more,Trace.bindEnds,ends]
  exact and_iff_left fun _ _ => Trace.pureEnds _

theorem turnSound (kept : Kept w mem devRp e first i s.host) (more : More kind devRp (w.slot i) s.quota) :
    Sound kind s.host (mem (w.slot i)) ↔
      (∀ a ∈ (turn kind e scripts s).effects, a.InRange) ∧ (turn kind e scripts s).Ends := by
  rw [soundIff kept.laid kind (scripts s.count),turnEnds kept.stands more,turnStands scripts kept.stands,if_pos more]
  refine and_congr_left' ⟨?_,?_⟩
  · intro inside a used
    rcases Trace.memBind.mp used with now | ⟨_,-,later⟩
    · exact inside a now
    · cases later
  · exact fun inside a used => inside a (Trace.memBind.mpr (.inl used))

theorem turnDone (stands : Stands w mem devRp e i s.host) (done : ¬More kind devRp (w.slot i) s.quota) :
    turn kind e scripts s = .pure (.inr s) := by
  rw [turnStands scripts stands,if_neg done]

theorem slotDescends {m : Nat} (stands : Stands w mem (w.slot (i+m)) e i s.host) :
    Acc (fun t s => Trace.Goes (turn kind e scripts) s t) s := by
  induction m generalizing i s with
  | zero =>
    refine ⟨s,fun t goes => ?_⟩
    have more := ((turnGoes stands).mp goes).1
    exact absurd rfl more.1
  | succ m ih =>
    refine ⟨s,fun t goes => ?_⟩
    have further : i+(m+1) = i+1+m := by omega
    rw [further] at stands
    exact ih (goesStands stands goes)

theorem quotaDescends {quota m j : Nat} (kept : Kept w mem devRp e first i s.host) (left : s.quota = quota)
    (ahead : w.slot j = w.slot (i+m)) (counts : countsQuota first .data (mem (w.slot j)) = true) :
    Acc (fun t s => Trace.Goes (turn .data e scripts) s t) s := by
  induction quota generalizing i m s with
  | zero =>
    refine ⟨s,fun t goes => ?_⟩
    have more := ((turnGoes kept.stands).mp goes).1
    exact absurd left (more.2 rfl)
  | succ quota spend =>
    have spends : ∀ {i s t}, Kept w mem devRp e first i s.host → s.quota = quota+1 → Trace.Goes (turn .data e scripts) s t →
        countsQuota first .data (mem (w.slot i)) = true → Acc (fun t s => Trace.Goes (turn .data e scripts) s t) t := by
      intro i s t kept left goes counted
      obtain ⟨m,-,ahead⟩ := w.slotAhead (i+1) j
      refine spend (goesKept kept goes) ?_ ahead
      obtain ⟨-,h',ran,rfl⟩ := (turnGoes kept.stands).mp goes
      show quotaLeft s.host .data (mem (w.slot i)) s.quota = quota
      rw [quotaLeft,countsShifts kept.shifts,counted,left]
      rfl
    induction m generalizing i s with
    | zero =>
      rw [Nat.add_zero] at ahead
      exact ⟨s,fun t goes => spends kept left goes (ahead ▸ counts)⟩
    | succ m near =>
      refine ⟨s,fun t goes => ?_⟩
      by_cases counted : countsQuota first .data (mem (w.slot i)) = true
      · exact spends kept left goes counted
      · have further : i+(m+1) = i+1+m := by omega
        rw [further] at ahead
        refine near (goesKept kept goes) ?_ ahead
        obtain ⟨-,h',ran,rfl⟩ := (turnGoes kept.stands).mp goes
        show quotaLeft s.host .data (mem (w.slot i)) s.quota = quota+1
        rw [quotaLeft,countsShifts kept.shifts,if_neg counted,left]

theorem endless (off : ∀ j, devRp ≠ w.slot j) (kept : Kept w mem devRp e first i s.host)
    (unspent : kind = .data → s.quota ≠ 0 ∧ ∀ j, countsQuota first .data (mem (w.slot j)) = false) (fuel : Nat) :
    ¬(Trace.loop (turn kind e scripts) fuel s).Ends := by
  let among (s : Stage) : Prop := (∃ i, Kept w mem devRp e first i s.host) ∧ (kind = .data → s.quota ≠ 0)
  have turns : ∀ s, among s → (turn kind e scripts s).Ends → ∃ next, Trace.Goes (turn kind e scripts) s next ∧ among next := by
    rintro s ⟨⟨i,kept⟩,left⟩ ends
    have more : More kind devRp (w.slot i) s.quota := ⟨off i,left⟩
    obtain ⟨h',ran⟩ := (turnEnds kept.stands more).mp ends
    have goes := (turnGoes kept.stands).mpr ⟨more,h',ran,rfl⟩
    refine ⟨_,goes,⟨i+1,goesKept kept goes⟩,fun data => ?_⟩
    obtain ⟨-,nothing⟩ := unspent data
    subst data
    show quotaLeft s.host .data (mem (w.slot i)) s.quota ≠ 0
    rw [quotaLeft,countsShifts kept.shifts,nothing i]
    exact left rfl
  exact Trace.endlessRuns turns ⟨⟨i,kept⟩,fun data => (unspent data).1⟩ fuel

end Running

/-! The turns of one call, counted. -/
section Turns
variable {w : Window} {e i quota n : Nat} {kind : ErDataType} {scripts : Nat → Nat → CbScript} {h : Host} {er : MhiEvent}
    {s t : Stage}

theorem elementsSlots {r : Ring} (spans : r.Over w) (rp : r.rp = w.slot i) (n : Nat) : elementAt r n = w.slot (i+n) := by
  induction n generalizing r i with
  | zero => exact rp
  | succ n ih =>
    have next : (mhiRecycleEvRingElement r).rp = w.slot (i+1) := by rw [spans.recycleRp,rp,w.nextSlot]
    have further : i+(n+1) = i+1+n := by omega
    rw [elementAt,further]
    exact ih (spans.moved _ _ _ _) next

theorem spentNext (n : Nat) : spent kind h er (n+1) = spent kind h er n+
    if countsQuota h kind (er.mem (elementAt er.ring n)) then 1 else 0 := by
  unfold spent
  rw [List.range_succ,List.countP_append,List.countP_singleton]

structure Turned (w : Window) (kind : ErDataType) (e i quota : Nat) (h : Host) (er : MhiEvent) (n : Nat) (t : Stage) : Prop where
  kept : Kept w er.mem (readPointer er) e h (i+n) t.host
  left : t.quota = quota-spent kind h er n

section Counted
variable (slots : ∀ m, elementAt er.ring m = w.slot (i+m))
include slots

theorem turnedGoes (turned : Turned w kind e i quota h er n s) (goes : Trace.Goes (turn kind e scripts) s t) :
    Turned w kind e i quota h er (n+1) t := by
  refine ⟨goesKept turned.kept goes,?_⟩
  obtain ⟨-,h',ran,rfl⟩ := (turnGoes turned.kept.stands).mp goes
  show quotaLeft s.host kind (er.mem (w.slot (i+n))) s.quota = _
  rw [quotaLeft,countsShifts turned.kept.shifts,turned.left,spentNext,slots]
  split <;> omega

theorem moreIff (turned : Turned w kind e i quota h er n s) : More kind (readPointer er) (w.slot (i+n)) s.quota ↔
    elementAt er.ring n ≠ readPointer er ∧ (kind = .data → spent kind h er n < quota) := by
  unfold More
  rw [slots,turned.left]
  exact and_congr ne_comm (imp_congr_right fun _ => Nat.sub_ne_zero_iff_lt)

theorem reachedTurned (turned : Turned w kind e i quota h er 0 s) (way : ReflTransGen (Trace.Goes (turn kind e scripts)) s t) :
    ∃ n, Turned w kind e i quota h er n t ∧ ∀ m < n, elementAt er.ring m ≠ readPointer er := by
  induction way with
  | refl => exact ⟨0,turned,nofun⟩
  | tail _ goes ih =>
    obtain ⟨n,turned,passed⟩ := ih
    have more := ((turnGoes turned.kept.stands).mp goes).1
    refine ⟨n+1,turnedGoes slots turned goes,fun m before => ?_⟩
    rcases Nat.lt_succ_iff_lt_or_eq.mp before with earlier | rfl
    · exact passed m earlier
    · exact ((moreIff slots turned).mp more).1

theorem comesReached {fuel : Nat} (turned : Turned w kind e i quota h er 0 s)
    (ends : (Trace.loop (turn kind e scripts) fuel s).Ends)
    (comes : ComesTo kind h er quota n) : ∃ t, ReflTransGen (Trace.Goes (turn kind e scripts)) s t ∧
    Turned w kind e i quota h er n t := by
  induction n with
  | zero => exact ⟨s,.refl,turned⟩
  | succ n ih =>
    have earlier : ComesTo kind h er quota n := by
      refine ⟨fun m before => comes.1 m (Nat.le_succ_of_le before),fun data => ?_⟩
      have left := comes.2 data
      rw [spentNext] at left
      omega
    obtain ⟨t,way,there⟩ := ih earlier
    have more := (moreIff slots there).mpr ⟨earlier.1 n (Nat.le_refl n),earlier.2⟩
    obtain ⟨h',ran⟩ := (turnEnds there.kept.stands more).mp (Trace.reachedEnds ends way)
    have goes := (turnGoes there.kept.stands).mpr ⟨more,h',ran,rfl⟩
    exact ⟨_,way.tail goes,turnedGoes slots there goes⟩

theorem turnsSound (turned : Turned w kind e i quota h er 0 s) (all : AllSound kind h er quota)
    (way : ReflTransGen (Trace.Goes (turn kind e scripts)) s t) :
    (∀ a ∈ (turn kind e scripts t).effects, a.InRange) ∧ (turn kind e scripts t).Ends := by
  obtain ⟨n,there,passed⟩ := reachedTurned slots turned way
  by_cases more : More kind (readPointer er) (w.slot (i+n)) t.quota
  · obtain ⟨here,left⟩ := (moreIff slots there).mp more
    have comes : ComesTo kind h er quota n := by
      refine ⟨fun m before => ?_,left⟩
      rcases Nat.lt_or_eq_of_le before with earlier | rfl
      · exact passed m earlier
      · exact here
    refine (turnSound there.kept more).mp ((soundShifts there.kept.shifts).mpr ?_)
    rw [← slots]
    exact all n comes
  · rw [turnDone there.kept.stands more]
    exact ⟨fun a none => (List.not_mem_nil none).elim,Trace.pureEnds _⟩

end Counted
end Turns

section Calls
variable {w : Window} {e quota : Nat} {kind : ErDataType} {scripts : Nat → Nat → CbScript} {h : Host} {er : MhiEvent}

theorem pointerIff {r : Ring} (spans : r.Over w) (ptr : Nat) :
    (∃ cell, OnElement r cell ∧ ptr % wordSpan = r.iommuBase+(cell-r.base)) ↔ ∃ j, mhiToVirtual r ptr = w.slot j := by
  have host := spans.host
  have bus := spans.bus
  have cells : ∀ cell, r.base ≤ cell → cell < r.base+r.len →
      (ptr % wordSpan = r.iommuBase+(cell-r.base) ↔ mhiToVirtual r ptr = cell) := by
    intro cell above below
    unfold mhiToVirtual wordSpan at *
    omega
  constructor
  · rintro ⟨cell,on,named⟩
    obtain ⟨j,rfl⟩ := (elementSlot spans cell).mp on
    exact ⟨j,(cells _ on.2.1 on.2.2.1).mp named⟩
  · rintro ⟨j,same⟩
    have on := (elementSlot spans (w.slot j)).mpr ⟨j,rfl⟩
    exact ⟨w.slot j,on,(cells _ on.2.1 on.2.2.1).mpr same⟩

section Valid
variable (valid : mhiEventAccessInvalid h.cntrl.pmState = false)
include valid

theorem validEnds (fuel : Nat) : (mhiProcessEvRing kind e quota scripts fuel h).Ends ↔
    (Trace.loop (turn kind e scripts) fuel ⟨h,quota,0⟩).Ends := by
  rw [mhiProcessEvRing,valid,if_neg Bool.false_ne_true,Trace.bindEnds]
  exact ⟨fun went => went.1,fun went => ⟨went,fun _ _ => nofun⟩⟩

theorem validUses (fuel : Nat) (a : Access) : a ∈ (mhiProcessEvRing kind e quota scripts fuel h).effects ↔
    a ∈ (Trace.loop (turn kind e scripts) fuel ⟨h,quota,0⟩).effects := by
  rw [mhiProcessEvRing,valid,if_neg Bool.false_ne_true,Trace.memBind]
  exact ⟨fun either => either.elim id fun ⟨_,_,late⟩ => (List.not_mem_nil late).elim,.inl⟩

theorem validRuns : InsideTables (fun fuel => mhiProcessEvRing kind e quota scripts fuel h) ↔
    InsideTables (fun fuel => Trace.loop (turn kind e scripts) fuel ⟨h,quota,0⟩) := by
  unfold InsideTables
  simp only [validEnds valid,validUses valid]

end Valid

theorem endsLands {i fuel : Nat} (spans : er.ring.Over w) (kept : Kept w er.mem (readPointer er) e h i h)
    (ends : (Trace.loop (turn kind e scripts) fuel ⟨h,quota,0⟩).Ends) : Lands kind h er quota := by
  by_contra off
  obtain ⟨offRing,rest⟩ := not_or.mp off
  have away : ∀ j, readPointer er ≠ w.slot j := fun j same => offRing ((pointerIff spans er.ctxtRp).mpr ⟨j,same⟩)
  refine endless away kept (fun data => ?_) fuel ends
  obtain ⟨some,nothing⟩ := not_or.mp fun spent => rest ⟨data,spent⟩
  refine ⟨some,fun j => ?_⟩
  rw [Bool.eq_false_iff,Ne,← data]
  exact fun counts => nothing ⟨w.slot j,(elementSlot spans _).mpr ⟨j,rfl⟩,counts⟩

theorem landsDescends {i : Nat} (spans : er.ring.Over w) (kept : Kept w er.mem (readPointer er) e h i h)
    (lands : Lands kind h er quota) :
    Acc (fun t s => Trace.Goes (turn kind e scripts) s t) ⟨h,quota,0⟩ := by
  rcases lands with onRing | ⟨rfl,none | ⟨cell,on,counts⟩⟩
  · obtain ⟨j,same⟩ := (pointerIff spans er.ctxtRp).mp onRing
    obtain ⟨m,-,ahead⟩ := w.slotAhead i j
    have stands := kept.stands
    rw [readPointer,same,ahead] at stands
    exact slotDescends stands
  · refine ⟨_,fun t goes => ?_⟩
    exact absurd none (((turnGoes kept.stands).mp goes).1.2 rfl)
  · obtain ⟨j,rfl⟩ := (elementSlot spans cell).mp on
    obtain ⟨m,-,ahead⟩ := w.slotAhead i j
    exact quotaDescends kept rfl ahead counts

theorem refusedInside (refused : mhiEventAccessInvalid h.cntrl.pmState = true) :
    InsideTables (fun fuel => mhiProcessEvRing kind e quota scripts fuel h) := by
  have same : (fun fuel => mhiProcessEvRing kind e quota scripts fuel h) = fun _ => .pure (h,none) := by
    funext fuel
    rw [mhiProcessEvRing,refused,if_pos rfl]
  rw [same]
  exact ⟨⟨0,Trace.pureEnds _⟩,fun _ a used => (List.not_mem_nil used).elim⟩

/- Whatever the events are and wherever the device pointer is, the call ends and stays in its
tables if and only if it is not begun, or the pointer lands and every event it comes to is
sound. -/
theorem eventsInside (found : h.events[e]? = some er) (spans : er.ring.Over w) (rp : ∃ i, er.ring.rp = w.slot i)
    (laid : TresLaid h) :
    InsideTables (fun fuel => mhiProcessEvRing kind e quota scripts fuel h) ↔
      mhiEventAccessInvalid h.cntrl.pmState = true ∨ Lands kind h er quota ∧ AllSound kind h er quota := by
  cases valid : mhiEventAccessInvalid h.cntrl.pmState with
  | true => exact iff_of_true (refusedInside valid) (.inl rfl)
  | false =>
    rw [validRuns valid,or_iff_right Bool.false_ne_true]
    obtain ⟨i,rp⟩ := rp
    have slots := elementsSlots spans rp
    have kept : Kept w er.mem (readPointer er) e h i h := ⟨⟨er,found,spans,rp,rfl,rfl⟩,laid,allSame rfl rfl rfl rfl⟩
    have turned : Turned w kind e i quota h er 0 ⟨h,quota,0⟩ := ⟨kept,rfl⟩
    constructor
    · rintro ⟨⟨fuel,ends⟩,inside⟩
      refine ⟨endsLands spans kept ends,fun n comes => ?_⟩
      obtain ⟨t,way,there⟩ := comesReached slots turned ends comes
      have more := (moreIff slots there).mpr ⟨comes.1 n (Nat.le_refl n),comes.2⟩
      obtain ⟨m,done⟩ := Trace.turnDone way
      rw [slots]
      exact (soundShifts there.kept.shifts).mp ((turnSound there.kept more).mpr
        ⟨fun a used => inside m a (done a used),Trace.reachedEnds ends way⟩)
    · rintro ⟨lands,all⟩
      have sound : ∀ t, ReflTransGen (Trace.Goes (turn kind e scripts)) ⟨h,quota,0⟩ t →
          (∀ a ∈ (turn kind e scripts t).effects, a.InRange) ∧ (turn kind e scripts t).Ends :=
        fun t way => turnsSound slots turned all way
      refine ⟨Trace.loopEnds (fun t way => (sound t way).2) (landsDescends spans kept lands),fun fuel a used => ?_⟩
      obtain ⟨t,way,now⟩ := Trace.turnOf used
      exact (sound t way).1 a now

end Calls

namespace Sample

def ring (ctxtRp : Nat) (t : MhiTre) : MhiEvent :=
  {MhiHost.Sample.event false with
    ring := emptyRing (layRing (MhiHost.Sample.event false).ring 0x2000 0x82000)
    mem := fun _ => t
    ctxtRp := ctxtRp}
def host (ctxtRp : Nat) (t : MhiTre) : Host :=
  {MhiHost.Sample.ready with
    events := [ring ctxtRp t]
    chans := fun i => (mhiInitChanCtxt (MhiHost.Sample.ready.chans i) (some 0x4000)).1}
def quiet : Nat → Nat → CbScript := fun _ _ => ⟨[],⟨0,0,false⟩⟩

def answer (ptr : Nat) : MhiTre := ⟨ptr,EvCc.success <<< 24,PktType.cmdCompletionEvent <<< 16⟩
def outOfOrder (cookie : Nat) : MhiTre := ⟨cookie,EvCc.eot <<< 24,PktType.rscTxEvent <<< 16⟩

def window : Window := treWindow 0x2000 4 fourElements

theorem spans (ctxtRp : Nat) (t : MhiTre) : (ring ctxtRp t).ring.Over window :=
  ⟨rfl,rfl,rfl,rfl,show 0 < 0x2000 by decide,show 0x2000+64 < wordSpan by decide,show 0x82000+64 ≤ wordSpan by decide⟩

theorem laid (ctxtRp : Nat) (t : MhiTre) : TresLaid (host ctxtRp t) := by
  intro i known enabled
  have zero : i = 0 := Nat.lt_one_iff.mp known
  subst zero
  have off : ((host ctxtRp t).chans 0).chState = .disabled := rfl
  rw [off] at enabled
  cases enabled

theorem answered : AllSound .ctrl (host 0x82010 (answer 0x83000)) (ring 0x82010 (answer 0x83000)) 5 := by
  intro n comes
  cases n with
  | zero => exact ⟨fun tx => absurd tx (by decide),fun _ => by decide⟩
  | succ n => exact absurd rfl (comes.1 1 (Nat.le_add_left 1 n))

end Sample

theorem answerInside : InsideTables (fun fuel => mhiProcessEvRing .ctrl 0 5 Sample.quiet fuel (Sample.host 0x82010 (Sample.answer 0x83000))) :=
  (eventsInside rfl (Sample.spans 0x82010 (Sample.answer 0x83000)) ⟨0,rfl⟩ (Sample.laid 0x82010 (Sample.answer 0x83000))).mpr
    (.inr ⟨.inl ⟨0x2010,by decide,by decide⟩,Sample.answered⟩)

theorem tablesLeft :
    (∀ fuel, ¬(mhiProcessCtrlEvRing 0 5 Sample.quiet fuel (Sample.host 0x82008 ⟨0,0,0⟩)).Ends) ∧
    (∃ a ∈ (mhiProcessCtrlEvRing 0 5 Sample.quiet 2 (Sample.host 0x82010 (Sample.answer 0x84000))).effects, ¬a.InRange) ∧
    ∃ a ∈ (mhiProcessDataEventRing 0 5 Sample.quiet 2 (Sample.host 0x82010 (Sample.outOfOrder 0x1000))).effects, ¬a.InRange := by
  refine ⟨fun fuel ends => ?_,⟨.cmdPkt (Sample.host 0 ⟨0,0,0⟩).cmdRing 0x4000,by decide,?_⟩,
    ⟨.bufInfo ((Sample.host 0 ⟨0,0,0⟩).chans 0).bufRing 0x5000,by decide,?_⟩⟩
  · have kept : Kept Sample.window (fun _ => ⟨0,0,0⟩) 0x2008 0 (Sample.host 0x82008 ⟨0,0,0⟩) 0 (Sample.host 0x82008 ⟨0,0,0⟩) :=
      ⟨⟨_,rfl,Sample.spans 0x82008 ⟨0,0,0⟩,rfl,rfl,rfl⟩,Sample.laid 0x82008 ⟨0,0,0⟩,allSame rfl rfl rfl rfl⟩
    have off : ∀ j, 0x2008 ≠ Sample.window.slot j := by
      intro j
      show 0x2008 ≠ 0x2000+j % 4 * 16
      omega
    have runs : ¬(Trace.loop (turn .ctrl 0 Sample.quiet) fuel ⟨Sample.host 0x82008 ⟨0,0,0⟩,5,0⟩).Ends :=
      endless off kept (fun data => absurd data (by decide)) fuel
    exact runs ((validEnds rfl fuel).mp ends)
  · show ¬OnElement (Sample.host 0 ⟨0,0,0⟩).cmdRing 0x4000
    decide
  · show ¬OnElement ((Sample.host 0 ⟨0,0,0⟩).chans 0).bufRing 0x5000
    decide

end MhiHost.EventTables
