import MhiHost.Power
import MhiHost.Setup
import MhiHost.Stations
import MhiHost.Runs

/-! Commands and the command doorbell. A command is announced by the call that queues
it, or by the next M0 transition, and only mission mode lets that transition ring. Both
calls are cut between their locks: another thread can change the power state after the
element was added, and queue a command before the handler looks at the ring. -/
namespace MhiHost.CommandDoorbell

/- `mhi_send_cmd` holds the ring's lock from the first part to the second. -/
def sendFill (h : Host) (chan : Nat) (cmd : CmdType) : Host :=
  {h with
    cmdMem := Function.update h.cmdMem h.cmdRing.wp (cmdTre (h.cmdMem h.cmdRing.wp) chan cmd)
    cmdRing := mhiAddRingElement h.cmdRing}
def sendRing (h : Host) : Host := if mhiDbAccessValid h.cntrl then mhiRingCmdDb h else h

theorem sendCut (h : Host) (chan : Nat) (cmd : CmdType) : mhiSendCmd h chan cmd =
    if getNrAvailRingElements h.cmdRing = 0 then (h,some .enomem) else (sendRing (sendFill h chan cmd),none) := rfl

def m0Enter (h : Host) : Host :=
  {h with cntrl := {h.cntrl with devState := .m0, pmState := mhiTrysetPmState h.cntrl.pmState .m0}}
def m0Awake (h : Host) : Host :=
  let h := {h with cntrl := mhiAssertDevWake h.cntrl true}
  if mhiInMissionMode h.cntrl.ee then m0Mission h else h
def m0Rest (h : Host) : Host :=
  let h := m0Chans (m0Awake h)
  {h with cntrl := mhiDeassertDevWake h.cntrl false}

theorem m0Cut (h : Host) : mhiPmM0Transition h =
    if (m0Enter h).cntrl.pmState ≠ .m0 then (m0Enter h,some .eio) else (m0Rest (m0Enter h),none) := rfl

structure State where
  host : Host
  locked : Bool
  waking : Nat

def start (h : Host) : State := ⟨h,false,0⟩

def Announced (r : Ring) : Prop := r.rp ≠ r.wp → r.ctxtWp = r.iommuBase + (r.wp - r.base)

/- `G` says when the second part of an M0 transition may run. -/
inductive Step (G : State → Prop) : State → State → Prop where
  | fill {s} (chan : Nat) (cmd : CmdType) (free : s.locked = false) (room : getNrAvailRingElements s.host.cmdRing ≠ 0) :
      Step G s {s with host := sendFill s.host chan cmd, locked := true}
  | ring {s} (held : s.locked = true) : Step G s {s with host := sendRing s.host, locked := false}
  | completion {s} (ev : MhiTre) (queued : s.host.cmdRing.rp ≠ s.host.cmdRing.wp) :
      Step G s {s with host := mhiProcessCmdCompletion s.host ev}
  | m0Refused {s} (stuck : mhiTrysetPmState s.host.cntrl.pmState .m0 ≠ .m0) : Step G s {s with host := m0Enter s.host}
  | m0Enter {s} (reached : mhiTrysetPmState s.host.cntrl.pmState .m0 = .m0) :
      Step G s {s with host := m0Enter s.host, waking := s.waking + 1}
  | m0Rest {s} (part : 0 < s.waking) (free : mhiInMissionMode s.host.cntrl.ee = true → s.locked = false) (may : G s) :
      Step G s {s with host := m0Rest s.host, waking := s.waking - 1}
  | m1 {s} : Step G s {s with host := mhiPmM1Transition s.host}
  | m3 {s} : Step G s {s with host := (mhiPmM3Transition s.host).1}
  | suspendBegin {s} : Step G s {s with host := (suspendBegin s.host).1}
  | suspendAwake {s} (inTime : Bool) : Step G s {s with host := (suspendAwake s.host inTime).1}
  | suspendEnter {s} : Step G s {s with host := (suspendEnter s.host).1}
  | resume {s} : Step G s {s with host := (resumeBegin s.host).1}
  | trouble {s} (state : PmState) (bad : mhiPmInErrorState state = true) :
      Step G s {s with host := s.host.setPm (mhiTrysetPmState s.host.cntrl.pmState state)}
  | ready {s} (reply : ReadyReply) : Step G s {s with host := (mhiReadyStateTransition s.host reply).1}
  | disable {s} (target : PmState) (way : target = .sysErrProcess ∨ target = .shutdownProcess) :
      Step G s {s with host := (disableBegin s.host target).1}
  | reset {s} (target : PmState) (reply : ReadyReply) : Step G s {s with host := disableFinish s.host target reply}
  | execEnv {s} (ee : ExecEnv) : Step G s {s with host := setExecEnv s.host ee}
  | wake {s} (force : Bool) : Step G s {s with host := {s.host with cntrl := mhiAssertDevWake s.host.cntrl force}}
  | release {s} (override : Bool) :
      Step G s {s with host := {s.host with cntrl := mhiDeassertDevWake s.host.cntrl override}}

structure Calm (m2NoDb : Bool) (h h' : Host) : Prop where
  ring : ∃ db, h'.cmdRing = {h.cmdRing with dbAddr := db}
  access : h'.cntrl.dbAccess = h.cntrl.dbAccess
  opened : h.cntrl.dbAccess = dbAccessOf m2NoDb → mhiDbAccessValid h'.cntrl = true → mhiDbAccessValid h.cntrl = true

section Calm
variable {m2NoDb : Bool} {h h' : Host}

theorem Calm.trans {mid : Host} (first : Calm m2NoDb h mid) (second : Calm m2NoDb mid h') : Calm m2NoDb h h' where
  ring := by
    obtain ⟨_,one⟩ := first.ring
    obtain ⟨db,two⟩ := second.ring
    exact ⟨db,by rw [two, one]⟩
  access := second.access.trans first.access
  opened := fun access opened => first.opened access (second.opened (first.access.trans access) opened)

theorem calmSame (ring : h'.cmdRing = h.cmdRing) (book : h'.cntrl.book = h.cntrl.book) : Calm m2NoDb h h' := by
  have pm : h'.cntrl.pmState = h.cntrl.pmState := congrArg Book.pm book
  have access : h'.cntrl.dbAccess = h.cntrl.dbAccess := congrArg Book.dbAccess book
  refine ⟨⟨h.cmdRing.dbAddr,ring⟩,access,fun _ opened => ?_⟩
  rw [mhiDbAccessValid, pm, access] at opened
  exact opened

theorem calmDrift (state : PmState) (other : state ≠ .m0) (ring : h'.cmdRing = h.cmdRing)
    (book : h'.cntrl.book = {h.cntrl.book with pm := mhiTrysetPmState h.cntrl.pmState state}) : Calm m2NoDb h h' := by
  have pm : h'.cntrl.pmState = mhiTrysetPmState h.cntrl.pmState state := congrArg Book.pm book
  have access : h'.cntrl.dbAccess = h.cntrl.dbAccess := congrArg Book.dbAccess book
  refine ⟨⟨h.cmdRing.dbAddr,ring⟩,access,fun mask opened => ?_⟩
  rw [mhiDbAccessValid, pm, access, mask] at opened
  rw [mhiDbAccessValid, mask]
  exact driftOpened other opened

theorem calmDisable {target : PmState} (other : target ≠ .m0) : Calm m2NoDb h (disableBegin h target).1 := by
  unfold disableBegin
  have heard : Calm m2NoDb h (if target = .sysErrProcess then h.statusCb .sysError else h) := by
    split <;> exact calmSame rfl rfl
  refine heard.trans ?_
  generalize (if target = .sysErrProcess then h.statusCb .sysError else h) = h
  dsimp only
  split
  · exact calmDrift _ other rfl rfl
  · split <;> exact calmDrift _ other rfl rfl

theorem calmMmio (reply : ReadyReply) : Calm m2NoDb h (mhiInitMmio h reply).1 := by
  obtain ⟨cntrl,chans,events,db,book,_,same⟩ := mmioView h reply
  have rest : Calm m2NoDb h {h with cntrl := cntrl, chans := chans, events := events} := calmSame rfl book
  rw [same]
  exact ⟨⟨db,rfl⟩,rest.access,rest.opened⟩

theorem calmReady (reply : ReadyReply) : Calm m2NoDb h (mhiReadyStateTransition h reply).1 := by
  have moved : Calm m2NoDb h (readyHost h) := calmDrift .por (by simp) rfl rfl
  have ends := readyEnds h reply
  generalize mhiReadyStateTransition h reply = out at ends ⊢
  cases ends with
  | refused e => exact calmSame rfl rfl
  | moved => exact moved
  | unmapped => exact moved.trans (calmMmio reply)
  | done alive reached =>
    exact (moved.trans (calmMmio reply)).trans (calmSame rfl (forEventsBook readyEventBook _ _))

end Calm

theorem m0RestView (h : Host) : (m0Rest h).cntrl.book = h.cntrl.book ∧
    ((m0Rest h).cmdRing = h.cmdRing ∨ (m0Rest h).cmdRing = {h.cmdRing with ctxtWp := h.cmdRing.db}) ∧
    (mhiInMissionMode h.cntrl.ee = true → Announced (m0Rest h).cmdRing) := by
  have chans : (m0Rest h).cmdRing = (m0Awake h).cmdRing := by
    obtain ⟨cntrl,chans,same⟩ := m0ChansFrame (m0Awake h)
    simp only [m0Rest,same]
  have fold := m0FoldView (List.range (m0Awake h).maxChan) (m0Awake h) List.nodup_range
  have book : (m0Rest h).cntrl.book = (m0Awake h).cntrl.book := (deassertBook _ _).trans fold.2.1
  rw [chans, book]
  unfold m0Awake
  dsimp only
  rw [assertEe]
  split
  · obtain ⟨_,_,mission⟩ := m0MissionView {h with cntrl := mhiAssertDevWake h.cntrl true}
    refine ⟨mission.trans (assertBook _ _),?_⟩
    unfold m0Mission
    dsimp only
    split
    · exact ⟨.inr rfl,fun _ _ => rfl⟩
    · rename_i empty
      exact ⟨.inl rfl,fun _ queued => absurd queued empty⟩
  · rename_i other
    exact ⟨assertBook _ _,.inl rfl,fun mission => absurd mission other⟩

def Rings (s : State) : Prop :=
  mhiInMissionMode s.host.cntrl.ee = true ∨ s.locked = true ∨ Announced s.host.cmdRing

structure Kept (m2NoDb : Bool) (s : State) : Prop where
  access : s.host.cntrl.dbAccess = dbAccessOf m2NoDb
  rung : mhiDbAccessValid s.host.cntrl = true → s.locked = false → s.waking = 0 → Announced s.host.cmdRing

section Steps
variable {m2NoDb : Bool} {s s' : State}

theorem Kept.calm {h' : Host} (kept : Kept m2NoDb s) (calm : Calm m2NoDb s.host h') : Kept m2NoDb {s with host := h'} := by
  obtain ⟨db,ring⟩ := calm.ring
  refine ⟨calm.access.trans kept.access,fun opened free idle => ?_⟩
  have before := kept.rung (calm.opened kept.access opened) free idle
  dsimp only
  rw [ring]
  exact before

theorem resetKept {h' : Host} (kept : Kept m2NoDb s) (access : h'.cntrl.dbAccess = s.host.cntrl.dbAccess)
    (empty : h'.cmdRing.rp = h'.cmdRing.wp) : Kept m2NoDb {s with host := h'} :=
  ⟨access.trans kept.access,fun _ _ _ queued => absurd empty queued⟩

theorem disableFinishView (h : Host) (target : PmState) (reply : ReadyReply) :
    (disableFinish h target reply).cntrl.dbAccess = h.cntrl.dbAccess ∧
    (disableFinish h target reply).cmdRing.rp = (disableFinish h target reply).cmdRing.wp := by
  have access : (resetRings h).cntrl.dbAccess = h.cntrl.dbAccess :=
    congrArg Book.dbAccess (forEventsBook resetEventBook h.cntrl h.events)
  unfold disableFinish
  dsimp only
  split
  · have calm : Calm false (resetRings h) (mhiReadyStateTransition (resetRings h) reply).1 := calmReady reply
    obtain ⟨db,ring⟩ := calm.ring
    exact ⟨calm.access.trans access,by rw [ring]; rfl⟩
  · exact ⟨access,rfl⟩

theorem stepKept (step : Step Rings s s') (kept : Kept m2NoDb s) : Kept m2NoDb s' := by
  cases step with
  | fill chan cmd free room => exact ⟨kept.access,fun _ locked => nomatch locked⟩
  | ring held =>
    refine ⟨?_,fun opened _ _ => ?_⟩
    · unfold sendRing
      split <;> exact kept.access
    · dsimp only at opened ⊢
      unfold sendRing at opened ⊢
      split
      · exact fun _ => rfl
      · rename_i closed
        rw [if_neg closed] at opened
        exact absurd opened closed
  | completion ev queued => exact ⟨kept.access,fun opened free idle _ => kept.rung opened free idle queued⟩
  | m0Refused stuck =>
    have same := (trysetCases s.host.cntrl.pmState .m0).resolve_left stuck
    exact kept.calm (calmSame rfl (by simp [m0Enter,Cntrl.book,same]))
  | m0Enter reached => exact ⟨kept.access,fun _ _ idle => absurd idle (Nat.succ_ne_zero _)⟩
  | m0Rest part free may =>
    obtain ⟨book,ring,rung⟩ := m0RestView s.host
    have access : (m0Rest s.host).cntrl.dbAccess = s.host.cntrl.dbAccess := congrArg Book.dbAccess book
    refine ⟨access.trans kept.access,fun opened unlocked idle => ?_⟩
    rcases may with mission | locked | already
    · exact rung mission
    · simp [locked] at unlocked
    · rcases ring with same | same
      · dsimp only
        rw [same]
        exact already
      · dsimp only
        rw [same]
        exact fun _ => rfl
  | m1 =>
    have ring : (mhiPmM1Transition s.host).cmdRing = s.host.cmdRing := by
      unfold mhiPmM1Transition
      dsimp only
      split
      · rfl
      · split <;> rfl
    exact kept.calm (calmDrift .m2 (by simp) ring (m1View s.host).2.2)
  | m3 => exact kept.calm (calmDrift .m3 (by simp) rfl rfl)
  | suspendBegin =>
    have ring : (suspendBegin s.host).1.cmdRing = s.host.cmdRing := by
      unfold suspendBegin
      split
      · rfl
      split
      · rfl
      split <;> rfl
    exact kept.calm (calmSame ring (suspendBeginView s.host).2.2)
  | suspendAwake inTime => exact kept.calm (calmSame rfl (deassertBook _ _))
  | suspendEnter =>
    unfold suspendEnter
    split
    · exact kept.calm (calmSame rfl rfl)
    · dsimp only
      split <;> exact kept.calm (calmDrift .m3Enter (by simp) rfl rfl)
  | resume =>
    unfold resumeBegin
    split
    · exact kept.calm (calmSame rfl rfl)
    split
    · exact kept.calm (calmSame rfl rfl)
    dsimp only
    split <;> exact kept.calm (calmDrift .m3Exit (by simp) rfl rfl)
  | trouble state bad =>
    have other : state ≠ .m0 := by
      rintro rfl
      cases bad
    exact kept.calm (calmDrift _ other rfl rfl)
  | ready reply => exact kept.calm (calmReady reply)
  | disable target way =>
    have other : target ≠ .m0 := by
      rintro rfl
      simp at way
    exact kept.calm (calmDisable other)
  | reset target reply =>
    obtain ⟨access,empty⟩ := disableFinishView s.host target reply
    exact resetKept kept access empty
  | execEnv ee => exact kept.calm (calmSame rfl rfl)
  | wake force => exact kept.calm (calmSame rfl (assertBook _ _))
  | release override => exact kept.calm (calmSame rfl (deassertBook _ _))

end Steps

def NoneWaits (G : State → Prop) : Prop :=
  ∀ (h : Host) (lay : Layout) (m2NoDb : Bool) (s : State), h.cntrl.dbAccess = dbAccessOf m2NoDb →
    Relation.ReflTransGen (Step G) (start (mhiInitDevCtxt h lay)) s → s.locked = false → s.waking = 0 →
    s.host.cntrl.pmState.within s.host.cntrl.dbAccess = true → Announced s.host.cmdRing

theorem noLostCommandDoorbell : NoneWaits Rings := by
  intro h lay m2NoDb s access run free idle opened
  have first : Kept m2NoDb (start (mhiInitDevCtxt h lay)) :=
    ⟨access,fun _ _ _ queued => absurd rfl queued⟩
  exact (Runs.keeps (I := Kept m2NoDb) (fun _ _ => stepKept) run first).rung opened free idle

namespace Sample
variable (ee : ExecEnv)

def host : Host := {MhiHost.Sample.host with cntrl := {MhiHost.Sample.cntrl with ee := ee}}
def asleep : State := {start (mhiInitDevCtxt (host ee) MhiHost.Sample.layout) with
  host := (suspendEnter (mhiInitDevCtxt (host ee) MhiHost.Sample.layout)).1}
def filled : State := {asleep ee with host := sendFill (asleep ee).host 0 .startChan, locked := true}
def queued : State := {filled ee with host := sendRing (filled ee).host, locked := false}
def inM3 : State := {queued ee with host := (mhiPmM3Transition (queued ee).host).1}
def resumed : State := {inM3 ee with host := (resumeBegin (inM3 ee).host).1}
def entered : State := {resumed ee with host := CommandDoorbell.m0Enter (resumed ee).host, waking := 1}
def awake : State := {entered ee with host := CommandDoorbell.m0Rest (entered ee).host, waking := 0}

theorem runs {G : State → Prop} (free : getNrAvailRingElements (asleep ee).host.cmdRing ≠ 0)
    (reached : mhiTrysetPmState (resumed ee).host.cntrl.pmState .m0 = .m0) (may : G (entered ee)) :
    Relation.ReflTransGen (Step G) (start (mhiInitDevCtxt (host ee) MhiHost.Sample.layout)) (awake ee) := by
  have one : Step G (start (mhiInitDevCtxt (host ee) MhiHost.Sample.layout)) (asleep ee) := .suspendEnter
  have two : Step G (asleep ee) (filled ee) := .fill 0 .startChan rfl free
  have three : Step G (filled ee) (queued ee) := .ring rfl
  have four : Step G (queued ee) (inM3 ee) := .m3
  have five : Step G (inM3 ee) (resumed ee) := .resume
  have six : Step G (resumed ee) (entered ee) := .m0Enter reached
  have seven : Step G (entered ee) (awake ee) := .m0Rest Nat.one_pos (fun _ => rfl) may
  exact ((((((Relation.ReflTransGen.single one).tail two).tail three).tail four).tail five).tail six).tail seven

end Sample

theorem noLostCommandDoorbellSample : (Sample.queued .amss).host.cmdRing.ctxtWp = 0x83000 ∧
    (Sample.awake .amss).host.cmdRing.ctxtWp = 0x83010 := by
  have run := Sample.runs .amss (G := Rings) (by decide) rfl (.inl rfl)
  have announced := noLostCommandDoorbell (Sample.host .amss) MhiHost.Sample.layout false (Sample.awake .amss) rfl run
    rfl rfl (by decide)
  exact ⟨by decide,announced (by decide)⟩

theorem commandWaitsInSbl : ¬NoneWaits (fun _ => True) := by
  intro none
  have run := Sample.runs .sbl (G := fun _ => True) (by decide) rfl trivial
  have announced := none (Sample.host .sbl) MhiHost.Sample.layout false (Sample.awake .sbl) rfl run rfl rfl (by decide)
  exact absurd (announced (by decide)) (by decide)

end MhiHost.CommandDoorbell
