import MhiHost.EventRings
import MhiHost.Rows
import MhiHost.Runs
import MhiHost.Setup

/-! Two ways to the same start: `mhi_init_dev_ctxt` and the READY transition at first
power-up, and the ring reset of the SYS_ERR transition followed by READY after any life in
between. The command context's read pointer is the device's to write. -/
namespace MhiHost.Reboot
open List (Forall₂)
open Relation (ReflTransGen)

structure Life where
  service : Service
  cmdCtxtRp : Nat
  cmdRbase : Nat

namespace Life
def host (l : Life) : Host := l.service.host
def withHost (l : Life) (h : Host) : Life := {l with service := l.service.withHost h}
end Life

def boot (h : Host) (lay : Layout) : Life :=
  ⟨.start (mhiInitDevCtxt h lay),(initCmd lay h.cmdRing).iommuBase,(initCmd lay h.cmdRing).iommuBase⟩

inductive Step (may : Rewrite → Host → Prop) : Life → Life → Prop where
  | service {l s} (moved : ServiceStep may l.service s) : Step may l {l with service := s}
  | command {l} (chan : Nat) (cmd : CmdType) : Step may l (l.withHost (mhiSendCmd l.host chan cmd).1)
  | fetch {l} (rp : Nat) : Step may l {l with cmdCtxtRp := rp}
  | aside {l h} (events : h.events = l.host.events) (cmdRing : h.cmdRing = l.host.cmdRing) (regs : h.regs = l.host.regs) :
      Step may l (l.withHost h)

def Closed (l : Life) : Prop := l.host.cntrl.pmState = .sysErrProcess ∧ mhiDbAccessValid l.host.cntrl = false

/- The SYS_ERR transition to its end. While it runs the power state stays, with doorbells
closed; the worker is busy with it, so of the ring-writing handlers only M0 may be called. -/
inductive Recovers (before : Life) (reply : ReadyReply) : Life → Prop where
  | completed {begun prev mid} (cleared : Bool)
      (begins : disableBegin before.host .sysErrProcess = (begun,some prev))
      (reset : disableStuck .sysErrProcess prev cleared = false)
      (beside : ReflTransGen (fun l l' => Step (fun op _ => op = .m0) l l' ∧ Closed l) (before.withHost begun) mid)
      (returned : (mhiReadyStateTransition (resetRings mid.host) reply).2 = none) :
      Recovers before reply
        {mid.withHost (disableFinish mid.host .sysErrProcess reply) with cmdCtxtRp := mid.cmdRbase}

structure RingState where
  rp : Int
  wp : Int
  ctxtRp : Int
  ctxtWp : Int
  deriving DecidableEq, Repr

def ringState (r : Ring) (ctxtRp rbase : Nat) : RingState :=
  ⟨(r.rp : Int) - r.base,(r.wp : Int) - r.base,(ctxtRp : Int) - rbase,(r.ctxtWp : Int) - rbase⟩
def eventState (ev : MhiEvent) : RingState × Bool := (ringState ev.ring ev.ctxtRp ev.rbase,ev.dbCfg.dbMode)

structure AsFirstBoot (first : Host) (firstReply again : ReadyReply) (cmdBase : Nat) (after : Life) : Prop where
  events : Forall₂ (fun a b => a.offloadEv = false → eventState a = eventState b) first.events after.host.events
  cmd : ringState first.cmdRing cmdBase cmdBase = ringState after.host.cmdRing after.cmdCtxtRp after.cmdRbase
  doorbells : again.erdbOff = firstReply.erdbOff →
    ∀ c, (forEvents missionEvent c first.events).1 = (forEvents missionEvent c after.host.events).1

def Armed (ev : MhiEvent) : Prop :=
  ev.offloadEv = false → ev.hwRing = true → ev.dbCfg.brstmode = .enable → ev.dbCfg.dbMode = true

def Silent (a b : MhiEvent) : Prop := Armed a ↔ Armed b

structure Stays (a b : MhiEvent) : Prop where
  base : b.ring.base = a.ring.base
  iommuBase : b.ring.iommuBase = a.ring.iommuBase
  len : b.ring.len = a.ring.len
  elSize : b.ring.elSize = a.ring.elSize
  rbase : b.rbase = a.rbase
  hwRing : b.hwRing = a.hwRing
  offloadEv : b.offloadEv = a.offloadEv
  brstmode : b.dbCfg.brstmode = a.dbCfg.brstmode
  armed : a.dbCfg.brstmode = .disable → b.dbCfg.dbMode = a.dbCfg.dbMode

namespace Stays
variable {a b c : MhiEvent}

theorem refl (a : MhiEvent) : Stays a a := ⟨rfl,rfl,rfl,rfl,rfl,rfl,rfl,rfl,fun _ => rfl⟩

theorem trans (first : Stays a b) (second : Stays b c) : Stays a c where
  base := second.base.trans first.base
  iommuBase := second.iommuBase.trans first.iommuBase
  len := second.len.trans first.len
  elSize := second.elSize.trans first.elSize
  rbase := second.rbase.trans first.rbase
  hwRing := second.hwRing.trans first.hwRing
  offloadEv := second.offloadEv.trans first.offloadEv
  brstmode := second.brstmode.trans first.brstmode
  armed := by
    intro plain
    rw [second.armed (by rw [first.brstmode]; exact plain)]
    exact first.armed plain

end Stays

theorem rungDoor (c : Cntrl) (cfg : DbCfg) (addr val : Nat) : (processDb c cfg addr val).2.brstmode = cfg.brstmode ∧
    (processDb c cfg addr val).2.dbMode = (if cfg.brstmode = .enable then false else cfg.dbMode) := by
  unfold processDb
  cases mode : cfg.brstmode with
  | enable => cases armed : cfg.dbMode <;> simp [mhiDbBrstmode,armed,mode]
  | disable => exact ⟨mode,rfl⟩

theorem rungStays (c : Cntrl) (ev : MhiEvent) : Stays ev (mhiRingErDb c ev).2 := by
  have door := rungDoor c ev.dbCfg ev.ring.dbAddr ev.ring.ctxtWp
  refine ⟨rfl,rfl,rfl,rfl,rfl,rfl,rfl,door.1,?_⟩
  intro plain
  rw [plain] at door
  exact door.2

theorem addedStays (ev : MhiEvent) : Stays ev (addElements ev) := ⟨rfl,rfl,rfl,rfl,rfl,rfl,rfl,rfl,fun _ => rfl⟩

theorem postedStays (ev : MhiEvent) (t : MhiTre) : Stays ev (devicePost ev t) :=
  ⟨rfl,rfl,rfl,rfl,rfl,rfl,rfl,rfl,fun _ => rfl⟩

theorem recycledStays (ev : MhiEvent) : Stays ev (recycleEvent ev) := ⟨rfl,rfl,rfl,rfl,rfl,rfl,rfl,rfl,fun _ => rfl⟩

theorem readyStays (c : Cntrl) (ev : MhiEvent) : Stays ev (readyEvent c ev).2 := by
  unfold readyEvent
  split
  · exact .refl ev
  · exact (addedStays ev).trans (rungStays c _)

theorem m0Stays (c : Cntrl) (ev : MhiEvent) : Stays ev (m0Event c ev).2 := by
  unfold m0Event
  split
  · exact .refl ev
  split
  · exact (addedStays ev).trans (rungStays c _)
  · exact rungStays c ev

theorem missionStays (c : Cntrl) (ev : MhiEvent) : Stays ev (missionEvent c ev).2 := by
  unfold missionEvent
  split
  · exact .refl ev
  split
  · exact (addedStays ev).trans (rungStays c _)
  · exact addedStays ev

theorem resetStays (c : Cntrl) (ev : MhiEvent) : Stays ev (resetEvent c ev).2 := by
  unfold resetEvent
  split
  · exact .refl ev
  · exact ⟨rfl,rfl,rfl,rfl,rfl,rfl,rfl,rfl,fun _ => rfl⟩

section Passes
variable {act : Cntrl → MhiEvent → Cntrl × MhiEvent} {R S : MhiEvent → MhiEvent → Prop} {l l' : List MhiEvent}

theorem passRows (each : ∀ c ev, R ev (act c ev).2) (c : Cntrl) (l : List MhiEvent) : Forall₂ R l (forEvents act c l).2 := by
  induction l generalizing c with
  | nil => exact .nil
  | cons ev rest ih => exact .cons (each c ev) (ih (act c ev).1)

theorem passSame (each : ∀ c a b, R a b → (act c a).1 = (act c b).1) (rows : Forall₂ R l l') (c : Cntrl) :
    (forEvents act c l).1 = (forEvents act c l').1 := by
  induction rows generalizing c with
  | nil => rfl
  | cons head _ ih =>
    show (forEvents act (act c _).1 _).1 = (forEvents act (act c _).1 _).1
    rw [each c _ _ head]
    exact ih _

theorem dbRows (base val : Nat) (l : List MhiEvent) : Forall₂ Stays l (eventDbs base val l) := by
  induction l generalizing val with
  | nil => exact .nil
  | cons ev rest ih =>
    refine .cons ?_ (ih (val + 8))
    split
    · exact .refl ev
    · exact ⟨rfl,rfl,rfl,rfl,rfl,rfl,rfl,rfl,fun _ => rfl⟩

end Passes

structure CmdStays (a b : Ring) : Prop where
  base : b.base = a.base
  iommuBase : b.iommuBase = a.iommuBase

structure Lives (h h' : Host) : Prop where
  events : Forall₂ Stays h.events h'.events
  cmd : CmdStays h.cmdRing h'.cmdRing
  regs : h'.regs = h.regs

section Frames
variable {h h' h'' : Host}

theorem staysRows (l : List MhiEvent) : Forall₂ Stays l l := List.forall₂_same.mpr fun ev _ => .refl ev

theorem livesSame (events : h'.events = h.events) (cmd : h'.cmdRing = h.cmdRing) (regs : h'.regs = h.regs) : Lives h h' := by
  refine ⟨?_,?_,regs⟩
  · rw [events]
    exact staysRows _
  · rw [cmd]
    exact ⟨rfl,rfl⟩

theorem Lives.trans (first : Lives h h') (second : Lives h' h'') : Lives h h'' where
  events := Rows.trans (fun _ _ _ => Stays.trans) first.events second.events
  cmd := ⟨second.cmd.base.trans first.cmd.base,second.cmd.iommuBase.trans first.cmd.iommuBase⟩
  regs := second.regs.trans first.regs

theorem passLives {act : Cntrl → MhiEvent → Cntrl × MhiEvent} (each : ∀ c ev, Stays ev (act c ev).2) (h : Host) :
    Lives h (h.passEvents act) := ⟨passRows each _ _,⟨rfl,rfl⟩,rfl⟩

theorem setLives {e : Nat} {ev ev' : MhiEvent} (found : h.events[e]? = some ev) (stays : Stays ev ev') (c : Cntrl) :
    Lives h {h with cntrl := c, events := h.events.set e ev'} := ⟨Rows.set Stays.refl found stays,⟨rfl,rfl⟩,rfl⟩

theorem resetLives (h : Host) : Lives h (resetRings h) := ⟨passRows resetStays _ _,⟨rfl,rfl⟩,rfl⟩

theorem readyDone {reply : ReadyReply} (returned : (mhiReadyStateTransition h reply).2 = none) :
    ∃ val c, reply.erdbOff = some val ∧
      (mhiReadyStateTransition h reply).1.events = (forEvents readyEvent c (eventDbs h.regs val h.events)).2 ∧
      (mhiReadyStateTransition h reply).1.cmdRing = {h.cmdRing with dbAddr := h.regs + crdbLower} ∧
      (mhiReadyStateTransition h reply).1.regs = h.regs := by
  unfold mhiReadyStateTransition at returned ⊢
  split at returned
  · cases returned
  rename_i alive
  rw [if_neg alive]
  split at returned
  · cases returned
  rename_i ready
  rw [if_neg ready]
  dsimp only at returned ⊢
  split at returned
  · cases returned
  rename_i reached
  rw [if_neg reached]
  split at returned
  · cases returned
  rename_i valid
  rw [if_neg valid]
  unfold mhiInitMmio at returned ⊢
  cases chdb : reply.chdbOff with
  | none => rw [chdb] at returned; cases returned
  | some off =>
    cases erdb : reply.erdbOff with
    | none => rw [chdb, erdb] at returned; cases returned
    | some val => exact ⟨val,_,rfl,rfl,rfl,rfl⟩

theorem readyLives (h : Host) (reply : ReadyReply) : Lives h (mhiReadyStateTransition h reply).1 := by
  have mapped : ∀ g : Host, Lives g (mhiInitMmio g reply).1 := by
    intro g
    unfold mhiInitMmio
    split
    · exact livesSame rfl rfl rfl
    · dsimp only
      split
      · exact livesSame rfl rfl rfl
      · exact ⟨dbRows _ _ _,⟨rfl,rfl⟩,rfl⟩
  have start : Lives h (readyHost h) := livesSame rfl rfl rfl
  have ends := readyEnds h reply
  generalize mhiReadyStateTransition h reply = out at ends ⊢
  cases ends with
  | refused err => exact livesSame rfl rfl rfl
  | moved => exact start
  | unmapped => exact start.trans (mapped _)
  | done alive reached => exact ((start.trans (mapped _)).trans (passLives readyStays _)).trans (livesSame rfl rfl rfl)

theorem missionLives (h : Host) (inTime : Bool) (reply : CreateReply) : Lives h (missionModeFinish h inTime reply).1 := by
  unfold missionModeFinish
  split
  · exact livesSame rfl rfl rfl
  · obtain ⟨devices,next,chans,created⟩ := fromCreated reply (h.passEvents missionEvent).maxChan 0 (h.passEvents missionEvent)
    dsimp only [mhiCreateDevices]
    rw [created]
    exact (passLives missionStays h).trans (livesSame rfl rfl rfl)

theorem cmdDbLives (h : Host) : Lives h (mhiRingCmdDb h) := ⟨staysRows _,⟨rfl,rfl⟩,rfl⟩

theorem Lives.cntrl {c c' : Cntrl} (lives : Lives {h with cntrl := c} h') : Lives h {h' with cntrl := c'} :=
  ⟨lives.events,lives.cmd,lives.regs⟩

theorem chansLives (h : Host) : Lives h (m0Chans h) := by
  obtain ⟨cntrl,chans,same⟩ := m0ChansFrame h
  rw [same]
  exact livesSame rfl rfl rfl

theorem m0MissionLives (h : Host) : Lives h (m0Mission h) := by
  unfold m0Mission
  dsimp only
  split
  · exact (passLives m0Stays h).trans (cmdDbLives _)
  · exact passLives m0Stays h

theorem m0Lives (h : Host) : Lives h (mhiPmM0Transition h).1 := by
  unfold mhiPmM0Transition
  dsimp only
  split
  · exact livesSame rfl rfl rfl
  dsimp only
  split
  · exact ((m0MissionLives _).trans (chansLives _)).cntrl
  · exact (chansLives _).cntrl

theorem sendLives (h : Host) (chan : Nat) (cmd : CmdType) : Lives h (mhiSendCmd h chan cmd).1 := by
  unfold mhiSendCmd
  split
  · exact livesSame rfl rfl rfl
  · dsimp only
    split
    · exact ⟨staysRows _,⟨rfl,rfl⟩,rfl⟩
    · exact ⟨staysRows _,⟨rfl,rfl⟩,rfl⟩

theorem completionLives (h : Host) (ev : MhiTre) : Lives h (mhiProcessCmdCompletion h ev) := ⟨staysRows _,⟨rfl,rfl⟩,rfl⟩

theorem txLives {t : MhiTre} {script} (ran : txEvent h t script = some h') : Lives h h' := by
  unfold txEvent at ran
  split at ran
  · obtain ⟨p,_,rfl⟩ := Option.map_eq_some_iff.mp ran
    exact livesSame rfl rfl rfl
  · cases ran
    exact livesSame rfl rfl rfl

theorem stateLives (h : Host) (code : Nat) : Lives h (stateChangeEvent h code) := by
  unfold stateChangeEvent
  split
  · exact m0Lives h
  split
  · unfold mhiPmM1Transition
    dsimp only
    split
    · exact livesSame rfl rfl rfl
    · split <;> exact livesSame rfl rfl rfl
  split
  · exact livesSame rfl rfl rfl
  split
  · unfold sysErrEvent
    split
    · exact livesSame rfl rfl rfl
    dsimp only
    split
    · unfold mhiPmSysErrHandler
      split <;> exact livesSame rfl rfl rfl
    · exact livesSame rfl rfl rfl
  · exact livesSame rfl rfl rfl

theorem eeLives (h : Host) (code : Nat) : Lives h (eeEvent h code) := by
  unfold eeEvent
  split
  · exact livesSame rfl rfl rfl
  split
  · exact livesSame rfl rfl rfl
  split
  · exact livesSame rfl rfl rfl
  split <;> exact livesSame rfl rfl rfl

theorem processLives {kind : ErDataType} {t : MhiTre} {script} (ran : processEvent h kind t script = some h') :
    Lives h h' := by
  cases kind with
  | ctrl =>
    simp only [processEvent,ctrlEvent] at ran
    split at ran
    · cases ran
      exact livesSame rfl rfl rfl
    split at ran
    · cases ran
      exact stateLives h _
    split at ran
    · cases ran
      exact completionLives h t
    split at ran
    · cases ran
      exact eeLives h _
    split at ran
    · exact txLives ran
    · cases ran
      exact livesSame rfl rfl rfl
  | data =>
    simp only [processEvent,dataEvent] at ran
    split at ran
    · exact txLives ran
    split at ran
    · cases ran
      exact livesSame rfl rfl rfl
    · cases ran
      exact livesSame rfl rfl rfl

theorem serviceLives {may : Rewrite → Host → Prop} {s s' : Service} (moved : ServiceStep may s s') : Lives s.host s'.host := by
  cases moved with
  | post e ev t found _ _ => exact setLives found (postedStays ev t) s.host.cntrl
  | enter => exact livesSame rfl rfl rfl
  | examine e ev p script found busy fresh more allowed ran => exact processLives ran
  | recycle e ev p found _ _ => exact setLives found (recycledStays ev) s.host.cntrl
  | leave e ev p found _ _ _ =>
    split
    · exact setLives found (rungStays _ ev) _
    · exact livesSame rfl rfl rfl
  | ready reply _ => exact readyLives s.host reply
  | mission inTime reply _ => exact missionLives s.host inTime reply
  | m0 _ => exact m0Lives s.host
  | reset _ _ => exact resetLives s.host
  | controller c => exact livesSame rfl rfl rfl

theorem stepLives {may : Rewrite → Host → Prop} {l l' : Life} (moved : Step may l l') :
    Lives l.host l'.host ∧ l'.cmdRbase = l.cmdRbase := by
  cases moved with
  | service moved => exact ⟨serviceLives moved,rfl⟩
  | command chan cmd => exact ⟨sendLives _ chan cmd,rfl⟩
  | fetch rp => exact ⟨livesSame rfl rfl rfl,rfl⟩
  | aside events cmdRing regs => exact ⟨livesSame events cmdRing regs,rfl⟩

theorem lifeLives {may : Rewrite → Host → Prop} {l l' : Life} (run : ReflTransGen (Step may) l l') :
    Lives l.host l'.host ∧ l'.cmdRbase = l.cmdRbase := by
  refine Runs.keeps (I := fun m => Lives l.host m.host ∧ m.cmdRbase = l.cmdRbase) ?_ run ⟨livesSame rfl rfl rfl,rfl⟩
  rintro m m' moved ⟨lives,base⟩
  have next := stepLives moved
  exact ⟨lives.trans next.1,next.2.trans base⟩

theorem silentRefl (ev : MhiEvent) : Silent ev ev := Iff.rfl

theorem silentSame {l l' : List MhiEvent} (same : l' = l) : Forall₂ Silent l l' := by
  rw [same]
  exact List.forall₂_same.mpr fun ev _ => silentRefl ev

theorem silentTrans {l l' l'' : List MhiEvent} (first : Forall₂ Silent l l') (second : Forall₂ Silent l' l'') :
    Forall₂ Silent l l'' := Rows.trans (fun _ _ _ => Iff.trans) first second

theorem refusedM0 (closed : h.cntrl.pmState = .sysErrProcess) : (mhiPmM0Transition h).1.events = h.events := by
  unfold mhiPmM0Transition
  dsimp only
  rw [closed, if_pos (by decide)]

theorem closedSilent {l l' : Life} (moved : Step (fun op _ => op = .m0) l l') (closed : Closed l) :
    Forall₂ Silent l.host.events l'.host.events := by
  cases moved with
  | command chan cmd =>
    refine silentSame ?_
    show (mhiSendCmd l.host chan cmd).1.events = _
    unfold mhiSendCmd
    split
    · rfl
    · dsimp only
      split <;> rfl
  | fetch rp => exact silentSame rfl
  | aside events _ _ => exact silentSame events
  | service moved =>
    cases moved with
    | post e ev t found _ _ => exact Rows.set silentRefl found (Iff.rfl : Silent ev (devicePost ev t))
    | enter => exact silentSame rfl
    | examine e ev p script found busy fresh more allowed ran =>
      refine silentSame ?_
      rcases EventRings.processEvents ran with ⟨_,rfl⟩ | same
      · exact refusedM0 closed.1
      · exact same
    | recycle e ev p found _ _ => exact Rows.set silentRefl found (Iff.rfl : Silent ev (recycleEvent ev))
    | leave e ev p found _ _ _ =>
      refine silentSame ?_
      have shut : mhiDbAccessValid l.service.host.cntrl = false := closed.2
      show (Service.setPass (if mhiDbAccessValid l.service.host.cntrl = true then _ else l.service) e none).host.events = _
      rw [shut]
      rfl
    | ready reply allowed => cases allowed
    | mission inTime reply allowed => cases allowed
    | m0 _ => exact silentSame (refusedM0 closed.1)
    | reset _ allowed => cases allowed
    | controller c => exact silentSame rfl

theorem besideSilent {l l' : Life} (run : ReflTransGen (fun l l' => Step (fun op _ => op = .m0) l l' ∧ Closed l) l l') :
    (Lives l.host l'.host ∧ l'.cmdRbase = l.cmdRbase) ∧ Forall₂ Silent l.host.events l'.host.events := by
  refine Runs.keeps (I := fun m => (Lives l.host m.host ∧ m.cmdRbase = l.cmdRbase) ∧
    Forall₂ Silent l.host.events m.host.events) ?_ run ⟨⟨livesSame rfl rfl rfl,rfl⟩,silentSame rfl⟩
  rintro m m' ⟨moved,closed⟩ ⟨⟨lives,base⟩,silent⟩
  have next := stepLives moved
  refine ⟨⟨lives.trans next.1,next.2.trans base⟩,?_⟩
  exact silentTrans silent (closedSilent moved closed)

theorem beginsSame {begun : Host} {prev : PmState} (begins : disableBegin h .sysErrProcess = (begun,some prev)) :
    begun.events = h.events ∧ begun.cmdRing = h.cmdRing ∧ begun.regs = h.regs := by
  unfold disableBegin at begins
  dsimp only at begins
  rw [if_pos rfl] at begins
  split at begins
  · cases begins
  · split at begins <;> cases begins <;> exact ⟨rfl,rfl,rfl⟩

theorem resetSilent (c : Cntrl) (ev : MhiEvent) : Silent ev (resetEvent c ev).2 := by
  unfold resetEvent
  split
  · exact silentRefl ev
  · exact Iff.rfl

theorem readySilent (c : Cntrl) (ev : MhiEvent) : Silent ev (readyEvent c ev).2 := by
  unfold readyEvent
  split
  · exact silentRefl ev
  · rename_i software
    simp only [Bool.or_eq_true,not_or,Bool.not_eq_true] at software
    have soft : ∀ e : MhiEvent, e.hwRing = false → Armed e := by
      intro e no _ hardware
      rw [no] at hardware
      cases hardware
    exact iff_of_true (soft ev software.2) (soft _ (by rw [(rungStays c _).hwRing]; exact software.2))

theorem dbSilent (base val : Nat) (l : List MhiEvent) : Forall₂ Silent l (eventDbs base val l) := by
  induction l generalizing val with
  | nil => exact .nil
  | cons ev rest ih =>
    refine .cons ?_ (ih (val + 8))
    split
    · exact silentRefl ev
    · exact Iff.rfl

end Frames

structure Empty (ev : MhiEvent) : Prop where
  rp : ev.ring.rp = ev.ring.base
  wp : ev.ring.wp = ev.ring.base
  ctxtRp : ev.ctxtRp = ev.rbase
  ctxtWp : ev.ring.ctxtWp = ev.rbase

structure Twin (a b : MhiEvent) : Prop where
  stays : Stays a b
  fresh : a.offloadEv = false → Empty a ∧ a.dbCfg.dbMode = true
  reset : a.offloadEv = false → Empty b

/- The pair after READY; `same` is that both found the doorbells in one place. -/
structure Matched (same : Prop) (a b : MhiEvent) : Prop where
  stays : Stays a b
  state : a.offloadEv = false → ringState a.ring a.ctxtRp a.rbase = ringState b.ring b.ctxtRp b.rbase
  fresh : a.offloadEv = false → a.hwRing = true → a.dbCfg.dbMode = true
  spent : a.offloadEv = false → a.hwRing = false → b.dbCfg.dbMode = a.dbCfg.dbMode
  addr : a.offloadEv = false → same → b.ring.dbAddr = a.ring.dbAddr

theorem freshEvents (h : Host) (lay : Layout) : ∀ ev ∈ (mhiInitDevCtxt h lay).events,
    ev.offloadEv = false → Empty ev ∧ ev.dbCfg.dbMode = true := by
  intro ev member own
  obtain ⟨i,inside,rfl⟩ := List.exists_of_mem_mapIdx member
  have kind : h.events[i].offloadEv = false := by
    unfold initEvent at own
    split at own
    · exact own
    · rename_i not
      exact eq_false_of_ne_true not
  unfold initEvent
  rw [if_neg (by rw [kind]; exact Bool.false_ne_true)]
  exact ⟨⟨rfl,rfl,rfl,rfl⟩,rfl⟩

theorem resetEmpty (c : Cntrl) (ev : MhiEvent) (own : ev.offloadEv = false) : Empty (resetEvent c ev).2 := by
  unfold resetEvent
  rw [if_neg (by rw [own]; exact Bool.false_ne_true)]
  exact ⟨rfl,rfl,rfl,rfl⟩

theorem resetTwins {l l' : List MhiEvent} (fresh : ∀ ev ∈ l, ev.offloadEv = false → Empty ev ∧ ev.dbCfg.dbMode = true)
    (lived : Forall₂ Stays l l') (c : Cntrl) : Forall₂ Twin l (forEvents resetEvent c l').2 := by
  induction lived generalizing c with
  | nil => exact .nil
  | @cons a b _ _ stays _ ih =>
    rw [List.forall_mem_cons] at fresh
    refine .cons ⟨stays.trans (resetStays c b),fresh.1,?_⟩ (ih fresh.2 _)
    intro own
    exact resetEmpty c b (by rw [stays.offloadEv]; exact own)

section Ready
variable {a b : MhiEvent} {same : Prop}

theorem skippedMatched (stays : Stays a b) (off : a.offloadEv = true) : Matched same a b := by
  have never : ¬a.offloadEv = false := by
    rw [off]
    decide
  exact ⟨stays,fun own => absurd own never,fun own => absurd own never,fun own => absurd own never,
    fun own => absurd own never⟩

theorem emptyMatched (twin : Twin a b) (own : a.offloadEv = false) (hw : a.hwRing = true)
    (addr : a.offloadEv = false → same → b.ring.dbAddr = a.ring.dbAddr) : Matched same a b := by
  obtain ⟨emptyA,armed⟩ := twin.fresh own
  have emptyB := twin.reset own
  refine ⟨twin.stays,?_,fun _ _ => armed,fun _ soft => ?_,addr⟩
  · intro _
    unfold ringState
    rw [emptyA.rp, emptyA.wp, emptyA.ctxtRp, emptyA.ctxtWp, emptyB.rp, emptyB.wp, emptyB.ctxtRp, emptyB.ctxtWp]
    simp
  · rw [hw] at soft
    cases soft

theorem rungModes (stays : Stays a b) (c c' : Cntrl) :
    (mhiRingErDb c' (addElements b)).2.dbCfg.dbMode = (mhiRingErDb c (addElements a)).2.dbCfg.dbMode := by
  have doorA := rungDoor c a.dbCfg (addElements a).ring.dbAddr (addElements a).ring.ctxtWp
  have doorB := rungDoor c' b.dbCfg (addElements b).ring.dbAddr (addElements b).ring.ctxtWp
  refine doorB.2.trans (Eq.trans ?_ doorA.2.symm)
  rw [stays.brstmode]
  split
  · rfl
  · rename_i plain
    refine stays.armed ?_
    cases mode : a.dbCfg.brstmode with
    | enable => exact absurd mode plain
    | disable => rfl

theorem filledMatched (twin : Twin a b) (own : a.offloadEv = false) (hw : a.hwRing = false) (c c' : Cntrl)
    (addr : a.offloadEv = false → same → b.ring.dbAddr = a.ring.dbAddr) :
    Matched same (mhiRingErDb c (addElements a)).2 (mhiRingErDb c' (addElements b)).2 := by
  have stays := twin.stays
  have emptyA := (twin.fresh own).1
  have emptyB := twin.reset own
  have doorA := rungDoor c a.dbCfg (addElements a).ring.dbAddr (addElements a).ring.ctxtWp
  have doorB := rungDoor c' b.dbCfg (addElements b).ring.dbAddr (addElements b).ring.ctxtWp
  have equal := rungModes stays c c'
  refine ⟨⟨stays.base,stays.iommuBase,stays.len,stays.elSize,stays.rbase,stays.hwRing,stays.offloadEv,
    doorB.1.trans (stays.brstmode.trans doorA.1.symm),fun _ => equal⟩,?_,?_,fun _ _ => equal,addr⟩
  · intro _
    show ringState (addElements a).ring a.ctxtRp a.rbase = ringState (addElements b).ring b.ctxtRp b.rbase
    unfold ringState addElements
    simp only [emptyA.rp,emptyA.ctxtRp,emptyB.rp,emptyB.ctxtRp,stays.base,stays.iommuBase,stays.len,stays.elSize,
      stays.rbase]
  · intro _ hard
    have soft : (mhiRingErDb c (addElements a)).2.hwRing = false := hw
    rw [soft] at hard
    cases hard

theorem readyPair (twin : Twin a b) (c c' : Cntrl) (addr : a.offloadEv = false → same → b.ring.dbAddr = a.ring.dbAddr) :
    Matched same (readyEvent c a).2 (readyEvent c' b).2 := by
  have stays := twin.stays
  unfold readyEvent
  rw [stays.offloadEv, stays.hwRing]
  cases off : a.offloadEv with
  | true => exact skippedMatched stays off
  | false =>
    cases hw : a.hwRing with
    | true => exact emptyMatched twin off hw addr
    | false => exact filledMatched twin off hw c c' addr

end Ready

theorem readyRows {l l' : List MhiEvent} {same : Prop} (twins : Forall₂ Twin l l') (base : Nat) {val val' : Nat}
    (place : same → val' = val) (c c' : Cntrl) :
    Forall₂ (Matched same) (forEvents readyEvent c (eventDbs base val l)).2 (forEvents readyEvent c' (eventDbs base val' l')).2 := by
  induction twins generalizing val val' c c' with
  | nil => exact .nil
  | @cons a b _ _ twin _ ih =>
    refine .cons ?_ (ih (fun is => by rw [place is]) _ _)
    have stays := twin.stays
    rcases Bool.eq_false_or_eq_true a.offloadEv with off | off
    · rw [if_pos off, if_pos (by rw [stays.offloadEv]; exact off)]
      exact readyPair twin c c' (fun own => by rw [off] at own; cases own)
    · rw [if_neg (by rw [off]; exact Bool.false_ne_true), if_neg (by rw [stays.offloadEv, off]; exact Bool.false_ne_true)]
      have moved : Twin {a with ring := {a.ring with dbAddr := base + val}} {b with ring := {b.ring with dbAddr := base + val'}} := by
        refine ⟨⟨stays.base,stays.iommuBase,stays.len,stays.elSize,stays.rbase,stays.hwRing,stays.offloadEv,stays.brstmode,
          stays.armed⟩,?_,?_⟩
        · intro own
          obtain ⟨empty,armed⟩ := twin.fresh own
          exact ⟨⟨empty.rp,empty.wp,empty.ctxtRp,empty.ctxtWp⟩,armed⟩
        · intro own
          have empty := twin.reset own
          exact ⟨empty.rp,empty.wp,empty.ctxtRp,empty.ctxtWp⟩
      exact readyPair moved c c' (fun _ is => by rw [place is])

theorem matchedState {same : Prop} {a b : MhiEvent} (matched : Matched same a b) :
    (a.offloadEv = false → eventState a = eventState b) ↔ Armed b := by
  have stays := matched.stays
  constructor
  · intro equal off hw burst
    have own : a.offloadEv = false := by rw [← stays.offloadEv]; exact off
    have doors : a.dbCfg.dbMode = b.dbCfg.dbMode := congrArg Prod.snd (equal own)
    rw [← doors]
    exact matched.fresh own (by rw [← stays.hwRing]; exact hw)
  · intro armed own
    refine Prod.ext (matched.state own) ?_
    show a.dbCfg.dbMode = b.dbCfg.dbMode
    cases hw : a.hwRing with
    | false => exact (matched.spent own hw).symm
    | true =>
      cases mode : a.dbCfg.brstmode with
      | disable => exact (stays.armed mode).symm
      | enable =>
        rw [matched.fresh own hw, armed (by rw [stays.offloadEv]; exact own) (by rw [stays.hwRing]; exact hw)
          (by rw [stays.brstmode]; exact mode)]

theorem matchedDoor {same : Prop} {a b : MhiEvent} (matched : Matched same a b) (is : same) (armed : Armed b) (c : Cntrl) :
    (missionEvent c a).1 = (missionEvent c b).1 := by
  have stays := matched.stays
  unfold missionEvent
  rw [stays.offloadEv, stays.hwRing]
  split
  · rfl
  rename_i hardware
  simp only [Bool.or_eq_true,not_or,Bool.not_eq_true] at hardware
  have own : a.offloadEv = false := hardware.1
  split
  · have doors : a.dbCfg.dbMode = b.dbCfg.dbMode := congrArg Prod.snd ((matchedState matched).mpr armed own)
    have wp : (addElements a).ring.ctxtWp = (addElements b).ring.ctxtWp := by
      show a.ring.iommuBase + a.ring.len - a.ring.elSize = b.ring.iommuBase + b.ring.len - b.ring.elSize
      rw [stays.iommuBase, stays.len, stays.elSize]
    show (processDb c a.dbCfg a.ring.dbAddr (addElements a).ring.ctxtWp).1 =
      (processDb c b.dbCfg b.ring.dbAddr (addElements b).ring.ctxtWp).1
    rw [wp, matched.addr own is]
    unfold processDb
    rw [stays.brstmode]
    cases a.dbCfg.brstmode with
    | disable => rfl
    | enable =>
      show (mhiDbBrstmode c a.dbCfg _ _).1 = (mhiDbBrstmode c b.dbCfg _ _).1
      unfold mhiDbBrstmode
      rw [doors]
      split <;> rfl
  · rfl

section Rows
variable {h : Host} {lay : Layout} {reply again : ReadyReply} {mid : Life}

theorem rowsMatched (booted : (mhiReadyStateTransition (mhiInitDevCtxt h lay) reply).2 = none)
    (returned : (mhiReadyStateTransition (resetRings mid.host) again).2 = none)
    (whole : Lives (mhiInitDevCtxt h lay) mid.host) :
    Forall₂ (Matched (again.erdbOff = reply.erdbOff)) (mhiReadyStateTransition (mhiInitDevCtxt h lay) reply).1.events
      (mhiReadyStateTransition (resetRings mid.host) again).1.events := by
  obtain ⟨val,c,offset,events,_⟩ := readyDone booted
  obtain ⟨val',c',offset',events',_⟩ := readyDone returned
  have regs : (resetRings mid.host).regs = (mhiInitDevCtxt h lay).regs := whole.regs
  have place : again.erdbOff = reply.erdbOff → val' = val := by
    intro same
    rw [offset, offset'] at same
    exact Option.some.inj same
  rw [events, events', regs]
  exact readyRows (resetTwins (freshEvents h lay) whole.events _) _ place c c'

theorem returnSilent (returned : (mhiReadyStateTransition (resetRings mid.host) again).2 = none) :
    Forall₂ Silent mid.host.events (mhiReadyStateTransition (resetRings mid.host) again).1.events := by
  obtain ⟨_,_,_,events,_⟩ := readyDone returned
  rw [events]
  exact silentTrans (silentTrans (passRows resetSilent mid.host.cntrl mid.host.events) (dbSilent _ _ _))
    (passRows readySilent _ _)

theorem cmdReturned (booted : (mhiReadyStateTransition (mhiInitDevCtxt h lay) reply).2 = none)
    (returned : (mhiReadyStateTransition (resetRings mid.host) again).2 = none)
    (whole : Lives (mhiInitDevCtxt h lay) mid.host) (same : mid.cmdRbase = (boot h lay).cmdRbase) :
    ringState (mhiReadyStateTransition (mhiInitDevCtxt h lay) reply).1.cmdRing (boot h lay).cmdRbase (boot h lay).cmdRbase =
      ringState (mhiReadyStateTransition (resetRings mid.host) again).1.cmdRing mid.cmdRbase mid.cmdRbase := by
  obtain ⟨_,_,_,_,cmd,_⟩ := readyDone booted
  obtain ⟨_,_,_,_,cmd',_⟩ := readyDone returned
  have base : mid.host.cmdRing.base = (initCmd lay h.cmdRing).base := whole.cmd.base
  have bus : mid.host.cmdRing.iommuBase = (initCmd lay h.cmdRing).iommuBase := whole.cmd.iommuBase
  rw [cmd, cmd', same]
  show RingState.mk _ _ _ _ = RingState.mk ((mid.host.cmdRing.base : Int) - mid.host.cmdRing.base)
    ((mid.host.cmdRing.base : Int) - mid.host.cmdRing.base) _ ((mid.host.cmdRing.iommuBase : Int) - _)
  rw [base, bus]
  rfl

end Rows

/- Recovery ends where the first boot did exactly when no hardware ring had spent its
burst doorbell: the reset leaves `db_mode` alone. -/
theorem recoveryAsBoot {h : Host} {lay : Layout} {reply again : ReadyReply} {before after : Life}
    (reached : ReflTransGen (Step fun _ _ => True) (boot h lay) before)
    (booted : (mhiReadyStateTransition (mhiInitDevCtxt h lay) reply).2 = none) (recovered : Recovers before again after) :
    AsFirstBoot (mhiReadyStateTransition (mhiInitDevCtxt h lay) reply).1 reply again (boot h lay).cmdRbase after ↔
      ∀ ev ∈ before.host.events, Armed ev := by
  obtain ⟨lived,rbase⟩ := lifeLives reached
  cases recovered with
  | @completed begun prev mid _ begins _ beside returned =>
    obtain ⟨beganEvents,beganCmd,beganRegs⟩ := beginsSame begins
    obtain ⟨⟨beside,sameBase⟩,silent⟩ := besideSilent beside
    have whole : Lives (mhiInitDevCtxt h lay) mid.host := lived.trans ((livesSame beganEvents beganCmd beganRegs).trans beside)
    have rows := rowsMatched booted returned whole
    have carried : Forall₂ Silent before.host.events (mhiReadyStateTransition (resetRings mid.host) again).1.events := by
      rw [← beganEvents]
      exact silentTrans silent (returnSilent returned)
    have armed : (∀ ev ∈ before.host.events, Armed ev) ↔
        ∀ ev ∈ (mhiReadyStateTransition (resetRings mid.host) again).1.events, Armed ev :=
      Rows.forallIff carried fun _ _ same => same
    rw [armed, ← Rows.reduces rows fun _ _ => matchedState]
    constructor
    · exact fun boot => boot.events
    · intro equal
      have all := (Rows.reduces rows fun _ _ => matchedState).mp equal
      refine ⟨equal,cmdReturned booted returned whole (sameBase.trans rbase),?_⟩
      intro same
      have ready : Forall₂ (fun _ b => Armed b) _ _ := (Rows.reduces (S := fun _ b => Armed b) rows fun _ _ _ => Iff.rfl).mpr all
      refine passSame (R := fun a b => ∀ c, (missionEvent c a).1 = (missionEvent c b).1) (fun c _ _ equal => equal c) ?_
      exact List.Forall₂.mp (fun _ _ matched armed c => matchedDoor matched same armed c) rows ready

namespace Sample

def burst : MhiEvent := {MhiHost.Sample.event true with dbCfg := ⟨false,false,.enable,0⟩}
def host : Host :=
  {MhiHost.Sample.host with
    cntrl := {MhiHost.Sample.cntrl with pmState := .disable, ee := .amss}
    events := [MhiHost.Sample.event false,burst]}
def reply : ReadyReply := ⟨true,some 0x300,some 0x700⟩
def create : CreateReply := ⟨fun _ => true,fun _ => true,fun _ => false⟩

def plainHost : Host := {host with events := MhiHost.Sample.host.events}

def readied (l : Life) : Life := l.withHost (mhiReadyStateTransition l.host reply).1
def woken (l : Life) : Life := l.withHost (mhiPmM0Transition l.host).1
def inMission (l : Life) : Life := l.withHost (missionModeFinish l.host true create).1
def started : Life := boot host MhiHost.Sample.layout
def mission : Life := inMission (woken (readied started))
def plainStarted : Life := boot plainHost MhiHost.Sample.layout
def plainMission : Life := inMission (woken (readied plainStarted))
def failed (l : Life) : Life := l.withHost (l.host.setPm .sysErrDetect)
def begun (l : Life) : Life := l.withHost (disableBegin l.host .sysErrProcess).1
def recovered (l : Life) : Life :=
  {(begun l).withHost (disableFinish (begun l).host .sysErrProcess reply) with cmdCtxtRp := (begun l).cmdRbase}

theorem failedReached (l : Life) : ReflTransGen (Step fun _ _ => True) l (failed (inMission (woken (readied l)))) := by
  have ready : Step (fun _ _ => True) l (readied l) := .service (.ready reply trivial)
  have awake : Step (fun _ _ => True) (readied l) (woken (readied l)) := .service (.m0 trivial)
  have mission : Step (fun _ _ => True) (woken (readied l)) (inMission (woken (readied l))) :=
    .service (.mission true create trivial)
  exact (((ReflTransGen.single ready).tail awake).tail mission).tail (.service (.controller _))

theorem recovers {l : Life} (begins : (disableBegin l.host .sysErrProcess).2 = some .sysErrDetect)
    (returned : (mhiReadyStateTransition (resetRings (begun l).host) reply).2 = none) : Recovers l reply (recovered l) :=
  .completed true (Prod.ext rfl begins) rfl .refl returned

end Sample

theorem missionRecoveryAsBoot :
    Recovers (Sample.failed Sample.plainMission) Sample.reply (Sample.recovered (Sample.failed Sample.plainMission)) ∧
    AsFirstBoot (Sample.readied Sample.plainStarted).host Sample.reply Sample.reply Sample.plainStarted.cmdRbase
      (Sample.recovered (Sample.failed Sample.plainMission)) := by
  have recovers : Recovers (Sample.failed Sample.plainMission) Sample.reply (Sample.recovered (Sample.failed Sample.plainMission)) :=
    Sample.recovers (by decide) (by decide)
  refine ⟨recovers,(recoveryAsBoot (Sample.failedReached Sample.plainStarted) rfl recovers).mpr ?_⟩
  intro ev member
  rcases List.mem_cons.mp member with rfl | member
  · intro _ hw
    cases hw
  · rcases List.mem_singleton.mp member with rfl
    intro _ _ burst
    cases burst

theorem burstDoorbellSpent :
    ReflTransGen (Step fun _ _ => True) Sample.started (Sample.failed Sample.mission) ∧
    Recovers (Sample.failed Sample.mission) Sample.reply (Sample.recovered (Sample.failed Sample.mission)) ∧
    ¬AsFirstBoot (Sample.readied Sample.started).host Sample.reply Sample.reply Sample.started.cmdRbase
      (Sample.recovered (Sample.failed Sample.mission)) := by
  refine ⟨Sample.failedReached Sample.started,Sample.recovers (by decide) (by decide),fun same => ?_⟩
  have second := (List.forall₂_iff_get.mp same.events).2 1 (by decide) (by decide) rfl
  exact absurd second (by decide)

end MhiHost.Reboot
