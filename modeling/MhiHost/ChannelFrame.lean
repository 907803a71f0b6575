import MhiHost.Events
import MhiHost.EventRings

/-! What the driver does to a channel apart from queueing and transfer completions: it may
announce the write pointer again and write the words beside the rings, but both rings,
their elements and the client's history stay. -/
namespace MhiHost

structure Rung (ch ch' : Chan) : Prop where
  tre : ∃ ctxt db, ch'.treRing = {ch.treRing with ctxtWp := ctxt, dbAddr := db} ∧
    (ctxt = ch.treRing.ctxtWp ∨ ctxt = ch.treRing.db)
  bufRing : ch'.bufRing = ch.bufRing
  bufMem : ch'.bufMem = ch.bufMem
  treMem : ch'.treMem = ch.treMem
  xferLog : ch'.xferLog = ch.xferLog
  accepted : ch'.accepted = ch.accepted
  preAlloc : ch'.preAlloc = ch.preAlloc
  chState : ch'.chState = ch.chState

namespace Rung

theorem beside {ch : Chan} (dbCfg : DbCfg) (ccs completion : Nat) (mhiDev : Option Nat) :
    Rung ch {ch with dbCfg := dbCfg, ccs := ccs, completion := completion, mhiDev := mhiDev} :=
  ⟨⟨_,_,rfl,.inl rfl⟩,rfl,rfl,rfl,rfl,rfl,rfl,rfl⟩

theorem refl (ch : Chan) : Rung ch ch := beside ch.dbCfg ch.ccs ch.completion ch.mhiDev

theorem trans {a b c : Chan} (first : Rung a b) (second : Rung b c) : Rung a c := by
  obtain ⟨⟨ctxt,db,tre,told⟩,bufRing,bufMem,treMem,log,accepted,preAlloc,state⟩ := first
  obtain ⟨⟨ctxt',db',tre',told'⟩,bufRing',bufMem',treMem',log',accepted',preAlloc',state'⟩ := second
  refine ⟨⟨ctxt',db',by rw [tre',tre],?_⟩,bufRing'.trans bufRing,bufMem'.trans bufMem,treMem'.trans treMem,log'.trans log,
    accepted'.trans accepted,preAlloc'.trans preAlloc,state'.trans state⟩
  rw [tre] at told'
  rcases told' with rfl | rfl
  · exact told
  · exact .inr rfl

theorem ringDb (p : Port) : Rung p.chan (mhiRingChanDb p).chan := ⟨⟨_,_,rfl,.inr rfl⟩,rfl,rfl,rfl,rfl,rfl,rfl,rfl⟩

theorem dbMode (p : Port) : Rung p.chan (dbModeEvent p).chan := by
  have armed : Rung p.chan {p.chan with dbCfg := {p.chan.dbCfg with dbMode := true}} :=
    beside _ p.chan.ccs p.chan.completion p.chan.mhiDev
  unfold dbModeEvent ringIfAccessible
  dsimp only
  split
  · split
    · exact armed.trans (ringDb {p with chan := _})
    · exact armed
  · exact armed

def All (h h' : Host) : Prop := h'.maxChan = h.maxChan ∧ ∀ i, Rung (h.chans i) (h'.chans i)

theorem allOf {h h' : Host} (max : h'.maxChan = h.maxChan) (chans : h'.chans = h.chans) : All h h' :=
  ⟨max,fun i => by rw [chans]; exact refl _⟩

theorem All.trans {a b c : Host} (first : All a b) (second : All b c) : All a c :=
  ⟨second.1.trans first.1,fun i => (first.2 i).trans (second.2 i)⟩

theorem setChan {h : Host} {i : Nat} {ch : Chan} (rung : Rung (h.chans i) ch) : All h (h.setChan i ch) := by
  refine ⟨rfl,fun j => ?_⟩
  by_cases same : j = i
  · subst same
    simpa [Host.setChan] using rung
  · simpa [Host.setChan,same] using refl (h.chans j)

theorem m0One (h : Host) (i : Nat) : All h (m0Chan h i) := by
  have armed : Rung (h.chans i) (if (h.chans i).dbCfg.resetReq then {h.chans i with
      dbCfg := {(h.chans i).dbCfg with dbMode := true}} else h.chans i) := by
    split
    · exact beside _ (h.chans i).ccs (h.chans i).completion (h.chans i).mhiDev
    · exact refl _
  unfold m0Chan
  dsimp only
  generalize (if (h.chans i).dbCfg.resetReq then {h.chans i with
      dbCfg := {(h.chans i).dbCfg with dbMode := true}} else h.chans i) = ch at armed ⊢
  split
  · obtain ⟨max,all⟩ := setChan (armed.trans (ringDb ⟨h.cntrl,ch⟩))
    exact ⟨max,all⟩
  · exact setChan armed

theorem m0Fold (l : List Nat) (h : Host) : All h (l.foldl m0Chan h) := by
  induction l generalizing h with
  | nil => exact allOf rfl rfl
  | cons i rest ih => exact (m0One h i).trans (ih (m0Chan h i))

theorem m0 (h : Host) : All h (mhiPmM0Transition h).1 := by
  unfold mhiPmM0Transition
  dsimp only
  split
  · exact allOf rfl rfl
  · set awake : Host := {h with cntrl := mhiAssertDevWake {h.cntrl with
      devState := .m0, pmState := mhiTrysetPmState h.cntrl.pmState .m0} true}
    have woken : All h awake := allOf rfl rfl
    have mission : All awake (if mhiInMissionMode awake.cntrl.ee then m0Mission awake else awake) := by
      split
      · obtain ⟨max,chans,-⟩ := m0MissionView awake
        exact allOf max chans
      · exact allOf rfl rfl
    generalize (if mhiInMissionMode awake.cntrl.ee then m0Mission awake else awake) = mid at mission ⊢
    have all : All h (m0Chans mid) := (woken.trans mission).trans (m0Fold (List.range mid.maxChan) mid)
    exact ⟨all.1,all.2⟩

theorem taken (h : Host) (i : Nat) : All h (takeChan h i) :=
  setChan (beside (h.chans i).dbCfg (h.chans i).ccs (h.chans i).completion (some h.nextDev))

theorem added (h : Host) (i : Nat) (reply : CreateReply) (ul dl : Option Nat) : All h (addDevice h i reply ul dl) := by
  unfold addDevice
  split <;> exact allOf rfl rfl

theorem created (reply : CreateReply) (fuel i : Nat) (h : Host) : All h (createFrom reply fuel i h) := by
  induction fuel generalizing i h with
  | zero => exact allOf rfl rfl
  | succ fuel ih =>
    unfold createFrom
    split
    · exact allOf rfl rfl
    dsimp only
    split
    · exact ih (i+1) h
    split
    · exact allOf rfl rfl
    split
    · exact allOf rfl rfl
    · exact allOf rfl rfl
    · split
      · exact (((taken h i).trans (taken _ (i+1))).trans (added _ i reply _ _)).trans (ih (i+2) _)
      · exact ((taken h i).trans (added _ i reply _ _)).trans (ih (i+1) _)

theorem mission (h : Host) (inTime : Bool) (reply : CreateReply) : All h (missionModeFinish h inTime reply).1 := by
  unfold missionModeFinish
  split
  · exact allOf rfl rfl
  · obtain ⟨max,all⟩ := created reply (h.passEvents missionEvent).maxChan 0 (h.passEvents missionEvent)
    exact ⟨max,all⟩

theorem completed (h : Host) (ev : MhiTre) : All h (mhiProcessCmdCompletion h ev) := by
  have done : ∀ (ch : Chan) (ccs : Nat), Rung ch (complete {ch with ccs := ccs}) := by
    intro ch ccs
    unfold complete
    split
    · exact beside ch.dbCfg ccs ch.completion ch.mhiDev
    · exact beside ch.dbCfg ccs _ ch.mhiDev
  obtain ⟨max,all⟩ := setChan (done (h.chans ((h.cmdMem (mhiToVirtual h.cmdRing ev.getEvPtr)).getCmdChid)) ev.getEvCode)
  exact ⟨max,all⟩

theorem sysErr (h : Host) : All h (sysErrEvent h) := by
  unfold sysErrEvent mhiPmSysErrHandler
  split
  · exact allOf rfl rfl
  · dsimp only
    split
    · split <;> exact allOf rfl rfl
    · exact allOf rfl rfl

theorem stateChange (h : Host) (code : Nat) : All h (stateChangeEvent h code) := by
  unfold stateChangeEvent
  split
  · exact m0 h
  split
  · obtain ⟨max,chans,-⟩ := m1View h
    exact allOf max chans
  split
  · exact allOf rfl rfl
  split
  · exact sysErr h
  · exact allOf rfl rfl

theorem ee (h : Host) (code : Nat) : All h (eeEvent h code) := by
  unfold eeEvent
  split
  · exact allOf rfl rfl
  split
  · exact allOf rfl rfl
  split
  · exact allOf rfl rfl
  split <;> exact allOf rfl rfl

end Rung

def Foreign (c : Nat) (ev : MhiTre) : Prop :=
  ev.getEvChid = c → (ev.getEvType = PktType.txEvent → isXferCode ev.getEvCode = false) ∧ ev.getEvType ≠ PktType.rscTxEvent

section Foreign
variable {c : Nat} {h h' : Host} {ev : MhiTre} {script : Nat → CbScript}

theorem portThere {p : Port} {i : Nat} (aside : i ≠ c) :
    (h.setPort i p).chans c = h.chans c := by simp [Host.setPort,Ne.symm aside]

theorem portAside {p : Port} {i : Nat} (aside : i ≠ c) : Rung (h.chans c) ((h.setPort i p).chans c) := by
  rw [portThere aside]
  exact .refl _

theorem txFrame (foreign : Foreign c ev) (kind : ev.getEvType = PktType.txEvent) (ran : txEvent h ev script = some h') :
    h'.maxChan = h.maxChan ∧ Rung (h.chans c) (h'.chans c) := by
  unfold txEvent at ran
  split at ran
  · obtain ⟨p,parsed,rfl⟩ := Option.map_eq_some_iff.mp ran
    refine ⟨rfl,?_⟩
    by_cases aside : ev.getEvChid = c
    · have other := (foreign aside).1 kind
      subst aside
      rw [setPortSelf]
      unfold parseXferEvent at parsed
      rw [other] at parsed
      split at parsed
      · cases parsed
        exact .refl _
      · split at parsed
        · rename_i same
          cases same
        split at parsed
        · cases parsed
          exact .dbMode (h.port _)
        · cases parsed
          exact .refl _
    · exact portAside aside
  · cases ran
    exact ⟨rfl,.refl _⟩

end Foreign

end MhiHost
