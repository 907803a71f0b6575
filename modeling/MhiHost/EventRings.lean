import MhiHost.Events
import MhiHost.Stations

/-! One event ring among all of them. Whatever a step does to the controller, a given
ring only sees one of a few moves: its doorbell state changes, it is filled up by a
handler, the device posts, a pass over it goes on, or it is reset. -/
namespace MhiHost.EventRings

def Kept (ev ev' : MhiEvent) : Prop :=
  ∃ cfg addr, ev' = {ev with dbCfg := cfg, ring := {ev.ring with dbAddr := addr}}

theorem Kept.refl (ev : MhiEvent) : Kept ev ev := ⟨ev.dbCfg,ev.ring.dbAddr,rfl⟩

theorem Kept.trans {a b c : MhiEvent} (first : Kept a b) (second : Kept b c) : Kept a c := by
  obtain ⟨_,_,rfl⟩ := first
  obtain ⟨cfg,addr,rfl⟩ := second
  exact ⟨cfg,addr,rfl⟩

theorem ringKept (c : Cntrl) (ev : MhiEvent) : Kept ev (mhiRingErDb c ev).2 := ⟨_,ev.ring.dbAddr,rfl⟩

def At (e : Nat) (f : MhiEvent → MhiEvent) (before after : List MhiEvent) : Prop :=
  ∀ ev, before[e]? = some ev → ∃ ev', after[e]? = some ev' ∧ Kept (f ev) ev'

theorem atSame {e : Nat} {before after : List MhiEvent} (same : after = before) : At e id before after := by
  intro ev found
  exact ⟨ev,by rw [same]; exact found,.refl ev⟩

theorem forEventsAt {act : Cntrl → MhiEvent → Cntrl × MhiEvent} {f : MhiEvent → MhiEvent}
    (each : ∀ c ev, Kept (f ev) (act c ev).2) (e : Nat) (c : Cntrl) (l : List MhiEvent) : At e f l (forEvents act c l).2 := by
  induction l generalizing e c with
  | nil =>
    intro ev found
    simp at found
  | cons first rest ih =>
    intro ev found
    cases e with
    | zero =>
      have same : first = ev := by simpa using found
      subst same
      exact ⟨_,rfl,each c first⟩
    | succ e => exact ih e (act c first).1 ev (by simpa using found)

theorem eventDbsAt (base e val : Nat) (l : List MhiEvent) : At e id l (eventDbs base val l) := by
  induction l generalizing e val with
  | nil =>
    intro ev found
    simp at found
  | cons first rest ih =>
    intro ev found
    cases e with
    | zero =>
      have same : first = ev := by simpa using found
      subst same
      refine ⟨_,rfl,?_⟩
      split
      · exact .refl first
      · exact ⟨first.dbCfg,_,rfl⟩
    | succ e => exact ih e (val + 8) ev (by simpa using found)

/- Which rings a handler adds elements to, and whether it gets that far. -/
def selects (op : Rewrite) (ev : MhiEvent) : Bool :=
  match op with
  | .ready => !ev.offloadEv && !ev.hwRing
  | .mission | .m0 => !ev.offloadEv && ev.hwRing
  | .reset => false

def writes (op : Rewrite) (h : Host) : Bool :=
  match op with
  | .ready => !mhiPmInFatalState h.cntrl.pmState && decide (mhiTrysetPmState h.cntrl.pmState .por = .por)
  | .mission => !mhiPmInErrorState h.cntrl.pmState
  | .m0 => decide (mhiTrysetPmState h.cntrl.pmState .m0 = .m0) && mhiInMissionMode h.cntrl.ee
  | .reset => false

def fill (op : Rewrite) (ev : MhiEvent) : MhiEvent := if selects op ev then addElements ev else ev

theorem readyFills (c : Cntrl) (ev : MhiEvent) : Kept (fill .ready ev) (readyEvent c ev).2 := by
  unfold fill readyEvent selects
  cases ev.offloadEv <;> cases ev.hwRing <;> first | exact ringKept c _ | exact .refl _

theorem m0Fills (c : Cntrl) (ev : MhiEvent) : Kept (fill .m0 ev) (m0Event c ev).2 := by
  unfold fill m0Event selects
  cases ev.offloadEv <;> cases ev.hwRing <;> first | exact ringKept c _ | exact .refl _

theorem missionFills (c : Cntrl) (ev : MhiEvent) : Kept (fill .mission ev) (missionEvent c ev).2 := by
  unfold fill missionEvent selects
  cases ev.offloadEv <;> cases ev.hwRing <;> try exact .refl _
  by_cases opened : mhiDbAccessValid c = true
  · simp only [opened]
    exact ringKept c _
  · simp only [opened]
    exact .refl _

theorem fillKept (op : Rewrite) {a b : MhiEvent} (same : Kept a b) : Kept (fill op a) (fill op b) := by
  obtain ⟨cfg,addr,rfl⟩ := same
  have sel : selects op {a with dbCfg := cfg, ring := {a.ring with dbAddr := addr}} = selects op a := by cases op <;> rfl
  unfold fill
  rw [sel]
  split <;> exact ⟨cfg,addr,rfl⟩

def Wrote (op : Rewrite) (e : Nat) (h h' : Host) : Prop :=
  At e id h.events h'.events ∨ writes op h = true ∧ At e (fill op) h.events h'.events

theorem mmioAt (h : Host) (reply : ReadyReply) (e : Nat) : At e id h.events (mhiInitMmio h reply).1.events := by
  obtain ⟨_,_,events,_,_,written,same⟩ := mmioView h reply
  rw [same]
  rcases written with rfl | ⟨val,rfl⟩
  · exact atSame rfl
  · exact eventDbsAt _ _ _ _

theorem readyFilled (h : Host) (reply : ReadyReply) (e : Nat) :
    (mhiReadyStateTransition h reply).2 ≠ none ∧ At e id h.events (mhiReadyStateTransition h reply).1.events ∨
    writes .ready h = true ∧ At e (fill .ready) h.events (mhiReadyStateTransition h reply).1.events := by
  have mapped : At e id h.events (mhiInitMmio (readyHost h) reply).1.events := mmioAt (readyHost h) reply e
  have ends := readyEnds h reply
  generalize mhiReadyStateTransition h reply = out at ends ⊢
  cases ends with
  | refused err => exact .inl ⟨by simp,atSame rfl⟩
  | moved => exact .inl ⟨by simp,atSame rfl⟩
  | unmapped => exact .inl ⟨by simp,mapped⟩
  | done alive reached =>
    refine .inr ⟨by simp [writes,alive,reached],fun ev found => ?_⟩
    obtain ⟨mid,there,same⟩ := mapped ev found
    obtain ⟨ev',last,filled⟩ := forEventsAt readyFills e _ _ mid there
    exact ⟨ev',last,(fillKept .ready same).trans filled⟩

theorem readyWrote (h : Host) (reply : ReadyReply) (e : Nat) : Wrote .ready e h (mhiReadyStateTransition h reply).1 := by
  rcases readyFilled h reply e with ⟨_,same⟩ | wrote
  · exact .inl same
  · exact .inr wrote

theorem missionWrote (h : Host) (inTime : Bool) (reply : CreateReply) (e : Nat) :
    Wrote .mission e h (missionModeFinish h inTime reply).1 := by
  unfold missionModeFinish
  split
  · exact .inl (atSame rfl)
  · rename_i alive
    refine .inr ⟨?_,?_⟩
    · simp only [writes]
      simp_all
    · obtain ⟨devices,next,chans,created⟩ := fromCreated reply (h.passEvents missionEvent).maxChan 0 (h.passEvents missionEvent)
      dsimp only [mhiCreateDevices]
      rw [created]
      exact forEventsAt missionFills e _ _

theorem chansEvents (h : Host) : (m0Chans h).events = h.events := by
  obtain ⟨cntrl,chans,same⟩ := m0ChansFrame h
  rw [same]

theorem m0MissionEvents (h : Host) : (m0Mission h).events = (forEvents m0Event h.cntrl h.events).2 := by
  unfold m0Mission
  dsimp only
  split <;> rfl

theorem m0Wrote (h : Host) (e : Nat) : Wrote .m0 e h (mhiPmM0Transition h).1 := by
  unfold mhiPmM0Transition
  dsimp only
  split
  · exact .inl (atSame rfl)
  · rename_i reached
    dsimp only
    split
    · rename_i mission
      refine .inr ⟨?_,?_⟩
      · simp only [writes,Bool.and_eq_true,decide_eq_true_iff]
        rw [assertEe] at mission
        exact ⟨not_not.mp reached,mission⟩
      · rw [chansEvents, m0MissionEvents]
        exact forEventsAt m0Fills e _ _
    · exact .inl (atSame (chansEvents _))

theorem txEvents {h h' : Host} {t : MhiTre} {script} (ran : txEvent h t script = some h') : h'.events = h.events := by
  unfold txEvent at ran
  split at ran
  · obtain ⟨p,_,rfl⟩ := Option.map_eq_some_iff.mp ran
    rfl
  · cases ran
    rfl

theorem stateEvents (h : Host) {code : Nat} (other : code ≠ DevState.m0.code) : (stateChangeEvent h code).events = h.events := by
  unfold stateChangeEvent
  rw [if_neg other]
  split
  · unfold mhiPmM1Transition
    dsimp only
    split
    · rfl
    · split <;> rfl
  split
  · rfl
  split
  · unfold sysErrEvent
    split
    · rfl
    dsimp only
    split
    · unfold mhiPmSysErrHandler
      split <;> rfl
    · rfl
  · rfl

theorem eeEvents (h : Host) (code : Nat) : (eeEvent h code).events = h.events := by
  unfold eeEvent
  split
  · rfl
  split
  · rfl
  split
  · rfl
  split <;> rfl

theorem processEvents {h h' : Host} {kind : ErDataType} {t : MhiTre} {script} (ran : processEvent h kind t script = some h') :
    isM0Event kind t = true ∧ h' = (mhiPmM0Transition h).1 ∨ h'.events = h.events := by
  cases kind with
  | ctrl =>
    simp only [processEvent,ctrlEvent] at ran
    split at ran
    · cases ran
      exact .inr rfl
    split at ran
    · rename_i change
      cases ran
      by_cases m0 : t.getEvState = DevState.m0.code
      · exact .inl ⟨by simp [isM0Event,change,m0],by simp [stateChangeEvent,m0]⟩
      · exact .inr (stateEvents h m0)
    split at ran
    · cases ran
      exact .inr rfl
    split at ran
    · cases ran
      exact .inr (eeEvents h _)
    split at ran
    · exact .inr (txEvents ran)
    · cases ran
      exact .inr rfl
  | data =>
    simp only [processEvent,dataEvent] at ran
    split at ran
    · exact .inr (txEvents ran)
    split at ran
    · cases ran
      exact .inr rfl
    · cases ran
      exact .inr rfl

def AtBase (e : Nat) (op : Rewrite) (h : Host) : Prop :=
  writes op h = true → ∀ ev, h.events[e]? = some ev → selects op ev = true → ev.ring.rp = ev.ring.base

inductive Touch : MhiEvent → MhiEvent → Prop where
  | kept {ev ev'} (same : Kept ev ev') : Touch ev ev'
  | added {ev ev'} (atBase : ev.ring.rp = ev.ring.base) (same : Kept (addElements ev) ev') : Touch ev ev'

theorem wroteTouch {op : Rewrite} {e : Nat} {h h' : Host} {ev : MhiEvent} (wrote : Wrote op e h h') (atBase : AtBase e op h)
    (found : h.events[e]? = some ev) : ∃ ev', h'.events[e]? = some ev' ∧ Touch ev ev' := by
  rcases wrote with same | ⟨writing,filled⟩
  · obtain ⟨ev',there,same⟩ := same ev found
    exact ⟨ev',there,.kept same⟩
  · obtain ⟨ev',there,same⟩ := filled ev found
    refine ⟨ev',there,?_⟩
    unfold fill at same
    split at same
    · rename_i chosen
      exact .added (atBase writing ev found chosen) same
    · exact .kept same

structure Desk where
  ev : MhiEvent
  pass : Option Pass
  posted : List MhiTre
  examined : List MhiTre

def desk (s : Service) (e : Nat) : Option Desk :=
  (s.host.events[e]?).map (fun ev => ⟨ev,s.pass e,s.posted e,s.examined e⟩)

inductive DeskMove (resets : Prop) : Desk → Desk → Prop where
  | touch {ev ev' p posted examined} (touched : Touch ev ev') : DeskMove resets ⟨ev,p,posted,examined⟩ ⟨ev',p,posted,examined⟩
  | post {ev p posted examined} (t : MhiTre) (credit : ev.ctxtRp ≠ ev.ring.ctxtWp) :
      DeskMove resets ⟨ev,p,posted,examined⟩ ⟨devicePost ev t,p,posted ++ [t],examined⟩
  | enter {ev posted examined} (quota : Nat) :
      DeskMove resets ⟨ev,none,posted,examined⟩ ⟨ev,some ⟨readPointer ev,posted.length,quota,false⟩,posted,examined⟩
  | examine {ev ev' p posted examined} (quota : Nat) (fresh : p.handled = false) (more : p.devRp ≠ ev.ring.rp)
      (touched : Touch ev ev') : DeskMove resets ⟨ev,some p,posted,examined⟩
        ⟨ev',some {p with quota := quota, handled := true},posted,examined ++ [ev.mem ev.ring.rp]⟩
  | recycle {ev p posted examined} (handled : p.handled = true) : DeskMove resets ⟨ev,some p,posted,examined⟩
      ⟨recycleEvent ev,some {p with devRp := readPointer (recycleEvent ev), seen := posted.length, handled := false},
        posted,examined⟩
  | leave {ev ev' p posted examined} (fresh : p.handled = false) (same : Kept ev ev') :
      DeskMove resets ⟨ev,some p,posted,examined⟩ ⟨ev',none,posted,examined⟩
  | reset {ev p posted examined} (c : Cntrl)
      (allowed : resets) : DeskMove resets ⟨ev,p,posted,examined⟩ ⟨(resetEvent c ev).2,none,[],[]⟩

theorem DeskMove.same {resets : Prop} (d : Desk) : DeskMove resets d d := .touch (.kept (.refl d.ev))

theorem DeskMove.mono {resets resets' : Prop} {d d' : Desk} (moved : DeskMove resets d d') (weaker : resets → resets') :
    DeskMove resets' d d' := by
  cases moved with
  | touch touched => exact .touch touched
  | post t credit => exact .post t credit
  | enter quota => exact .enter quota
  | examine quota fresh more touched => exact .examine quota fresh more touched
  | recycle handled => exact .recycle handled
  | leave fresh same => exact .leave fresh same
  | reset c allowed => exact .reset c (weaker allowed)

theorem deskFound {s : Service} {e : Nat} {d : Desk} (here : desk s e = some d) :
    s.host.events[e]? = some d.ev ∧ d = ⟨d.ev,s.pass e,s.posted e,s.examined e⟩ := by
  obtain ⟨ev,found,rfl⟩ := Option.map_eq_some_iff.mp here
  exact ⟨found,rfl⟩

theorem resetEventsAt (e : Nat) (c : Cntrl) (l : List MhiEvent) {ev : MhiEvent} (found : l[e]? = some ev) :
    (forEvents resetEvent c l).2[e]? = some (resetEvent c ev).2 := by
  have fixed : ∀ (a : Cntrl) (ev : MhiEvent), (resetEvent a ev).1 = a := by
    intro a ev
    unfold resetEvent
    split <;> rfl
  induction l generalizing e with
  | nil => simp at found
  | cons first rest ih =>
    cases e with
    | zero =>
      have same : first = ev := by simpa using found
      subst same
      rfl
    | succ e =>
      have tail := ih e (by simpa using found)
      simpa [forEvents,fixed] using tail

theorem setHere {l : List MhiEvent} {e : Nat} {ev ev' : MhiEvent} (found : l[e]? = some ev) : (l.set e ev')[e]? = some ev' := by
  obtain ⟨inside,_⟩ := List.getElem?_eq_some_iff.mp found
  exact List.getElem?_set_self inside

theorem stepMove {may : Rewrite → Host → Prop} {s s' : Service} {e : Nat} {d : Desk} (step : ServiceStep may s s')
    (atBase : ∀ op, may op s.host → AtBase e op s.host) (here : desk s e = some d) :
    ∃ d', desk s' e = some d' ∧ DeskMove (may .reset s.host) d d' := by
  obtain ⟨found,shape⟩ := deskFound here
  generalize d.ev = ev at found shape
  subst shape
  cases step with
  | post e' ev' t found' own credit =>
    by_cases same : e = e'
    · subst same
      cases found'.symm.trans found
      exact ⟨_,by simp [desk,Service.setEvent,Service.post,setHere found],.post t credit⟩
    · refine ⟨_,?_,.same _⟩
      simp [desk,Service.setEvent,Service.post,found,Function.update_of_ne same,Ne.symm same]
  | enter e' ev' quota found' own free access =>
    by_cases same : e = e'
    · subst same
      cases found'.symm.trans found
      rw [free]
      exact ⟨_,by simp [desk,Service.setPass,found],.enter quota⟩
    · refine ⟨_,?_,.same _⟩
      simp [desk,Service.setPass,found,Function.update_of_ne same]
  | @examine h e' ev' p script found' busy fresh more allowed ran =>
    have touched : ∃ after, h.events[e]? = some after ∧ Touch ev after := by
      rcases processEvents ran with ⟨m0,rfl⟩ | same
      · exact wroteTouch (m0Wrote s.host e) (atBase .m0 (allowed m0)) found
      · exact ⟨ev,by rw [same]; exact found,.kept (.refl ev)⟩
    obtain ⟨after,there,touched⟩ := touched
    by_cases same : e = e'
    · subst same
      cases found'.symm.trans found
      rw [busy]
      have left : p.devRp ≠ ev.ring.rp := by
        intro equal
        simp [passEnds,equal] at more
      let quota := if countsQuota s.host ev.dataType (ev.mem ev.ring.rp) then p.quota - 1 else p.quota
      exact ⟨_,by simp [desk,Service.setPass,Service.examine,Service.withHost,there,quota],.examine quota fresh left touched⟩
    · refine ⟨_,?_,.touch touched⟩
      simp [desk,Service.setPass,Service.examine,Service.withHost,there,Function.update_of_ne same]
  | recycle e' ev' p found' busy handled =>
    by_cases same : e = e'
    · subst same
      cases found'.symm.trans found
      rw [busy]
      exact ⟨_,by simp [desk,Service.setEvent,Service.setPass,setHere found],.recycle handled⟩
    · refine ⟨_,?_,.same _⟩
      simp [desk,Service.setEvent,Service.setPass,found,Function.update_of_ne same,Ne.symm same]
  | leave e' ev' p found' busy fresh done =>
    by_cases same : e = e'
    · subst same
      cases found'.symm.trans found
      rw [busy]
      split
      · exact ⟨_,by simp [desk,Service.setEvent,Service.setPass,Service.withHost,setHere found],.leave fresh (ringKept s.host.cntrl ev)⟩
      · exact ⟨_,by simp [desk,Service.setPass,found],.leave fresh (.refl ev)⟩
    · refine ⟨_,?_,.same _⟩
      split <;> simp [desk,Service.setEvent,Service.setPass,Service.withHost,found,Function.update_of_ne same,Ne.symm same]
  | ready reply allowed =>
    obtain ⟨after,there,touched⟩ := wroteTouch (readyWrote s.host reply e) (atBase .ready allowed) found
    exact ⟨_,by simp [desk,Service.withHost,there],.touch touched⟩
  | mission inTime reply allowed =>
    obtain ⟨after,there,touched⟩ := wroteTouch (missionWrote s.host inTime reply e) (atBase .mission allowed) found
    exact ⟨_,by simp [desk,Service.withHost,there],.touch touched⟩
  | m0 allowed =>
    obtain ⟨after,there,touched⟩ := wroteTouch (m0Wrote s.host e) (atBase .m0 allowed) found
    exact ⟨_,by simp [desk,Service.withHost,there],.touch touched⟩
  | reset killed allowed =>
    have there := resetEventsAt e s.host.cntrl s.host.events found
    exact ⟨_,by simp [desk,Service.start,resetRings,Host.passEvents,there],.reset s.host.cntrl allowed⟩
  | controller c => exact ⟨_,by simp [desk,Service.withHost,found],.same _⟩

end MhiHost.EventRings
