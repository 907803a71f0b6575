import MhiHost.Delivery
import MhiHost.PollBudget

/-! Who comes back for an event: the device's interrupt, the tasklet of the ring or the
poller of the network stack, and the race between the last look at the ring and the next
post. Scheduling is a bit that a run takes as it starts, so that a request made meanwhile
brings another run. -/
namespace MhiHost.Wakeups
open Cyclic (Window)
open EventRings Credit Delivery
open PollBudget (napiAnswer)
open Relation (ReflTransGen)

/- Why the ring was left with events in it: no driver heard the interrupt of a ring it manages,
the controller was in an error state, the control tasklet found the registers out of reach, the
interface was not open, or a tasklet spent its quota. -/
inductive Cause where
  | unheard | error | suspended | down | quota
  deriving DecidableEq, Repr

structure Bell where
  owed : Bool
  irq : Bool
  sched : Bool
  left : Option Cause
  deriving DecidableEq, Repr

def Bell.silent : Bell := ⟨false,false,false,none⟩
def Bell.Rings (b : Bell) : Prop := b.owed = true ∨ b.irq = true ∨ b.sched = true

def mhiIrqHandler (ev : MhiEvent) (heard : Bool) (b : Bell) : Bell :=
  if ev.ring.rp = readPointer ev then {b with irq := false}
  else if ev.clManage && !heard then {b with irq := false, left := some .unheard}
  else {b with irq := false, sched := true}

/- `mhi_ctrl_ev_task` needs the registers, `process_event` a state that is not in error;
`mhi_net_poll` first asks whether the interface is `up`. -/
def turnsBack (c : Cntrl) (ev : MhiEvent) (up : Bool) : Option Cause :=
  if ev.clManage && !up then some .down
  else if !ev.clManage && decide (ev.dataType = .ctrl) && !mhiRegAccessValid c.pmState then some .suspended
  else if mhiEventAccessInvalid c.pmState then some .error
  else none

theorem turnsBackNot {c : Cntrl} {ev : MhiEvent} {up : Bool} (goes : turnsBack c ev up = none) :
    mhiEventAccessInvalid c.pmState = false := by
  unfold turnsBack at goes
  split at goes
  · cases goes
  split at goes
  · cases goes
  split at goes
  · cases goes
  · exact Bool.eq_false_iff.mpr ‹_›

def quotaOf (ev : MhiEvent) (budget : Nat) : Nat := if ev.clManage then budget else 2^32-1

def afterRun (ev : MhiEvent) (p : Pass) (budget rxWork : Nat) (b : Bell) : Bell :=
  if ev.clManage then {b with sched := b.sched || !(napiAnswer (some rxWork) budget).1}
  else {b with left := if p.devRp = ev.ring.rp then b.left else some .quota}

structure Watch where
  service : Service
  bell : Bell
  budget : Nat

def left (s : Service) (e : Nat) (ev : MhiEvent) : Service :=
  (if mhiDbAccessValid s.host.cntrl then
    (s.withHost {s.host with cntrl := (mhiRingErDb s.host.cntrl ev).1}).setEvent e (mhiRingErDb s.host.cntrl ev).2
    else s).setPass e none

/- Ring `e`. What goes on inside a run, on the other rings and in the rest of the driver
neither posts to it nor begins or ends a run over it. The count that a run returns is at
least what it was charged. -/
inductive Step (e : Nat) : Watch → Watch → Prop where
  | post {w} (ev : MhiEvent) (t : MhiTre) (found : w.service.host.events[e]? = some ev) (own : ev.offloadEv = false)
      (credit : ev.ctxtRp ≠ ev.ring.ctxtWp) :
      Step e w ⟨(w.service.setEvent e (devicePost ev t)).post e t,{w.bell with owed := true},w.budget⟩
  | raise {w} (owed : w.bell.owed = true) : Step e w {w with bell := {w.bell with owed := false, irq := true}}
  | interrupt {w} (ev : MhiEvent) (heard : Bool) (found : w.service.host.events[e]? = some ev) (irq : w.bell.irq = true) :
      Step e w {w with bell := mhiIrqHandler ev heard w.bell}
  | run {w} (ev : MhiEvent) (budget : Nat) (up : Bool) (found : w.service.host.events[e]? = some ev) (own : ev.offloadEv = false)
      (free : w.service.pass e = none) (sched : w.bell.sched = true) (goes : turnsBack w.service.host.cntrl ev up = none) :
      Step e w ⟨w.service.setPass e (some ⟨readPointer ev,(w.service.posted e).length,quotaOf ev budget,false⟩),
        {w.bell with sched := false, left := none},budget⟩
  | turnBack {w} (ev : MhiEvent) (up : Bool) (cause : Cause) (found : w.service.host.events[e]? = some ev)
      (sched : w.bell.sched = true) (turns : turnsBack w.service.host.cntrl ev up = some cause) :
      Step e w {w with bell := {w.bell with sched := false, left := some cause}}
  | leave {w} (ev : MhiEvent) (p : Pass) (rxWork : Nat) (found : w.service.host.events[e]? = some ev)
      (busy : w.service.pass e = some p) (fresh : p.handled = false) (done : passEnds ev p = true)
      (charged : ev.clManage = true → w.budget ≤ p.quota+rxWork) :
      Step e w ⟨left w.service e ev,afterRun ev p w.budget rxWork w.bell,w.budget⟩
  | serve {w s} (step : ServiceStep (AtBase e) w.service s) (still : s.posted e = w.service.posted e)
      (goesOn : (s.pass e).isSome = (w.service.pass e).isSome) : Step e w {w with service := s}
  | reset {w} (killed : ∀ i, w.service.pass i = none) :
      Step e w {w with service := .start (resetRings w.service.host), bell := {w.bell with left := none}}
  | elsewhere {w} (h : Host) (ring : h.events[e]? = w.service.host.events[e]?) : Step e w {w with service := w.service.withHost h}

def Covered (d : Desk) : Prop :=
  match d.pass with
  | some p => p.seen = d.posted.length
  | none => d.examined = d.posted

def Alert (b : Bell) (d : Desk) : Prop := (∃ cause, b.left = some cause) ∨ b.Rings ∨ Covered d

section Desk
variable {w : Window} {d d' : Desk} {b : Bell}

theorem emptyCovered (stands : Standing w d) (empty : d.ev.ring.rp = readPointer d.ev) : Covered d := by
  rcases stands with fresh | ⟨h,lent⟩
  · cases busy : d.pass with
    | none => simp [Covered,busy,fresh.examined,fresh.posted]
    | some p => simp [Covered,busy,fresh.posted,(fresh.pass p busy).2.1]
  · have pointer : readPointer d.ev = w.slot d.posted.length := lent.pointer
    have same : h = d.posted.length := w.slotNear lent.ordered lent.room (by rw [← lent.rp,empty,pointer])
    cases busy : d.pass with
    | none => simp [Covered,busy,lent.examined,held,same]
    | some p =>
      obtain ⟨-,low,high,-⟩ := lent.pass p busy
      simp only [Covered,busy]
      omega

theorem leftCovered {p : Pass} (stands : Standing w d) (busy : d.pass = some p) (idle : p.handled = false)
    (caught : p.devRp = d.ev.ring.rp) (covered : Covered d) : d.examined = d.posted := by
  have all := standingCaughtUp stands busy idle caught
  simp only [Covered,busy] at covered
  exact (standingOrder stands).eq_of_length (all.trans covered)

theorem moveCovered {resets : Prop} (moved : DeskMove resets d d') (still : d'.posted = d.posted)
    (goesOn : d'.pass.isSome = d.pass.isSome) (covered : Covered d) : Covered d' := by
  cases moved with
  | touch touched => exact covered
  | post t credit => simp at still
  | enter quota => simp at goesOn
  | examine quota fresh more touched => exact covered
  | recycle handled => rfl
  | leave fresh same => simp at goesOn
  | reset c allowed => rfl

end Desk

def Watched (w : Window) (e : Nat) (s : Watch) : Prop := ∃ d, desk s.service e = some d ∧ Standing w d ∧ Alert s.bell d

section Steps
variable {w : Window} {e : Nat} {s s' : Watch}

theorem onlyBell {b : Bell} (kept : ∀ d, desk s.service e = some d → Standing w d → Alert s.bell d → Alert b d)
    (watched : Watched w e s) : Watched w e {s with bell := b} := by
  obtain ⟨d,here,stands,alert⟩ := watched
  exact ⟨d,here,stands,kept d here stands alert⟩

theorem stepWatched (step : Step e s s') (watched : Watched w e s) : Watched w e s' := by
  have found' {d : Desk} {ev : MhiEvent} (here : desk s.service e = some d) (found : s.service.host.events[e]? = some ev) : d.ev = ev :=
    Option.some.inj ((deskFound here).1.symm.trans found)
  have base {s t : Service} (step : ServiceStep (AtBase e) s t) {d : Desk} (here : desk s e = some d) :=
    stepMove step (fun _ allowed => allowed) here
  cases step with
  | post ev t found own credit =>
    obtain ⟨d,here,stands,-⟩ := watched
    obtain ⟨d',there,moved⟩ := base (.post e ev t found own credit) here
    exact ⟨d',there,moveStanding moved stands,.inr (.inl (.inl rfl))⟩
  | raise owed =>
    refine onlyBell (fun d here stands alert => ?_) watched
    exact .inr (.inl (.inr (.inl rfl)))
  | interrupt ev heard found irq =>
    refine onlyBell (fun d here stands alert => ?_) watched
    unfold mhiIrqHandler
    split
    · rename_i empty
      cases found' here found
      exact .inr (.inr (emptyCovered stands empty))
    split
    · exact .inl ⟨_,rfl⟩
    · exact .inr (.inl (.inr (.inr rfl)))
  | run ev budget up found own free sched goes =>
    obtain ⟨d,here,stands,-⟩ := watched
    obtain ⟨d',there,moved⟩ := base (.enter e ev (quotaOf ev budget) found own free (turnsBackNot goes)) here
    refine ⟨d',there,moveStanding moved stands,.inr (.inr ?_)⟩
    obtain ⟨-,shape⟩ := deskFound there
    rw [shape]
    simp [Covered,Service.setPass]
  | turnBack ev up cause found sched turns =>
    refine onlyBell (fun d here stands alert => ?_) watched
    exact .inl ⟨cause,rfl⟩
  | leave ev p rxWork found busy fresh done charged =>
    obtain ⟨d,here,stands,alert⟩ := watched
    obtain ⟨d',there,moved⟩ := base (.leave e ev p found busy fresh done) here
    refine ⟨d',there,moveStanding moved stands,?_⟩
    have shape := (deskFound here).2
    have shape' := (deskFound there).2
    have event := found' here found
    have running : d.pass = some p := by
      rw [shape]
      exact busy
    by_cases caught : p.devRp = ev.ring.rp
    · rcases alert with turned | rings | covered
      · unfold afterRun
        split
        · exact .inl turned
        · exact .inl (by simpa only [caught,if_true] using turned)
      · refine .inr (.inl ?_)
        unfold afterRun
        split
        · rcases rings with owed | irq | sched
          · exact .inl owed
          · exact .inr (.inl irq)
          · exact .inr (.inr (by simp [sched]))
        · exact rings
      · have all := leftCovered stands running fresh (by rw [event]; exact caught) covered
        refine .inr (.inr ?_)
        rw [shape] at all
        rw [shape']
        simp only at all ⊢
        split <;> simpa [Covered,Service.setPass,Service.setEvent,Service.withHost] using all
    · -- the quota ended the run
      simp only [passEnds,caught,decide_false,Bool.false_or,Bool.and_eq_true,decide_eq_true_eq] at done
      unfold afterRun
      split
      · rename_i managed
        have more := charged managed
        refine .inr (.inl (.inr (.inr ?_)))
        simp [napiAnswer]
        omega
      · exact .inl ⟨.quota,rfl⟩
  | serve step still goesOn =>
    obtain ⟨d,here,stands,alert⟩ := watched
    obtain ⟨d',there,moved⟩ := base step here
    have shape := (deskFound here).2
    have shape' := (deskFound there).2
    refine ⟨d',there,moveStanding moved stands,?_⟩
    rcases alert with turned | rings | covered
    · exact .inl turned
    · exact .inr (.inl rings)
    · refine .inr (.inr (moveCovered moved ?_ ?_ covered))
      · rw [shape,shape']
        exact still
      · rw [shape,shape']
        exact goesOn
  | reset killed =>
    obtain ⟨d,here,stands,-⟩ := watched
    obtain ⟨d',there,moved⟩ := base (.reset killed (fun writes => by simp [EventRings.writes] at writes)) here
    refine ⟨d',there,moveStanding moved stands,.inr (.inr ?_)⟩
    rw [(deskFound there).2]
    rfl
  | elsewhere h ring =>
    obtain ⟨d,here,stands,alert⟩ := watched
    exact ⟨d,by simpa [desk,Service.withHost,ring] using here,stands,alert⟩

end Steps

def NotStranded (e : Nat) (s : Watch) : Prop :=
  (∃ cause, s.bell.left = some cause) ∨ s.bell.Rings ∨ (∃ p, s.service.pass e = some p ∧ p.seen = (s.service.posted e).length) ∨
    s.service.pass e = none ∧ s.service.examined e = s.service.posted e

theorem neverStranded {w : Window} {h : Host} {lay : Layout} {e : Nat} {ev : MhiEvent} {s : Watch}
    (found : h.events[e]? = some ev)
    (own : ev.offloadEv = false) (laid : (layRing ev.ring (lay.event e).host (lay.event e).bus).Over w)
    (run : ReflTransGen (Step e) ⟨.start (mhiInitDevCtxt h lay),.silent,0⟩ s) : NotStranded e s := by
  have first : Watched w e ⟨.start (mhiInitDevCtxt h lay),.silent,0⟩ := by
    obtain ⟨d,here,stands⟩ := initStands found own laid
    refine ⟨d,here,stands,.inr (.inr ?_)⟩
    rw [(deskFound here).2]
    rfl
  obtain ⟨d,here,stands,alert⟩ := Runs.keeps (I := Watched w e) (fun _ _ => stepWatched) run first
  rcases alert with turned | rings | covered
  · exact .inl turned
  · exact .inr (.inl rings)
  · refine .inr (.inr ?_)
    rw [(deskFound here).2] at covered
    cases busy : s.service.pass e with
    | none => exact .inr ⟨rfl,by simpa [Covered,busy] using covered⟩
    | some p => exact .inl ⟨p,rfl,by simpa [Covered,busy] using covered⟩

namespace Sample
open Credit.Sample (ring blank script window)

def first : Watch := ⟨.start MhiHost.Sample.ready,.silent,0⟩
def lent : Watch := {first with service := Credit.Sample.lent}
def posted : Watch := ⟨Credit.Sample.queued,⟨true,false,false,none⟩,0⟩
def raised : Watch := {posted with bell := ⟨false,true,false,none⟩}
def scheduled : Watch := {posted with bell := ⟨false,false,true,none⟩}
def pass : Pass := ⟨readPointer (ring 1 posted.service),1,2^32-1,false⟩
def running : Watch := ⟨posted.service.setPass 1 (some pass),.silent,0⟩
def handled : Watch := {running with service := (running.service.examine 1 blank).setPass 1 (some {pass with handled := true})}
def last : Pass := {pass with devRp := readPointer (recycleEvent (ring 1 handled.service))}
def recycled : Watch := {handled with service :=
  (handled.service.setEvent 1 (recycleEvent (ring 1 handled.service))).setPass 1 (some last)}
def done : Watch := {recycled with service := left recycled.service 1 (ring 1 recycled.service)}

theorem runs : ReflTransGen (Step 1) first done := by
  have base : AtBase 1 .m0 MhiHost.Sample.ready := by
    intro _ ev found _
    cases found
    rfl
  have fills : Step 1 first lent := .serve (.m0 base) rfl rfl
  have posts : Step 1 lent posted := .post (ring 1 lent.service) blank rfl rfl (by decide)
  have raises : Step 1 posted raised := .raise rfl
  have handles : Step 1 raised scheduled := .interrupt (ring 1 raised.service) true rfl rfl
  have starts : Step 1 scheduled running := .run (ring 1 scheduled.service) 0 true rfl rfl rfl rfl rfl
  have examines : Step 1 running handled := .serve
    (.examine 1 (ring 1 running.service) pass script rfl rfl rfl (by decide) (fun m0 => absurd m0 (by decide)) rfl) rfl rfl
  have recycles : Step 1 handled recycled :=
    .serve (.recycle 1 (ring 1 handled.service) {pass with handled := true} rfl rfl rfl) rfl rfl
  have leaves : Step 1 recycled done :=
    .leave (ring 1 recycled.service) last 1 rfl rfl rfl (by decide) (fun managed => absurd managed (by decide))
  exact (((((((ReflTransGen.single fills).tail posts).tail raises).tail handles).tail starts).tail examines).tail recycles).tail leaves

end Sample

theorem neverStrandedSample : Sample.done.service.posted 1 = [Credit.Sample.blank] ∧ Sample.done.bell = .silent ∧
    NotStranded 1 Sample.done :=
  ⟨by decide,rfl,neverStranded (h := MhiHost.Sample.host) (e := 1) rfl rfl Credit.Sample.laid Sample.runs⟩

end MhiHost.Wakeups
