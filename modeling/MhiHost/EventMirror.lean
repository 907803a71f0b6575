import MhiHost.EventRings
import MhiHost.Setup
import MhiHost.Runs

/-! The write pointer of an event ring and its copy in the context. The copy is advanced
from its own value, and the transitions overwrite one or both; the two agree in every
state. -/
namespace MhiHost.EventMirror
open Cyclic (Window)
open EventRings

structure Mirror (w : Window) (ev : MhiEvent) : Prop where
  spans : ev.ring.Over w
  own : ev.offloadEv = false
  linked : ev.rbase = ev.ring.iommuBase
  rp : w.Aligned ev.ring.rp
  wp : w.Aligned ev.ring.wp
  told : ev.ring.ctxtWp = ev.ring.db

section Moves
variable {w : Window} {ev ev' : MhiEvent}

theorem mirrorKept (mirror : Mirror w ev) (same : Kept ev ev') : Mirror w ev' := by
  obtain ⟨cfg,addr,rfl⟩ := same
  exact ⟨mirror.spans.moved ev.ring.rp ev.ring.wp ev.ring.ctxtWp addr,mirror.own,mirror.linked,mirror.rp,mirror.wp,mirror.told⟩

theorem mirrorAdded (mirror : Mirror w ev) : Mirror w (addElements ev) := by
  have base := mirror.spans.base
  have size := mirror.spans.elSize
  have limit := mirror.spans.limit
  have last : ev.ring.base+ev.ring.len-ev.ring.elSize = w.slot (w.count-1) := by
    have counted := w.counted
    have turn : (w.count-1) % w.count = w.count-1 := Nat.mod_eq_of_lt (by omega)
    rw [base,size,limit,Window.limit,Window.slot,turn,Nat.sub_mul,Nat.one_mul,Nat.mul_comm w.size]
    have whole := Nat.le_mul_of_pos_left w.size counted
    omega
  have placed := mirror.spans.placed
  have low : ev.ring.base ≤ ev.ring.base+ev.ring.len-ev.ring.elSize := by
    rw [last,base]
    exact (w.slotAligned (w.count-1)).1
  refine ⟨mirror.spans.moved ev.ring.rp _ _ ev.ring.dbAddr,mirror.own,mirror.linked,mirror.rp,?_,?_⟩
  · show w.Aligned (ev.ring.base+ev.ring.len-ev.ring.elSize)
    rw [last]
    exact w.slotAligned _
  · show ev.ring.iommuBase+ev.ring.len-ev.ring.elSize = ev.ring.iommuBase+(ev.ring.base+ev.ring.len-ev.ring.elSize-ev.ring.base)
    omega

theorem mirrorFilled (op : Rewrite) (mirror : Mirror w ev) : Mirror w (fill op ev) := by
  unfold fill
  split
  · exact mirrorAdded mirror
  · exact mirror

theorem nextAligned {p : Nat} (aligned : w.Aligned p) : w.Aligned (w.next p) := by
  obtain ⟨i,rfl⟩ := w.alignedSlot aligned
  rw [w.nextSlot]
  exact w.slotAligned (i+1)

theorem mirrorRecycled (mirror : Mirror w ev) : Mirror w (recycleEvent ev) := by
  have above : ev.ring.base ≤ ev.ring.wp := by
    rw [mirror.spans.base]
    exact mirror.wp.1
  refine ⟨mirror.spans.moved _ _ _ ev.ring.dbAddr,mirror.own,mirror.linked,?_,?_,Ring.recycleDb above mirror.told⟩
  · show w.Aligned (mhiRecycleEvRingElement ev.ring).rp
    rw [mirror.spans.recycleRp]
    exact nextAligned mirror.rp
  · show w.Aligned (mhiRecycleEvRingElement ev.ring).wp
    rw [mirror.spans.recycleWp]
    exact nextAligned mirror.wp

theorem baseAligned (spans : ev.ring.Over w) : w.Aligned ev.ring.base := by
  have home := w.slotAligned 0
  rw [Window.slot,Nat.zero_mod,Nat.zero_mul,Nat.add_zero,← spans.base] at home
  exact home

theorem mirrorReset (c : Cntrl) (mirror : Mirror w ev) : Mirror w (resetEvent c ev).2 := by
  have home := baseAligned mirror.spans
  have own : ¬ev.offloadEv = true := Bool.eq_false_iff.mp mirror.own
  unfold resetEvent
  rw [if_neg own]
  refine ⟨mirror.spans.moved _ _ _ ev.ring.dbAddr,mirror.own,mirror.linked,home,home,?_⟩
  show ev.rbase = ev.ring.iommuBase+(ev.ring.base-ev.ring.base)
  rw [mirror.linked,Nat.sub_self,Nat.add_zero]

theorem mirrorNames (mirror : Mirror w ev) : mhiToVirtual ev.ring ev.ring.ctxtWp = ev.ring.wp := by
  obtain ⟨i,at_⟩ := w.alignedSlot mirror.wp
  rw [mirror.told,Ring.db,at_]
  exact Ring.toVirtualSlot mirror.spans i

end Moves

/- Everything that writes an event ring, at any time; `elsewhere` is what leaves the rings
alone. The device may put anything into the elements and its own pointer. -/
inductive Step : Host → Host → Prop where
  | ready {h} (reply : ReadyReply) : Step h (mhiReadyStateTransition h reply).1
  | mission {h} (inTime : Bool) (reply : CreateReply) : Step h (missionModeFinish h inTime reply).1
  | m0 {h} : Step h (mhiPmM0Transition h).1
  | disable {h} (target : PmState) (reply : ReadyReply) : Step h (disableFinish h target reply)
  | process {h h'} (kind : ErDataType) (t : MhiTre) (script : Nat → CbScript)
      (ran : processEvent h kind t script = some h') : Step h h'
  | recycle {h} (e : Nat) (ev : MhiEvent) (found : h.events[e]? = some ev) :
      Step h {h with events := h.events.set e (recycleEvent ev)}
  | ringDb {h} (e : Nat) (ev : MhiEvent) (found : h.events[e]? = some ev) :
      Step h {h with cntrl := (mhiRingErDb h.cntrl ev).1, events := h.events.set e (mhiRingErDb h.cntrl ev).2}
  | device {h} (e : Nat) (ev : MhiEvent) (mem : Nat → MhiTre) (ctxtRp : Nat) (found : h.events[e]? = some ev) :
      Step h {h with events := h.events.set e {ev with mem := mem, ctxtRp := ctxtRp}}
  | elsewhere {h h'} (same : h'.events = h.events) : Step h h'

def Mirrored (w : Window) (e : Nat) (h : Host) : Prop := ∃ ev, h.events[e]? = some ev ∧ Mirror w ev

section Runs
variable {w : Window} {e : Nat}

theorem wroteMirrored {op : Rewrite} {h h' : Host} (wrote : Wrote op e h h') (mirrored : Mirrored w e h) : Mirrored w e h' := by
  obtain ⟨ev,found,mirror⟩ := mirrored
  rcases wrote with same | ⟨_,filled⟩
  · obtain ⟨ev',there,kept⟩ := same ev found
    exact ⟨ev',there,mirrorKept mirror kept⟩
  · obtain ⟨ev',there,kept⟩ := filled ev found
    exact ⟨ev',there,mirrorKept (mirrorFilled op mirror) kept⟩

theorem resetMirrored {h : Host} (mirrored : Mirrored w e h) : Mirrored w e (resetRings h) := by
  obtain ⟨ev,found,mirror⟩ := mirrored
  exact ⟨_,resetEventsAt e h.cntrl h.events found,mirrorReset h.cntrl mirror⟩

theorem setMirrored {h : Host} {c : Cntrl} {i : Nat} {old new : MhiEvent} (found : h.events[i]? = some old)
    (keeps : Mirror w old → Mirror w new) (mirrored : Mirrored w e h) :
    Mirrored w e {h with cntrl := c, events := h.events.set i new} := by
  obtain ⟨ev,there,mirror⟩ := mirrored
  rcases Decidable.eq_or_ne i e with rfl | other
  · rw [found] at there
    cases there
    exact ⟨new,setHere found,keeps mirror⟩
  · exact ⟨ev,(List.getElem?_set_ne other).trans there,mirror⟩

theorem stepMirrored {h h' : Host} (step : Step h h') (mirrored : Mirrored w e h) : Mirrored w e h' := by
  cases step with
  | ready reply => exact wroteMirrored (readyWrote h reply e) mirrored
  | mission inTime reply => exact wroteMirrored (missionWrote h inTime reply e) mirrored
  | m0 => exact wroteMirrored (m0Wrote h e) mirrored
  | disable target reply =>
    have reset := resetMirrored mirrored
    unfold disableFinish
    dsimp only
    split
    · exact wroteMirrored (readyWrote (resetRings h) reply e) reset
    · exact reset
  | process kind t script ran =>
    rcases processEvents ran with ⟨_,rfl⟩ | same
    · exact wroteMirrored (m0Wrote h e) mirrored
    · unfold Mirrored
      rw [same]
      exact mirrored
  | recycle i ev found => exact setMirrored found mirrorRecycled mirrored
  | ringDb i ev found => exact setMirrored found (fun mirror => mirrorKept mirror (ringKept h.cntrl ev)) mirrored
  | device i ev mem ctxtRp found =>
    exact setMirrored found (fun m => ⟨m.spans,m.own,m.linked,m.rp,m.wp,m.told⟩) mirrored
  | elsewhere same =>
    unfold Mirrored
    rw [same]
    exact mirrored

end Runs

theorem initMirrored {w : Window} {h : Host} {lay : Layout} {e : Nat} {ev : MhiEvent} (found : h.events[e]? = some ev)
    (own : ev.offloadEv = false) (laid : (layRing ev.ring (lay.event e).host (lay.event e).bus).Over w) :
    Mirrored w e (mhiInitDevCtxt h lay) := by
  have there : (mhiInitDevCtxt h lay).events[e]? = some (initEvent lay e ev) := by
    show (h.events.mapIdx (initEvent lay))[e]? = _
    rw [List.getElem?_mapIdx,found]
    rfl
  refine ⟨initEvent lay e ev,there,?_⟩
  have host : ¬ev.offloadEv = true := Bool.eq_false_iff.mp own
  unfold initEvent
  rw [if_neg host]
  have home : w.Aligned (lay.event e).host :=
    @baseAligned w {ev with ring := layRing ev.ring (lay.event e).host (lay.event e).bus} laid
  refine ⟨laid.moved _ _ _ _,own,rfl,home,home,?_⟩
  show (lay.event e).bus = (lay.event e).bus+((lay.event e).host-(lay.event e).host)
  omega

theorem contextMirrors {w : Window} {h s : Host} {lay : Layout} {e : Nat} {ev : MhiEvent} (found : h.events[e]? = some ev)
    (own : ev.offloadEv = false) (laid : (layRing ev.ring (lay.event e).host (lay.event e).bus).Over w)
    (run : Relation.ReflTransGen Step (mhiInitDevCtxt h lay) s) : ∃ now, s.events[e]? = some now ∧ now.ring.Over w ∧
      w.Aligned now.ring.wp ∧ w.Aligned now.ring.rp ∧
      now.ring.ctxtWp-now.ring.iommuBase = now.ring.wp-now.ring.base ∧ now.ring.iommuBase ≤ now.ring.ctxtWp ∧
      mhiToVirtual now.ring now.ring.ctxtWp = now.ring.wp := by
  obtain ⟨now,there,mirror⟩ := @Runs.keeps _ Step _ s (Mirrored w e) (fun _ _ => stepMirrored) run (initMirrored found own laid)
  have told : now.ring.ctxtWp = now.ring.iommuBase+(now.ring.wp-now.ring.base) := mirror.told
  exact ⟨now,there,mirror.spans,mirror.wp,mirror.rp,by omega,by omega,mirrorNames mirror⟩

theorem contextMirrorsSample : ∃ now, (disableFinish (mhiPmM0Transition Sample.ready).1 .shutdownProcess
      ⟨true,some 0x400,some 0x500⟩).events[1]? = some now ∧ now.ring.Over (treWindow 0x2100 4 fourElements) ∧
      (treWindow 0x2100 4 fourElements).Aligned now.ring.wp ∧ (treWindow 0x2100 4 fourElements).Aligned now.ring.rp ∧
      now.ring.ctxtWp-now.ring.iommuBase = now.ring.wp-now.ring.base ∧ now.ring.iommuBase ≤ now.ring.ctxtWp ∧
      mhiToVirtual now.ring now.ring.ctxtWp = now.ring.wp := by
  have run : Relation.ReflTransGen Step (mhiInitDevCtxt Sample.host Sample.layout)
      (disableFinish (mhiPmM0Transition Sample.ready).1 .shutdownProcess ⟨true,some 0x400,some 0x500⟩) :=
    (Relation.ReflTransGen.single .m0).tail (.disable .shutdownProcess ⟨true,some 0x400,some 0x500⟩)
  exact @contextMirrors _ _ _ _ 1 (Sample.event true) rfl rfl ⟨rfl,rfl,rfl,rfl,by decide,by decide,by decide⟩ run

end MhiHost.EventMirror
