import MhiHost.EventRings
import MhiHost.Setup
import MhiHost.Runs

/-! Event-ring credit. A ring is either in its reset configuration or lent: the host has
given back `h` elements so far, the device has posted all of `posted`, and the context's
write pointer stands one element behind the host's read pointer. -/
namespace MhiHost.Credit
open Cyclic (Window)
open EventRings

structure Ours (w : Window) (ev : MhiEvent) : Prop where
  spans : ev.ring.Over w
  own : ev.offloadEv = false
  linked : ev.rbase = ev.ring.iommuBase

structure Fresh (w : Window) (d : Desk) : Prop where
  ours : Ours w d.ev
  rp : d.ev.ring.rp = d.ev.ring.base
  wp : d.ev.ring.wp = d.ev.ring.base
  ctxtWp : d.ev.ring.ctxtWp = d.ev.ring.iommuBase
  ctxtRp : d.ev.ctxtRp = d.ev.ring.iommuBase
  posted : d.posted = []
  examined : d.examined = []
  pass : ∀ p, d.pass = some p → p.devRp = d.ev.ring.base ∧ p.seen = 0 ∧ p.handled = false

def held (pass : Option Pass) : Nat := (pass.map (fun p => p.handled.toNat)).getD 0

structure Lent (w : Window) (d : Desk) (h : Nat) : Prop where
  ours : Ours w d.ev
  rp : d.ev.ring.rp = w.slot h
  wp : d.ev.ring.wp = w.slot (h + w.count - 1)
  ctxtWp : d.ev.ring.ctxtWp = d.ev.ring.db
  ctxtRp : d.ev.ctxtRp = d.ev.ring.iommuBase + (w.slot d.posted.length - w.base)
  ordered : h ≤ d.posted.length
  room : d.posted.length < h + w.count
  contents : w.view d.ev.mem h d.posted.length = d.posted.drop h
  examined : d.examined = d.posted.take (h + held d.pass)
  pass : ∀ p, d.pass = some p → p.devRp = w.slot p.seen ∧ h ≤ p.seen ∧ p.seen ≤ d.posted.length ∧ (p.handled = true → h < p.seen)

def Standing (w : Window) (d : Desk) : Prop := Fresh w d ∨ ∃ h, Lent w d h

section Window
variable (w : Window)

theorem slotZero : w.slot 0 = w.base := by simp [Window.slot]

theorem slotLast {h : Nat} (atBase : w.slot h = w.base) : w.slot (h + w.count - 1) + w.size = w.limit := by
  have counted := w.counted
  have sized := w.sized
  have bound := w.slotBound (h + w.count - 1)
  have low := (w.slotAligned (h + w.count - 1)).1
  have next := w.nextSlot (h + w.count - 1)
  rw [show h + w.count - 1 + 1 = h + w.count by omega, w.slotTurn, atBase, Window.next] at next
  split at next <;> omega

end Window

theorem oursKept {w : Window} {ev ev' : MhiEvent} (ours : Ours w ev) (same : Kept ev ev') : Ours w ev' := by
  obtain ⟨cfg,addr,rfl⟩ := same
  exact ⟨ours.spans.moved ev.ring.rp ev.ring.wp ev.ring.ctxtWp addr,ours.own,ours.linked⟩

theorem freshKept {w : Window} {ev ev' : MhiEvent} {p posted examined} (fresh : Fresh w ⟨ev,p,posted,examined⟩)
    (same : Kept ev ev') :
    Fresh w ⟨ev',p,posted,examined⟩ := by
  have ours := oursKept fresh.ours same
  obtain ⟨cfg,addr,rfl⟩ := same
  exact ⟨ours,fresh.rp,fresh.wp,fresh.ctxtWp,fresh.ctxtRp,fresh.posted,fresh.examined,fresh.pass⟩

theorem lentKept {w : Window} {ev ev' : MhiEvent} {p posted examined h} (lent : Lent w ⟨ev,p,posted,examined⟩ h)
    (same : Kept ev ev') :
    Lent w ⟨ev',p,posted,examined⟩ h := by
  have ours := oursKept lent.ours same
  obtain ⟨cfg,addr,rfl⟩ := same
  exact ⟨ours,lent.rp,lent.wp,lent.ctxtWp,lent.ctxtRp,lent.ordered,lent.room,lent.contents,lent.examined,lent.pass⟩

section Moves
variable {w : Window} {ev ev' : MhiEvent} {pass : Option Pass} {posted examined : List MhiTre}

theorem addedWp (ours : Ours w ev) {h : Nat} (atBase : w.slot h = w.base) :
    (addElements ev).ring.wp = w.slot (h + w.count - 1) ∧ (addElements ev).ring.ctxtWp = (addElements ev).ring.db := by
  have last := slotLast w atBase
  have limit := ours.spans.limit
  have base := ours.spans.base
  have size := ours.spans.elSize
  have low := (w.slotAligned (h + w.count - 1)).1
  simp only [addElements,Ring.db]
  omega

theorem oursAdded (ours : Ours w ev) : Ours w (addElements ev) :=
  ⟨ours.spans.moved ev.ring.rp _ _ ev.ring.dbAddr,ours.own,ours.linked⟩

theorem freshAdded (fresh : Fresh w ⟨ev,pass,posted,examined⟩) : Lent w ⟨addElements ev,pass,posted,examined⟩ 0 := by
  obtain ⟨wp,ctxtWp⟩ := addedWp fresh.ours (slotZero w)
  have base : ev.ring.base = w.base := fresh.ours.spans.base
  have none : posted = [] := fresh.posted
  have unread : examined = [] := fresh.examined
  subst none unread
  have turn : ∀ p, pass = some p → p.devRp = w.slot p.seen ∧ 0 ≤ p.seen ∧ p.seen ≤ 0 ∧ (p.handled = true → 0 < p.seen) := by
    intro p busy
    obtain ⟨devRp,seen,idle⟩ := fresh.pass p busy
    refine ⟨?_,Nat.zero_le _,Nat.le_of_eq seen,fun handled => by simp [idle] at handled⟩
    rw [devRp, seen, slotZero]
    exact base
  refine ⟨oursAdded fresh.ours,?_,wp,ctxtWp,?_,Nat.le_refl 0,by simpa using w.counted,by simp [Window.view],by simp,turn⟩
  · rw [slotZero]
    exact fresh.rp.trans base
  · have same : ev.ctxtRp = ev.ring.iommuBase := fresh.ctxtRp
    simp only [addElements,List.length_nil,slotZero,same]
    omega

theorem lentAdded {h : Nat} (lent : Lent w ⟨ev,pass,posted,examined⟩ h) (atBase : ev.ring.rp = ev.ring.base) :
    Lent w ⟨addElements ev,pass,posted,examined⟩ h := by
  have home : w.slot h = w.base := lent.rp.symm.trans (atBase.trans lent.ours.spans.base)
  obtain ⟨wp,ctxtWp⟩ := addedWp lent.ours home
  exact ⟨oursAdded lent.ours,lent.rp,wp,ctxtWp,lent.ctxtRp,lent.ordered,lent.room,lent.contents,lent.examined,lent.pass⟩

theorem touchStanding (touched : Touch ev ev') (stands : Standing w ⟨ev,pass,posted,examined⟩) :
    Standing w ⟨ev',pass,posted,examined⟩ := by
  cases touched with
  | kept same =>
    rcases stands with fresh | ⟨h,lent⟩
    · exact .inl (freshKept fresh same)
    · exact .inr ⟨h,lentKept lent same⟩
  | added atBase same =>
    rcases stands with fresh | ⟨h,lent⟩
    · exact .inr ⟨0,lentKept (freshAdded fresh) same⟩
    · exact .inr ⟨h,lentKept (lentAdded lent atBase) same⟩

theorem busCell (ours : Ours w ev) (k : Nat) :
    mhiToVirtual ev.ring (ev.ring.iommuBase + (w.slot k - w.base)) = w.slot k := by
  rw [← ours.spans.base]
  exact Ring.toVirtualSlot ours.spans k

theorem busNext (ours : Ours w ev) (k : Nat) :
    (if ev.ring.iommuBase + ev.ring.len ≤ ev.ring.iommuBase + (w.slot k - w.base) + ev.ring.elSize then ev.ring.iommuBase
      else ev.ring.iommuBase + (w.slot k - w.base) + ev.ring.elSize) = ev.ring.iommuBase + (w.slot (k + 1) - w.base) := by
  have low := (w.slotAligned k).1
  have limit := ours.spans.limit
  have size := ours.spans.elSize
  have next := w.nextSlot k
  unfold Window.next at next
  split at next
  · rw [if_pos (by omega), ← next]
    omega
  · rw [if_neg (by omega), ← next]
    omega

theorem Lent.pointer {h : Nat} (lent : Lent w ⟨ev,pass,posted,examined⟩ h) : readPointer ev = w.slot posted.length := by
  have there : ev.ctxtRp = ev.ring.iommuBase + (w.slot posted.length - w.base) := lent.ctxtRp
  rw [readPointer, there]
  exact busCell lent.ours _

theorem Lent.limit {h : Nat} (lent : Lent w ⟨ev,pass,posted,examined⟩ h) :
    ev.ring.ctxtWp = ev.ring.iommuBase + (w.slot (h + w.count - 1) - w.base) := by
  have there : ev.ring.ctxtWp = ev.ring.db := lent.ctxtWp
  have wp : ev.ring.wp = w.slot (h + w.count - 1) := lent.wp
  have base : ev.ring.base = w.base := lent.ours.spans.base
  rw [there, Ring.db, wp, base]

theorem Lent.inside {h : Nat} (lent : Lent w ⟨ev,pass,posted,examined⟩ h) : h + held pass ≤ posted.length := by
  have ordered : h ≤ posted.length := lent.ordered
  cases pass with
  | none => exact ordered
  | some p =>
    obtain ⟨_,_,seen,more⟩ := lent.pass p rfl
    have bound : p.seen ≤ posted.length := seen
    cases handled : p.handled with
    | false => simpa [held,handled] using ordered
    | true =>
      have before := more handled
      simp [held,handled]
      omega

theorem lentPost {h : Nat} (lent : Lent w ⟨ev,pass,posted,examined⟩ h) (t : MhiTre) (credit : ev.ctxtRp ≠ ev.ring.ctxtWp) :
    Lent w ⟨devicePost ev t,pass,posted ++ [t],examined⟩ h := by
  have ordered : h ≤ posted.length := lent.ordered
  have room : posted.length < h + w.count := lent.room
  have there : ev.ctxtRp = ev.ring.iommuBase + (w.slot posted.length - w.base) := lent.ctxtRp
  have contents : w.view ev.mem h posted.length = posted.drop h := lent.contents
  have read : examined = posted.take (h + held pass) := lent.examined
  have space : posted.length + 1 < h + w.count := by
    have apart : posted.length ≠ h + w.count - 1 := by
      intro same
      exact credit (by rw [there, lent.limit, same])
    omega
  have inside := lent.inside
  refine ⟨⟨lent.ours.spans,lent.ours.own,lent.ours.linked⟩,lent.rp,lent.wp,lent.ctxtWp,?_,?_,?_,?_,?_,?_⟩
  · simp only [devicePost,there,List.length_append,List.length_cons,List.length_nil]
    exact busNext lent.ours _
  · simp
    omega
  · simpa using space
  · simp only [devicePost,List.length_append,List.length_cons,List.length_nil]
    rw [there, busCell lent.ours, w.viewWrite _ _ ordered room, contents, List.drop_append_of_le_length ordered]
  · rw [List.take_append_of_le_length inside]
    exact read
  · intro p busy
    obtain ⟨devRp,low,seen,more⟩ := lent.pass p busy
    refine ⟨devRp,low,?_,more⟩
    have bound : p.seen ≤ posted.length := seen
    simp
    omega

theorem lentEnter {h : Nat} (lent : Lent w ⟨ev,none,posted,examined⟩ h) (quota : Nat) :
    Lent w ⟨ev,some ⟨readPointer ev,posted.length,quota,false⟩,posted,examined⟩ h := by
  refine ⟨lent.ours,lent.rp,lent.wp,lent.ctxtWp,lent.ctxtRp,lent.ordered,lent.room,lent.contents,lent.examined,?_⟩
  intro p same
  cases same
  exact ⟨lent.pointer,lent.ordered,Nat.le_refl _,fun handled => by simp at handled⟩

theorem lentExamine {h : Nat} {p : Pass} (lent : Lent w ⟨ev,some p,posted,examined⟩ h) (quota : Nat) (fresh : p.handled = false)
    (more : p.devRp ≠ ev.ring.rp) :
    Lent w ⟨ev,some {p with quota := quota, handled := true},posted,examined ++ [ev.mem ev.ring.rp]⟩ h := by
  obtain ⟨devRp,low,seen,_⟩ := lent.pass p rfl
  have rp : ev.ring.rp = w.slot h := lent.rp
  have bound : p.seen ≤ posted.length := seen
  have ahead : h < p.seen := by
    have apart : p.seen ≠ h := by
      intro same
      exact more (by rw [devRp, rp, same])
    omega
  have read : examined = posted.take (h + held (some p)) := lent.examined
  have contents : w.view ev.mem h posted.length = posted.drop h := lent.contents
  have oldest : posted[h]? = some (ev.mem (w.slot h)) := by
    have front := congrArg List.head? contents
    rw [w.viewPop ev.mem (by omega)] at front
    simpa using front.symm
  refine ⟨lent.ours,lent.rp,lent.wp,lent.ctxtWp,lent.ctxtRp,lent.ordered,lent.room,lent.contents,?_,?_⟩
  · simp only [held,fresh,Option.map_some,Option.getD_some,Bool.toNat_false,Bool.toNat_true,Nat.add_zero] at read ⊢
    rw [read, rp, List.take_add_one, oldest]
    rfl
  · intro q same
    cases same
    exact ⟨devRp,low,seen,fun _ => ahead⟩

theorem lentRecycle {h : Nat} {p : Pass} (lent : Lent w ⟨ev,some p,posted,examined⟩ h) (handled : p.handled = true) :
    Lent w ⟨recycleEvent ev,some {p with devRp := readPointer (recycleEvent ev), seen := posted.length, handled := false},
      posted,examined⟩ (h + 1) := by
  obtain ⟨_,_,seen,more⟩ := lent.pass p rfl
  have ahead : h < posted.length := Nat.lt_of_lt_of_le (more handled) seen
  have room : posted.length < h + w.count := lent.room
  have rp : ev.ring.rp = w.slot h := lent.rp
  have wp : ev.ring.wp = w.slot (h + w.count - 1) := lent.wp
  have contents : w.view ev.mem h posted.length = posted.drop h := lent.contents
  have read : examined = posted.take (h + held (some p)) := lent.examined
  have turn : h + w.count - 1 + 1 = h + 1 + w.count - 1 := by omega
  have base : ev.ring.base = w.base := lent.ours.spans.base
  have above : ev.ring.base ≤ ev.ring.wp := by
    rw [wp, base]
    exact (w.slotAligned _).1
  have ours : Ours w (recycleEvent ev) := ⟨lent.ours.spans.moved _ _ _ ev.ring.dbAddr,lent.ours.own,lent.ours.linked⟩
  refine ⟨ours,?_,?_,Ring.recycleDb above lent.ctxtWp,lent.ctxtRp,ahead,?_,?_,?_,?_⟩
  · exact lent.ours.spans.recycleRp.trans (by rw [rp, w.nextSlot])
  · exact lent.ours.spans.recycleWp.trans (by rw [wp, w.nextSlot, turn])
  · show posted.length < h + 1 + w.count
    omega
  · have popped := contents
    rw [w.viewPop ev.mem ahead, List.drop_eq_getElem_cons ahead] at popped
    exact (List.cons.inj popped).2
  · rw [read]
    simp [held,handled]
  · intro q same
    cases same
    have pointer : readPointer (recycleEvent ev) = w.slot posted.length := lent.pointer
    exact ⟨pointer,ahead,Nat.le_refl _,fun handled => by simp at handled⟩

theorem resetFresh (ours : Ours w ev) (c : Cntrl) : Fresh w ⟨(resetEvent c ev).2,none,[],[]⟩ := by
  unfold resetEvent
  rw [if_neg (by simp [ours.own])]
  refine ⟨⟨ours.spans.moved _ _ _ ev.ring.dbAddr,ours.own,ours.linked⟩,rfl,rfl,ours.linked,ours.linked,rfl,rfl,?_⟩
  intro p busy
  simp at busy

theorem Standing.ours {d : Desk} (stands : Standing w d) : Ours w d.ev := by
  rcases stands with fresh | ⟨_,lent⟩
  · exact fresh.ours
  · exact lent.ours

end Moves

theorem moveStanding {resets : Prop} {w : Window} {d d' : Desk} (moved : DeskMove resets d d') (stands : Standing w d) :
    Standing w d' := by
  cases moved with
  | touch touched => exact touchStanding touched stands
  | post t credit =>
    rcases stands with fresh | ⟨h,lent⟩
    · exact absurd (fresh.ctxtRp.trans fresh.ctxtWp.symm) credit
    · exact .inr ⟨h,lentPost lent t credit⟩
  | @enter ev posted examined quota =>
    rcases stands with fresh | ⟨h,lent⟩
    · have none : posted = [] := fresh.posted
      subst none
      refine .inl ⟨fresh.ours,fresh.rp,fresh.wp,fresh.ctxtWp,fresh.ctxtRp,rfl,fresh.examined,fun p same => ?_⟩
      cases same
      have pointer := busCell fresh.ours 0
      rw [slotZero, Nat.sub_self, Nat.add_zero, ← fresh.ctxtRp] at pointer
      exact ⟨pointer.trans fresh.ours.spans.base.symm,rfl,rfl⟩
    · exact .inr ⟨h,lentEnter lent quota⟩
  | @examine ev ev' p posted examined quota idle more touched =>
    rcases stands with fresh | ⟨h,lent⟩
    · exact absurd ((fresh.pass p rfl).1.trans fresh.rp.symm) more
    · exact touchStanding touched (.inr ⟨h,lentExamine lent quota idle more⟩)
  | @recycle ev p posted examined handled =>
    rcases stands with fresh | ⟨h,lent⟩
    · have idle := (fresh.pass p rfl).2.2
      simp [handled] at idle
    · exact .inr ⟨h + 1,lentRecycle lent handled⟩
  | @leave ev ev' p posted examined idle same =>
    rcases stands with fresh | ⟨h,lent⟩
    · have left : Fresh w ⟨ev,none,posted,examined⟩ := ⟨fresh.ours,fresh.rp,fresh.wp,fresh.ctxtWp,fresh.ctxtRp,
        fresh.posted,fresh.examined,fun q busy => by simp at busy⟩
      exact .inl (freshKept left same)
    · have read : examined = posted.take (h + held (some p)) := lent.examined
      have left : Lent w ⟨ev,none,posted,examined⟩ h := ⟨lent.ours,lent.rp,lent.wp,lent.ctxtWp,lent.ctxtRp,lent.ordered,
        lent.room,lent.contents,by simpa [held,idle] using read,fun q busy => by simp at busy⟩
      exact .inr ⟨h,lentKept left same⟩
  | reset c allowed => exact .inl (resetFresh stands.ours c)

def StandsAt (w : Window) (e : Nat) (s : Service) : Prop := ∃ d, desk s e = some d ∧ Standing w d

theorem stepStanding {may : Rewrite → Host → Prop} {w : Window} {e : Nat} {s s' : Service} (step : ServiceStep may s s')
    (atBase : ∀ op, may op s.host → AtBase e op s.host) (stands : StandsAt w e s) : StandsAt w e s' := by
  obtain ⟨d,here,stands⟩ := stands
  obtain ⟨d',there,moved⟩ := stepMove step atBase here
  exact ⟨d',there,moveStanding moved stands⟩

theorem initFresh {w : Window} {lay : Layout} {e : Nat} {ev : MhiEvent} (own : ev.offloadEv = false)
    (laid : (layRing ev.ring (lay.event e).host (lay.event e).bus).Over w) : Fresh w ⟨initEvent lay e ev,none,[],[]⟩ := by
  unfold initEvent
  rw [if_neg (by simp [own])]
  refine ⟨⟨laid.moved _ _ _ ev.ring.dbAddr,own,rfl⟩,rfl,rfl,rfl,rfl,rfl,rfl,?_⟩
  intro p busy
  simp at busy

theorem initStands {w : Window} {h : Host} {lay : Layout} {e : Nat} {ev : MhiEvent} (found : h.events[e]? = some ev)
    (own : ev.offloadEv = false) (laid : (layRing ev.ring (lay.event e).host (lay.event e).bus).Over w) :
    StandsAt w e (.start (mhiInitDevCtxt h lay)) := by
  have there : (mhiInitDevCtxt h lay).events[e]? = some (initEvent lay e ev) := by simp [mhiInitDevCtxt,found]
  exact ⟨⟨initEvent lay e ev,none,[],[]⟩,by simp [desk,Service.start,there],.inl (initFresh own laid)⟩

/- The device is told the host's write pointer, and that is the reset configuration's or
one element behind the read pointer. -/
def Credited (r : Ring) : Prop := r.ctxtWp = r.db ∧ (r.rp = r.base ∧ r.wp = r.base ∨ mhiIsRingFull r = true)
instance (r) : Decidable (Credited r) := by unfold Credited; infer_instance

theorem standingCredited {w : Window} {d : Desk} (stands : Standing w d) : Credited d.ev.ring := by
  rcases stands with fresh | ⟨h,lent⟩
  · refine ⟨?_,.inl ⟨fresh.rp,fresh.wp⟩⟩
    rw [fresh.ctxtWp, Ring.db, fresh.wp]
    omega
  · have counted := w.counted
    refine ⟨lent.ctxtWp,.inr ?_⟩
    have holds : d.ev.ring.Holds w h (h + w.count - 1) := ⟨lent.ours.spans,lent.rp,lent.wp,by omega,by omega⟩
    exact (Ring.fullIff holds).mpr (by omega)

def InCredit (may : Rewrite → Host → Prop) (h : Host) (lay : Layout) (e : Nat) : Prop :=
  ∀ s, Relation.ReflTransGen (ServiceStep may) (.start (mhiInitDevCtxt h lay)) s →
    ∃ now, s.host.events[e]? = some now ∧ Credited now.ring

theorem eventRingCredit {w : Window} {h : Host} {lay : Layout} {e : Nat} {ev : MhiEvent} (found : h.events[e]? = some ev)
    (own : ev.offloadEv = false) (laid : (layRing ev.ring (lay.event e).host (lay.event e).bus).Over w) :
    InCredit (AtBase e) h lay e := by
  intro s run
  obtain ⟨d,here,stands⟩ := Runs.keeps (I := StandsAt w e)
    (fun _ _ step => stepStanding step (fun _ allowed => allowed)) run (initStands found own laid)
  exact ⟨d.ev,(deskFound here).1,standingCredited stands⟩

namespace Sample
open MhiHost.Sample (ready event)

def window : Window := treWindow 0x2100 4 fourElements
def blank : MhiTre := ⟨0,0,0⟩
def ring (e : Nat) (s : Service) : MhiEvent := s.host.events.getD e (event true)

def m0 (s : Service) : Service := s.withHost (mhiPmM0Transition s.host).1
def post (e : Nat) (s : Service) : Service := (s.setEvent e (devicePost (ring e s) blank)).post e blank
def enter (e : Nat) (s : Service) : Service := s.setPass e (some ⟨readPointer (ring e s),(s.posted e).length,0,false⟩)
def examine (e : Nat) (s : Service) : Service :=
  (s.examine e blank).setPass e ((s.pass e).map (fun p => {p with handled := true}))
def recycle (e : Nat) (s : Service) : Service := (s.setEvent e (recycleEvent (ring e s))).setPass e
  (some ⟨readPointer (recycleEvent (ring e s)),(s.posted e).length,0,false⟩)
def doze (s : Service) : Service := s.withHost {s.host with cntrl := {s.host.cntrl with pmState := .m2}}

def lent : Service := m0 (.start ready)
def queued : Service := post 1 lent
def given : Service := recycle 1 (examine 1 (enter 1 queued))
def refilled : Service := m0 (doze given)
def script : Nat → CbScript := fun _ => ⟨[],⟨0,0,false⟩⟩

theorem runs {may : Rewrite → Host → Prop} (allowed : may .m0 ready) :
    Relation.ReflTransGen (ServiceStep may) (.start ready) given := by
  have fills : ServiceStep may (.start ready) lent := .m0 allowed
  have posts : ServiceStep may lent queued := .post 1 (ring 1 lent) blank rfl rfl (by decide)
  have enters : ServiceStep may queued (enter 1 queued) := .enter 1 (ring 1 queued) 0 rfl rfl rfl rfl
  have examines : ServiceStep may (enter 1 queued) (examine 1 (enter 1 queued)) :=
    .examine 1 (ring 1 queued) ⟨0x2110,1,0,false⟩ script rfl rfl rfl rfl (fun m0 => absurd m0 (by decide)) rfl
  have recycles : ServiceStep may (examine 1 (enter 1 queued)) given := .recycle 1 (ring 1 queued) ⟨0x2110,1,0,true⟩ rfl rfl rfl
  exact ((((Relation.ReflTransGen.single fills).tail posts).tail enters).tail examines).tail recycles

theorem laid : (layRing (event true).ring (MhiHost.Sample.layout.event 1).host (MhiHost.Sample.layout.event 1).bus).Over window :=
  ⟨rfl,rfl,rfl,rfl,by decide,by decide,by decide⟩

end Sample

theorem eventRingCreditSample : ∃ now, Sample.given.host.events[1]? = some now ∧ Credited now.ring := by
  have base : AtBase 1 .m0 MhiHost.Sample.ready := by
    intro _ ev found _
    cases found
    rfl
  exact eventRingCredit (h := MhiHost.Sample.host) (e := 1) rfl rfl Sample.laid Sample.given (Sample.runs base)

/- Elements are added while the host reads in mid-ring: the device is granted less than
the host has free, and the write pointer is no longer right behind the read pointer. -/
theorem creditLostOnM0 : ¬InCredit (fun _ _ => True) MhiHost.Sample.host MhiHost.Sample.layout 1 := by
  intro credit
  have doze : ServiceStep (fun _ _ => True) Sample.given (Sample.doze Sample.given) := .controller _
  have refill : ServiceStep (fun _ _ => True) (Sample.doze Sample.given) Sample.refilled := .m0 trivial
  have run := ((@Sample.runs (fun _ _ => True) trivial).tail doze).tail refill
  obtain ⟨now,found,credited⟩ := credit Sample.refilled run
  have same : now = Sample.ring 1 Sample.refilled := by
    have there : Sample.refilled.host.events[1]? = some (Sample.ring 1 Sample.refilled) := rfl
    exact Option.some.inj (found.symm.trans there)
  subst same
  exact absurd credited (by decide)

end MhiHost.Credit
