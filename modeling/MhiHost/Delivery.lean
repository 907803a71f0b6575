import MhiHost.Credit

/-! Delivery on software event rings. Between two READY transitions only the recycling
gives elements to the device, so a lent ring stays lent, and what the host has examined is
what the device has posted, up to the elements still unread in the ring. -/
namespace MhiHost.Delivery
open Cyclic (Window)
open EventRings Credit

/- The handlers that run between a READY transition and the next READY or disable. -/
def Between (op : Rewrite) (_ : Host) : Prop := op = .mission ∨ op = .m0

theorem keptKind {ev ev' : MhiEvent} (same : Kept ev ev') : ev'.hwRing = ev.hwRing := by
  obtain ⟨_,_,rfl⟩ := same
  rfl

theorem touchKind {ev ev' : MhiEvent} (touched : Touch ev ev') : ev'.hwRing = ev.hwRing := by
  cases touched with
  | kept same => exact keptKind same
  | added atBase same => exact (keptKind same).trans rfl

theorem moveKind {resets : Prop} {d d' : Desk} (moved : DeskMove resets d d') : d'.ev.hwRing = d.ev.hwRing := by
  cases moved with
  | touch touched => exact touchKind touched
  | examine quota fresh more touched => exact touchKind touched
  | leave fresh same => exact keptKind same
  | reset c allowed =>
    simp only [resetEvent]
    split <;> rfl
  | _ => rfl

def SoftAt (w : Window) (e : Nat) (s : Service) : Prop := ∃ d, desk s e = some d ∧ Standing w d ∧ d.ev.hwRing = false

theorem softAtBase {e : Nat} {h : Host} {ev : MhiEvent} (found : h.events[e]? = some ev) (soft : ev.hwRing = false) (op : Rewrite)
    (allowed : Between op h) : AtBase e op h := by
  intro _ ev' found' chosen
  cases found'.symm.trans found
  rcases allowed with rfl | rfl <;> simp [selects,soft] at chosen

theorem softMove {e : Nat} {s s' : Service} {d : Desk} (step : ServiceStep Between s s') (here : desk s e = some d)
    (soft : d.ev.hwRing = false) : ∃ d', desk s' e = some d' ∧ DeskMove False d d' := by
  obtain ⟨d',there,moved⟩ := stepMove step (softAtBase (deskFound here).1 soft) here
  exact ⟨d',there,moved.mono (fun allowed => by simp [Between] at allowed)⟩

theorem stepSoft {w : Window} {e : Nat} {s s' : Service} (step : ServiceStep Between s s') (soft : SoftAt w e s) :
    SoftAt w e s' := by
  obtain ⟨d,here,stands,kind⟩ := soft
  obtain ⟨d',there,moved⟩ := softMove step here kind
  exact ⟨d',there,moveStanding moved stands,(moveKind moved).trans kind⟩

structure Later (first : List MhiTre) (d : Desk) : Prop where
  posted : first <+: d.posted
  seen : ∀ p, d.pass = some p → first.length ≤ p.seen

theorem moveLater {first : List MhiTre} {d d' : Desk} (moved : DeskMove False d d') (later : Later first d) : Later first d' := by
  cases moved with
  | touch touched => exact ⟨later.posted,later.seen⟩
  | post t credit => exact ⟨later.posted.trans (List.prefix_append _ _),later.seen⟩
  | enter quota =>
    refine ⟨later.posted,fun p same => ?_⟩
    cases same
    exact later.posted.length_le
  | @examine ev ev' p posted examined quota fresh more touched =>
    refine ⟨later.posted,fun q same => ?_⟩
    cases same
    exact later.seen p rfl
  | recycle handled =>
    refine ⟨later.posted,fun p same => ?_⟩
    cases same
    exact later.posted.length_le
  | leave fresh same => exact ⟨later.posted,fun p busy => by simp at busy⟩
  | reset c allowed => exact allowed.elim

structure AtRest (w : Window) (ev : MhiEvent) : Prop where
  ours : Ours w ev
  rp : ev.ring.rp = ev.ring.base
  ctxtRp : ev.ctxtRp = ev.ring.iommuBase

theorem freshAtRest {w : Window} {d : Desk} (fresh : Fresh w d) : AtRest w d.ev := ⟨fresh.ours,fresh.rp,fresh.ctxtRp⟩

theorem initAtRest {w : Window} {lay : Layout} {e : Nat} {ev : MhiEvent} (own : ev.offloadEv = false)
    (laid : (layRing ev.ring (lay.event e).host (lay.event e).bus).Over w) : AtRest w (initEvent lay e ev) :=
  freshAtRest (initFresh own laid)

theorem restAdded {w : Window} {ev : MhiEvent} (rest : AtRest w ev) : Lent w ⟨addElements ev,none,[],[]⟩ 0 := by
  let empty : MhiEvent := {ev with ring := {ev.ring with wp := ev.ring.base, ctxtWp := ev.ring.iommuBase}}
  have ours : Ours w empty := ⟨rest.ours.spans.moved _ _ _ ev.ring.dbAddr,rest.ours.own,rest.ours.linked⟩
  have fresh : Fresh w ⟨empty,none,[],[]⟩ := ⟨ours,rest.rp,rfl,rfl,rest.ctxtRp,rfl,rfl,fun p busy => by simp at busy⟩
  have lent : Lent w ⟨addElements empty,none,[],[]⟩ 0 := freshAdded fresh
  exact lent

theorem readyLent {w : Window} {h : Host} {reply : ReadyReply} {e : Nat} {ev : MhiEvent} (found : h.events[e]? = some ev)
    (rest : AtRest w ev) (soft : ev.hwRing = false) (ready : (mhiReadyStateTransition h reply).2 = none) :
    SoftAt w e (.start (mhiReadyStateTransition h reply).1) := by
  rcases readyFilled h reply e with ⟨failed,_⟩ | ⟨_,filled⟩
  · exact absurd ready failed
  · obtain ⟨ev',there,same⟩ := filled ev found
    have chosen : fill .ready ev = addElements ev := by simp [fill,selects,soft,rest.ours.own]
    rw [chosen] at same
    exact ⟨⟨ev',none,[],[]⟩,by simp [desk,Service.start,there],.inr ⟨0,lentKept (restAdded rest) same⟩,(keptKind same).trans soft⟩

section Conclusions
variable {w : Window} {d : Desk}

theorem standingOrder (stands : Standing w d) : d.examined <+: d.posted := by
  rcases stands with fresh | ⟨h,lent⟩
  · rw [fresh.examined]
    exact List.nil_prefix
  · rw [lent.examined]
    exact List.take_prefix _ _

theorem examinedLength {h : Nat} (lent : Lent w d h) : d.examined.length = h + held d.pass := by
  have inside := lent.inside
  rw [lent.examined, List.length_take]
  omega

theorem standingIntact (stands : Standing w d) {k : Nat} {t : MhiTre} (unread : d.examined.length ≤ k)
    (posted : d.posted[k]? = some t) : d.ev.mem (w.slot k) = t := by
  rcases stands with fresh | ⟨h,lent⟩
  · rw [fresh.posted] at posted
    simp at posted
  · rw [examinedLength lent] at unread
    obtain ⟨inside,_⟩ := List.getElem?_eq_some_iff.mp posted
    have cell := congrArg (fun l => l[k - h]?) lent.contents
    have back : h + (k - h) = k := by omega
    simp only [Window.view,List.getElem?_map,List.getElem?_drop,back,posted] at cell
    rw [List.getElem?_range (by omega)] at cell
    simpa [back] using cell

theorem standingCaughtUp (stands : Standing w d) {p : Pass} (busy : d.pass = some p) (idle : p.handled = false)
    (found : p.devRp = d.ev.ring.rp) : d.examined.length = p.seen := by
  rcases stands with fresh | ⟨h,lent⟩
  · rw [fresh.examined, (fresh.pass p busy).2.1]
    rfl
  · obtain ⟨devRp,low,seen,_⟩ := lent.pass p busy
    have room := lent.room
    have same : h = p.seen := w.slotNear low (by omega) (by rw [← lent.rp, ← found, devRp])
    rw [examinedLength lent, busy]
    simp [held,idle,same]

end Conclusions

section Runs
variable {w : Window} {e : Nat}

theorem runSoft {s s' : Service} (run : Relation.ReflTransGen (ServiceStep Between) s s') (soft : SoftAt w e s) : SoftAt w e s' :=
  Runs.keeps (I := SoftAt w e) (fun _ _ => stepSoft) run soft

theorem runLater {s s' : Service} (run : Relation.ReflTransGen (ServiceStep Between) s s') (soft : SoftAt w e s)
    (idle : s.pass e = none) : ∃ d, desk s' e = some d ∧ Standing w d ∧ Later (s.posted e) d := by
  let watched : Service → Prop := fun a => ∃ d, desk a e = some d ∧ (Standing w d ∧ d.ev.hwRing = false) ∧ Later (s.posted e) d
  have kept : ∀ a b, ServiceStep Between a b → watched a → watched b := by
    intro a b step ⟨d,here,⟨stands,kind⟩,later⟩
    obtain ⟨d',there,moved⟩ := softMove step here kind
    exact ⟨d',there,⟨moveStanding moved stands,(moveKind moved).trans kind⟩,moveLater moved later⟩
  have first : watched s := by
    obtain ⟨d,here,stands,kind⟩ := soft
    refine ⟨d,here,⟨stands,kind⟩,?_⟩
    rw [(deskFound here).2]
    exact ⟨List.prefix_rfl,fun p busy => by simp [idle] at busy⟩
  obtain ⟨d,here,⟨stands,_⟩,later⟩ := Runs.keeps (I := watched) kept run first
  exact ⟨d,here,stands,later⟩

/- Every event is examined once and in order, none is overwritten unread, and a call that
finds the ring empty has examined all that was posted before it began. -/
theorem exactlyOnceDelivery {h : Host} {reply : ReadyReply} {ev : MhiEvent} {s : Service} (found : h.events[e]? = some ev)
    (rest : AtRest w ev) (soft : ev.hwRing = false) (ready : (mhiReadyStateTransition h reply).2 = none)
    (run : Relation.ReflTransGen (ServiceStep Between) (.start (mhiReadyStateTransition h reply).1) s) :
    s.examined e <+: s.posted e ∧
    (∃ now, s.host.events[e]? = some now ∧
      ∀ k t, (s.examined e).length ≤ k → (s.posted e)[k]? = some t → now.mem (w.slot k) = t) ∧
    (s.pass e = none → ∀ s' p now, Relation.ReflTransGen (ServiceStep Between) s s' → s'.pass e = some p →
      p.handled = false → s'.host.events[e]? = some now → p.devRp = now.ring.rp → s.posted e <+: s'.examined e) := by
  have first := readyLent found rest soft ready
  obtain ⟨d,here,stands,_⟩ := runSoft run first
  obtain ⟨there,shape⟩ := deskFound here
  rw [shape] at stands
  refine ⟨standingOrder stands,⟨d.ev,there,fun k t => standingIntact stands⟩,?_⟩
  intro idle s' p now further busy unhandled found' caught
  obtain ⟨d',here',stands',later⟩ := runLater further (runSoft run first) idle
  obtain ⟨there',shape'⟩ := deskFound here'
  cases there'.symm.trans found'
  rw [shape'] at stands' later
  have all : (s'.examined e).length = p.seen := standingCaughtUp stands' busy unhandled caught
  have enough : (s.posted e).length ≤ (s'.examined e).length := by
    rw [all]
    exact later.seen p busy
  exact List.prefix_of_prefix_length_le later.posted (standingOrder stands') enough

end Runs

namespace Sample
open Credit.Sample (post enter examine recycle blank ring script)

def window : Window := treWindow 0x2000 4 fourElements
def host : Host := {MhiHost.Sample.ready with cntrl := {MhiHost.Sample.cntrl with pmState := .por}}
def reply : ReadyReply := ⟨true,some 0x400,some 0x500⟩
def first : Service := .start (mhiReadyStateTransition host reply).1
def queued : Service := post 0 (post 0 first)
def done : Service := recycle 0 (examine 0 (enter 0 queued))

theorem rests : AtRest window (initEvent MhiHost.Sample.layout 0 (MhiHost.Sample.event false)) :=
  initAtRest rfl ⟨rfl,rfl,rfl,rfl,by decide,by decide,by decide⟩

theorem runs : Relation.ReflTransGen (ServiceStep Between) first done := by
  have one : ServiceStep Between first (post 0 first) := .post 0 (ring 0 first) blank rfl rfl (by decide)
  have two : ServiceStep Between (post 0 first) queued := .post 0 (ring 0 (post 0 first)) blank rfl rfl (by decide)
  have enters : ServiceStep Between queued (enter 0 queued) := .enter 0 (ring 0 queued) 0 rfl rfl rfl rfl
  have examines : ServiceStep Between (enter 0 queued) (examine 0 (enter 0 queued)) :=
    .examine 0 (ring 0 queued) ⟨0x2020,2,0,false⟩ script rfl rfl rfl rfl (fun m0 => absurd m0 (by decide)) rfl
  have recycles : ServiceStep Between (examine 0 (enter 0 queued)) done :=
    .recycle 0 (ring 0 queued) ⟨0x2020,2,0,true⟩ rfl rfl rfl
  exact ((((Relation.ReflTransGen.single one).tail two).tail enters).tail examines).tail recycles

end Sample

theorem exactlyOnceDeliverySample : Sample.done.examined 0 = [⟨0,0,0⟩] ∧ Sample.done.examined 0 <+: Sample.done.posted 0 :=
  ⟨rfl,(exactlyOnceDelivery (e := 0) rfl Sample.rests rfl rfl Sample.runs).1⟩

end MhiHost.Delivery
