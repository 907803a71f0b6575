import MhiHost.EventRings
import MhiHost.Trace

/-! `mhi_process_ctrl_ev_ring` and `mhi_process_data_event_ring` from beginning to end, one
function of the kind of ring. Each use of a table at a place that an event picks leaves its
mark; one outside the table finds whatever lies there. -/
namespace MhiHost.EventLoops
open Cyclic (Window)
open EventRings

inductive Access where
  | chan (maxChan i : Nat)
  | cmdPkt (ring : Ring) (cell : Nat)
  | bufInfo (ring : Ring) (cell : Nat)
  deriving DecidableEq, Repr

/- A ring that is not allocated has no elements. -/
def OnElement (r : Ring) (cell : Nat) : Prop :=
  r.base ≠ 0 ∧ r.base ≤ cell ∧ cell < r.base+r.len ∧ (cell-r.base) % r.elSize = 0
instance (r : Ring) (cell : Nat) : Decidable (OnElement r cell) := by unfold OnElement; infer_instance

def Access.InRange : Access → Prop
  | .chan maxChan i => i < maxChan
  | .cmdPkt ring cell | .bufInfo ring cell => OnElement ring cell

section Event
variable (h : Host) (ev : MhiTre)

def txUses : List Access := if ev.getEvChid < h.maxChan then [.chan h.maxChan ev.getEvChid] else []

def cmdPkt : Nat := mhiToVirtual h.cmdRing ev.getEvPtr
def cmdUses : List Access := [.cmdPkt h.cmdRing (cmdPkt h ev),.chan h.maxChan (h.cmdMem (cmdPkt h ev)).getCmdChid]

/- `buf_info` is read before the state of the channel is looked at. -/
def rscCell : Nat := (h.chans ev.getEvChid).bufRing.base+ev.getEvCookie
def rscUses : List Access :=
  if ev.getEvChid < h.maxChan then [.chan h.maxChan ev.getEvChid,.bufInfo (h.chans ev.getEvChid).bufRing (rscCell h ev)] else []

def uses (kind : ErDataType) : List Access :=
  match kind with
  | .ctrl =>
    if ev.getEvType = PktType.cmdCompletionEvent then cmdUses h ev
    else if ev.getEvType = PktType.txEvent then txUses h ev
    else []
  | .data =>
    if ev.getEvType = PktType.txEvent then txUses h ev
    else if ev.getEvType = PktType.rscTxEvent then rscUses h ev
    else []

/- An event whose completion loop never returns is where the run ends. -/
def event (kind : ErDataType) (script : Nat → CbScript) : Trace Access Host :=
  ⟨uses h ev kind,match processEvent h kind ev script with
    | some h' => .went h'
    | none => .lost⟩

end Event

structure Stage where
  host : Host
  quota : Nat
  count : Nat

def recycleAt (e : Nat) (h : Host) : Host := {h with events := h.events.modify e recycleEvent}

def quotaLeft (h : Host) (kind : ErDataType) (ev : MhiTre) (quota : Nat) : Nat := if countsQuota h kind ev then quota-1 else quota

def More (kind : ErDataType) (devRp rp quota : Nat) : Prop := devRp ≠ rp ∧ (kind = .data → quota ≠ 0)
instance (kind : ErDataType) (devRp rp quota : Nat) : Decidable (More kind devRp rp quota) := by unfold More; infer_instance

def turn (kind : ErDataType) (e : Nat) (scripts : Nat → Nat → CbScript) (s : Stage) : Trace Access (Stage ⊕ Stage) :=
  match s.host.events[e]? with
  | none => .stop
  | some er =>
    if More kind (readPointer er) er.ring.rp s.quota then
      let ev := er.mem er.ring.rp
      (event s.host ev kind (scripts s.count)).bind fun h =>
        .pure (.inl ⟨recycleAt e h,quotaLeft s.host kind ev s.quota,s.count+1⟩)
    else .pure (.inr s)

def ringErDb (e : Nat) (h : Host) : Host :=
  match h.events[e]? with
  | none => h
  | some er =>
    if mhiDbAccessValid h.cntrl then
      {h with cntrl := (mhiRingErDb h.cntrl er).1, events := h.events.set e (mhiRingErDb h.cntrl er).2}
    else h

def mhiProcessEvRing (kind : ErDataType) (e quota : Nat) (scripts : Nat → Nat → CbScript) (fuel : Nat) (h : Host) :
    Trace Access (Host × Option Nat) :=
  if mhiEventAccessInvalid h.cntrl.pmState then .pure (h,none)
  else (Trace.loop (turn kind e scripts) fuel ⟨h,quota,0⟩).bind fun s => .pure (ringErDb e s.host,some s.count)

def mhiProcessCtrlEvRing := mhiProcessEvRing .ctrl
def mhiProcessDataEventRing := mhiProcessEvRing .data

/-! One ring of the host, and how far it has been read. -/
structure Stands (w : Window) (mem : Nat → MhiTre) (devRp e i : Nat) (h : Host) : Prop where
  ring : ∃ er, h.events[e]? = some er ∧ er.ring.Over w ∧ er.ring.rp = w.slot i ∧ er.mem = mem ∧ readPointer er = devRp

section Standing
variable {w : Window} {mem : Nat → MhiTre} {devRp e i : Nat} {h h' : Host} {kind : ErDataType} {ev : MhiTre}

theorem keptStands {f : MhiEvent → MhiEvent}
    (steady : ∀ er, ∃ wp ctxt, f er = {er with ring := {er.ring with wp := wp, ctxtWp := ctxt}})
    (at' : At e f h.events h'.events) (stands : Stands w mem devRp e i h) : Stands w mem devRp e i h' := by
  obtain ⟨er,found,spans,rp,content,pointer⟩ := stands.ring
  obtain ⟨er',found',kept⟩ := at' er found
  obtain ⟨cfg,addr,same⟩ := kept
  obtain ⟨wp,ctxt,filled⟩ := steady er
  rw [filled] at same
  subst same
  exact ⟨_,found',spans.moved _ _ _ _,rp,content,pointer⟩

theorem processStands {script : Nat → CbScript} (ran : processEvent h kind ev script = some h')
    (stands : Stands w mem devRp e i h) : Stands w mem devRp e i h' := by
  have kept : ∀ er : MhiEvent, ∃ wp ctxt, er = {er with ring := {er.ring with wp := wp, ctxtWp := ctxt}} := fun _ => ⟨_,_,rfl⟩
  rcases processEvents ran with ⟨-,rfl⟩ | same
  · rcases m0Wrote h e with untouched | ⟨-,filled⟩
    · exact keptStands kept untouched stands
    · refine keptStands (fun er => ?_) filled stands
      unfold fill
      split
      · exact ⟨_,_,rfl⟩
      · exact kept er
  · exact keptStands kept (atSame same) stands

theorem recycleStands (stands : Stands w mem devRp e i h) : Stands w mem devRp e (i+1) (recycleAt e h) := by
  obtain ⟨er,found,spans,rp,content,pointer⟩ := stands.ring
  refine ⟨recycleEvent er,?_,spans.moved _ _ _ _,?_,content,pointer⟩
  · rw [recycleAt,List.getElem?_modify,found]
    simp
  · show (mhiRecycleEvRingElement er.ring).rp = _
    rw [spans.recycleRp,rp,w.nextSlot]

theorem turnStands {s : Stage} (scripts : Nat → Nat → CbScript) (stands : Stands w mem devRp e i s.host) : turn kind e scripts s =
    if More kind devRp (w.slot i) s.quota then
      (event s.host (mem (w.slot i)) kind (scripts s.count)).bind fun h =>
        .pure (.inl ⟨recycleAt e h,quotaLeft s.host kind (mem (w.slot i)) s.quota,s.count+1⟩)
    else .pure (.inr s) := by
  obtain ⟨er,found,-,rp,content,pointer⟩ := stands.ring
  rw [turn,found]
  simp only [rp,content,pointer]

theorem turnGoes {s next : Stage} {scripts : Nat → Nat → CbScript} (stands : Stands w mem devRp e i s.host) :
    Trace.Goes (turn kind e scripts) s next ↔ More kind devRp (w.slot i) s.quota ∧
      ∃ h', processEvent s.host kind (mem (w.slot i)) (scripts s.count) = some h' ∧
        next = ⟨recycleAt e h',quotaLeft s.host kind (mem (w.slot i)) s.quota,s.count+1⟩ := by
  rw [Trace.Goes,turnStands scripts stands]
  by_cases more : More kind devRp (w.slot i) s.quota
  · rw [if_pos more,Trace.bindWent,and_iff_right more]
    unfold event
    cases processEvent s.host kind (mem (w.slot i)) (scripts s.count) with
    | none => simp
    | some h' =>
      constructor
      · rintro ⟨_,⟨rfl⟩,⟨rfl⟩⟩
        exact ⟨h',rfl,rfl⟩
      · rintro ⟨_,⟨rfl⟩,rfl⟩
        exact ⟨h',rfl,rfl⟩
  · rw [if_neg more]
    exact ⟨nofun,fun both => absurd both.1 more⟩

theorem goesStands {s next : Stage} {scripts : Nat → Nat → CbScript} (stands : Stands w mem devRp e i s.host)
    (goes : Trace.Goes (turn kind e scripts) s next) : Stands w mem devRp e (i+1) next.host := by
  obtain ⟨-,h',ran,rfl⟩ := (turnGoes stands).mp goes
  exact recycleStands (processStands ran stands)

end Standing

end MhiHost.EventLoops
