import MhiHost.Queueing
import MhiHost.TransferFifo

/-! Transfer events whose pointer is taken as it comes. The completion loop compares
addresses and nothing else, so what an event does is decided by whether, and when, the read
pointer meets the address behind the one the device wrote. -/
namespace MhiHost.EventPointers
open Cyclic (Window)
open Queueing (Call queueCall bufCall)

structure Rings (wt wb : Window) (ch : Chan) : Prop where
  level : ∃ h t, ch.treRing.Holds wt h t ∧ ch.bufRing.Holds wb h t
  tres : wt.size = sizeofMhiTre
  wide : wt.count ≤ wb.count

def elements (wt : Window) (ch : Chan) : Nat := (Ring.outstanding wt ch.treRing).length
def bufs (wb : Window) (ch : Chan) : List Nat := (Ring.outstanding wb ch.bufRing).map fun b => (ch.bufMem b).cbBuf

structure Dealt (wt wb : Window) (script : Nat → CbScript) (ch ch' : Chan) : Prop where
  called : ∃ k, k ≤ elements wt ch ∧ handed ch' = handed ch ++ (bufs wb ch).take k ∧
    elements wt ch' + k + ch.accepted.length = elements wt ch + ch'.accepted.length
  noMore : (∀ i, (script i).calls = []) → elements wt ch' ≤ elements wt ch

def Harmless (wt wb : Window) (ev : MhiTre) (p : Port) : Prop :=
  ∀ script, ∃ p', parseXferEvent ev script p = some p' ∧ Dealt wt wb script p.chan p'.chan

/- One element past the pointer lies the bus address of an outstanding element or of the
write pointer; or the end of the ring is passed and such an element lies at its base. -/
def Expected (wt : Window) (r : Ring) (ptr : Nat) : Prop :=
  ∃ cell ∈ Ring.outstanding wt r ++ [r.wp],
    (ptr + sizeofMhiTre) % wordSpan = r.iommuBase + (cell - r.base) ∨
    cell = r.base ∧ r.base + r.len ≤ (mhiToVirtual r ptr + sizeofMhiTre) % wordSpan

section Goal
variable {w : Window} {r : Ring} {h t ptr : Nat}

theorem expectedCells (held : r.Holds w h t) (cell : Nat) :
    cell ∈ Ring.outstanding w r ++ [r.wp] ↔ ∃ j, h ≤ j ∧ j ≤ t ∧ cell = w.slot j := by
  have ordered := held.ordered
  rw [List.mem_append,List.mem_singleton,held.wp]
  constructor
  · rintro (inside | last)
    · obtain ⟨j,low,high,same⟩ := Ring.memOutstanding held inside
      exact ⟨j,low,Nat.le_of_lt high,same⟩
    · exact ⟨t,ordered,Nat.le_refl t,last⟩
  · rintro ⟨j,low,high,same⟩
    rcases Nat.lt_or_eq_of_le high with inside | last
    · left
      have found := Ring.outstandingAt held (j := j - h) (by omega)
      rw [Nat.add_sub_of_le low,← same] at found
      exact List.mem_of_getElem? found
    · right
      rw [same,last]

theorem goalIff (spans : r.Over w) {cell : Nat} (above : r.base ≤ cell) (below : cell < r.base + r.len) :
    xferGoal r (mhiToVirtual r ptr) = cell ↔
      (ptr + sizeofMhiTre) % wordSpan = r.iommuBase + (cell - r.base) ∨
      cell = r.base ∧ r.base + r.len ≤ (mhiToVirtual r ptr + sizeofMhiTre) % wordSpan := by
  have host := spans.host
  have bus := spans.bus
  have after : (mhiToVirtual r ptr + sizeofMhiTre) % wordSpan = cell ↔
      (ptr + sizeofMhiTre) % wordSpan = r.iommuBase + (cell - r.base) := by
    unfold mhiToVirtual wordSpan sizeofMhiTre at *
    omega
  unfold xferGoal
  dsimp only
  rw [← after]
  split
  · omega
  · omega

theorem expectedIff (held : r.Holds w h t) :
    Expected w r ptr ↔ ∃ j, h ≤ j ∧ j ≤ t ∧ xferGoal r (mhiToVirtual r ptr) = w.slot j := by
  have limit := held.spans.limit
  have base := held.spans.base
  have inside : ∀ j, r.base ≤ w.slot j ∧ w.slot j < r.base + r.len := by
    intro j
    obtain ⟨above,below,_⟩ := w.slotAligned j
    omega
  unfold Expected
  constructor
  · rintro ⟨cell,member,named⟩
    obtain ⟨j,low,high,rfl⟩ := (expectedCells held cell).mp member
    exact ⟨j,low,high,(goalIff held.spans (inside j).1 (inside j).2).mpr named⟩
  · rintro ⟨j,low,high,goal⟩
    exact ⟨w.slot j,(expectedCells held _).mpr ⟨j,low,high,rfl⟩,(goalIff held.spans (inside j).1 (inside j).2).mp goal⟩

end Goal

structure Steady (w : Window) (ch ch' : Chan) : Prop where
  spans : ch'.treRing.Over w
  rp : ch'.treRing.rp = ch.treRing.rp
  log : ch'.xferLog = ch.xferLog

structure Turned (w : Window) (script : CbScript) (ch ch' : Chan) : Prop where
  spans : ch'.treRing.Over w
  rp : ch'.treRing.rp = w.next ch.treRing.rp
  log : ch'.xferLog.length = ch.xferLog.length + 1
  accepted : script.calls = [] → ch'.accepted.length ≤ ch.accepted.length + 1

structure Ended (w : Window) (script : Nat → CbScript) (devRp h n : Nat) (ch ch' : Chan) : Prop where
  near : n < w.count
  goal : devRp = w.slot (h + n)
  log : ch'.xferLog.length = ch.xferLog.length + n
  accepted : (∀ i, (script i).calls = []) → ch'.accepted.length ≤ ch.accepted.length + n

section Turns
variable {w : Window} {p : Port} {ev : MhiTre} {evTre devRp : Nat}

theorem callSteady {cb len : Nat} {reached : Bool} {p' : Port} {err : Option Errno} (call : Call p cb len reached p' err)
    (spans : p.chan.treRing.Over w) : Steady w p.chan p'.chan := by
  have tre := call.tre
  refine ⟨?_,?_,call.log⟩
  · rw [tre]
    split
    · exact spans.moved _ _ _ _
    · exact spans.moved _ _ _ _
  · rw [tre]
    split
    · rfl
    · rfl

theorem callsSteady (qs : List QueueReq) (spans : p.chan.treRing.Over w) : Steady w p.chan (queueAll p qs).chan := by
  induction qs generalizing p with
  | nil => exact ⟨spans,rfl,rfl⟩
  | cons q rest ih =>
    have one := callSteady (queueCall p q) spans
    have more := ih one.spans
    exact ⟨more.spans,more.rp.trans one.rp,more.log.trans one.log⟩

theorem recycleSteady (bufInfo : Nat) (reply : DmaReply) (spans : p.chan.treRing.Over w) :
    Steady w p.chan (recycleBuf p bufInfo reply).chan ∧
      (recycleBuf p bufInfo reply).chan.accepted.length ≤ p.chan.accepted.length + 1 := by
  unfold recycleBuf
  split
  · have call := @bufCall p (p.chan.bufMem bufInfo).cbBuf (p.chan.bufMem bufInfo).len MhiFlags.eot reply
    have steady := callSteady call spans
    have atMost := congrArg List.length call.accepted
    rw [List.length_append] at atMost
    dsimp only
    split
    · rename_i out ran
      rw [ran] at steady atMost
      exact ⟨steady,Nat.le_of_eq atMost⟩
    · rename_i out e ran
      rw [ran] at steady atMost
      exact ⟨⟨steady.spans,steady.rp,steady.log⟩,Nat.le_succ_of_le (Nat.le_of_eq atMost)⟩
  · exact ⟨⟨spans,rfl,rfl⟩,Nat.le_succ _⟩

theorem turnMoves (script : CbScript) (spans : p.chan.treRing.Over w) :
    Turned w script p.chan (xferOne ev evTre script p).chan := by
  have retired : (retire p (xferResult p ev evTre)).chan.treRing.Over w := spans.moved _ _ _ _
  have called := callsSteady script.calls retired
  have recycled : Steady w (queueAll (retire p (xferResult p ev evTre)) script.calls).chan (xferOne ev evTre script p).chan ∧
      (xferOne ev evTre script p).chan.accepted.length ≤
        (queueAll (retire p (xferResult p ev evTre)) script.calls).chan.accepted.length + 1 :=
    @recycleSteady w ⟨countUplink _ (-1) _,(queueAll (retire p (xferResult p ev evTre)) script.calls).chan⟩ _ _ called.spans
  refine ⟨recycled.1.spans,(recycled.1.rp.trans called.rp).trans spans.delRp,?_,?_⟩
  · rw [recycled.1.log.trans called.log]
    exact List.length_append
  · intro quiet
    have atMost := recycled.2
    rw [quiet] at atMost
    exact atMost

theorem loopMet {script : Nat → CbScript} (met : p.chan.treRing.rp = devRp) (fuel i : Nat) :
    xferLoop ev evTre devRp script fuel i p = some p := by
  cases fuel with
  | zero => rw [xferLoop,if_pos met]
  | succ fuel => rw [xferLoop,if_pos met]

theorem loopTurns {script : Nat → CbScript} {fuel i h : Nat} {p' : Port} (spans : p.chan.treRing.Over w)
    (rp : p.chan.treRing.rp = w.slot h) (ran : xferLoop ev evTre devRp script fuel i p = some p') :
    ∃ n, Ended w script devRp h n p.chan p'.chan ∧
      ∀ more, n ≤ more → xferLoop ev evTre devRp script more i p = some p' := by
  induction fuel generalizing i h p with
  | zero =>
    by_cases met : p.chan.treRing.rp = devRp
    · rw [loopMet met] at ran
      cases ran
      exact ⟨0,⟨w.counted,met.symm.trans rp,rfl,fun _ => Nat.le_refl _⟩,fun more _ => loopMet met more i⟩
    · rw [xferLoop,if_neg met] at ran
      cases ran
  | succ fuel ih =>
    by_cases met : p.chan.treRing.rp = devRp
    · rw [loopMet met] at ran
      cases ran
      exact ⟨0,⟨w.counted,met.symm.trans rp,rfl,fun _ => Nat.le_refl _⟩,fun more _ => loopMet met more i⟩
    · rw [xferLoop,if_neg met] at ran
      obtain ⟨spans',rp',log,accepted⟩ := @turnMoves w p ev evTre (script i) spans
      rw [rp,w.nextSlot] at rp'
      obtain ⟨n,⟨near,goal,calls,quiet⟩,enough⟩ := ih spans' rp' ran
      have shift : h + (n + 1) = h + 1 + n := by omega
      -- after a whole turn the read pointer would be back where the loop did not stop
      have short : n + 1 ≠ w.count := by
        intro whole
        rw [← shift,whole,w.slotTurn,← rp] at goal
        exact met goal.symm
      refine ⟨n + 1,⟨by omega,shift ▸ goal,by omega,?_⟩,?_⟩
      · intro none
        have one := accepted (none i)
        have rest := quiet none
        omega
      · intro more le
        obtain ⟨left,rfl⟩ : ∃ left, more = left + 1 := ⟨more - 1,by omega⟩
        rw [xferLoop,if_neg met]
        exact enough left (by omega)

end Turns

theorem neverReturns {w : Window} {ev : MhiTre} {script : Nat → CbScript} {p : Port} {h t : Nat}
    (held : p.chan.treRing.Holds w h t) (enabled : p.chan.chState = .enabled) (code : isXferCode ev.getEvCode = true)
    (none : parseXferEvent ev script p = none) (fuel : Nat) :
    xferLoop ev (mhiToVirtual p.chan.treRing ev.getEvPtr) (xferGoal p.chan.treRing (mhiToVirtual p.chan.treRing ev.getEvPtr))
      script fuel 0 p = Option.none := by
  rw [parseXferEvent,if_neg (not_not.mpr enabled),if_pos code] at none
  cases ran : xferLoop ev (mhiToVirtual p.chan.treRing ev.getEvPtr)
      (xferGoal p.chan.treRing (mhiToVirtual p.chan.treRing ev.getEvPtr)) script fuel 0 p with
  | none => rfl
  | some p' =>
    obtain ⟨n,ended,enough⟩ := loopTurns held.spans held.rp ran
    have ends := enough p.chan.treRing.elements (by rw [held.spans.elements]; exact Nat.le_of_lt ended.near)
    rw [none] at ends
    cases ends

section Held
variable {wt wb : Window} {p : Port} {h t : Nat} {placed : List Nat}

theorem bufsView (held : p.chan.bufRing.Holds wb h t) : bufs wb p.chan = (wb.view p.chan.bufMem h t).map BufInfo.cbBuf := by
  rw [bufs,← Ring.outstandingView held,List.map_map]
  rfl

theorem ringsFifo (tre : p.chan.treRing.Holds wt h t) (buf : p.chan.bufRing.Holds wb h t) :
    Fifo (fun _ _ => True) wt wb p.chan h t (handed p.chan ++ bufs wb p.chan) := by
  refine ⟨tre,buf,?_,by rw [bufsView buf]⟩
  rw [List.forall₂_iff_get]
  exact ⟨by rw [Window.view,Window.view,List.length_map,List.length_map],fun _ _ _ => trivial⟩

theorem bufsLength (held : p.chan.bufRing.Holds wb h t) : (bufs wb p.chan).length = t - h := by
  rw [bufs,List.length_map,Ring.outstandingLength held]

theorem keptDealt {p' : Port} {g t' : Nat} {added : List Nat} {script : Nat → CbScript} (tre : p.chan.treRing.Holds wt h t)
    (buf : p.chan.bufRing.Holds wb h t) (ahead : h ≤ g) (inside : g ≤ t)
    (kept : Fifo (fun _ _ => True) wt wb p'.chan g t' (handed p.chan ++ bufs wb p.chan ++ added))
    (accepted : p'.chan.accepted = p.chan.accepted ++ added)
    (log : p'.chan.xferLog.length = p.chan.xferLog.length + (g - h))
    (few : (∀ i, (script i).calls = []) → p'.chan.accepted.length ≤ p.chan.accepted.length + (g - h)) :
    Dealt wt wb script p.chan p'.chan := by
  have before : elements wt p.chan = t - h := Ring.outstandingLength tre
  have after : elements wt p'.chan = t' - g := Ring.outstandingLength kept.tre
  have size : (handed p'.chan).length = (handed p.chan).length + (g - h) := by
    rw [handed,handed,List.length_map,List.length_map,log]
  have order := kept.order
  rw [← bufsView kept.buf] at order
  have count := congrArg List.length order
  rw [List.length_append,List.length_append,List.length_append,bufsLength buf,bufsLength kept.buf] at count
  have balance : elements wt p'.chan + (g - h) = elements wt p.chan + added.length := by omega
  have grown := congrArg List.length accepted
  rw [List.length_append] at grown
  refine ⟨⟨g - h,by omega,?_,by omega⟩,?_⟩
  · have front := congrArg (List.take ((handed p.chan).length + (g - h))) order
    rw [← size,List.take_left,size,List.append_assoc,List.take_length_add_append,
      List.take_append_of_le_length (by rw [bufsLength buf]; omega)] at front
    exact front
  · intro quiet
    have small := few quiet
    omega

end Held

theorem xferHarmless {wt wb : Window} {ev : MhiTre} {p : Port} (rings : Rings wt wb p.chan)
    (code : isXferCode ev.getEvCode = true) :
    Harmless wt wb ev p ↔ p.chan.chState ≠ .enabled ∨ Expected wt p.chan.treRing ev.getEvPtr := by
  obtain ⟨⟨h,t,tre,buf⟩,tres,wide⟩ := rings
  by_cases disabled : p.chan.chState ≠ .enabled
  · refine ⟨fun _ => .inl disabled,fun _ script => ⟨p,by rw [parseXferEvent,if_pos disabled],?_⟩⟩
    exact ⟨⟨0,Nat.zero_le _,by rw [List.take_zero,List.append_nil],rfl⟩,fun _ => Nat.le_refl _⟩
  have loop : ∀ script, parseXferEvent ev script p = xferLoop ev (mhiToVirtual p.chan.treRing ev.getEvPtr)
      (xferGoal p.chan.treRing (mhiToVirtual p.chan.treRing ev.getEvPtr)) script p.chan.treRing.elements 0 p := by
    intro script
    rw [parseXferEvent,if_neg disabled,if_pos code]
  rw [expectedIff tre]
  constructor
  · intro harmless
    obtain ⟨p',ran,⟨⟨k,few,called,_⟩,_⟩⟩ := harmless fun _ => ⟨[],⟨0,0,false⟩⟩
    rw [loop] at ran
    obtain ⟨n,ended,_⟩ := loopTurns tre.spans tre.rp ran
    have ordered := tre.ordered
    have size := congrArg List.length called
    rw [List.length_append,List.length_take,bufsLength buf,handed,handed,List.length_map,List.length_map,ended.log] at size
    exact .inr ⟨h + n,Nat.le_add_right h n,by omega,ended.goal⟩
  · rintro (off | ⟨g,ahead,inside,goal⟩) script
    · exact absurd off disabled
    · have room := tre.room
      have enough : g - h ≤ p.chan.treRing.elements := by
        rw [tre.spans.elements]
        omega
      obtain ⟨p',ran,⟨⟨t',added,_,kept,accepted⟩,_⟩⟩ := @Fifo.xferLoop (fun _ _ => True) wt wb p h t _ ev _ _ script g _ 0
        (ringsFifo tre buf) wide (fun _ _ _ _ _ _ => trivial) (fun _ _ _ _ _ => trivial) goal ahead inside enough
      obtain ⟨n,⟨near,met,log,few⟩,_⟩ := loopTurns tre.spans tre.rp ran
      have turns : n = g - h := by
        have same := met.symm.trans goal
        rcases Nat.le_total (h + n) g with le | ge
        · have equal := wt.slotNear le (by omega) same
          omega
        · have equal := wt.slotNear ge (by omega) same.symm
          omega
      subst turns
      exact ⟨p',(loop script).trans ran,keptDealt tre buf ahead inside kept accepted log few⟩

theorem outstandingExpected {wt wb : Window} {ev : MhiTre} {p : Port} (rings : Rings wt wb p.chan)
    (named : NamesOutstanding wt p.chan ev) : Expected wt p.chan.treRing ev.getEvPtr := by
  obtain ⟨⟨h,t,tre,_⟩,tres,_⟩ := rings
  obtain ⟨j,low,high,cell⟩ := namedCell tre named
  rw [expectedIff tre,cell,afterCell tre.spans tres]
  exact ⟨j + 1,by omega,by omega,rfl⟩

namespace Sample
open TransferFifo

def tres : Window := treWindow 0x1000 4 fourElements
def locals : Window := bufWindow 0x4000 tres

def port : Port := uplinkQueued
def stray (ptr : Nat) : MhiTre := {uplinkEvent with ptr := ptr}
def quiet : Nat → CbScript := fun _ => ⟨[],⟨0,0,false⟩⟩

theorem rings : Rings tres locals port.chan := by
  have enabled : TransferFifo.Step tres uplinkPort uplinkEnabled := .chState .enabled
  have queued : TransferFifo.Step tres uplinkEnabled port := .queue uplinkReq (by decide)
  obtain ⟨h,t,held⟩ := @runFifo tres locals _ _ rfl rfl ((Relation.ReflTransGen.single enabled).tail queued)
    ⟨0,0,startFifo uplinkStarted⟩
  exact ⟨⟨h,t,held.fifo.tre,held.fifo.buf⟩,rfl,Nat.le_refl _⟩

end Sample

theorem namedHarmless : Harmless Sample.tres Sample.locals TransferFifo.uplinkEvent Sample.port := by
  have named : NamesOutstanding Sample.tres Sample.port.chan TransferFifo.uplinkEvent := ⟨0x1000,by decide,rfl⟩
  exact (xferHarmless Sample.rings (by decide)).mpr (.inr (outstandingExpected Sample.rings named))

/- A pointer off the grid keeps the loop going for ever. One to an element that was never
queued makes two callbacks of one outstanding element and turns the ring inside out. -/
theorem strayHarms : Rings Sample.tres Sample.locals Sample.port.chan ∧ elements Sample.tres Sample.port.chan = 1 ∧
    (∀ fuel, xferLoop (Sample.stray 0x8008) (mhiToVirtual Sample.port.chan.treRing 0x8008)
      (xferGoal Sample.port.chan.treRing (mhiToVirtual Sample.port.chan.treRing 0x8008)) Sample.quiet fuel 0 Sample.port = none) ∧
    (∃ p', parseXferEvent (Sample.stray 0x8010) Sample.quiet Sample.port = some p' ∧
      (handed p'.chan).length = 2 ∧ elements Sample.tres p'.chan = 3) ∧
    ¬∀ ev, isXferCode ev.getEvCode = true → Harmless Sample.tres Sample.locals ev Sample.port := by
  have endless : parseXferEvent (Sample.stray 0x8008) Sample.quiet Sample.port = none := by decide
  obtain ⟨h,t,held,_⟩ := Sample.rings.level
  refine ⟨Sample.rings,by decide,neverReturns held rfl (by decide) endless,⟨_,rfl,by decide,by decide⟩,?_⟩
  intro harmless
  obtain ⟨p',ran,_⟩ := harmless (Sample.stray 0x8008) (by decide) Sample.quiet
  rw [endless] at ran
  cases ran

end MhiHost.EventPointers
