import MhiHost.ChannelFrame
import MhiHost.Delivery
import MhiHost.TransferFifo

/-! A buffer's way from a queue call to its callback, through all parts at once: the transfer
ring, the device, the event ring and its passes. The device takes the announced elements
in order, works on them as long as it likes, and posts completions that may cover several
at a time; everything else the driver does runs in between. -/
namespace MhiHost.Pipeline
open Cyclic (Window)
open EventRings Credit Delivery TransferFifo

structure Writes (ch ch' : Chan) : Prop where
  treMem : ch'.treMem = ch.treMem ∨ ∃ tre, ch'.treMem = Function.update ch.treMem ch.treRing.wp tre
  told : ch'.treRing.ctxtWp = ch.treRing.ctxtWp ∨ ch'.treRing.ctxtWp = ch'.treRing.db
  bus : ch'.treRing.iommuBase = ch.treRing.iommuBase
  chState : ch'.chState = ch.chState
  xferLog : ch'.xferLog = ch.xferLog

theorem writesRefl (ch : Chan) : Writes ch ch := ⟨.inl rfl,.inl rfl,rfl,rfl,rfl⟩

section Queue
variable {p : Port}

theorem genTreWrites {c : Cntrl} {info : BufInfo} {flags : Nat} {reply : DmaReply} {out : Port} {err : Option Errno}
    (ran : mhiGenTre {p with cntrl := c} info flags reply = (out,err)) : Writes p.chan out.chan := by
  unfold mhiGenTre at ran
  cases mapped : (fillBufInfo {p with cntrl := c} info reply).2 with
  | some e =>
    simp only [mapped,Prod.mk.injEq] at ran
    obtain ⟨rfl,-⟩ := ran
    exact ⟨.inl rfl,.inl rfl,rfl,rfl,rfl⟩
  | none =>
    simp only [mapped,Prod.mk.injEq] at ran
    obtain ⟨rfl,-⟩ := ran
    exact ⟨.inr ⟨_,rfl⟩,.inl rfl,rfl,rfl,rfl⟩

theorem acceptWrites {out : Port} (c : Cntrl) (cb : Nat) (writes : Writes p.chan out.chan) :
    Writes p.chan (accept (ringIfAccessible {out with cntrl := c}) cb).chan := by
  obtain ⟨treMem,told,bus,chState,xferLog⟩ := writes
  unfold ringIfAccessible
  split
  · exact ⟨treMem,.inr rfl,bus,chState,xferLog⟩
  · exact ⟨treMem,told,bus,chState,xferLog⟩

theorem lockedWrites (info : BufInfo) (flags : Nat) (reply : DmaReply) :
    Writes p.chan (queueLocked p info flags reply).1.chan := by
  unfold queueLocked
  split
  · exact writesRefl _
  split
  · exact writesRefl _
  split
  · exact writesRefl _
  dsimp only
  split
  · rename_i out e ran
    exact genTreWrites ran
  · rename_i out ran
    exact acceptWrites _ _ (genTreWrites ran)

theorem bufWrites (buf len flags : Nat) (reply : DmaReply) : Writes p.chan (mhiQueueBuf p buf len flags reply).1.chan := by
  unfold mhiQueueBuf mhiQueueBufFill
  by_cases failing : mhiPmInErrorState p.cntrl.pmState = true
  · simp only [failing,if_true]
    exact writesRefl _
  by_cases full : mhiIsRingFull p.chan.treRing = true
  · simp only [failing,full,if_true]
    exact writesRefl _
  simp only [failing,full]
  split
  · rename_i out e ran
    exact @genTreWrites p p.cntrl _ _ _ _ _ ran
  · rename_i out ran
    exact acceptWrites _ _ (@genTreWrites p p.cntrl _ _ _ _ _ ran)

theorem queueWrites (q : QueueReq) : Writes p.chan (mhiQueue p q).1.chan := by
  unfold mhiQueue
  split
  · exact bufWrites _ _ _ _
  · exact lockedWrites _ _ _
  · exact lockedWrites _ _ _

end Queue

def place (wt : Window) (bus i : Nat) : Nat := bus+(wt.slot i-wt.base)

/- The host has retired `h` elements and filled `t`, of which it has announced `a`; what the
device has taken and the host has not yet retired is still in the ring as it was taken. -/
structure Flow (wt wb : Window) (bus : Nat) (fetched : List MhiTre) (ch : Chan) (h t a : Nat) : Prop where
  order : InOrder wt wb ch h t
  handed : (handed ch).length = h
  enabled : ch.chState = .enabled
  told : ch.treRing.iommuBase = bus ∧ ch.treRing.ctxtWp = place wt bus a
  behind : h ≤ fetched.length
  taken : fetched.length ≤ a
  known : a ≤ t
  kept : wt.view ch.treMem h fetched.length = fetched.drop h

namespace Flow
variable {wt wb : Window} {bus : Nat} {fetched : List MhiTre} {h t a : Nat}

theorem db {ch : Chan} (order : InOrder wt wb ch h t) : ch.treRing.db = place wt ch.treRing.iommuBase t := by
  rw [Ring.db,order.fifo.tre.wp,order.fifo.tre.spans.base,place]

theorem ofRung {ch ch' : Chan} (flow : Flow wt wb bus fetched ch h t a) (rung : Rung ch ch') :
    ∃ a', Flow wt wb bus fetched ch' h t a' := by
  obtain ⟨order,handed,enabled,⟨bused,told⟩,behind,taken,known,kept⟩ := flow
  obtain ⟨ctxt,db,tre,moved⟩ := rung.tre
  have held := order.fifo.tre
  have holds : ch'.treRing.Holds wt h t := by
    rw [tre]
    exact ⟨held.spans.moved ch.treRing.rp ch.treRing.wp ctxt db,held.rp,held.wp,held.ordered,held.room⟩
  have order' : InOrder wt wb ch' h t := by
    refine ⟨?_,rung.preAlloc.trans order.client⟩
    rw [rung.accepted]
    exact order.fifo.of holds rung.bufRing rung.bufMem rung.treMem rung.xferLog
  have handed' : (MhiHost.handed ch').length = h := by
    rw [MhiHost.handed,rung.xferLog]
    exact handed
  have kept' : wt.view ch'.treMem h fetched.length = fetched.drop h := rung.treMem ▸ kept
  have enabled' := rung.chState.trans enabled
  have bused' : ch'.treRing.iommuBase = bus := by
    rw [tre]
    exact bused
  rcases moved with same | whole
  · exact ⟨a,order',handed',enabled',⟨bused',by simpa [tre,same] using told⟩,behind,taken,known,kept'⟩
  · refine ⟨t,order',handed',enabled',⟨bused',?_⟩,behind,Nat.le_trans taken known,Nat.le_refl t,kept'⟩
    rw [tre,← bused,← Flow.db order]
    exact whole

section Port
variable {p : Port}

theorem queue {q : QueueReq} (flow : Flow wt wb bus fetched p.chan h t a) (same : wt.count = wb.count)
    (fits : q.len ≤ mhiMaxMtu) :
    ∃ t' a', Flow wt wb bus fetched (mhiQueue p q).1.chan h t' a' := by
  obtain ⟨t',le,order⟩ := queueKeeps flow.order same fits
  obtain ⟨treMem,told,places,chState,xferLog⟩ := @queueWrites p q
  have tre := flow.order.fifo.tre
  have handed : (MhiHost.handed (mhiQueue p q).1.chan).length = h := by
    rw [MhiHost.handed,xferLog]
    exact flow.handed
  have bused := places.trans flow.told.1
  have kept : wt.view (mhiQueue p q).1.chan.treMem h fetched.length = fetched.drop h := by
    rcases treMem with same | ⟨x,same⟩
    · rw [same]
      exact flow.kept
    · rw [same,tre.wp,wt.viewBelow _ x (Nat.le_trans flow.taken flow.known) tre.room]
      exact flow.kept
  have enabled := chState.trans flow.enabled
  rcases told with same | whole
  · exact ⟨t',a,order,handed,enabled,⟨bused,same.trans flow.told.2⟩,flow.behind,flow.taken,Nat.le_trans flow.known le,kept⟩
  · refine ⟨t',t',order,handed,enabled,⟨bused,?_⟩,flow.behind,Nat.le_trans flow.taken (Nat.le_trans flow.known le),Nat.le_refl t',kept⟩
    rw [whole,Flow.db order,bused]

theorem queueAll {qs : List QueueReq} (flow : Flow wt wb bus fetched p.chan h t a) (same : wt.count = wb.count)
    (fits : ∀ q ∈ qs, q.len ≤ mhiMaxMtu) : ∃ t' a', Flow wt wb bus fetched (MhiHost.queueAll p qs).chan h t' a' := by
  induction qs generalizing p t a with
  | nil => exact ⟨t,a,flow⟩
  | cons q rest ih =>
    obtain ⟨t',a',first⟩ := flow.queue same (fits q List.mem_cons_self)
    exact ih first fun q inside => fits q (List.mem_cons_of_mem _ inside)

theorem retire {r : MhiResult} (flow : Flow wt wb bus fetched p.chan h t a) (more : h < fetched.length)
    (named : r.bufAddr = (p.chan.bufMem p.chan.bufRing.rp).cbBuf) :
    Flow wt wb bus fetched (MhiHost.retire p r).chan (h+1) t a := by
  obtain ⟨order,handed,enabled,told,behind,taken,known,kept⟩ := flow
  rw [wt.viewPop _ more,List.drop_eq_getElem_cons more] at kept
  have longer : (MhiHost.handed (MhiHost.retire p r).chan).length = h+1 := by simpa [MhiHost.handed,MhiHost.retire] using handed
  exact ⟨⟨order.fifo.retire (by omega) named,order.client⟩,longer,enabled,told,more,taken,known,(List.cons.inj kept).2⟩

theorem xferOne {ev : MhiTre} {evTre : Nat} {script : CbScript} (flow : Flow wt wb bus fetched p.chan h t a)
    (more : h < fetched.length)
    (same : wt.count = wb.count) (fits : ∀ q ∈ script.calls, q.len ≤ mhiMaxMtu) :
    ∃ t' a', Flow wt wb bus fetched (MhiHost.xferOne ev evTre script p).chan (h+1) t' a' := by
  have retired : Flow wt wb bus fetched (MhiHost.retire p (xferResult p ev evTre)).chan (h+1) t a := flow.retire more rfl
  obtain ⟨t',a',called⟩ := retired.queueAll same fits
  have client := called.order.client
  have whole : (MhiHost.xferOne ev evTre script p).chan =
      (MhiHost.queueAll (MhiHost.retire p (xferResult p ev evTre)) script.calls).chan := by
    simp only [MhiHost.xferOne,recycleBuf,client,Bool.false_eq_true,if_false]
  rw [whole]
  exact ⟨t',a',called⟩

theorem xferLoop {ev : MhiTre} {evTre devRp fuel i n : Nat} {script : Nat → CbScript} {p' : Port}
    (flow : Flow wt wb bus fetched p.chan h t a) (same : wt.count = wb.count)
    (fits : ∀ i, ∀ q ∈ (script i).calls, q.len ≤ mhiMaxMtu) (goal : devRp = wt.slot n) (ahead : h ≤ n)
    (had : n ≤ fetched.length) (ran : MhiHost.xferLoop ev evTre devRp script fuel i p = some p') :
    ∃ t' a', Flow wt wb bus fetched p'.chan n t' a' := by
  have there : p.chan.treRing.rp = devRp ↔ h = n := by
    rw [flow.order.fifo.tre.rp,goal]
    have := flow.taken
    have := flow.known
    have := flow.order.fifo.tre.room
    exact ⟨wt.slotNear ahead (by omega),fun same => by rw [same]⟩
  induction fuel generalizing p h t a i with
  | zero =>
    simp only [MhiHost.xferLoop,there] at ran
    split at ran
    · rename_i here
      cases ran
      exact here ▸ ⟨t,a,flow⟩
    · cases ran
  | succ fuel ih =>
    simp only [MhiHost.xferLoop,there] at ran
    split at ran
    · rename_i here
      cases ran
      exact here ▸ ⟨t,a,flow⟩
    · rename_i before
      obtain ⟨t',a',next⟩ := flow.xferOne (by omega) same (fits i)
      refine ih next (by omega) ran ?_
      rw [next.order.fifo.tre.rp,goal]
      have := next.taken
      have := next.known
      have := next.order.fifo.tre.room
      exact ⟨wt.slotNear (by omega) (by omega),fun same => by rw [same]⟩

theorem parse {ev : MhiTre} {n : Nat} {script : Nat → CbScript} {p' : Port} (flow : Flow wt wb bus fetched p.chan h t a)
    (same : wt.count = wb.count) (tres : wt.size = sizeofMhiTre) (fits : ∀ i, ∀ q ∈ (script i).calls, q.len ≤ mhiMaxMtu)
    (code : isXferCode ev.getEvCode = true) (named : ev.getEvPtr = place wt bus n) (ahead : h ≤ n) (had : n < fetched.length)
    (ran : parseXferEvent ev script p = some p') : ∃ t' a', Flow wt wb bus fetched p'.chan (n+1) t' a' := by
  have spans := flow.order.fifo.tre.spans
  have cell : mhiToVirtual p.chan.treRing ev.getEvPtr = wt.slot n := by
    rw [named,place,← flow.told.1,← spans.base]
    exact Ring.toVirtualSlot spans n
  unfold parseXferEvent at ran
  rw [if_neg (by simp [flow.enabled]),if_pos code] at ran
  simp only [cell,afterCell spans tres] at ran
  exact flow.xferLoop same fits rfl (by omega) had ran

theorem fetch (flow : Flow wt wb bus fetched p.chan h t a) (more : place wt bus fetched.length ≠ p.chan.treRing.ctxtWp) :
    Flow wt wb bus (fetched ++ [p.chan.treMem (mhiToVirtual p.chan.treRing (place wt bus fetched.length))]) p.chan h t a := by
  obtain ⟨order,handed,enabled,⟨bused,told⟩,behind,taken,known,kept⟩ := flow
  have spans := order.fifo.tre.spans
  have cell : mhiToVirtual p.chan.treRing (place wt bus fetched.length) = wt.slot fetched.length := by
    rw [place,← bused,← spans.base]
    exact Ring.toVirtualSlot spans _
  have apart : fetched.length ≠ a := by
    intro same
    exact more (by rw [told,same])
  refine ⟨order,handed,enabled,⟨bused,told⟩,?_,?_,known,?_⟩
  · simp
    omega
  · simp
    omega
  · rw [cell,List.length_append,List.length_singleton,wt.viewPush _ behind,kept,List.drop_append_of_le_length behind]

end Port
end Flow

structure Completes (wt : Window) (bus c n : Nat) (ev : MhiTre) : Prop where
  chid : ev.getEvChid = c
  kind : ev.getEvType = PktType.txEvent
  code : isXferCode ev.getEvCode = true
  named : ev.getEvPtr = place wt bus n

inductive Waiting (wt : Window) (bus c : Nat) : List MhiTre → Nat → Nat → Prop where
  | done (h : Nat) : Waiting wt bus c [] h h
  | mine {ev rest h n last} (ahead : h ≤ n) (names : Completes wt bus c n ev) (more : Waiting wt bus c rest (n+1) last) :
      Waiting wt bus c (ev::rest) h last
  | other {ev rest h last} (foreign : Foreign c ev) (more : Waiting wt bus c rest h last) : Waiting wt bus c (ev::rest) h last

namespace Waiting
variable {wt : Window} {bus c h last : Nat} {l : List MhiTre}

theorem ordered (waits : Waiting wt bus c l h last) : h ≤ last := by
  induction waits with
  | done => exact Nat.le_refl _
  | mine ahead _ _ ih => omega
  | other _ _ ih => exact ih

theorem finish {n : Nat} {ev : MhiTre} (waits : Waiting wt bus c l h last) (low : last ≤ n) (names : Completes wt bus c n ev) :
    Waiting wt bus c (l++[ev]) h (n+1) := by
  induction waits with
  | done h => exact .mine low names (.done _)
  | mine ahead first _ ih => exact .mine ahead first (ih low)
  | other foreign _ ih => exact .other foreign (ih low)

theorem report {ev : MhiTre} (waits : Waiting wt bus c l h last) (foreign : Foreign c ev) :
    Waiting wt bus c (l++[ev]) h last := by
  induction waits with
  | done h => exact .other foreign (.done _)
  | mine ahead first _ ih => exact .mine ahead first ih
  | other first _ ih => exact .other first ih

end Waiting

/- The driver with its event rings, and the device: what it has taken from the transfer
ring, and how much of that it has reported. -/
structure Line where
  service : Service
  fetched : List MhiTre
  finished : Nat

def unread (s : Service) (e : Nat) : List MhiTre := (s.posted e).drop (s.examined e).length

/- While channel `c` is enabled and its completions go to ring `e`. -/
inductive Step (wt : Window) (bus c e : Nat) : Line → Line → Prop where
  | call {l} (q : QueueReq) (fits : q.len ≤ mhiMaxMtu) : Step wt bus c e l
      {l with service := l.service.withHost (l.service.host.setPort c (mhiQueue (l.service.host.port c) q).1)}
  | elsewhere {l} (h : Host) (chan : Rung (l.service.host.chans c) (h.chans c)) (max : h.maxChan = l.service.host.maxChan)
      (ring : h.events[e]? = l.service.host.events[e]?) : Step wt bus c e l {l with service := l.service.withHost h}
  | fetch {l} (more : place wt bus l.fetched.length ≠ (l.service.host.chans c).treRing.ctxtWp) : Step wt bus c e l
      {l with fetched := l.fetched ++
        [(l.service.host.chans c).treMem (mhiToVirtual (l.service.host.chans c).treRing (place wt bus l.fetched.length))]}
  | finish {l} (n : Nat) (ev : MhiEvent) (t : MhiTre) (found : l.service.host.events[e]? = some ev) (own : ev.offloadEv = false)
      (credit : ev.ctxtRp ≠ ev.ring.ctxtWp) (low : l.finished ≤ n) (had : n < l.fetched.length) (names : Completes wt bus c n t) :
      Step wt bus c e l ⟨(l.service.setEvent e (devicePost ev t)).post e t,l.fetched,n+1⟩
  | report {l} (i : Nat) (ev : MhiEvent) (t : MhiTre) (found : l.service.host.events[i]? = some ev) (own : ev.offloadEv = false)
      (credit : ev.ctxtRp ≠ ev.ring.ctxtWp) (foreign : i = e → Foreign c t) :
      Step wt bus c e l {l with service := (l.service.setEvent i (devicePost ev t)).post i t}
  | examine {l h} (i : Nat) (ev : MhiEvent) (p : Pass) (script : Nat → CbScript) (found : l.service.host.events[i]? = some ev)
      (busy : l.service.pass i = some p) (fresh : p.handled = false) (more : passEnds ev p = false)
      (fits : ∀ n, ∀ q ∈ (script n).calls, q.len ≤ mhiMaxMtu) (own : i ≠ e → Foreign c (ev.mem ev.ring.rp))
      (ran : processEvent l.service.host ev.dataType (ev.mem ev.ring.rp) script = some h) : Step wt bus c e l
      {l with service := ((l.service.withHost h).examine i (ev.mem ev.ring.rp)).setPass i (some
        {p with quota := if countsQuota l.service.host ev.dataType (ev.mem ev.ring.rp) then p.quota-1 else p.quota, handled := true})}
  | serve {l s} (step : ServiceStep Between l.service s) (still : ∀ i, s.posted i = l.service.posted i ∧
      s.examined i = l.service.examined i) : Step wt bus c e l {l with service := s}

structure Piped (wt wb we : Window) (bus c e : Nat) (l : Line) : Prop where
  soft : SoftAt we e l.service
  inside : c < l.service.host.maxChan
  had : l.finished ≤ l.fetched.length
  flows : ∃ h t a, Flow wt wb bus l.fetched (l.service.host.chans c) h t a ∧ Waiting wt bus c (unread l.service e) h l.finished

section Steps
variable {wt wb we : Window} {bus c e : Nat}

theorem softStays {s s' : Service} (soft : SoftAt we e s) (same : desk s' e = desk s e) : SoftAt we e s' := by
  obtain ⟨d,here,rest⟩ := soft
  exact ⟨d,same.trans here,rest⟩

theorem Piped.rung {l : Line} {s : Service} (piped : Piped wt wb we bus c e l) (soft : SoftAt we e s)
    (same : unread s e = unread l.service e) (kept : s.host.maxChan = l.service.host.maxChan ∧
      Rung (l.service.host.chans c) (s.host.chans c)) : Piped wt wb we bus c e {l with service := s} := by
  obtain ⟨-,inside,had,h,t,a,flow,waits⟩ := piped
  obtain ⟨a',flow'⟩ := flow.ofRung kept.2
  exact ⟨soft,kept.1 ▸ inside,had,h,t,a',flow',same ▸ waits⟩

end Steps

structure Account (wt : Window) (bus c e : Nat) (l : Line) : Prop where
  segments : ∃ reported owned announced held : List BufInfo,
    handed (l.service.host.chans c) ++ (reported ++ owned ++ announced ++ held).map BufInfo.cbBuf =
      (l.service.host.chans c).accepted ∧
    (handed (l.service.host.chans c)).length+reported.length = l.finished ∧
    List.Forall₂ Describes (l.fetched.drop l.finished) owned ∧
    (unread l.service e = [] → reported = []) ∧
    (place wt bus l.fetched.length = (l.service.host.chans c).treRing.ctxtWp ↔ announced = []) ∧
    ((l.service.host.chans c).treRing.ctxtWp = (l.service.host.chans c).treRing.db ↔ held = [])

structure Quiet (wt : Window) (bus c e : Nat) (l : Line) : Prop where
  unread : unread l.service e = []
  finished : l.finished = l.fetched.length
  fetched : place wt bus l.fetched.length = (l.service.host.chans c).treRing.ctxtWp
  announced : (l.service.host.chans c).treRing.ctxtWp = (l.service.host.chans c).treRing.db

theorem Account.quiet {wt : Window} {bus c e : Nat} {l : Line} (account : Account wt bus c e l) (quiet : Quiet wt bus c e l) :
    handed (l.service.host.chans c) = (l.service.host.chans c).accepted := by
  obtain ⟨reported,owned,announced,held,order,-,own,caught,taken,told⟩ := account.segments
  have none := caught quiet.unread
  have fetched := taken.mp quiet.fetched
  have rest := told.mp quiet.announced
  rw [quiet.finished,List.drop_length] at own
  cases own
  subst none fetched rest
  simpa using order

structure Opened (wt we : Window) (vz c e : Nat) (ch : Chan) (l : Line) : Prop where
  soft : SoftAt we e l.service
  inside : c < l.service.host.maxChan
  channel : ∃ p, Started wt vz ch p ∧ l.service.host.chans c = {p.chan with chState := .enabled}
  idle : l.fetched = [] ∧ l.finished = 0
  old : ∀ ev ∈ unread l.service e, Foreign c ev

namespace Sample
open Credit.Sample (ring script)

def wt : Window := treWindow 0x1000 4 fourElements
def host : Host := {Delivery.Sample.first.host with cntrl := idleCntrl, maxChan := 128, chans := fun _ => uplinkEnabled.chan}
def opened : Line := ⟨Delivery.Sample.first.withHost host,[],0⟩
def called : Line := {opened with service := opened.service.withHost (host.setPort 4 (mhiQueue (host.port 4) uplinkReq).1)}
def fetched : Line := {called with fetched := called.fetched ++
  [(called.service.host.chans 4).treMem (mhiToVirtual (called.service.host.chans 4).treRing (place wt 0x8000 called.fetched.length))]}
def finished : Line := ⟨(fetched.service.setEvent 0 (devicePost (ring 0 fetched.service) uplinkEvent)).post 0 uplinkEvent,fetched.fetched,1⟩
def pass : Pass := ⟨readPointer (ring 0 finished.service),(finished.service.posted 0).length,1,false⟩
def entered : Line := {finished with service := finished.service.setPass 0 (some pass)}
def after : Host := (processEvent entered.service.host .ctrl uplinkEvent script).getD host
def examined : Line := {entered with service :=
  ((entered.service.withHost after).examine 0 uplinkEvent).setPass 0 (some {pass with quota := 0, handled := true})}

theorem opens : Opened wt Delivery.Sample.window 0x4000 4 0 uplinkChan opened where
  soft := softStays (readyLent (e := 0) rfl Delivery.Sample.rests rfl rfl) rfl
  inside := by decide
  channel := ⟨uplinkPort,uplinkStarted,rfl⟩
  idle := ⟨rfl,rfl⟩
  old := fun ev inside => by
    have none : unread opened.service 0 = [] := rfl
    simp [none] at inside

theorem runs : Relation.ReflTransGen (Step wt 0x8000 4 0) opened examined := by
  have calls : Step wt 0x8000 4 0 opened called := .call uplinkReq (by decide)
  have fetches : Step wt 0x8000 4 0 called fetched := .fetch (by decide)
  have finishes : Step wt 0x8000 4 0 fetched finished :=
    .finish 0 (ring 0 fetched.service) uplinkEvent rfl rfl (by decide) (by decide)
    (by decide) ⟨by decide,by decide,by decide,by decide⟩
  have enters : Step wt 0x8000 4 0 finished entered :=
    .serve (.enter 0 (ring 0 finished.service) 1 rfl rfl rfl rfl) fun i => ⟨rfl,rfl⟩
  have examines : Step wt 0x8000 4 0 entered examined := .examine 0 (ring 0 entered.service) pass script rfl rfl rfl rfl
    (fun n q inside => by simp [script] at inside) (fun other => absurd rfl other) rfl
  exact ((((Relation.ReflTransGen.single calls).tail fetches).tail finishes).tail enters).tail examines

theorem rests : Quiet wt 0x8000 4 0 examined := ⟨rfl,rfl,by decide,by decide⟩

end Sample

end MhiHost.Pipeline
