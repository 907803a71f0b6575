import MhiHost.Queueing
import MhiHost.Events
import MhiHost.Fifo
import MhiHost.Runs

/-! Out-of-order completions. `parse_rsc_event` frees the local element its cookie names
and moves the transfer ring by one, while a queue call takes the local element at wp and
looks for space in the transfer ring alone. `live` lists the accepted buffers not yet
reported, oldest first, by their number among all accepted ones. -/
namespace MhiHost.RscRing
open Cyclic (Window)
open Queueing (reachesGenTre queueCall)
open Relation (ReflTransGen)

structure Live where
  seq : Nat
  cell : Nat
  cb : Nat
  len : Nat
  deriving DecidableEq, Repr

structure Rsc where
  port : Port
  count : Nat
  live : List Live
  clobbered : List Live
  reported : List (Live × MhiResult)

namespace Rsc

def start (p : Port) : Rsc := ⟨p,0,[],[],[]⟩

/- A queue call; what `mhi_gen_tre` writes over is noted. -/
def queue (s : Rsc) (q : QueueReq) : Rsc :=
  let out := mhiQueue s.port q
  {s with
    port := out.1
    count := if out.2 = none then s.count + 1 else s.count
    live := if out.2 = none then s.live ++ [⟨s.count,s.port.chan.bufRing.wp,q.cb,q.len⟩] else s.live
    clobbered := if reachesGenTre s.port q then
        s.clobbered ++ s.live.filter (fun e => e.cell = s.port.chan.bufRing.wp) else s.clobbered}

def queueAll (s : Rsc) (qs : List QueueReq) : Rsc := qs.foldl queue s

def rscResult (p : Port) (ev : MhiTre) : MhiResult :=
  let info := p.chan.bufMem (p.chan.bufRing.base + ev.getEvCookie)
  ⟨info.cbBuf,some p.chan.dir,min ev.getEvLen (info.len % 2 ^ 16),
    if ev.getEvCode = EvCc.overflow then some .eoverflow else none⟩

def report (s : Rsc) (ev : MhiTre) (e : Live) : Rsc :=
  {s with
    port := {s.port with chan := {s.port.chan with xferLog := s.port.chan.xferLog ++ [rscResult s.port ev]}}
    live := s.live.filter (fun x => x.seq ≠ e.seq)
    reported := s.reported ++ [(e,rscResult s.port ev)]}

def free (s : Rsc) (cell : Nat) : Rsc :=
  {s with port := {s.port with chan := {s.port.chan with
    treRing := mhiDelRingElement s.port.chan.treRing
    bufMem := Function.update s.port.chan.bufMem cell {s.port.chan.bufMem cell with used := false}}}}

def event (s : Rsc) (ev : MhiTre) (script : CbScript) (e : Live) : Rsc :=
  if s.port.chan.chState ≠ .enabled then s
  else ((s.report ev e).queueAll script.calls).free (s.port.chan.bufRing.base + ev.getEvCookie)

end Rsc

theorem queueAllPort (s : Rsc) (qs : List QueueReq) : (s.queueAll qs).port = queueAll s.port qs := by
  induction qs generalizing s with
  | nil => rfl
  | cons q rest ih => exact ih (s.queue q)

theorem eventPort (s : Rsc) (ev : MhiTre) (script : CbScript) (e : Live) :
    (s.event ev script e).port = parseRscEvent ev script s.port := by
  unfold Rsc.event parseRscEvent
  split
  · rfl
  · simp only [Rsc.free,queueAllPort]
    rfl

structure Intact (s : Rsc) : Prop where
  live : ∀ e ∈ s.live, (s.port.chan.bufMem e.cell).cbBuf = e.cb ∧ (s.port.chan.bufMem e.cell).len = e.len
  clobbered : s.clobbered = []
  reported : ∀ x ∈ s.reported, x.2.bufAddr = x.1.cb ∧ x.2.bytesXferd ≤ x.1.len

/- As many buffers accepted since some outstanding one, itself included, as the local ring
has elements. -/
def Lapped (s : Rsc) : Prop := ∃ e ∈ s.live, e.seq + s.port.chan.bufRing.elements ≤ s.count
instance (s) : Decidable (Lapped s) := by unfold Lapped; infer_instance

def Calls (may : Rsc → Prop) : Rsc → List QueueReq → Prop
  | _, [] => True
  | s, q :: rest => (reachesGenTre s.port q = true → may s) ∧ Calls may (s.queue q) rest

inductive Step (may : Rsc → Prop) : Rsc → Rsc → Prop where
  | queue {s} (q : QueueReq) (asked : reachesGenTre s.port q = true → may s) : Step may s (s.queue q)
  | event {s} (ev : MhiTre) (script : CbScript) (e : Live) (outstanding : e ∈ s.live)
      (named : s.port.chan.bufRing.base + ev.getEvCookie = e.cell) (asked : Calls may (s.report ev e) script.calls) :
      Step may s (s.event ev script e)
  | controller {s} (c : Cntrl) : Step may s {s with port := {s.port with cntrl := c}}
  | chState {s} (st : ChState) : Step may s {s with port := {s.port with chan := {s.port.chan with chState := st}}}

structure Started (p : Port) : Prop where
  ch : ∃ (ch : Chan) (vz : Nat), mhiInitChanCtxt ch (some vz) = (p.chan,none) ∧ 0 < ch.bufRing.elements ∧
    Allocated vz (sizeofMhiBufInfo * ch.bufRing.elements) ∧ ch.bufRing.iommuBase = 0

structure Inv (w : Window) (s : Rsc) : Prop where
  spans : s.port.chan.bufRing.Over w
  wp : s.port.chan.bufRing.wp = w.slot s.count
  cells : ∀ e ∈ s.live, e.cell = w.slot e.seq
  recent : ∀ e ∈ s.live, e.seq < s.count ∧ s.count ≤ e.seq + w.count
  intact : Intact s

section Steps
variable {w : Window} {s : Rsc}

theorem lappedIff (inv : Inv w s) : Lapped s ↔ ∃ e ∈ s.live, e.cell = s.port.chan.bufRing.wp := by
  constructor
  · rintro ⟨e,member,turn⟩
    rw [inv.spans.elements] at turn
    have recent := inv.recent e member
    have whole : s.count = e.seq + w.count := by omega
    exact ⟨e,member,by rw [inv.cells e member, inv.wp, whole, w.slotTurn]⟩
  · rintro ⟨e,member,same⟩
    rw [inv.cells e member, inv.wp] at same
    refine ⟨e,member,?_⟩
    have recent := inv.recent e member
    rw [inv.spans.elements]
    rcases Nat.lt_or_ge s.count (e.seq + w.count) with near | far
    · exact absurd same (w.slotApart recent.1 near)
    · exact far

theorem queueKept {q : QueueReq} (inv : Inv w s) (asked : reachesGenTre s.port q = true → ¬Lapped s) :
    (∀ e ∈ s.live, (s.queue q).port.chan.bufMem e.cell = s.port.chan.bufMem e.cell) ∧ (s.queue q).clobbered = [] := by
  have apart : reachesGenTre s.port q = true → ∀ e ∈ s.live, e.cell ≠ s.port.chan.bufRing.wp :=
    fun reached e member same => asked reached ((lappedIff inv).mpr ⟨e,member,same⟩)
  constructor
  · intro e member
    have mem := (queueCall s.port q).mem
    cases reached : reachesGenTre s.port q with
    | false =>
      rw [reached, if_neg Bool.false_ne_true] at mem
      exact congrFun mem e.cell
    | true =>
      rw [reached, if_pos rfl] at mem
      obtain ⟨b,_,_,written⟩ := mem
      refine (congrFun written e.cell).trans ?_
      exact Function.update_of_ne (apart reached e member) _ _
  · show (if reachesGenTre s.port q = true then _ else _) = _
    split
    · rename_i reached
      rw [inv.intact.clobbered, List.nil_append, List.filter_eq_nil_iff]
      intro e member same
      exact apart reached e member (of_decide_eq_true same)
    · exact inv.intact.clobbered

theorem refusedInv {q : QueueReq} {err : Errno} (inv : Inv w s) (asked : reachesGenTre s.port q = true → ¬Lapped s)
    (answer : (mhiQueue s.port q).2 = some err) : Inv w (s.queue q) := by
  obtain ⟨kept,unhurt⟩ := queueKept inv asked
  have ring := (queueCall s.port q).buf
  rw [answer, if_neg (fun none => nomatch none)] at ring
  have same : (s.queue q).live = s.live ∧ (s.queue q).count = s.count := by
    unfold Rsc.queue
    simp [answer]
  refine ⟨ring ▸ inv.spans,?_,?_,?_,⟨?_,unhurt,inv.intact.reported⟩⟩
  · rw [same.2]
    exact (congrArg Ring.wp ring).trans inv.wp
  · rw [same.1]
    exact inv.cells
  · rw [same.1, same.2]
    exact inv.recent
  · rw [same.1]
    intro x member
    rw [kept x member]
    exact inv.intact.live x member

theorem acceptedInv {q : QueueReq} (inv : Inv w s) (asked : reachesGenTre s.port q = true → ¬Lapped s)
    (answer : (mhiQueue s.port q).2 = none) : Inv w (s.queue q) := by
  obtain ⟨kept,unhurt⟩ := queueKept inv asked
  have call := queueCall s.port q
  have ring := call.buf
  have mem := call.mem
  have reached := call.passed answer
  rw [answer, if_pos rfl] at ring
  rw [reached, if_pos rfl] at mem
  obtain ⟨b,cb,len,written⟩ := mem
  have grown : (s.queue q).live = s.live ++ [⟨s.count,s.port.chan.bufRing.wp,q.cb,q.len⟩] ∧
      (s.queue q).count = s.count + 1 := by
    unfold Rsc.queue
    simp [answer]
  have each : ∀ {P : Live → Prop}, (∀ e ∈ s.live, P e) → P ⟨s.count,s.port.chan.bufRing.wp,q.cb,q.len⟩ →
      ∀ e ∈ (s.queue q).live, P e := by
    intro P old new e member
    rw [grown.1] at member
    rcases List.mem_append.mp member with before | last
    · exact old e before
    · rw [List.mem_singleton.mp last]
      exact new
  refine ⟨ring ▸ inv.spans.moved _ _ _ _,?_,each inv.cells inv.wp,each ?_ ?_,⟨each ?_ ?_,unhurt,inv.intact.reported⟩⟩
  · rw [grown.2, ← w.nextSlot, ← inv.wp, ← inv.spans.addWp]
    exact congrArg Ring.wp ring
  · intro e member
    have recent := inv.recent e member
    rw [grown.2]
    rcases Nat.lt_or_ge s.count (e.seq + w.count) with less | turn
    · omega
    · exact absurd ⟨e,member,by rw [inv.spans.elements]; exact turn⟩ (asked reached)
  · have counted := w.counted
    rw [grown.2]
    show s.count < s.count + 1 ∧ s.count + 1 ≤ s.count + w.count
    omega
  · intro e member
    rw [kept e member]
    exact inv.intact.live e member
  · have here : (s.queue q).port.chan.bufMem s.port.chan.bufRing.wp = b :=
      (congrFun written _).trans (Function.update_self ..)
    show ((s.queue q).port.chan.bufMem s.port.chan.bufRing.wp).cbBuf = q.cb ∧ _
    rw [here]
    exact ⟨cb,len⟩

theorem queueInv {q : QueueReq} (inv : Inv w s) (asked : reachesGenTre s.port q = true → ¬Lapped s) : Inv w (s.queue q) := by
  cases answer : (mhiQueue s.port q).2 with
  | none => exact acceptedInv inv asked answer
  | some err => exact refusedInv inv asked answer

theorem callsInv {qs : List QueueReq} (inv : Inv w s) (asked : Calls (fun s => ¬Lapped s) s qs) : Inv w (s.queueAll qs) := by
  induction qs generalizing s with
  | nil => exact inv
  | cons q rest ih => exact ih (queueInv inv asked.1) asked.2

theorem reportInv {ev : MhiTre} {e : Live} (inv : Inv w s) (outstanding : e ∈ s.live)
    (named : s.port.chan.bufRing.base + ev.getEvCookie = e.cell) : Inv w (s.report ev e) := by
  have fewer : ∀ x ∈ (s.report ev e).live, x ∈ s.live := fun x member => (List.mem_filter.mp member).1
  refine ⟨inv.spans,inv.wp,fun x member => inv.cells x (fewer x member),fun x member => inv.recent x (fewer x member),
    ⟨fun x member => inv.intact.live x (fewer x member),inv.intact.clobbered,?_⟩⟩
  intro x member
  rcases List.mem_append.mp member with before | last
  · exact inv.intact.reported x before
  · obtain ⟨cb,len⟩ := inv.intact.live e outstanding
    rw [List.mem_singleton.mp last]
    show (s.port.chan.bufMem (s.port.chan.bufRing.base + ev.getEvCookie)).cbBuf = e.cb ∧
      min ev.getEvLen ((s.port.chan.bufMem (s.port.chan.bufRing.base + ev.getEvCookie)).len % 2 ^ 16) ≤ e.len
    rw [named, cb, len]
    exact ⟨rfl,Nat.le_trans (Nat.min_le_right _ _) (Nat.mod_le _ _)⟩

theorem freeInv (inv : Inv w s) (cell : Nat) : Inv w (s.free cell) := by
  refine ⟨inv.spans,inv.wp,inv.cells,inv.recent,⟨?_,inv.intact.clobbered,inv.intact.reported⟩⟩
  intro e member
  have stands := inv.intact.live e member
  show (Function.update s.port.chan.bufMem cell _ e.cell).cbBuf = e.cb ∧
      (Function.update s.port.chan.bufMem cell _ e.cell).len = e.len
  rcases Decidable.eq_or_ne e.cell cell with rfl | other
  · rw [Function.update_self]
    exact stands
  · rw [Function.update_of_ne other]
    exact stands

theorem stepInv {s' : Rsc} (step : Step (fun s => ¬Lapped s) s s') (inv : Inv w s) : Inv w s' := by
  cases step with
  | queue q asked => exact queueInv inv asked
  | event ev script e outstanding named asked =>
    unfold Rsc.event
    split
    · exact inv
    · exact freeInv (callsInv (reportInv inv outstanding named) asked) _
  | controller c => exact ⟨inv.spans,inv.wp,inv.cells,inv.recent,⟨inv.intact.live,inv.intact.clobbered,inv.intact.reported⟩⟩
  | chState st => exact ⟨inv.spans,inv.wp,inv.cells,inv.recent,⟨inv.intact.live,inv.intact.clobbered,inv.intact.reported⟩⟩

end Steps

theorem startInv {p : Port} (started : Started p) : ∃ w, Inv w (Rsc.start p) := by
  obtain ⟨ch,vz,init,filled,block,bus⟩ := started.ch
  have chan : (mhiInitChanCtxt ch (some vz)).1 = p.chan := congrArg Prod.fst init
  let w : Window := ⟨vz,sizeofMhiBufInfo,ch.bufRing.elements,by decide,filled⟩
  have spans : (mhiInitChanCtxt ch (some vz)).1.bufRing.Over w := by
    refine ⟨rfl,rfl,rfl,rfl,block.1,block.2,?_⟩
    have bound := block.2
    show ch.bufRing.iommuBase + sizeofMhiBufInfo * ch.bufRing.elements ≤ wordSpan
    omega
  have wp : (mhiInitChanCtxt ch (some vz)).1.bufRing.wp = w.slot 0 := by
    show vz = vz + 0 % ch.bufRing.elements * sizeofMhiBufInfo
    rw [Nat.zero_mod, Nat.zero_mul, Nat.add_zero]
  rw [chan] at spans wp
  exact ⟨w,spans,wp,(fun e member => nomatch member),(fun e member => nomatch member),
    ⟨(fun e member => nomatch member),rfl,(fun x member => nomatch member)⟩⟩

/- In every run in which no queue call that gets to `mhi_gen_tre` finds the local ring
lapped, every state is intact; and there such a call would write over a live buffer
exactly if it did. -/
theorem liveBuffersIntact {p : Port} {s : Rsc} (started : Started p)
    (run : ReflTransGen (Step fun s => ¬Lapped s) (Rsc.start p) s) :
    Intact s ∧ ∀ q, reachesGenTre s.port q = true → ((s.queue q).clobbered ≠ [] ↔ Lapped s) := by
  obtain ⟨w,inv⟩ := startInv started
  have kept : Inv w s := Runs.keeps (fun _ _ step inv => stepInv step inv) run inv
  refine ⟨kept.intact,?_⟩
  intro q reached
  have written : (s.queue q).clobbered = s.live.filter (fun e => e.cell = s.port.chan.bufRing.wp) := by
    show (if reachesGenTre s.port q = true then _ else _) = _
    rw [if_pos reached, kept.intact.clobbered, List.nil_append]
  rw [written, lappedIff kept]
  simp [List.filter_eq_nil_iff]

namespace Sample

def config : ChannelConfig := ⟨"IP_HW0",101,4,0,0,.fromDevice,ExecEnv.amss.bit,some .disable,false,false,false⟩
def chan : Chan :=
  {(configureChan 128 config).getD Chan.zero with
    treRing := layRing ((configureChan 128 config).getD Chan.zero).treRing 0x1000 0x8000}
def cntrl : Cntrl := ⟨.m0,dbAccessOf false,.amss,.m0,0,0,0,false,false,mhiMaxMtu,0,[]⟩
def port : Port := ⟨cntrl,(mhiInitChanCtxt chan (some 0x4000)).1⟩
def enabled : Port := {port with chan := {port.chan with chState := .enabled}}
def skb (cb : Nat) : QueueReq := ⟨.skb (cb + 0x20),cb,100,MhiFlags.eot,⟨0x9000,0,true⟩⟩
def done (cell : Nat) : MhiTre := ⟨cell * sizeofMhiBufInfo,EvCc.eot <<< 24 ||| 100,101 <<< 24 ||| PktType.rscTxEvent <<< 16⟩
def quiet : CbScript := ⟨[],⟨0,0,false⟩⟩
def live (seq cb : Nat) : Live := ⟨seq,0x4000 + seq * sizeofMhiBufInfo,cb,100⟩

theorem started : Started port := ⟨chan,0x4000,rfl,by decide,by decide,rfl⟩

def opened : Rsc := Rsc.start enabled
def filled : Rsc := ((opened.queue (skb 0x10)).queue (skb 0x11)).queue (skb 0x12)
def third : Rsc := (filled.event (done 2) quiet (live 2 0x12)).queue (skb 0x13)
def fourth : Rsc := (third.event (done 3) quiet (live 3 0x13)).queue (skb 0x14)
def inTurn : Rsc := (third.event (done 0) quiet (live 0 0x10)).queue (skb 0x14)

theorem runThird (may : Rsc → Prop) (asked : may opened ∧ may (opened.queue (skb 0x10)) ∧
    may ((opened.queue (skb 0x10)).queue (skb 0x11)) ∧ may (filled.event (done 2) quiet (live 2 0x12))) :
    ReflTransGen (Step may) (Rsc.start port) third := by
  have begun : ReflTransGen (Step may) (Rsc.start port) opened := .single (.chState .enabled)
  have queued := ((begun.tail (.queue (skb 0x10) fun _ => asked.1)).tail (.queue (skb 0x11) fun _ => asked.2.1)).tail
    (.queue (skb 0x12) fun _ => asked.2.2.1)
  exact (queued.tail (.event (done 2) quiet (live 2 0x12) (by decide) rfl trivial)).tail
    (.queue (skb 0x13) fun _ => asked.2.2.2)

end Sample

theorem overtakenIntact : ∃ s, ReflTransGen (Step fun s => ¬Lapped s) (Rsc.start Sample.port) s ∧
    s.live.map Live.cb = [0x11,0x13,0x14] ∧ Intact s := by
  have third := Sample.runThird (fun s => ¬Lapped s) ⟨by decide,by decide,by decide,by decide⟩
  have turn := (third.tail (.event (Sample.done 0) Sample.quiet (Sample.live 0 0x10) (by decide) rfl trivial)).tail
    (.queue (Sample.skb 0x14) fun _ => by decide)
  exact ⟨Sample.inTurn,turn,by decide,(liveBuffersIntact Sample.started turn).1⟩

theorem firstOverwritten : Started Sample.port ∧ ∃ s, ReflTransGen (Step fun _ => True) (Rsc.start Sample.port) s ∧
    Sample.live 0 0x10 ∈ s.live ∧ (s.port.chan.bufMem (Sample.live 0 0x10).cell).cbBuf = 0x14 ∧ ¬Intact s := by
  have third := Sample.runThird (fun _ => True) ⟨trivial,trivial,trivial,trivial⟩
  have fourth := (third.tail (.event (Sample.done 3) Sample.quiet (Sample.live 3 0x13) (by decide) rfl trivial)).tail
    (.queue (Sample.skb 0x14) fun _ => trivial)
  refine ⟨Sample.started,Sample.fourth,fourth,by decide,by decide,fun intact => ?_⟩
  have first := intact.live (Sample.live 0 0x10) (by decide)
  exact absurd first.1 (by decide)

end MhiHost.RscRing
