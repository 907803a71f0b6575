import MhiHost.NetRing
import MhiHost.TransferFifo

/-! Stopping and waking the transmit queue, for `mhi_net.c` and `mhi_net_mbim.c`. The core
makes one transmit call at a time; completions come between any two steps of it. `calls`
are the completions whose callback has not looked at the queue yet: such a TRE is off the
ring and still counts as one that will wake it. -/
namespace MhiHost.TxQueue
open NetRing
open TransferFifo (uplinkPort uplinkReq uplinkChan uplinkStarted)
open Relation (ReflTransGen)

inductive Driver where
  | mhiNet | mhiNetMbim
  deriving DecidableEq, Repr

/- Where a transmit call stands. `held`: it has stopped the queue itself, for the last
descriptor, and so many TREs were outstanding then. -/
inductive Pc where
  | idle
  | entered
  | counted (noTre : Int)
  | fixing (held : Option Nat)
  | queueing (held : Option Nat)
  | failed
  deriving DecidableEq, Repr

namespace Pc

def held : Pc → Option Nat
  | fixing held | queueing held => held
  | _ => none

def alone (pc : Pc) : Bool := pc.held == some 0

def stopping : Pc → Bool
  | counted noTre => decide (noTre = 0)
  | failed => true
  | _ => false

end Pc

structure Tx where
  port : Port
  up : Bool
  halt : Bool
  stopped : Bool
  pc : Pc
  calls : Nat

namespace Tx

def start (p : Port) : Tx := ⟨p,false,false,false,.idle,0⟩
def go (s : Tx) (pc : Pc) : Tx := {s with pc := pc}
def stopQueue (s : Tx) : Tx := {s with stopped := true}

def mhiNetUlCallback (s : Tx) : Tx :=
  {s with calls := s.calls - 1, stopped := if s.stopped then false else s.stopped}

def underWay (s : Tx) : Nat := outstanding s.port + s.calls

def stopForCount (s : Tx) (noTre : Int) : Tx :=
  if noTre = 0 then s.stopQueue.go .idle
  else if noTre = 1 then s.stopQueue.go (.fixing (some s.underWay))
  else s.go (.fixing none)

/- Which errors of `mhi_queue_skb` stop the queue; `mhi_ndo_xmit` drops the frame on any
other. -/
def queue (s : Tx) (d : Driver) (q : QueueReq) : Tx :=
  let out := mhiQueue s.port q
  let s := {s with port := out.1}
  match out.2,d with
  | none,_ => s.go .idle
  | some _,.mhiNet => s.go .failed
  | some err,.mhiNetMbim => if err = .enomem then s.go .failed else s.go .idle

end Tx

inductive Completion (may : Tx → Prop) : Tx → Tx → Prop where
  | retired {s} (r : MhiResult) (some : 0 < outstanding s.port) :
      Completion may s {s with port := retire s.port r, calls := s.calls + 1}
  | called {s} (due : 0 < s.calls) (asked : may s) : Completion may s s.mhiNetUlCallback

/- What can strand a queue: a callback looks at it before the stop that is under way, a frame
is rejected behind the stop for the last descriptor, a frame fails to be queued, and a ring
of one element takes none at all. -/
inductive Risk where
  | looks
  | rejects (left : Nat)
  | fails (q : QueueReq)
  | opens (p : Port)

inductive Step (may : Risk → Tx → Prop) (d : Driver) : Tx → Tx → Prop where
  | halted {s} (net : d = .mhiNet) (idle : s.pc = .idle) (halt : s.halt = true) : Step may d s s
  | enter {s} (net : d = .mhiNet) (idle : s.pc = .idle) (running : s.halt = false) : Step may d s (s.go .entered)
  | count {s} (net : d = .mhiNet) (here : s.pc = .entered) : Step may d s (s.go (.counted (mhiGetFreeDescCount s.port)))
  | stop {s noTre} (net : d = .mhiNet) (here : s.pc = .counted noTre) : Step may d s (s.stopForCount noTre)
  | enterMbim {s} (mbim : d = .mhiNetMbim) (idle : s.pc = .idle) : Step may d s (s.go (.fixing none))
  | fixup {s held} (here : s.pc = .fixing held) : Step may d s (s.go (.queueing held))
  | drop {s held} (here : s.pc = .fixing held)
      (asked : ∀ left, held = some left → may (.rejects left) s) : Step may d s (s.go .idle)
  | queue {s held} (q : QueueReq) (here : s.pc = .queueing held) (frame : ∃ data, q.payload = .skb data)
      (asked : may (.fails q) s) :
      Step may d s (s.queue d q)
  | fail {s} (here : s.pc = .failed) : Step may d s (s.stopQueue.go .idle)
  | completion {s s'} (step : Completion (may .looks) s s') : Step may d s s'
  | isOpen {s} (p : Port) (idle : s.pc = .idle) (ring : p = s.port ∨ Prepared p) (asked : may (.opens p) s) :
      Step may d s {s with port := p, up := true, stopped := false}
  | close {s} (idle : s.pc = .idle) : Step may d s {s with up := false, stopped := true}
  | halt {s} : Step may d s {s with halt := true}
  | controller {s} (c : Cntrl) : Step may d s {s with port := {s.port with cntrl := c}}

def Covered (s : Tx) : Prop := 0 < s.underWay
instance (s) : Decidable (Covered s) := by unfold Covered; infer_instance

def Waking (s : Tx) : Prop :=
  s.pc = .idle → s.up = true → s.stopped = true →
    Covered s ∧ ∃ s', ReflTransGen (Completion fun _ => True) s s' ∧ s'.stopped = false

def refused (d : Driver) (p : Port) (q : QueueReq) : Bool :=
  match d with
  | .mhiNet => p.chan.preAlloc || mhiPmInErrorState p.cntrl.pmState || !q.reply.ok
  | .mhiNetMbim => !p.chan.preAlloc && !mhiPmInErrorState p.cntrl.pmState && !q.reply.ok

/- The condition, while the interface is up. The last TRE's callback does not look at the queue
between the decision to stop it and the stop; `tx_fixup` rejects no frame for which the
queue was stopped over an empty ring; and what fails for another reason than a full ring
fails while something is outstanding. -/
def May (d : Driver) : Risk → Tx → Prop
  | .looks,s => s.up = true → s.pc.stopping = true → 1 < s.underWay
  | .rejects left,s => s.up = true → left ≠ 0
  | .fails q,s => s.up = true → refused d s.port q = true → mhiIsRingFull s.port.chan.treRing = false → 0 < s.underWay
  | .opens p,_ => 1 < p.chan.treRing.elements

structure Inv (d : Driver) (s : Tx) : Prop where
  ring : Ringed s.port
  wide : s.up = true → 1 < s.port.chan.treRing.elements
  covered : s.up = true → s.stopped = true → Covered s ∨ s.pc.alone = true
  due : s.up = true → s.pc.stopping = true → Covered s
  plain : d = .mhiNetMbim → s.pc.held = none

section Steps
variable {d : Driver} {s s' : Tx}

theorem fullCovered (ring : Ringed s.port) (wide : 1 < s.port.chan.treRing.elements)
    (full : mhiIsRingFull s.port.chan.treRing = true ∨ mhiGetFreeDescCount s.port = 0) : Covered s := by
  obtain ⟨w,h,t,held⟩ := ring
  have count : s.port.chan.treRing.elements = w.count := held.spans.elements
  have ordered := held.ordered
  have tight : t + 1 = h + w.count := by
    rcases full with full | none
    · exact (Ring.fullIff held).mp full
    · have free : mhiGetFreeDescCount s.port = (h + w.count - 1 - t : Nat) := Ring.availOf held
      have room := held.room
      omega
  have some := outstandingOf held
  unfold Covered Tx.underWay
  omega

theorem failsFull {q : QueueReq} {err : Errno} (frame : ∃ data, q.payload = .skb data) (failed : (mhiQueue s.port q).2 = some err)
    (stops : d = .mhiNet ∨ err = .enomem) : mhiIsRingFull s.port.chan.treRing = true ∨ refused d s.port q = true := by
  obtain ⟨data,skb⟩ := frame
  unfold mhiQueue mhiQueueSkb queueLocked at failed
  rw [skb] at failed
  dsimp only at failed
  cases own : s.port.chan.preAlloc with
  | true =>
    rw [own,if_pos rfl] at failed
    cases failed
    obtain rfl := stops.resolve_right nofun
    exact .inr (by rw [refused,own]; rfl)
  | false =>
    rw [own,if_neg Bool.false_ne_true] at failed
    cases full : mhiIsRingFull s.port.chan.treRing with
    | true => exact .inl rfl
    | false =>
      rw [full,if_neg Bool.false_ne_true] at failed
      refine .inr ?_
      cases error : mhiPmInErrorState s.port.cntrl.pmState with
      | true =>
        rw [error,if_pos rfl] at failed
        cases failed
        obtain rfl := stops.resolve_right nofun
        rw [refused,own,error]
        rfl
      | false =>
        rw [error,if_neg Bool.false_ne_true] at failed
        have unmapped : q.reply.ok = false := by
          refine Bool.eq_false_iff.mpr fun ok => ?_
          have maps := Queueing.genTreFails (p := {s.port with cntrl := wakeToggle (resumeIfSuspended s.port.cntrl)})
            {BufInfo.zero with vAddr := data, cbBuf := q.cb, len := q.len} q.flags q.reply
          rw [ok,Bool.or_true,if_pos rfl] at maps
          split at failed
          · rename_i ran
            rw [ran] at maps
            cases maps
          · cases failed
        cases d <;> simp [refused,own,error,unmapped]

theorem goInv {pc : Pc} (inv : Inv d s) (alone : s.pc.alone = true → pc.alone = true)
    (due : s.up = true → pc.stopping = true → Covered s)
    (plain : d = .mhiNetMbim → pc.held = none) : Inv d (s.go pc) :=
  ⟨inv.ring,inv.wide,fun up stopped => (inv.covered up stopped).imp_right alone,due,plain⟩

theorem idleInv (inv : Inv d s) (covered : s.up = true → s.stopped = true → Covered s) : Inv d (s.go .idle) :=
  ⟨inv.ring,inv.wide,fun up stopped => .inl (covered up stopped),nofun,fun _ => rfl⟩

theorem stoppedInv (inv : Inv d s) (here : s.pc.stopping = true) : Inv d (s.stopQueue.go .idle) :=
  ⟨inv.ring,inv.wide,fun up _ => .inl (inv.due up here),nofun,fun _ => rfl⟩

theorem notAlone (inv : Inv d s) (fine : s.pc.alone = false) (up : s.up = true) (stopped : s.stopped = true) : Covered s := by
  rcases inv.covered up stopped with covered | alone
  · exact covered
  · rw [fine] at alone
    cases alone

theorem countInv (inv : Inv d s) (here : s.pc = .entered) : Inv d (s.go (.counted (mhiGetFreeDescCount s.port))) := by
  refine goInv inv (fun alone => ?_) (fun up full => ?_) fun _ => rfl
  · rw [here] at alone
    cases alone
  · exact fullCovered inv.ring (inv.wide up) (.inr (of_decide_eq_true full))

theorem stopForCountInv {noTre : Int} (inv : Inv .mhiNet s) (here : s.pc = .counted noTre) :
    Inv .mhiNet (s.stopForCount noTre) := by
  unfold Tx.stopForCount
  split
  · rename_i full
    refine stoppedInv inv ?_
    rw [here]
    exact decide_eq_true full
  · split
    · refine ⟨inv.ring,inv.wide,fun up _ => ?_,nofun,nofun⟩
      rcases Nat.eq_zero_or_pos s.underWay with none | some
      · refine .inr ?_
        show (some s.underWay == some 0) = true
        rw [none]
        rfl
      · exact .inl some
    · refine goInv inv (fun alone => ?_) nofun nofun
      rw [here] at alone
      cases alone

theorem queueInv {q : QueueReq} (inv : Inv d s)
    (frame : ∃ data, q.payload = .skb data) (asked : May d (.fails q) s) : Inv d (s.queue d q) := by
  obtain ⟨ring,level⟩ := queueRing q inv.ring
  have wide : s.up = true → 1 < (mhiQueue s.port q).1.chan.treRing.elements := by
    rw [queueElements]
    exact inv.wide
  have stays {err : Errno} (failed : (mhiQueue s.port q).2 = some err) :
      Covered s → 0 < outstanding (mhiQueue s.port q).1 + s.calls := by
    rw [failed,if_neg (fun none => nomatch none)] at level
    rw [level]
    exact id
  -- a frame that fails to be queued, and for which the queue is stopped
  have stops {err : Errno} (failed : (mhiQueue s.port q).2 = some err) (cause : d = .mhiNet ∨ err = .enomem) (up : s.up = true) :
      0 < outstanding (mhiQueue s.port q).1 + s.calls := by
    refine stays failed ?_
    cases full : mhiIsRingFull s.port.chan.treRing with
    | true => exact fullCovered inv.ring (inv.wide up) (.inl full)
    | false =>
      have refuses := (failsFull frame failed cause).resolve_left (Bool.eq_false_iff.mp full)
      exact asked up refuses full
  cases answer : (mhiQueue s.port q).2 with
  | none =>
    rw [answer,if_pos rfl] at level
    simp only [Tx.queue,answer]
    refine ⟨ring,wide,fun _ _ => .inl ?_,nofun,fun _ => rfl⟩
    show 0 < outstanding (mhiQueue s.port q).1 + s.calls
    omega
  | some err =>
    cases d with
    | mhiNet =>
      simp only [Tx.queue,answer]
      exact ⟨ring,wide,fun up _ => .inl (stops answer (.inl rfl) up),fun up _ => stops answer (.inl rfl) up,fun _ => rfl⟩
    | mhiNetMbim =>
      have fine : s.pc.alone = false := by
        rw [Pc.alone,inv.plain rfl]
        rfl
      simp only [Tx.queue,answer]
      split
      · rename_i enomem
        exact ⟨ring,wide,fun up _ => .inl (stops answer (.inr enomem) up),fun up _ => stops answer (.inr enomem) up,fun _ => rfl⟩
      · exact ⟨ring,wide,fun up stopped => .inl (stays answer (notAlone inv fine up stopped)),nofun,fun _ => rfl⟩

theorem completionInv (step : Completion (May d .looks) s s') (inv : Inv d s) : Inv d s' := by
  cases step with
  | retired r some =>
    obtain ⟨ring,level⟩ := retireRing r inv.ring some
    have same : 0 < s.underWay → 0 < outstanding (retire s.port r) + (s.calls + 1) := fun _ => by omega
    exact ⟨ring,inv.wide,fun up stopped => (inv.covered up stopped).imp_left same,fun up here => same (inv.due up here),inv.plain⟩
  | called due asked =>
    refine ⟨inv.ring,inv.wide,fun _ stopped => ?_,fun up here => ?_,inv.plain⟩
    · simp [Tx.mhiNetUlCallback] at stopped
    · have more : 1 < outstanding s.port + s.calls := asked up here
      show 0 < outstanding s.port + (s.calls - 1)
      omega

theorem stepInv (step : Step (May d) d s s') (inv : Inv d s) : Inv d s' := by
  cases step with
  | halted net idle halt => exact inv
  | enter net idle running => exact goInv inv (fun alone => by rw [idle] at alone; exact alone) nofun fun _ => rfl
  | count net here => exact countInv inv here
  | stop net here =>
    subst net
    exact stopForCountInv inv here
  | enterMbim mbim idle => exact goInv inv (fun alone => by rw [idle] at alone; exact alone) nofun fun _ => rfl
  | @fixup held here =>
    refine goInv inv (fun alone => by rw [here] at alone; exact alone) nofun fun mbim => ?_
    have plain := inv.plain mbim
    rw [here] at plain
    exact plain
  | @drop held here asked =>
    refine idleInv inv fun up stopped => (inv.covered up stopped).resolve_right fun alone => ?_
    rw [here] at alone
    exact asked 0 (beq_iff_eq.mp alone) up rfl
  | queue q here frame asked => exact queueInv inv frame asked
  | fail here => exact stoppedInv inv (by rw [here]; rfl)
  | completion step => exact completionInv step inv
  | isOpen p idle ring asked =>
    refine ⟨?_,fun _ => asked,(fun _ stopped => nomatch stopped),fun _ here => ?_,inv.plain⟩
    · rcases ring with same | prepared
      · rw [same]
        exact inv.ring
      · exact (preparedRing prepared).1
    · have here : s.pc.stopping = true := here
      rw [idle] at here
      cases here
  | close idle => exact ⟨inv.ring,(fun up => nomatch up),(fun up => nomatch up),(fun up => nomatch up),inv.plain⟩
  | halt => exact ⟨inv.ring,inv.wide,inv.covered,inv.due,inv.plain⟩
  | controller c => exact ⟨inv.ring,inv.wide,inv.covered,inv.due,inv.plain⟩

end Steps

theorem completes {s : Tx} (covered : Covered s) : ∃ s', ReflTransGen (Completion fun _ => True) s s' ∧ s'.stopped = false := by
  have woken : ∀ s : Tx, s.mhiNetUlCallback.stopped = false := by
    intro s
    simp [Tx.mhiNetUlCallback]
  rcases Nat.eq_zero_or_pos s.calls with none | due
  · have some : 0 < outstanding s.port := by
      unfold Covered Tx.underWay at covered
      omega
    have retired : Completion (fun _ => True) s _ := .retired ⟨0,Option.none,0,Option.none⟩ some
    exact ⟨_,(ReflTransGen.single retired).tail (.called (Nat.succ_pos _) trivial),woken _⟩
  · exact ⟨_,.single (.called due trivial),woken _⟩

theorem stoppedWakes {d : Driver} {p : Port} {s : Tx} (prepared : Prepared p)
    (run : ReflTransGen (Step (May d) d) (Tx.start p) s) : Waking s := by
  have start : Inv d (Tx.start p) := ⟨(preparedRing prepared).1,nofun,(fun up => nomatch up),nofun,fun _ => rfl⟩
  have kept := Runs.keeps (I := Inv d) (fun _ _ step inv => stepInv step inv) run start
  intro idle up stopped
  have covered := notAlone kept (by rw [idle]; rfl) up stopped
  exact ⟨covered,completes covered⟩

namespace Sample

def opened : Tx := {Tx.start uplinkPort with up := true}

def counts (s : Tx) : Tx := (s.go .entered).go (.counted (mhiGetFreeDescCount s.port))
def fixes (s : Tx) (held : Option Nat) : Tx := ((counts s).stopForCount (mhiGetFreeDescCount s.port)).go (.queueing held)
def sends (s : Tx) (held : Option Nat) : Tx := (fixes s held).queue .mhiNet uplinkReq
def full : Tx := sends (sends (sends opened none) none) (some 2)

def unmappable : QueueReq := {uplinkReq with reply := ⟨0,0,false⟩}
def unmapped : Tx := ((fixes opened none).queue .mhiNet unmappable).stopQueue.go .idle
def unmappedMbim : Tx := (((opened.go (.fixing none)).go (.queueing none)).queue .mhiNetMbim unmappable).stopQueue.go .idle

theorem prepared : Prepared uplinkPort := ⟨_,uplinkChan,0x4000,uplinkStarted.config.laid,rfl⟩

theorem opens {may : Risk → Tx → Prop} {d : Driver} (asked : may (.opens uplinkPort) (Tx.start uplinkPort)) :
    ReflTransGen (Step may d) (Tx.start uplinkPort) opened :=
  .single (.isOpen uplinkPort rfl (.inl rfl) asked)

theorem fixed {may : Risk → Tx → Prop} {s : Tx} {held : Option Nat} (idle : s.pc = .idle) (running : s.halt = false)
    (last : ((counts s).stopForCount (mhiGetFreeDescCount s.port)).pc = .fixing held) :
    ReflTransGen (Step may .mhiNet) s (fixes s held) :=
  (((ReflTransGen.single (.enter rfl idle running)).tail (.count rfl rfl)).tail (.stop rfl rfl)).tail (.fixup last)

theorem sent {s : Tx} {held : Option Nat} (idle : s.pc = .idle) (running : s.halt = false)
    (last : ((counts s).stopForCount (mhiGetFreeDescCount s.port)).pc = .fixing held)
    (mapped : refused .mhiNet (fixes s held).port uplinkReq = false) :
    ReflTransGen (Step (May .mhiNet) .mhiNet) s (sends s held) :=
  (fixed idle running last).tail (.queue uplinkReq rfl ⟨_,rfl⟩ fun _ fails => absurd fails (Bool.eq_false_iff.mp mapped))

theorem opensWide : May .mhiNet (.opens uplinkPort) (Tx.start uplinkPort) := show 1 < uplinkPort.chan.treRing.elements by decide

theorem fills : ReflTransGen (Step (May .mhiNet) .mhiNet) (Tx.start uplinkPort) full :=
  (((opens opensWide).trans (sent rfl rfl (by decide) (by decide))).trans (sent rfl rfl (by decide) (by decide))).trans
    (sent rfl rfl (by decide) (by decide))

theorem fails : ReflTransGen (Step (fun _ _ => True) .mhiNet) (Tx.start uplinkPort) unmapped :=
  (((opens trivial).trans (fixed rfl rfl (by decide))).tail (.queue unmappable rfl ⟨_,rfl⟩ trivial)).tail (.fail (by decide))

theorem failsMbim : ReflTransGen (Step (fun _ _ => True) .mhiNetMbim) (Tx.start uplinkPort) unmappedMbim :=
  ((((opens trivial).tail (.enterMbim rfl rfl)).tail (.fixup rfl)).tail (.queue unmappable rfl ⟨_,rfl⟩ trivial)).tail
    (.fail (by decide))

end Sample

theorem fullRingWakes : Sample.full.stopped = true ∧ outstanding Sample.full.port = 3 ∧ Waking Sample.full :=
  ⟨by decide,by decide,stoppedWakes Sample.prepared Sample.fills⟩

theorem unmappedFrameStrands :
    (¬∀ s, ReflTransGen (Step (fun _ _ => True) .mhiNet) (Tx.start uplinkPort) s → Waking s) ∧
    ¬∀ s, ReflTransGen (Step (fun _ _ => True) .mhiNetMbim) (Tx.start uplinkPort) s → Waking s := by
  constructor
  · intro claim
    have covered := (claim _ Sample.fails (by decide) (by decide) (by decide)).1
    exact absurd covered (by decide)
  · intro claim
    have covered := (claim _ Sample.failsMbim (by decide) (by decide) (by decide)).1
    exact absurd covered (by decide)

end MhiHost.TxQueue
