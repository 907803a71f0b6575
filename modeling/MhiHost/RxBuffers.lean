import MhiHost.NetRing
import MhiHost.TransferFifo
import Mathlib.Data.List.Perm.Basic

/-! Where the receive skbs of `mhi_net.c` are. An skb is named by its allocation number.
`rx_alloc_submit` may run several times at once (from the open, the poll and the refill
work); each run is a position of its own. The napi context and the work are stopped before
the channel is unprepared, and run again after the next open. A completion takes the TRE
off the ring and runs its callback. -/
namespace MhiHost.RxBuffers
open NetRing
open Cyclic (Window)
open Relation (ReflTransGen)

/- The buffers the local ring still holds, walked from rp as the completion loop does. -/
def ringBufs (ch : Chan) : Nat → List Nat
  | 0 => []
  | n+1 => (ch.bufMem ch.bufRing.rp).cbBuf :: ringBufs {ch with bufRing := mhiDelRingElement ch.bufRing} n

def onRing (p : Port) : List Nat := ringBufs p.chan (outstanding p)

inductive Pos where
  | entered
  | looping (i : Nat) (noTre : Int)
  | allocated (i : Nat) (noTre : Int) (skb : Nat)
  | submitting (i : Nat) (noTre : Int) (skb : Nat)
  | ending (i : Nat) (noTre : Int)
  deriving DecidableEq, Repr

def Pos.skb : Pos → List Nat
  | allocated _ _ skb | submitting _ _ skb => [skb]
  | _ => []

inductive Ctl where
  | closed | opened | stopping | unpreparing | purging
  deriving DecidableEq, Repr

structure Rx where
  port : Port
  devOpen : Bool
  chanEnable : Bool
  chanHalt : Bool
  ctl : Ctl
  runs : List Pos
  rxRefill : Bool
  rxPending : List Nat
  fixed : List Nat
  freed : List Nat
  dropped : List Nat
  next : Nat

namespace Rx

def probed (p : Port) : Rx := ⟨p,false,false,false,.closed,[],false,[],[],[],[],0⟩

def flags (s : Rx) : Bool := s.devOpen && s.chanEnable && !s.chanHalt

def serving (s : Rx) : Prop := s.ctl = .opened ∨ s.ctl = .stopping

def put (s : Rx) (front : List Pos) (pos : Pos) (back : List Pos) : Rx := {s with runs := front ++ pos :: back}

def enter (s : Rx) (front back : List Pos) : Rx :=
  if s.flags then s.put front (.looping 0 (mhiGetFreeDescCount s.port)) back else {s with runs := front ++ back}

def allocate (s : Rx) (front back : List Pos) (i : Nat) (noTre : Int) (ok : Bool) : Rx :=
  if (i : Int) < noTre ∧ ok then {s with next := s.next + 1}.put front (.allocated i noTre s.next) back
  else s.put front (.ending i noTre) back

/- A run whose second test of the flags fails leaves the loop, and the skb with it. -/
def recheck (s : Rx) (front back : List Pos) (i : Nat) (noTre : Int) (skb : Nat) : Rx :=
  if s.flags then s.put front (.submitting i noTre skb) back
  else {s with dropped := s.dropped ++ [skb]}.put front (.ending i noTre) back

def submit (s : Rx) (front back : List Pos) (i : Nat) (noTre : Int) (q : QueueReq) : Rx :=
  let out := mhiQueue s.port q
  let s := {s with port := out.1}
  if out.2 = none then s.put front (.looping (i + 1) noTre) back
  else {s with freed := s.freed ++ [q.cb]}.put front (.ending i noTre) back

def finish (s : Rx) (front back : List Pos) (i : Nat) (noTre : Int) : Rx :=
  {s with
    runs := front ++ back
    rxRefill := s.rxRefill || ((i : Int) < noTre && s.flags && (i : Int) < mhiGetFreeDescCount s.port)}

def dlCallback (s : Rx) (r : MhiResult) : Rx :=
  let s := {s with port := retire s.port r}
  if r.transactionStatus.isSome then {s with freed := s.freed ++ [r.bufAddr]}
  else {s with rxPending := s.rxPending ++ [r.bufAddr]}

def pollOne (s : Rx) (rxFixup : Bool) (skb : Nat) (rest : List Nat) : Rx :=
  let s := {s with rxPending := rest}
  if rxFixup then {s with fixed := s.fixed ++ [skb]} else {s with freed := s.freed ++ [skb]}

def prepare (s : Rx) (vz : Nat) : Rx :=
  {s with port := {s.port with chan := {(mhiInitChanCtxt s.port.chan (some vz)).1 with chState := .enabled}}, chanEnable := true}

def setChState (s : Rx) (st : ChState) : Rx := {s with port := {s.port with chan := {s.port.chan with chState := st}}}

/- `__mhi_unprepare_channel` does nothing unless the channel is enabled. -/
def unprepare (s : Rx) : Rx :=
  let s := {s with rxRefill := false}
  if s.chanEnable then
    if s.port.chan.chState = .enabled then {s with chanEnable := false, ctl := .unpreparing}.setChState .disabled
    else {s with chanEnable := false, ctl := .purging}
  else {s with ctl := .purging}

def deinit (s : Rx) : Rx :=
  {s with port := {s.port with chan := mhiDeinitChanCtxt s.port.chan}, ctl := .purging}

end Rx

/- `may` is asked at the second test of the flags. -/
inductive Step (may : Rx → Prop) : Rx → Rx → Prop where
  | call {s} (serving : s.serving) : Step may s {s with runs := s.runs ++ [.entered]}
  | enter {s} (front back : List Pos) (here : s.runs = front ++ .entered :: back) : Step may s (s.enter front back)
  | allocate {s i noTre} (front back : List Pos) (ok : Bool) (here : s.runs = front ++ .looping i noTre :: back) :
      Step may s (s.allocate front back i noTre ok)
  | recheck {s i noTre skb} (front back : List Pos) (here : s.runs = front ++ .allocated i noTre skb :: back)
      (asked : may s) : Step may s (s.recheck front back i noTre skb)
  | submit {s i noTre skb} (front back : List Pos) (q : QueueReq) (here : s.runs = front ++ .submitting i noTre skb :: back)
      (own : q.cb = skb) (frame : ∃ data, q.payload = .skb data) : Step may s (s.submit front back i noTre q)
  | finish {s i noTre} (front back : List Pos) (here : s.runs = front ++ .ending i noTre :: back) :
      Step may s (s.finish front back i noTre)
  | refillWork {s} (due : s.rxRefill = true) (serving : s.serving) :
      Step may s {s with rxRefill := false, runs := s.runs ++ [.entered]}
  | completed {s} (r : MhiResult) (some : 0 < outstanding s.port) (enabled : s.port.chan.chState = .enabled)
      (named : r.bufAddr = (s.port.chan.bufMem s.port.chan.bufRing.rp).cbBuf) : Step may s (s.dlCallback r)
  | pollOne {s skb rest} (rxFixup : Bool) (waiting : s.rxPending = skb :: rest) (serving : s.serving) :
      Step may s (s.pollOne rxFixup skb rest)
  | prepare {s} (vz : Nat) (closed : s.ctl = .closed) (running : s.chanHalt = false) (needed : s.chanEnable = false)
      (ready : s.port.chan.chState = .disabled) (block : Allocated vz (sizeofMhiBufInfo * s.port.chan.bufRing.elements)) :
      Step may s (s.prepare vz)
  | isOpen {s} (closed : s.ctl = .closed) (enabled : s.chanEnable = true) : Step may s {s with devOpen := true, ctl := .opened}
  | stop {s} (opened : s.ctl = .opened) : Step may s {s with devOpen := false, ctl := .stopping}
  | unprepare {s} (stopping : s.ctl = .stopping) (idle : s.runs = []) : Step may s s.unprepare
  | reset {s} (r : MhiResult) (here : s.ctl = .unpreparing) (some : 0 < outstanding s.port)
      (named : r.bufAddr = (s.port.chan.bufMem s.port.chan.bufRing.rp).cbBuf)
      (lost : r.transactionStatus = Option.some .enotconn) :
      Step may s (s.dlCallback r)
  | deinit {s} (here : s.ctl = .unpreparing) (empty : outstanding s.port = 0) : Step may s s.deinit
  | purge {s skb rest} (here : s.ctl = .purging) (waiting : s.rxPending = skb :: rest) :
      Step may s {s with rxPending := rest, freed := s.freed ++ [skb]}
  | closed {s} (here : s.ctl = .purging) (empty : s.rxPending = []) : Step may s {s with ctl := .closed}
  | halt {s} : Step may s {s with chanHalt := true}
  | clearOpen {s} : Step may s {s with devOpen := false}
  | clearEnable {s} : Step may s {s with chanEnable := false}
  | controller {s} (c : Cntrl) : Step may s {s with port := {s.port with cntrl := c}}

def held (s : Rx) : List Nat := s.runs.flatMap Pos.skb
def places (s : Rx) : List Nat := held s ++ onRing s.port ++ s.rxPending ++ s.fixed ++ s.freed

def Conserved (s : Rx) : Prop := (places s).Perm (List.range s.next)

def MayRecheck (s : Rx) : Prop := s.flags = true

def Standing (p : Port) : Prop := ∃ wt wb h t, Fifo (fun _ _ => True) wt wb p.chan h t p.chan.accepted ∧
  wt.count ≤ wb.count ∧ p.chan.bufRing.iommuBase = 0

def Folded (p : Port) : Prop := (∃ wt, p.chan.treRing.Over wt ∧ wt.count ≤ p.chan.bufRing.elements) ∧
  p.chan.bufRing.iommuBase = 0 ∧ handed p.chan = p.chan.accepted ∧ outstanding p = 0

section Ring
variable {p : Port}

theorem bufsView {wb : Window} {ch : Chan} {h t : Nat} (held : ch.bufRing.Holds wb h t) :
    ringBufs ch (t - h) = (wb.view ch.bufMem h t).map BufInfo.cbBuf := by
  have ordered := held.ordered
  induction left : t - h generalizing ch h with
  | zero =>
    have same : h = t := by omega
    rw [same,wb.viewEmpty]
    rfl
  | succ n ih =>
    have filled : h < t := by omega
    have rest := @ih {ch with bufRing := mhiDelRingElement ch.bufRing} (h + 1) (Ring.delHolds held filled) filled (by omega)
    rw [ringBufs,rest,wb.viewPop _ filled,List.map_cons,held.rp]

theorem onRingView {R wt wb h t placed} (fifo : Fifo R wt wb p.chan h t placed) :
    onRing p = (wb.view p.chan.bufMem h t).map BufInfo.cbBuf := by
  rw [onRing,outstandingOf fifo.tre]
  exact bufsView fifo.buf

theorem standingOrder (standing : Standing p) : handed p.chan ++ onRing p = p.chan.accepted := by
  obtain ⟨wt,wb,h,t,fifo,_⟩ := standing
  rw [onRingView fifo]
  exact fifo.order

theorem standingQueue (q : QueueReq) (standing : Standing p) : Standing (mhiQueue p q).1 ∧
    onRing (mhiQueue p q).1 = onRing p ++ (if (mhiQueue p q).2 = none then [q.cb] else []) ∧
    (mhiQueue p q).1.chan.chState = p.chan.chState := by
  have before := standingOrder standing
  obtain ⟨wt,wb,h,t,fifo,wide,noBus⟩ := standing
  have call := Queueing.queueCall p q
  obtain ⟨⟨t',added,_,grown,accepted⟩,_⟩ := fifo.queue (q := q) wide fun _ _ _ => trivial
  have stands : Standing (mhiQueue p q).1 := by
    refine ⟨wt,wb,h,t',accepted ▸ grown,wide,?_⟩
    rw [call.buf]
    split
    · exact noBus
    · exact noBus
  refine ⟨stands,?_,call.chState⟩
  have after := standingOrder stands
  have log : handed (mhiQueue p q).1.chan = handed p.chan := by rw [handed,handed,call.log]
  rw [log,call.accepted,← before,List.append_assoc] at after
  exact List.append_cancel_left after

theorem standingRetire {r : MhiResult} (standing : Standing p) (some : 0 < outstanding p)
    (named : r.bufAddr = (p.chan.bufMem p.chan.bufRing.rp).cbBuf) :
    Standing (retire p r) ∧ onRing p = r.bufAddr :: onRing (retire p r) := by
  have before := standingOrder standing
  obtain ⟨wt,wb,h,t,fifo,wide,noBus⟩ := standing
  rw [outstandingOf fifo.tre] at some
  have stands : Standing (retire p r) := ⟨wt,wb,h + 1,t,fifo.retire (by omega) named,wide,noBus⟩
  refine ⟨stands,?_⟩
  have after := standingOrder stands
  have log : handed (retire p r).chan = handed p.chan ++ [r.bufAddr] := by simp [handed,retire]
  have same : (retire p r).chan.accepted = p.chan.accepted := rfl
  rw [log,same,← before,List.append_assoc] at after
  exact (List.append_cancel_left after).symm

theorem onRingNone (empty : outstanding p = 0) : onRing p = [] := by
  rw [onRing,empty]
  rfl

theorem foldedDeinit (standing : Standing p) (empty : outstanding p = 0) :
    Folded {p with chan := mhiDeinitChanCtxt p.chan} := by
  have order := standingOrder standing
  obtain ⟨wt,wb,h,t,fifo,wide,noBus⟩ := standing
  rw [onRingNone empty,List.append_nil] at order
  refine ⟨⟨wt,fifo.tre.spans,?_⟩,noBus,order,empty⟩
  have elements := fifo.buf.spans.elements
  show wt.count ≤ p.chan.bufRing.elements
  omega

theorem preparedStanding {vz : Nat} {st : ChState} (folded : Folded p)
    (block : Allocated vz (sizeofMhiBufInfo * p.chan.bufRing.elements)) :
    Standing {p with chan := {(mhiInitChanCtxt p.chan (some vz)).1 with chState := st}} ∧
      onRing {p with chan := {(mhiInitChanCtxt p.chan (some vz)).1 with chState := st}} = [] := by
  obtain ⟨⟨wt,laid,wide⟩,noBus,order,_⟩ := folded
  have counted := wt.counted
  let wb : Window := ⟨vz,sizeofMhiBufInfo,p.chan.bufRing.elements,by decide,by omega⟩
  have fresh : Fifo (fun _ _ => True) wt wb (mhiInitChanCtxt p.chan (some vz)).1 0 0 (handed p.chan) :=
    Fifo.fresh laid block rfl rfl rfl (by rw [noBus]; have bound := block.2; omega)
  rw [order] at fresh
  have fifo : Fifo (fun _ _ => True) wt wb {(mhiInitChanCtxt p.chan (some vz)).1 with chState := st} 0 0 p.chan.accepted :=
    fresh.of fresh.tre rfl rfl rfl rfl
  refine ⟨⟨wt,wb,0,0,fifo,wide,noBus⟩,?_⟩
  exact (onRingView (p := {p with chan := _}) fifo).trans (by rw [wb.viewEmpty]; rfl)

end Ring

def elsewhere (s : Rx) (x : Nat) : Nat :=
  (onRing s.port).count x + s.rxPending.count x + s.fixed.count x + s.freed.count x + s.dropped.count x

structure Inv (s : Rx) : Prop where
  standing : s.port.chan.chState = .enabled ∨ s.ctl = .unpreparing → Standing s.port
  folded : s.port.chan.chState ≠ .enabled → s.ctl ≠ .unpreparing → Folded s.port
  enabled : s.chanEnable = true ∨ s.serving → s.port.chan.chState = .enabled
  idle : ¬s.serving → s.runs = []
  off : s.ctl = .unpreparing → s.port.chan.chState = .disabled ∧ s.chanEnable = false
  balance : ∀ x, (held s).count x + elsewhere s x = (List.range s.next).count x

section Steps
variable {s : Rx} {front back : List Pos}

theorem servingOf {pos : Pos} (inv : Inv s) (here : s.runs = front ++ pos :: back) : s.serving := by
  by_contra away
  rw [inv.idle away] at here
  simp at here

theorem runInv {s' : Rx} {pos : Pos} {l : List Pos} (inv : Inv s) (here : s.runs = front ++ pos :: back)
    (runs : s'.runs = front ++ l ++ back) (same : s'.ctl = s.ctl ∧ s'.chanEnable = s.chanEnable)
    (ring : Standing s.port → Standing s'.port ∧ s'.port.chan.chState = s.port.chan.chState)
    (moved : ∀ x, (l.flatMap Pos.skb).count x + elsewhere s' x + (List.range s.next).count x =
      pos.skb.count x + elsewhere s x + (List.range s'.next).count x) : Inv s' := by
  obtain ⟨ctl,chanEnable⟩ := same
  have serving := servingOf inv here
  have enabled := inv.enabled (.inr serving)
  obtain ⟨stands,state⟩ := ring (inv.standing (.inl enabled))
  have still : s'.port.chan.chState = .enabled := state.trans enabled
  refine ⟨fun _ => stands,fun other _ => absurd still other,fun _ => still,?_,?_,?_⟩
  · intro away
    exact absurd (by rw [Rx.serving,ctl]; exact serving) away
  · intro done
    rw [ctl] at done
    rcases serving with is | is
    · cases is.symm.trans done
    · cases is.symm.trans done
  · intro x
    have before := inv.balance x
    have move := moved x
    simp only [held,here,runs,List.flatMap_append,List.flatMap_cons,List.count_append] at before ⊢
    omega

theorem enterInv (inv : Inv s) (here : s.runs = front ++ .entered :: back) : Inv (s.enter front back) := by
  unfold Rx.enter
  split
  · exact runInv (l := [.looping 0 (mhiGetFreeDescCount s.port)]) inv here (by simp [Rx.put]) ⟨rfl,rfl⟩
      (fun stands => ⟨stands,rfl⟩) fun _ => rfl
  · exact runInv (l := []) inv here (by simp) ⟨rfl,rfl⟩ (fun stands => ⟨stands,rfl⟩) fun _ => rfl

theorem allocateInv {i : Nat} {noTre : Int} {ok : Bool} (inv : Inv s) (here : s.runs = front ++ .looping i noTre :: back) :
    Inv (s.allocate front back i noTre ok) := by
  unfold Rx.allocate
  split
  · refine runInv (l := [.allocated i noTre s.next]) inv here (by simp [Rx.put]) ⟨rfl,rfl⟩ (fun stands => ⟨stands,rfl⟩) ?_
    intro x
    show [s.next].count x + elsewhere s x + (List.range s.next).count x = 0 + elsewhere s x + (List.range (s.next + 1)).count x
    rw [List.range_succ,List.count_append]
    omega
  · exact runInv (l := [.ending i noTre]) inv here (by simp [Rx.put]) ⟨rfl,rfl⟩ (fun stands => ⟨stands,rfl⟩) fun _ => rfl

theorem recheckInv {i skb : Nat} {noTre : Int} (inv : Inv s) (here : s.runs = front ++ .allocated i noTre skb :: back) :
    Inv (s.recheck front back i noTre skb) := by
  unfold Rx.recheck
  split
  · exact runInv (l := [.submitting i noTre skb]) inv here (by simp [Rx.put]) ⟨rfl,rfl⟩ (fun stands => ⟨stands,rfl⟩) fun _ => rfl
  · refine runInv (l := [.ending i noTre]) inv here (by simp [Rx.put]) ⟨rfl,rfl⟩ (fun stands => ⟨stands,rfl⟩) ?_
    intro x
    simp only [elsewhere,Rx.put,Pos.skb,List.flatMap_cons,List.flatMap_nil,List.append_nil,List.count_append,List.count_nil]
    omega

theorem submitInv {i skb : Nat} {noTre : Int} {q : QueueReq} (inv : Inv s)
    (here : s.runs = front ++ .submitting i noTre skb :: back) (own : q.cb = skb) : Inv (s.submit front back i noTre q) := by
  have stands := inv.standing (.inl (inv.enabled (.inr (servingOf inv here))))
  obtain ⟨queued,ring,state⟩ := standingQueue q stands
  unfold Rx.submit
  dsimp only
  split
  · rename_i accepted
    rw [if_pos accepted,own] at ring
    refine runInv (l := [.looping (i + 1) noTre]) inv here (by simp [Rx.put]) ⟨rfl,rfl⟩ (fun _ => ⟨queued,state⟩) ?_
    intro x
    simp only [elsewhere,Rx.put,ring,Pos.skb,List.flatMap_cons,List.flatMap_nil,List.append_nil,List.count_append,List.count_nil]
    omega
  · rename_i refused
    rw [if_neg refused,List.append_nil] at ring
    refine runInv (l := [.ending i noTre]) inv here (by simp [Rx.put]) ⟨rfl,rfl⟩ (fun _ => ⟨queued,state⟩) ?_
    intro x
    simp only [elsewhere,Rx.put,ring,own,Pos.skb,List.flatMap_cons,List.flatMap_nil,List.append_nil,List.count_append,
      List.count_nil]
    omega

theorem finishInv {i : Nat} {noTre : Int} (inv : Inv s) (here : s.runs = front ++ .ending i noTre :: back) :
    Inv (s.finish front back i noTre) :=
  runInv (l := []) inv here (by simp [Rx.finish]) ⟨rfl,rfl⟩ (fun stands => ⟨stands,rfl⟩) fun _ => rfl

theorem frameInv {s' : Rx} (inv : Inv s) (same : s'.port = s.port ∧ s'.runs = s.runs ∧ s'.ctl = s.ctl ∧ s'.next = s.next)
    (enable : s'.chanEnable = true → s.chanEnable = true) (moved : ∀ x, elsewhere s' x = elsewhere s x) : Inv s' := by
  obtain ⟨port,runs,ctl,next⟩ := same
  refine ⟨?_,?_,?_,?_,?_,?_⟩
  · rw [port,ctl]
    exact inv.standing
  · rw [port,ctl]
    exact inv.folded
  · rw [port,Rx.serving,ctl]
    exact fun either => inv.enabled (either.imp_left enable)
  · rw [runs,Rx.serving,ctl]
    exact inv.idle
  · rw [ctl,port]
    intro done
    obtain ⟨state,unused⟩ := inv.off done
    exact ⟨state,eq_false_of_ne_true fun on => absurd (unused.symm.trans (enable on)) Bool.false_ne_true⟩
  · intro x
    rw [held,runs,next,moved]
    exact inv.balance x

theorem calledInv {due : Bool} (inv : Inv s) (serving : s.serving) :
    Inv {s with rxRefill := due, runs := s.runs ++ [.entered]} := by
  refine ⟨inv.standing,inv.folded,inv.enabled,fun away => absurd serving away,inv.off,?_⟩
  intro x
  have before := inv.balance x
  simp only [held,List.flatMap_append,List.flatMap_cons,List.flatMap_nil,Pos.skb,List.append_nil] at before ⊢
  exact before

theorem callbackInv {r : MhiResult} (inv : Inv s) (live : s.port.chan.chState = .enabled ∨ s.ctl = .unpreparing)
    (some : 0 < outstanding s.port) (named : r.bufAddr = (s.port.chan.bufMem s.port.chan.bufRing.rp).cbBuf) :
    Inv (s.dlCallback r) := by
  obtain ⟨stands,ring⟩ := standingRetire (inv.standing live) some named
  have out : ∀ x, (onRing s.port).count x = [r.bufAddr].count x + (onRing (retire s.port r)).count x := by
    intro x
    rw [ring,← List.singleton_append,List.count_append]
  have unfolded : s.port.chan.chState ≠ .enabled → s.ctl ≠ .unpreparing → False :=
    fun off done => live.elim off done
  unfold Rx.dlCallback
  dsimp only
  split
  · refine ⟨fun _ => stands,fun off done => (unfolded off done).elim,inv.enabled,inv.idle,inv.off,?_⟩
    intro x
    have before := inv.balance x
    have freed := out x
    simp only [held,elsewhere,List.count_append] at before ⊢
    omega
  · refine ⟨fun _ => stands,fun off done => (unfolded off done).elim,inv.enabled,inv.idle,inv.off,?_⟩
    intro x
    have before := inv.balance x
    have freed := out x
    simp only [held,elsewhere,List.count_append] at before ⊢
    omega

theorem pollInv {rxFixup : Bool} {skb : Nat} {rest : List Nat} (inv : Inv s) (waiting : s.rxPending = skb :: rest) :
    Inv (s.pollOne rxFixup skb rest) := by
  have first : ∀ x, s.rxPending.count x = [skb].count x + rest.count x := by
    intro x
    rw [waiting,← List.singleton_append,List.count_append]
  unfold Rx.pollOne
  dsimp only
  split
  · refine frameInv inv ⟨rfl,rfl,rfl,rfl⟩ (fun on => on) ?_
    intro x
    have taken := first x
    simp only [elsewhere,List.count_append]
    omega
  · refine frameInv inv ⟨rfl,rfl,rfl,rfl⟩ (fun on => on) ?_
    intro x
    have taken := first x
    simp only [elsewhere,List.count_append]
    omega

theorem prepareInv {vz : Nat} (inv : Inv s) (closed : s.ctl = .closed) (ready : s.port.chan.chState = .disabled)
    (block : Allocated vz (sizeofMhiBufInfo * s.port.chan.bufRing.elements)) : Inv (s.prepare vz) := by
  have folded := inv.folded (by rw [ready]; decide) (by rw [closed]; decide)
  obtain ⟨stands,empty⟩ := @preparedStanding _ _ .enabled folded block
  refine ⟨fun _ => stands,fun off _ => absurd rfl off,fun _ => rfl,inv.idle,(fun done => by cases closed.symm.trans done),?_⟩
  intro x
  have before := inv.balance x
  have none := onRingNone folded.2.2.2
  simp only [held,elsewhere,none] at before
  simp only [held,elsewhere,Rx.prepare,empty]
  exact before

theorem unprepareInv (inv : Inv s) (stopping : s.ctl = .stopping) (idle : s.runs = []) : Inv s.unprepare := by
  have enabled := inv.enabled (.inr (.inr stopping))
  have stands := inv.standing (.inl enabled)
  unfold Rx.unprepare
  dsimp only
  rw [if_pos enabled]
  split
  · have off : Standing {s.port with chan := {s.port.chan with chState := .disabled}} := by
      obtain ⟨wt,wb,h,t,fifo,wide,noBus⟩ := stands
      exact ⟨wt,wb,h,t,fifo.of fifo.tre rfl rfl rfl rfl,wide,noBus⟩
    have ring : onRing {s.port with chan := {s.port.chan with chState := .disabled}} = onRing s.port :=
      List.append_cancel_left ((standingOrder off).trans (standingOrder stands).symm)
    refine ⟨fun _ => off,fun _ done => absurd rfl done,?_,fun _ => idle,fun _ => ⟨rfl,rfl⟩,?_⟩
    · rintro (on | serving)
      · cases on
      · rcases serving with is | is
        · cases is
        · cases is
    · intro x
      have before := inv.balance x
      simp only [held,elsewhere,Rx.setChState,ring] at before ⊢
      exact before
  · exact ⟨fun _ => stands,fun off _ => absurd enabled off,fun _ => enabled,fun _ => idle,(fun done => nomatch done),inv.balance⟩

theorem deinitInv (inv : Inv s) (here : s.ctl = .unpreparing) (empty : outstanding s.port = 0) : Inv s.deinit := by
  have folded := foldedDeinit (inv.standing (.inr here)) empty
  have idle := inv.idle (by rw [Rx.serving,here]; decide)
  obtain ⟨off,unused⟩ := inv.off here
  refine ⟨?_,fun _ _ => folded,?_,fun _ => idle,(fun done => nomatch done),?_⟩
  · rintro (on | done)
    · exact absurd (off.symm.trans on) (by decide)
    · cases done
  · rintro (on | serving)
    · exact absurd (unused.symm.trans on) Bool.false_ne_true
    · rcases serving with is | is
      · cases is
      · cases is
  · intro x
    have before := inv.balance x
    have none := onRingNone empty
    have after := onRingNone folded.2.2.2
    simp only [held,elsewhere,none] at before
    simp only [held,elsewhere,Rx.deinit,after]
    exact before

theorem purgeInv {skb : Nat} {rest : List Nat} (inv : Inv s) (waiting : s.rxPending = skb :: rest) :
    Inv {s with rxPending := rest, freed := s.freed ++ [skb]} := by
  have same := @pollInv s false _ _ inv waiting
  exact same

theorem stepInv {may : Rx → Prop} {s' : Rx} (step : Step may s s') (inv : Inv s) : Inv s' := by
  cases step with
  | call serving => exact calledInv inv serving
  | enter front back here => exact enterInv inv here
  | allocate front back ok here => exact allocateInv inv here
  | recheck front back here asked => exact recheckInv inv here
  | submit front back q here own frame => exact submitInv inv here own
  | finish front back here => exact finishInv inv here
  | refillWork due serving => exact calledInv inv serving
  | completed r some enabled named => exact callbackInv inv (.inl enabled) some named
  | pollOne rxFixup waiting serving => exact pollInv inv waiting
  | prepare vz closed running needed ready block => exact prepareInv inv closed ready block
  | isOpen closed enabled =>
    have state := inv.enabled (.inl enabled)
    refine ⟨fun _ => inv.standing (.inl state),fun off _ => absurd state off,fun _ => state,
      (fun away => absurd (.inl rfl) away),(fun done => nomatch done),inv.balance⟩
  | stop opened =>
    have state := inv.enabled (.inr (.inl opened))
    exact ⟨fun _ => inv.standing (.inl state),fun off _ => absurd state off,fun _ => state,
      (fun away => absurd (.inr rfl) away),(fun done => nomatch done),inv.balance⟩
  | unprepare stopping idle => exact unprepareInv inv stopping idle
  | reset r here some named lost => exact callbackInv inv (.inr here) some named
  | deinit here empty => exact deinitInv inv here empty
  | purge here waiting => exact purgeInv inv waiting
  | closed here empty =>
    have idle := inv.idle (by rw [Rx.serving,here]; decide)
    refine ⟨?_,fun off _ => inv.folded off (by rw [here]; decide),?_,fun _ => idle,(fun done => nomatch done),inv.balance⟩
    · rintro (on | done)
      · exact inv.standing (.inl on)
      · cases done
    · rintro (on | serving)
      · exact inv.enabled (.inl on)
      · rcases serving with is | is
        · cases is
        · cases is
  | halt => exact frameInv inv ⟨rfl,rfl,rfl,rfl⟩ (fun on => on) fun _ => rfl
  | clearOpen => exact frameInv inv ⟨rfl,rfl,rfl,rfl⟩ (fun on => on) fun _ => rfl
  | clearEnable => exact frameInv inv ⟨rfl,rfl,rfl,rfl⟩ (fun on => nomatch on) fun _ => rfl
  | controller c => exact ⟨inv.standing,inv.folded,inv.enabled,inv.idle,inv.off,inv.balance⟩

end Steps

structure Probed (p : Port) : Prop where
  folded : Folded p
  disabled : p.chan.chState = .disabled

theorem probedInv {p : Port} (probed : Probed p) : Inv (Rx.probed p) := by
  refine ⟨?_,fun _ _ => probed.folded,?_,fun _ => rfl,(fun done => nomatch done),?_⟩
  · rintro (on | done)
    · exact absurd (probed.disabled.symm.trans on) (by decide)
    · cases done
  · rintro (on | serving)
    · cases on
    · rcases serving with is | is
      · cases is
      · cases is
  · intro x
    simp [held,elsewhere,Rx.probed,onRingNone probed.folded.2.2.2]

theorem conservedIff {s : Rx} (inv : Inv s) : Conserved s ↔ s.dropped = [] := by
  have count : ∀ x, (places s).count x + s.dropped.count x = (List.range s.next).count x := by
    intro x
    have balance := inv.balance x
    simp only [places,elsewhere,List.count_append] at balance ⊢
    omega
  rw [Conserved,List.perm_iff_count]
  constructor
  · intro same
    cases lost : s.dropped with
    | nil => rfl
    | cons skb rest =>
      have one := count skb
      have other := same skb
      rw [lost,List.count_cons_self] at one
      omega
  · intro none x
    have one := count x
    rw [none,List.count_nil] at one
    exact one

theorem droppedCases {may : Rx → Prop} {s s' : Rx} (step : Step may s s') :
    s'.dropped = s.dropped ∨ (may s ∧ s.flags = false ∧ ∃ skb, s'.dropped = s.dropped ++ [skb]) := by
  cases step with
  | @recheck i noTre skb front back here asked =>
    unfold Rx.recheck
    split
    · exact .inl rfl
    · rename_i off
      exact .inr ⟨asked,eq_false_of_ne_true off,skb,rfl⟩
  | enter front back here =>
    unfold Rx.enter
    split <;> exact .inl rfl
  | allocate front back ok here =>
    unfold Rx.allocate
    split <;> exact .inl rfl
  | submit front back q here own frame =>
    unfold Rx.submit
    dsimp only
    split <;> exact .inl rfl
  | completed r some enabled named =>
    unfold Rx.dlCallback
    dsimp only
    split <;> exact .inl rfl
  | reset r here some named lost =>
    unfold Rx.dlCallback
    dsimp only
    split <;> exact .inl rfl
  | pollOne rxFixup waiting serving =>
    unfold Rx.pollOne
    dsimp only
    split <;> exact .inl rfl
  | unprepare stopping idle =>
    unfold Rx.unprepare
    dsimp only
    split
    · split <;> exact .inl rfl
    · exact .inl rfl
  | _ => exact .inl rfl

theorem noneDropped {s s' : Rx} (step : Step MayRecheck s s') (none : s.dropped = []) : s'.dropped = [] := by
  rcases droppedCases step with same | ⟨may,off,_⟩
  · exact same.trans none
  · exact absurd (off.symm.trans may) Bool.false_ne_true

theorem lostForGood {may : Rx → Prop} {s s' : Rx} (run : ReflTransGen (Step may) s s') (lost : s.dropped ≠ []) :
    s'.dropped ≠ [] := by
  refine Runs.keeps (I := fun s => s.dropped ≠ []) (fun a b step lost => ?_) run lost
  rcases droppedCases step with same | ⟨_,_,skb,more⟩
  · rw [same]
    exact lost
  · rw [more]
    exact List.append_ne_nil_of_left_ne_nil lost _

theorem rxConserved {p : Port} (probed : Probed p) :
    (∀ s, ReflTransGen (Step MayRecheck) (Rx.probed p) s → Conserved s) ∧
    ∀ s, ReflTransGen (Step fun _ => True) (Rx.probed p) s → ∀ front back i noTre skb,
      s.runs = front ++ .allocated i noTre skb :: back → ¬MayRecheck s →
      ∀ s', ReflTransGen (Step fun _ => True) (s.recheck front back i noTre skb) s' → ¬Conserved s' := by
  constructor
  · intro s run
    have inv := Runs.keeps (I := Inv) (fun _ _ step inv => stepInv step inv) run (probedInv probed)
    have none := Runs.keeps (I := fun s => s.dropped = []) (fun _ _ step none => noneDropped step none) run rfl
    exact (conservedIff inv).mpr none
  · intro s run front back i noTre skb here off s' later
    have step : Step (fun _ => True) s (s.recheck front back i noTre skb) := .recheck front back here trivial
    have lost : (s.recheck front back i noTre skb).dropped ≠ [] := by
      have flags : ¬s.flags = true := off
      rw [Rx.recheck,if_neg flags]
      exact List.append_ne_nil_of_right_ne_nil _ (List.cons_ne_nil _ _)
    have inv := Runs.keeps (I := Inv) (fun _ _ step inv => stepInv step inv) ((run.tail step).trans later) (probedInv probed)
    exact fun conserved => lostForGood later lost ((conservedIff inv).mp conserved)

namespace Sample

def config : ChannelConfig := ⟨"IP_HW0",101,4,0,0,.fromDevice,ExecEnv.amss.bit,some .disable,false,false,false⟩
def chan : Chan :=
  {(configureChan 128 config).getD Chan.zero with
    treRing := layRing ((configureChan 128 config).getD Chan.zero).treRing 0x1000 0x8000}
def port : Port := ⟨TransferFifo.idleCntrl,chan⟩
def skb : QueueReq := ⟨.skb 0x20,0,1500,MhiFlags.eot,⟨0x9000,0,true⟩⟩
def arrival : MhiResult := ⟨0,some .fromDevice,100,none⟩

theorem probed : Probed port :=
  ⟨⟨⟨treWindow 0x1000 4 (by decide),(TransferFifo.configuredOf (show configureChan 128 config = some _ from rfl)
    (by decide) rfl rfl rfl (by decide) (by decide) (by decide)).laid,by decide⟩,rfl,rfl,by decide⟩,rfl⟩

def opened : Rx := {(Rx.probed port).prepare 0x4000 with devOpen := true, ctl := .opened}
def allocated : Rx := (({opened with runs := [.entered]}.enter [] []).allocate [] [] 0 3 true)
def submitted : Rx := (allocated.recheck [] [] 0 3 0).submit [] [] 0 3 skb
def delivered : Rx := (submitted.dlCallback arrival).pollOne true 0 []
def halted : Rx := {allocated with chanHalt := true}.recheck [] [] 0 3 0

theorem allocates {may : Rx → Prop} : ReflTransGen (Step may) (Rx.probed port) allocated := by
  have prepares : Step may (Rx.probed port) ((Rx.probed port).prepare 0x4000) :=
    .prepare 0x4000 rfl rfl rfl rfl (by decide)
  have opens : Step may ((Rx.probed port).prepare 0x4000) opened := .isOpen rfl rfl
  have called := ((ReflTransGen.single prepares).tail opens).tail (.call (.inl rfl))
  exact (called.tail (.enter [] [] rfl)).tail (.allocate [] [] true rfl)

theorem delivers : ReflTransGen (Step MayRecheck) (Rx.probed port) delivered := by
  have passes : MayRecheck allocated := rfl
  have checked : ReflTransGen (Step MayRecheck) (Rx.probed port) (allocated.recheck [] [] 0 3 0) :=
    allocates.tail (.recheck [] [] rfl passes)
  have queued : ReflTransGen (Step MayRecheck) (Rx.probed port) submitted := checked.tail (.submit [] [] skb rfl rfl ⟨_,rfl⟩)
  exact (queued.tail (.completed arrival (by decide) rfl rfl)).tail (.pollOne true rfl (.inl rfl))

theorem halts : ReflTransGen (Step fun _ => True) (Rx.probed port) halted :=
  (allocates.tail .halt).tail (.recheck [] [] rfl trivial)

end Sample

theorem deliveredConserved : Sample.delivered.fixed = [0] ∧ Conserved Sample.delivered :=
  ⟨rfl,(rxConserved Sample.probed).1 _ Sample.delivers⟩

theorem haltedSkbLost : ¬∀ s, ReflTransGen (Step fun _ => True) (Rx.probed Sample.port) s → Conserved s := by
  intro claim
  have same := (claim _ Sample.halts).length_eq
  exact absurd same (by decide)

end MhiHost.RxBuffers
