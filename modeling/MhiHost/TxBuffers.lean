import MhiHost.RxBuffers
import MhiHost.Runs
import MhiHost.TxQueue

/-! Where the transmit skbs of both network drivers are. An skb is named by its number among
those the core ever offered; one that is kept is the core's, to be offered again. The core
makes one transmit call at a time. When the device goes away the channel is reset while the
interface may still be up, and its context is dropped after the interface has gone. -/
namespace MhiHost.TxBuffers
open NetRing (mhiGetFreeDescCount outstanding)
open RxBuffers (onRing Standing Folded standingQueue standingRetire)
open TxQueue (Driver)
open Relation (ReflTransGen)

inductive Pc where
  | idle
  | entered (skb : Nat)
  | counted (noTre : Int) (skb : Nat)
  | fixing (skb : Nat)
  | queueing (skb : Nat)
  deriving DecidableEq, Repr

def Pc.skb : Pc → List Nat
  | .idle => []
  | .entered skb | .counted _ skb | .fixing skb | .queueing skb => [skb]

/- The channel: `unpreparing` is the reset of `__mhi_unprepare_channel`, `reset` what follows
the one of `mhi_driver_remove`. -/
inductive Ctl where
  | closed | opened | unpreparing | reset | gone
  deriving DecidableEq, Repr

def Ctl.live : Ctl → Bool
  | .opened | .unpreparing | .reset => true
  | .closed | .gone => false

/- `late` are the skbs queued behind the back of a removal; `cancelled` counts the completions
that `mhi_net.c` counts neither as sent nor as an error. -/
structure Tx where
  port : Port
  ctl : Ctl
  halt : Bool
  pc : Pc
  calls : List MhiResult
  kept : List Nat
  dropped : List Nat
  consumed : List Nat
  lost : List Nat
  late : List Nat
  next : Nat
  txPackets : Nat
  txErrors : Nat
  txDropped : Nat
  cancelled : Nat

namespace Tx

def probed (p : Port) : Tx := ⟨p,.closed,false,.idle,[],[],[],[],[],[],0,0,0,0,0⟩

def go (s : Tx) (pc : Pc) : Tx := {s with pc := pc}
def drop (s : Tx) (skb : Nat) : Tx := {s with dropped := s.dropped++[skb], txDropped := s.txDropped+1}.go .idle
def keep (s : Tx) (skb : Nat) : Tx := {s with kept := s.kept++[skb]}.go .idle

def enter (s : Tx) (d : Driver) (skb : Nat) : Tx :=
  match d with
  | .mhiNet => if s.halt then s.drop skb else s.go (.entered skb)
  | .mhiNetMbim => s.go (.fixing skb)

def stopForCount (s : Tx) (noTre : Int) (skb : Nat) : Tx := if noTre = 0 then s.keep skb else s.go (.fixing skb)

def fixup (s : Tx) (skb : Nat) (framed : Bool) : Tx := if framed then s.go (.queueing skb) else s.drop skb

def queue (s : Tx) (d : Driver) (q : QueueReq) : Tx :=
  let out := mhiQueue s.port q
  let s := {s with port := out.1}
  match out.2,d with
  | none,_ => {s with late := if s.ctl = Ctl.reset then s.late++[q.cb] else s.late}.go .idle
  | some .enomem,.mhiNetMbim => s.keep q.cb
  | some _,_ => s.drop q.cb

def ulCallback (s : Tx) (d : Driver) (r : MhiResult) : Tx :=
  let s := {s with consumed := s.consumed++[r.bufAddr]}
  match r.transactionStatus,d with
  | none,_ => {s with txPackets := s.txPackets+1}
  | some .enotconn,.mhiNet => {s with cancelled := s.cancelled+1}
  | some _,_ => {s with txErrors := s.txErrors+1}

def prepare (s : Tx) (vz : Nat) : Tx :=
  {s with port := {s.port with chan := {(mhiInitChanCtxt s.port.chan (some vz)).1 with chState := .enabled}}, ctl := .opened}

def deinit (s : Tx) : Tx := {s with port := {s.port with chan := mhiDeinitChanCtxt s.port.chan}, ctl := .closed}

/- `mhi_driver_remove` drops the context with whatever is on the ring. -/
def remove (s : Tx) : Tx :=
  {s with port := {s.port with chan := mhiDeinitChanCtxt s.port.chan}, ctl := .gone, lost := s.lost++onRing s.port}

end Tx

inductive Step (d : Driver) : Tx → Tx → Prop where
  | offer {s} (idle : s.pc = .idle) (up : s.ctl = .opened ∨ s.ctl = .reset) : Step d s ({s with next := s.next+1}.enter d s.next)
  | again {s skb} (front back : List Nat) (idle : s.pc = .idle) (up : s.ctl = .opened ∨ s.ctl = .reset)
      (here : s.kept = front++skb :: back) : Step d s ({s with kept := front++back}.enter d skb)
  | count {s skb} (here : s.pc = .entered skb) : Step d s (s.go (.counted (mhiGetFreeDescCount s.port) skb))
  | stop {s noTre skb} (here : s.pc = .counted noTre skb) : Step d s (s.stopForCount noTre skb)
  | fixup {s skb} (framed : Bool) (here : s.pc = .fixing skb) : Step d s (s.fixup skb framed)
  | queue {s skb} (q : QueueReq) (here : s.pc = .queueing skb) (own : q.cb = skb) (frame : ∃ data, q.payload = .skb data) :
      Step d s (s.queue d q)
  | completed {s} (r : MhiResult) (live : s.ctl.live = true) (some : 0 < outstanding s.port)
      (named : r.bufAddr = (s.port.chan.bufMem s.port.chan.bufRing.rp).cbBuf) :
      Step d s {s with port := retire s.port r, calls := s.calls++[r]}
  | called {s} (r : MhiResult) (front back : List MhiResult) (here : s.calls = front++r :: back) :
      Step d s ({s with calls := front++back}.ulCallback d r)
  | prepare {s} (vz : Nat) (closed : s.ctl = .closed)
      (block : Allocated vz (sizeofMhiBufInfo*s.port.chan.bufRing.elements)) : Step d s (s.prepare vz)
  | unprepare {s} (opened : s.ctl = .opened) (idle : s.pc = .idle) : Step d s {s with ctl := .unpreparing}
  | deinit {s} (here : s.ctl = .unpreparing) (empty : outstanding s.port = 0) : Step d s s.deinit
  | reset {s} (opened : s.ctl = .opened) (empty : outstanding s.port = 0) : Step d s {s with ctl := .reset}
  | remove {s} (here : s.ctl = .reset) (idle : s.pc = .idle) : Step d s s.remove
  | halt {s} : Step d s {s with halt := true}
  | beside {s} (c : Cntrl) (st : ChState) : Step d s {s with port := ⟨c,{s.port.chan with chState := st}⟩}

def queued (s : Tx) : List Nat := if s.ctl.live then onRing s.port else []
def held (s : Tx) : List Nat := s.pc.skb++queued s++s.calls.map MhiResult.bufAddr
def places (s : Tx) : List Nat := held s++(s.kept++s.dropped++s.consumed++s.lost)

structure Kept (s : Tx) : Prop where
  conserved : (places s).Perm (List.range s.next)
  dropped : s.dropped.length = s.txDropped
  consumed : s.consumed.length = s.txPackets+s.txErrors+s.cancelled
  late : ∀ skb ∈ s.lost, skb ∈ s.late

structure Inv (s : Tx) : Prop where
  standing : s.ctl.live = true → Standing s.port
  folded : s.ctl = .closed → Folded s.port
  idle : ¬(s.ctl = .opened ∨ s.ctl = .reset) → s.pc = .idle
  balance : ∀ x, (places s).count x = (List.range s.next).count x
  dropped : s.dropped.length = s.txDropped
  consumed : s.consumed.length = s.txPackets+s.txErrors+s.cancelled
  lost : ∀ skb ∈ s.lost, skb ∈ s.late
  behind : s.ctl = .reset → ∀ skb ∈ onRing s.port, skb ∈ s.late

section Steps
variable {d : Driver} {s : Tx}

theorem Inv.kept (inv : Inv s) : Kept s where
  conserved := List.perm_iff_count.mpr inv.balance
  dropped := inv.dropped
  consumed := inv.consumed
  late := inv.lost

theorem liveOf (up : s.ctl = .opened ∨ s.ctl = .reset) : s.ctl.live = true := by
  rcases up with opened | reset
  · rw [opened]
    rfl
  · rw [reset]
    rfl

theorem dropInv {skb : Nat} (inv : Inv s) (here : s.pc.skb = [skb]) : Inv (s.drop skb) := by
  refine ⟨inv.standing,inv.folded,fun _ => rfl,fun x => ?_,?_,inv.consumed,inv.lost,inv.behind⟩
  · have before := inv.balance x
    show ([]++queued s++s.calls.map MhiResult.bufAddr++(s.kept++(s.dropped++[skb])++s.consumed++s.lost)).count x =
        (List.range s.next).count x
    simp only [places,held,here,List.count_append,List.count_nil] at before ⊢
    omega
  · have counted := inv.dropped
    simp only [Tx.drop,Tx.go,List.length_append,List.length_singleton]
    omega

theorem keepInv {skb : Nat} (inv : Inv s) (here : s.pc.skb = [skb]) : Inv (s.keep skb) := by
  refine ⟨inv.standing,inv.folded,fun _ => rfl,fun x => ?_,inv.dropped,inv.consumed,inv.lost,inv.behind⟩
  have before := inv.balance x
  show ([]++queued s++s.calls.map MhiResult.bufAddr++(s.kept++[skb]++s.dropped++s.consumed++s.lost)).count x =
      (List.range s.next).count x
  simp only [places,held,here,List.count_append,List.count_nil] at before ⊢
  omega

theorem goInv {pc : Pc} (inv : Inv s) (same : pc.skb = s.pc.skb) (busy : s.pc ≠ .idle) : Inv (s.go pc) := by
  refine ⟨inv.standing,inv.folded,fun down => absurd (inv.idle down) busy,fun x => ?_,inv.dropped,inv.consumed,inv.lost,
    inv.behind⟩
  have before := inv.balance x
  show (pc.skb++queued s++s.calls.map MhiResult.bufAddr++(s.kept++s.dropped++s.consumed++s.lost)).count x =
      (List.range s.next).count x
  rw [same]
  exact before

theorem enterInv {skb : Nat} (inv : ∀ pc : Pc, pc.skb = [skb] → Inv (s.go pc)) : Inv (s.enter d skb) := by
  cases d with
  | mhiNet =>
    simp only [Tx.enter]
    split
    · have dropped := dropInv (inv (.entered skb) rfl) rfl
      exact dropped
    · exact inv (.entered skb) rfl
  | mhiNetMbim => exact inv (.fixing skb) rfl

theorem offerInv (inv : Inv s) (idle : s.pc = .idle) (up : s.ctl = .opened ∨ s.ctl = .reset) :
    Inv ({s with next := s.next+1}.enter d s.next) := by
  refine enterInv fun pc own => ?_
  refine ⟨inv.standing,inv.folded,fun down => absurd up down,fun x => ?_,inv.dropped,inv.consumed,inv.lost,inv.behind⟩
  have before := inv.balance x
  show (pc.skb++queued s++s.calls.map MhiResult.bufAddr++(s.kept++s.dropped++s.consumed++s.lost)).count x =
      (List.range (s.next+1)).count x
  have none : s.pc.skb = [] := by rw [idle]; rfl
  simp only [places,held,none,own,List.count_append,List.count_nil,List.range_succ] at before ⊢
  omega

theorem againInv {skb : Nat} {front back : List Nat} (inv : Inv s) (idle : s.pc = .idle) (up : s.ctl = .opened ∨ s.ctl = .reset)
    (here : s.kept = front++skb :: back) : Inv ({s with kept := front++back}.enter d skb) := by
  refine enterInv fun pc own => ?_
  refine ⟨inv.standing,inv.folded,fun down => absurd up down,fun x => ?_,inv.dropped,inv.consumed,inv.lost,inv.behind⟩
  have before := inv.balance x
  show (pc.skb++queued s++s.calls.map MhiResult.bufAddr++((front++back)++s.dropped++s.consumed++s.lost)).count x =
      (List.range s.next).count x
  have none : s.pc.skb = [] := by rw [idle]; rfl
  simp only [places,held,none,own,here,List.count_append,List.count_cons,List.count_nil] at before ⊢
  omega

theorem stopInv {noTre : Int} {skb : Nat} (inv : Inv s) (here : s.pc = .counted noTre skb) : Inv (s.stopForCount noTre skb) := by
  unfold Tx.stopForCount
  split
  · exact keepInv inv (by rw [here]; rfl)
  · exact goInv inv (by rw [here]; rfl) (by rw [here]; simp)

theorem fixupInv {skb : Nat} (framed : Bool) (inv : Inv s) (here : s.pc = .fixing skb) : Inv (s.fixup skb framed) := by
  cases framed with
  | true => exact goInv inv (by rw [here]; rfl) (by rw [here]; simp)
  | false => exact dropInv inv (by rw [here]; rfl)

theorem refusedInv {q : QueueReq} (inv : Inv s) (busy : s.pc ≠ .idle) (refused : (mhiQueue s.port q).2 ≠ none) :
    Inv {s with port := (mhiQueue s.port q).1} := by
  have up : s.ctl = .opened ∨ s.ctl = .reset := by
    by_contra down
    exact busy (inv.idle down)
  obtain ⟨stands,ring,-⟩ := standingQueue q (inv.standing (liveOf up))
  rw [if_neg refused,List.append_nil] at ring
  refine ⟨fun _ => stands,fun closed => ?_,inv.idle,fun x => ?_,inv.dropped,inv.consumed,inv.lost,?_⟩
  · rcases up with opened | reset
    · cases closed.symm.trans opened
    · cases closed.symm.trans reset
  · have before := inv.balance x
    simp only [places,held,queued,ring] at before ⊢
    exact before
  · rw [ring]
    exact inv.behind

theorem queueRefused {q : QueueReq} {e : Errno} (answer : (mhiQueue s.port q).2 = some e) :
    s.queue d q = {s with port := (mhiQueue s.port q).1}.keep q.cb ∨
    s.queue d q = {s with port := (mhiQueue s.port q).1}.drop q.cb := by
  simp only [Tx.queue,answer]
  split
  · rename_i none
    cases none
  · exact .inl rfl
  · exact .inr rfl

theorem queueInv {skb : Nat} {q : QueueReq} (inv : Inv s) (here : s.pc = .queueing skb) (own : q.cb = skb) :
    Inv (s.queue d q) := by
  have busy : s.pc ≠ .idle := by rw [here]; simp
  have hand : s.pc.skb = [q.cb] := by rw [here,own]; rfl
  have up : s.ctl = .opened ∨ s.ctl = .reset := by
    by_contra down
    exact busy (inv.idle down)
  cases answer : (mhiQueue s.port q).2 with
  | some e =>
    have same := refusedInv (q := q) inv busy (by rw [answer]; simp)
    rcases queueRefused (d := d) answer with kept | dropped
    · rw [kept]
      exact keepInv same hand
    · rw [dropped]
      exact dropInv same hand
  | none =>
    have accepted : s.queue d q =
        {s with port := (mhiQueue s.port q).1, late := if s.ctl = Ctl.reset then s.late++[q.cb] else s.late}.go .idle := by
      simp only [Tx.queue,answer]
    obtain ⟨stands,ring,-⟩ := standingQueue q (inv.standing (liveOf up))
    rw [if_pos answer] at ring
    rw [accepted]
    refine ⟨fun _ => stands,fun closed => ?_,fun _ => rfl,fun x => ?_,inv.dropped,inv.consumed,fun skb there => ?_,
      fun reset skb there => ?_⟩
    · rcases up with opened | reset
      · cases closed.symm.trans opened
      · cases closed.symm.trans reset
    · have before := inv.balance x
      have live := liveOf up
      simp only [places,held,hand,queued,live,if_true,List.count_append] at before
      simp only [places,held,queued,Tx.go,Pc.skb,live,if_true,ring,List.count_append,List.count_nil]
      omega
    · have was := inv.lost skb there
      simp only [Tx.go]
      split
      · exact List.mem_append_left _ was
      · exact was
    · simp only [Tx.go] at reset there ⊢
      rw [if_pos reset]
      rw [ring] at there
      exact (List.mem_append.mp there).elim (fun was => List.mem_append_left _ (inv.behind reset skb was))
        (List.mem_append_right _)

theorem completedInv {r : MhiResult} (inv : Inv s) (live : s.ctl.live = true) (some : 0 < outstanding s.port)
    (named : r.bufAddr = (s.port.chan.bufMem s.port.chan.bufRing.rp).cbBuf) :
    Inv {s with port := retire s.port r, calls := s.calls++[r]} := by
  obtain ⟨stands,ring⟩ := standingRetire (inv.standing live) some named
  refine ⟨fun _ => stands,fun closed => ?_,inv.idle,fun x => ?_,inv.dropped,inv.consumed,inv.lost,fun reset skb there => ?_⟩
  · dsimp only at closed
    rw [closed] at live
    cases live
  · have before := inv.balance x
    simp only [places,held,queued,live,if_true,ring,List.count_append,List.count_cons] at before
    simp only [places,held,queued,live,if_true,List.count_append,List.map_append,List.map_cons,List.map_nil,List.count_cons,
      List.count_nil]
    omega
  · exact inv.behind reset skb (by rw [ring]; exact List.mem_cons_of_mem _ there)

theorem calledInv {r : MhiResult} {front back : List MhiResult} (inv : Inv s) (here : s.calls = front++r :: back) :
    Inv ({s with calls := front++back}.ulCallback d r) := by
  have counted := inv.consumed
  have balance : ∀ x, (places {s with calls := front++back, consumed := s.consumed++[r.bufAddr]}).count x =
      (List.range s.next).count x := by
    intro x
    have before := inv.balance x
    simp only [places,held,queued,here,List.map_append,List.map_cons,List.count_append,List.count_cons,List.count_nil] at before ⊢
    omega
  have grown : (s.consumed++[r.bufAddr]).length = s.txPackets+s.txErrors+s.cancelled+1 := by
    rw [List.length_append,List.length_singleton,counted]
  unfold Tx.ulCallback
  split
  · refine ⟨inv.standing,inv.folded,inv.idle,balance,inv.dropped,?_,inv.lost,inv.behind⟩
    dsimp only
    omega
  · refine ⟨inv.standing,inv.folded,inv.idle,balance,inv.dropped,?_,inv.lost,inv.behind⟩
    dsimp only
    omega
  · refine ⟨inv.standing,inv.folded,inv.idle,balance,inv.dropped,?_,inv.lost,inv.behind⟩
    dsimp only
    omega

theorem prepareInv {vz : Nat} (inv : Inv s) (closed : s.ctl = .closed)
    (block : Allocated vz (sizeofMhiBufInfo*s.port.chan.bufRing.elements)) : Inv (s.prepare vz) := by
  obtain ⟨stands,empty⟩ := @RxBuffers.preparedStanding _ _ .enabled (inv.folded closed) block
  have idle := inv.idle (by rw [closed]; simp)
  refine ⟨fun _ => stands,nofun,fun _ => idle,fun x => ?_,inv.dropped,inv.consumed,inv.lost,nofun⟩
  have before := inv.balance x
  simp only [places,held,queued,closed,Ctl.live,Bool.false_eq_true,if_false] at before
  simp only [places,held,queued,Tx.prepare,Ctl.live,if_true,empty]
  exact before

theorem unprepareInv (inv : Inv s) (opened : s.ctl = .opened) (idle : s.pc = .idle) : Inv {s with ctl := .unpreparing} := by
  have stands := inv.standing (liveOf (.inl opened))
  refine ⟨fun _ => stands,nofun,fun _ => idle,fun x => ?_,inv.dropped,inv.consumed,inv.lost,nofun⟩
  have before := inv.balance x
  simp only [places,held,queued,opened,Ctl.live] at before ⊢
  exact before

theorem deinitInv (inv : Inv s) (here : s.ctl = .unpreparing) (empty : outstanding s.port = 0) : Inv s.deinit := by
  have stands := inv.standing (by rw [here]; rfl)
  have idle := inv.idle (by rw [here]; simp)
  refine ⟨nofun,fun _ => RxBuffers.foldedDeinit stands empty,fun _ => idle,fun x => ?_,inv.dropped,inv.consumed,inv.lost,nofun⟩
  have before := inv.balance x
  simp only [places,held,queued,here,Ctl.live,if_true,RxBuffers.onRingNone empty] at before
  simp only [places,held,queued,Tx.deinit,Ctl.live,Bool.false_eq_true,if_false]
  exact before

theorem resetInv (inv : Inv s) (opened : s.ctl = .opened) (empty : outstanding s.port = 0) : Inv {s with ctl := .reset} := by
  have stands := inv.standing (liveOf (.inl opened))
  refine ⟨fun _ => stands,nofun,fun down => absurd (.inr rfl) down,fun x => ?_,inv.dropped,inv.consumed,inv.lost,
    fun _ skb there => ?_⟩
  · have before := inv.balance x
    simp only [places,held,queued,opened,Ctl.live] at before ⊢
    exact before
  · dsimp only at there
    rw [RxBuffers.onRingNone empty] at there
    cases there

theorem removeInv (inv : Inv s) (here : s.ctl = .reset) (idle : s.pc = .idle) : Inv s.remove := by
  refine ⟨nofun,nofun,fun _ => idle,fun x => ?_,inv.dropped,inv.consumed,fun skb there => ?_,nofun⟩
  · have before := inv.balance x
    simp only [places,held,queued,here,Ctl.live,if_true,List.count_append] at before
    simp only [places,held,queued,Tx.remove,Ctl.live,Bool.false_eq_true,if_false,List.count_append,List.count_nil]
    omega
  · exact (List.mem_append.mp there).elim (inv.lost skb) (inv.behind here skb)

theorem besideInv (c : Cntrl) (st : ChState) (inv : Inv s) : Inv {s with port := ⟨c,{s.port.chan with chState := st}⟩} := by
  have ring : s.ctl.live = true → Standing ⟨c,{s.port.chan with chState := st}⟩ ∧
      onRing ⟨c,{s.port.chan with chState := st}⟩ = onRing s.port := by
    intro live
    obtain ⟨wt,wb,h,t,fifo,wide,noBus⟩ := inv.standing live
    have same : Fifo (fun _ _ => True) wt wb {s.port.chan with chState := st} h t s.port.chan.accepted :=
      fifo.of fifo.tre rfl rfl rfl rfl
    exact ⟨⟨wt,wb,h,t,same,wide,noBus⟩,(RxBuffers.onRingView (p := ⟨c,_⟩) same).trans (RxBuffers.onRingView fifo).symm⟩
  refine ⟨fun live => (ring live).1,fun closed => ?_,inv.idle,fun x => ?_,inv.dropped,inv.consumed,inv.lost,fun reset => ?_⟩
  · exact inv.folded closed
  · have before := inv.balance x
    simp only [places,held,queued] at before ⊢
    split
    · rename_i live
      rw [if_pos live] at before
      rw [(ring live).2]
      exact before
    · rename_i down
      rw [if_neg down] at before
      exact before
  · dsimp only at reset ⊢
    rw [(ring (by rw [reset]; rfl)).2]
    exact inv.behind reset

theorem stepInv {s' : Tx} (step : Step d s s') (inv : Inv s) : Inv s' := by
  cases step with
  | offer idle up => exact offerInv inv idle up
  | again front back idle up here => exact againInv inv idle up here
  | count here => exact goInv inv (by rw [here]; rfl) (by rw [here]; simp)
  | stop here => exact stopInv inv here
  | fixup framed here => exact fixupInv framed inv here
  | queue q here own frame => exact queueInv inv here own
  | completed r live some named => exact completedInv inv live some named
  | called r front back here => exact calledInv inv here
  | prepare vz closed block => exact prepareInv inv closed block
  | unprepare opened idle => exact unprepareInv inv opened idle
  | deinit here empty => exact deinitInv inv here empty
  | reset opened empty => exact resetInv inv opened empty
  | remove here idle => exact removeInv inv here idle
  | halt => exact ⟨inv.standing,inv.folded,inv.idle,inv.balance,inv.dropped,inv.consumed,inv.lost,inv.behind⟩
  | beside c st => exact besideInv c st inv

end Steps

theorem startInv {p : Port} (folded : Folded p) : Inv (Tx.probed p) :=
  ⟨nofun,fun _ => folded,fun _ => rfl,fun _ => rfl,rfl,rfl,nofun,nofun⟩

theorem txConserved {d : Driver} {p : Port} {s : Tx} (folded : Folded p) (run : ReflTransGen (Step d) (Tx.probed p) s) :
    Kept s := by
  have inv : Inv s := Runs.keeps (fun _ _ step inv => stepInv step inv) run (startInv folded)
  exact inv.kept

namespace Sample

def skb : QueueReq := ⟨.skb 0x20,0,60,MhiFlags.eot,⟨0x9000,0,true⟩⟩
def opened : Tx := (Tx.probed RxBuffers.Sample.port).prepare 0x4000
def offered : Tx := {{opened with ctl := .reset} with next := 1}.enter .mhiNetMbim 0
def sent : Tx := (offered.fixup 0 true).queue .mhiNetMbim skb
def removed : Tx := sent.remove

theorem opens : ReflTransGen (Step .mhiNetMbim) (Tx.probed RxBuffers.Sample.port) {opened with ctl := .reset} :=
  (ReflTransGen.single (.prepare 0x4000 rfl (by decide))).tail (.reset rfl (by decide))

theorem removes : ReflTransGen (Step .mhiNetMbim) (Tx.probed RxBuffers.Sample.port) removed :=
  (((opens.tail (.offer rfl (.inr rfl))).tail (.fixup true rfl)).tail (.queue skb rfl rfl ⟨0x20,rfl⟩)).tail (.remove rfl (by decide))

end Sample

theorem txConservedSample : (Sample.removed.lost = [0] ∧ Sample.removed.late = [0]) ∧ Kept Sample.removed :=
  ⟨by decide,txConserved RxBuffers.Sample.probed.folded Sample.removes⟩

end MhiHost.TxBuffers
