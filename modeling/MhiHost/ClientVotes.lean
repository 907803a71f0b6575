import MhiHost.Channel
import MhiHost.Runs
import Mathlib.Algebra.BigOperators.Group.Finset.Piecewise
import Mathlib.Data.Fintype.Basic

/-! The wake votes of the client devices (`mhi_dev->dev_wake`) beside the count of the
controller, from the probe of a driver to its removal. Any number of votes of a device may be
under way; its plain counter is counted up or down in one step. `debugfs` votes for the device of
the controller itself. -/
namespace MhiHost.ClientVotes
open PmState (mask)
open Relation (ReflTransGen)

structure Endpoint where
  lpmNotify : Bool
  offloadCh : Bool
  clManage : Bool

structure MhiDriver where
  statusCb : Bool
  ulXferCb : Bool
  dlXferCb : Bool

def Endpoint.served (ch : Endpoint) (statusCb xferCb : Bool) : Bool :=
  !(ch.lpmNotify && !statusCb) && !(!ch.offloadCh && !xferCb)

def mhiDriverFits (drv : MhiDriver) (ul dl : Option Endpoint) : Bool :=
  ul.all (·.served drv.statusCb drv.ulXferCb) &&
    dl.all fun ch => ch.served drv.statusCb drv.dlXferCb && !(ch.clManage && !drv.statusCb)

/- `entering` and `leaving` are the two ends of `mhi_driver_probe`, around the driver's own;
`draining` is the loop at the end of `mhi_driver_remove`. -/
inductive Stage where
  | unbound | entering | probing | leaving (ok : Bool) | bound | removing | draining | controller
  deriving DecidableEq, Repr

def Stage.votes : Stage → Bool
  | .probing | .leaving true | .bound | .removing | .controller => true
  | _ => false

/- The votes under way: counted on the device and not yet on the controller, waiting for M0 with
the controller's count taken, or taken off the device and not yet off the controller. -/
structure Client where
  devWake : Int
  stage : Stage
  getting : Nat
  waiting : Nat
  putting : Nat
  deriving DecidableEq, Repr

namespace Client

def fresh : Client := ⟨0,.unbound,0,0,0⟩
def Idle (c : Client) : Prop := c.getting = 0 ∧ c.waiting = 0 ∧ c.putting = 0
def get (c : Client) : Client := {c with devWake := c.devWake+1, getting := c.getting+1}
def counted (c : Client) : Client := {c with getting := c.getting-1}
def wait (c : Client) : Client := {c with waiting := c.waiting+1}
def granted (c : Client) : Client := {c with devWake := c.devWake+1, waiting := c.waiting-1}
def refused (c : Client) : Client := {c with waiting := c.waiting-1, stage := if c.stage = .entering then .unbound else c.stage}
def put (c : Client) : Client := {c with devWake := c.devWake-1, putting := c.putting+1}
def returned (c : Client) : Client := {c with putting := c.putting-1}

def weight (c : Client) : Int := c.devWake-c.getting+c.waiting+c.putting

end Client

structure Votes (ι : Type) where
  cntrl : Cntrl
  client : ι → Client
  held : Nat

variable {ι : Type} [DecidableEq ι]

namespace Votes

def set (s : Votes ι) (d : ι) (c : Client) : Votes ι := {s with client := Function.update s.client d c}
def counted (s : Votes ι) (d : ι) (c : Client) : Votes ι :=
  {s.set d c with cntrl := mhiAssertDevWake (resumeIfSuspended s.cntrl) true}
def returned (s : Votes ι) (d : ι) (c : Client) : Votes ι :=
  {s.set d c with cntrl := mhiDeassertDevWake (resumeIfSuspended s.cntrl) false}

def asked (s : Votes ι) (d : ι) (c : Client) : Votes ι :=
  {s.set d c with cntrl := resumeIfSuspended (mhiAssertDevWake s.cntrl true)}
def refused (s : Votes ι) (d : ι) (c : Client) : Votes ι := {s.set d c with cntrl := mhiDeassertDevWake s.cntrl false}

end Votes

/- The two moves that are asked for: a probe that fails, and the count set to 0 by
`mhi_init_dev_ctxt`. -/
inductive Hazard (ι : Type) where
  | fails (d : ι)
  | reset

inductive Step (may : Hazard ι → Votes ι → Prop) : Votes ι → Votes ι → Prop where
  | get {s} (d : ι) (own : (s.client d).stage.votes = true) : Step may s (s.set d (s.client d).get)
  | counted {s} (d : ι) (here : 0 < (s.client d).getting) : Step may s (s.counted d (s.client d).counted)
  | getSync {s} (d : ι) (own : (s.client d).stage.votes = true) : Step may s (s.asked d (s.client d).wait)
  | granted {s} (d : ι) (here : 0 < (s.client d).waiting) : Step may s (s.set d (s.client d).granted)
  | refused {s} (d : ι) (here : 0 < (s.client d).waiting) : Step may s (s.refused d (s.client d).refused)
  | put {s} (d : ι) (own : (s.client d).stage.votes = true) : Step may s (s.set d (s.client d).put)
  | returned {s} (d : ι) (here : 0 < (s.client d).putting) : Step may s (s.returned d (s.client d).returned)
  | probe {s} (d : ι) (here : (s.client d).stage = .unbound) : Step may s (s.asked d {(s.client d).wait with stage := .entering})
  | checked {s} (d : ι) (drv : MhiDriver) (ul dl : Option Endpoint) (prepared : Bool)
      (here : (s.client d).stage = .entering) (granted : (s.client d).waiting = 0) :
      Step may s (s.set d (if mhiDriverFits drv ul dl && prepared then {s.client d with stage := .probing}
        else {s.client d with stage := .leaving false}.put))
  | probed {s} (d : ι) (ok : Bool) (here : (s.client d).stage = .probing) (idle : ok = false → (s.client d).Idle)
      (asked : ok = false → may (.fails d) s) : Step may s (s.set d {s.client d with stage := .leaving ok}.put)
  | left {s} (d : ι) (ok : Bool) (here : (s.client d).stage = .leaving ok) (idle : ok = false → (s.client d).Idle) :
      Step may s (s.set d {s.client d with stage := if ok then .bound else .unbound})
  | remove {s} (d : ι) (here : (s.client d).stage = .bound) : Step may s (s.set d {s.client d with stage := .removing})
  | removed {s} (d : ι) (here : (s.client d).stage = .removing) (idle : (s.client d).Idle) :
      Step may s (s.set d {s.client d with stage := .draining})
  | drain {s} (d : ι) (here : (s.client d).stage = .draining) (idle : (s.client d).Idle) (more : (s.client d).devWake ≠ 0) :
      Step may s (s.set d (s.client d).put)
  | drained {s} (d : ι) (here : (s.client d).stage = .draining) (idle : (s.client d).Idle) (none : (s.client d).devWake = 0) :
      Step may s (s.set d {s.client d with stage := .unbound})
  | destroy {s} (d : ι) (here : (s.client d).stage = .unbound) : Step may s (s.set d Client.fresh)
  | take {s} (force : Bool) : Step may s {s with cntrl := mhiAssertDevWake s.cntrl force, held := s.held+1}
  | give {s} (override : Bool) (held : 0 < s.held) :
      Step may s {s with cntrl := mhiDeassertDevWake s.cntrl override, held := s.held-1}
  | reset {s} (asked : may .reset s) : Step may s {s with cntrl := {s.cntrl with devWake := 0}}
  | beside {s} (c : Cntrl) (same : c.devWake = s.cntrl.devWake) : Step may s {s with cntrl := c}

/- A driver whose probe fails has taken its own votes back: what is left is the core's. The count
is set to 0 where no vote stands. -/
def Balanced : Hazard ι → Votes ι → Prop
  | .fails d,s => (s.client d).devWake = 1
  | .reset,s => s.held = 0 ∧ ∀ d, (s.client d).devWake = 0 ∧ (s.client d).Idle

structure Settled (c : Client) : Prop where
  unbound : c.stage = .unbound → c.devWake = 0 ∧ c.getting = 0 ∧ c.waiting = 0 ∧ c.putting = 0
  entering : c.stage = .entering →
    c.getting = 0 ∧ c.putting = 0 ∧ (c.devWake = 0 ∧ c.waiting = 1 ∨ c.devWake = 1 ∧ c.waiting = 0)
  leaving : c.stage = .leaving false → c.devWake = 0 ∧ c.getting = 0 ∧ c.waiting = 0

section Counts
variable (c : Cntrl)

theorem assertCount (force : Bool) : (mhiAssertDevWake c force).devWake = c.devWake+1 := by
  unfold mhiAssertDevWake
  split
  · dsimp only
    split <;> rfl
  · split
    · rfl
    · dsimp only
      split <;> rfl

theorem deassertCount (override : Bool) : (mhiDeassertDevWake c override).devWake = c.devWake-1 := by
  unfold mhiDeassertDevWake
  split
  · rfl
  · dsimp only
    split <;> rfl

theorem resumeCount : (resumeIfSuspended c).devWake = c.devWake := by
  unfold resumeIfSuspended
  split <;> rfl

end Counts

section Sums
variable [Fintype ι]

theorem sumSet (f : Client → Int) (client : ι → Client) (d : ι) (c : Client) :
    ∑ e, f (Function.update client d c e) = ∑ e, f (client e)+(f c-f (client d)) := by
  have pointwise : (fun e => f (Function.update client d c e)) = Function.update (fun e => f (client e)) d (f c) := by
    funext e
    rcases Decidable.eq_or_ne e d with rfl | other
    · rw [Function.update_self,Function.update_self]
    · rw [Function.update_of_ne other,Function.update_of_ne other]
  have rest := Finset.add_sum_erase Finset.univ (fun e => f (client e)) (Finset.mem_univ d)
  rw [pointwise,Finset.sum_update_of_mem (Finset.mem_univ d),Finset.sdiff_singleton_eq_erase,← rest]
  omega

omit [DecidableEq ι] [Fintype ι] in
theorem weightless {c : Client} (none : c.devWake = 0) (idle : c.Idle) : c.weight = 0 := by
  obtain ⟨getting,waiting,putting⟩ := idle
  rw [Client.weight,none,getting,waiting,putting]
  rfl

structure Inv (s : Votes ι) : Prop where
  ledger : s.cntrl.devWake = ∑ d, (s.client d).weight+s.held
  settled : ∀ d, Settled (s.client d)

variable {s : Votes ι}

theorem setInv {d : ι} {c : Client} {w : Cntrl} (inv : Inv s) (moved : w.devWake = s.cntrl.devWake+(c.weight-(s.client d).weight))
    (settled : Settled c) : Inv {s.set d c with cntrl := w} := by
  refine ⟨?_,fun e => ?_⟩
  · have total := sumSet Client.weight s.client d c
    have before := inv.ledger
    show w.devWake = ∑ e, (Function.update s.client d c e).weight+s.held
    omega
  · show Settled (Function.update s.client d c e)
    rcases Decidable.eq_or_ne e d with rfl | other
    · rw [Function.update_self]
      exact settled
    · rw [Function.update_of_ne other]
      exact inv.settled e

theorem freshSettled : Settled Client.fresh := ⟨fun _ => ⟨rfl,rfl,rfl,rfl⟩,nofun,nofun⟩

theorem settledOwn {c : Client} (own : c.stage.votes = true) : Settled c := by
  refine ⟨fun stage => ?_,fun stage => ?_,fun stage => ?_⟩ <;> rw [stage] at own <;> cases own

theorem settledCounted {c : Client} (here : 0 < c.getting) (settled : Settled c) : Settled c.counted := by
  refine ⟨fun stage => ?_,fun stage => ?_,fun stage => ?_⟩
  · have := settled.unbound stage
    omega
  · have := settled.entering stage
    omega
  · have := settled.leaving stage
    omega

theorem settledGranted {c : Client} (here : 0 < c.waiting) (settled : Settled c) : Settled c.granted := by
  refine ⟨fun stage => ?_,fun stage => ?_,fun stage => ?_⟩
  · have := settled.unbound stage
    omega
  · have := settled.entering stage
    simp only [Client.granted]
    omega
  · have := settled.leaving stage
    omega

theorem settledRefused {c : Client} (here : 0 < c.waiting) (settled : Settled c) : Settled c.refused := by
  have unbound := settled.unbound
  have entering := settled.entering
  have leaving := settled.leaving
  refine ⟨?_,?_,?_⟩ <;> simp only [Client.refused] <;> split
  · rename_i stage
    have := entering stage
    omega
  · intro stage
    have := unbound stage
    omega
  · nofun
  · rename_i away
    exact fun stage => absurd stage away
  · nofun
  · intro stage
    have := leaving stage
    omega

theorem settledReturned {c : Client} (here : 0 < c.putting) (settled : Settled c) : Settled c.returned := by
  refine ⟨fun stage => ?_,fun stage => ?_,settled.leaving⟩
  · have := settled.unbound stage
    omega
  · have := settled.entering stage
    omega

theorem stepInv {s' : Votes ι} (step : Step Balanced s s') (inv : Inv s) : Inv s' := by
  cases step with
  | get d own =>
    refine setInv inv ?_ (settledOwn own)
    simp only [Client.weight,Client.get]
    omega
  | counted d here =>
    refine setInv inv ?_ (settledCounted here (inv.settled d))
    rw [assertCount,resumeCount]
    simp only [Client.weight,Client.counted]
    omega
  | getSync d own =>
    refine setInv inv ?_ (settledOwn own)
    rw [resumeCount,assertCount]
    simp only [Client.weight,Client.wait]
    omega
  | granted d here =>
    refine setInv inv ?_ (settledGranted here (inv.settled d))
    simp only [Client.weight,Client.granted]
    omega
  | refused d here =>
    refine setInv inv ?_ (settledRefused here (inv.settled d))
    rw [deassertCount]
    simp only [Client.weight,Client.refused]
    omega
  | put d own =>
    refine setInv inv ?_ (settledOwn own)
    simp only [Client.weight,Client.put]
    omega
  | returned d here =>
    refine setInv inv ?_ (settledReturned here (inv.settled d))
    rw [deassertCount,resumeCount]
    simp only [Client.weight,Client.returned]
    omega
  | probe d here =>
    have settled := (inv.settled d).unbound here
    refine setInv inv ?_ ⟨nofun,fun _ => ?_,nofun⟩
    · rw [resumeCount,assertCount]
      simp only [Client.weight,Client.wait]
      omega
    · simp only [Client.wait]
      omega
  | checked d drv ul dl prepared here granted =>
    have settled := (inv.settled d).entering here
    split
    · refine setInv inv ?_ (settledOwn rfl)
      simp only [Client.weight]
      omega
    · refine setInv inv ?_ ⟨nofun,nofun,fun _ => ?_⟩
      · simp only [Client.weight,Client.put]
        omega
      · simp only [Client.put]
        omega
  | probed d ok here idle asked =>
    refine setInv inv ?_ ?_
    · simp only [Client.weight,Client.put]
      omega
    · cases ok with
      | true => exact settledOwn rfl
      | false =>
        have balanced : (s.client d).devWake = 1 := asked rfl
        obtain ⟨getting,waiting,_⟩ := idle rfl
        refine ⟨nofun,nofun,fun _ => ?_⟩
        simp only [Client.put]
        omega
  | left d ok here idle =>
    refine setInv inv ?_ ?_
    · simp only [Client.weight]
      omega
    · cases ok with
      | true => exact settledOwn rfl
      | false =>
        exact ⟨fun _ => ⟨((inv.settled d).leaving here).1,idle rfl⟩,nofun,nofun⟩
  | remove d here => exact setInv inv (by simp only [Client.weight]; omega) (settledOwn rfl)
  | removed d here idle => exact setInv inv (by simp only [Client.weight]; omega) ⟨nofun,nofun,nofun⟩
  | drain d here idle more =>
    refine setInv inv ?_ ⟨fun stage => ?_,fun stage => ?_,fun stage => ?_⟩
    · simp only [Client.weight,Client.put]
      omega
    · cases here.symm.trans stage
    · cases here.symm.trans stage
    · cases here.symm.trans stage
  | drained d here idle none => exact setInv inv (by simp only [Client.weight]; omega) ⟨fun _ => ⟨none,idle⟩,nofun,nofun⟩
  | destroy d here =>
    have settled := (inv.settled d).unbound here
    refine setInv inv ?_ freshSettled
    simp only [Client.weight,Client.fresh]
    omega
  | take force =>
    refine ⟨?_,inv.settled⟩
    have before := inv.ledger
    rw [assertCount]
    dsimp only
    omega
  | give override held =>
    refine ⟨?_,inv.settled⟩
    have before := inv.ledger
    rw [deassertCount]
    dsimp only
    omega
  | reset asked =>
    obtain ⟨held,clients⟩ := asked
    have none : ∑ d, (s.client d).weight = 0 := Finset.sum_eq_zero fun d _ => weightless (clients d).1 (clients d).2
    refine ⟨?_,inv.settled⟩
    show (0 : Int) = ∑ d, (s.client d).weight+s.held
    rw [none,held]
    rfl
  | beside c same => exact ⟨same.trans inv.ledger,inv.settled⟩

end Sums

theorem drains {may : Hazard ι → Votes ι → Prop} {s : Votes ι} {d : ι} (n : Nat) (here : (s.client d).stage = .draining)
    (idle : (s.client d).Idle) (votes : (s.client d).devWake = n) :
    ∃ s', ReflTransGen (Step may) s s' ∧ (s'.client d).stage = .unbound ∧ s'.cntrl.devWake = s.cntrl.devWake-n ∧
      ∀ e, e ≠ d → s'.client e = s.client e := by
  induction n generalizing s with
  | zero =>
    refine ⟨_,ReflTransGen.single (.drained d here idle (by simpa using votes)),?_,by simp [Votes.set],fun e other => ?_⟩
    · simp [Votes.set,Function.update_self]
    · simp only [Votes.set,Function.update_of_ne other]
  | succ n ih =>
    let put := s.set d (s.client d).put
    let next := put.returned d (put.client d).returned
    have off : put.client d = (s.client d).put := Function.update_self ..
    have back : next.client d = (s.client d).put.returned := by
      show Function.update put.client d (put.client d).returned d = _
      rw [Function.update_self,off]
    have first : Step may s put := .drain d here idle (by omega)
    have second : Step may put next := .returned d (by rw [off]; exact Nat.succ_pos _)
    have count : next.cntrl.devWake = s.cntrl.devWake-1 := by
      show (mhiDeassertDevWake (resumeIfSuspended s.cntrl) false).devWake = _
      rw [deassertCount,resumeCount]
    have others : ∀ e, e ≠ d → next.client e = s.client e := by
      intro e other
      show Function.update (Function.update s.client d _) d _ e = _
      rw [Function.update_of_ne other,Function.update_of_ne other]
    obtain ⟨s',run,unbound,total,apart⟩ := @ih next (by rw [back]; exact here) (by rw [back]; exact idle) (by
      rw [back]
      show (s.client d).devWake-1 = n
      omega)
    refine ⟨s',((ReflTransGen.single first).tail second).trans run,unbound,?_,
      fun e other => (apart e other).trans (others e other)⟩
    rw [total,count]
    push_cast
    omega

section Accounted
variable [Fintype ι]

structure Accounted (s : Votes ι) : Prop where
  ledger : s.cntrl.devWake = ∑ d, (s.client d).weight+s.held
  unbound : ∀ d, (s.client d).stage = .unbound → (s.client d).devWake = 0
  rest : s.held = 0 → (∀ d, (s.client d).stage = .unbound) → s.cntrl.devWake = 0
  ends : ∀ d, (s.client d).stage = .draining → (s.client d).Idle → 0 ≤ (s.client d).devWake →
    ∃ s', ReflTransGen (Step Balanced) s s' ∧ (s'.client d).stage = .unbound ∧
      s'.cntrl.devWake = s.cntrl.devWake-(s.client d).devWake ∧ ∀ e, e ≠ d → s'.client e = s.client e

def Votes.start (c : Cntrl) (own : ι → Bool) : Votes ι :=
  ⟨c,fun d => if own d then {Client.fresh with stage := .controller} else Client.fresh,0⟩

omit [DecidableEq ι] in
theorem startInv {c : Cntrl} {own : ι → Bool} (none : c.devWake = 0) : Inv (Votes.start c own) := by
  have fresh : ∀ d, ((Votes.start c own).client d).weight = 0 ∧ Settled ((Votes.start c own).client d) := by
    intro d
    simp only [Votes.start]
    split
    · exact ⟨rfl,settledOwn rfl⟩
    · exact ⟨rfl,freshSettled⟩
  refine ⟨?_,fun d => (fresh d).2⟩
  rw [Finset.sum_eq_zero fun d _ => (fresh d).1]
  exact none

end Accounted

namespace Sample

def cntrl : Cntrl := ⟨.m0,mask [.m0,.m2],.amss,.m0,0,0,0,false,false,mhiMaxMtu,0,[]⟩
def start : Votes Unit := .start cntrl fun _ => false
def asking : Votes Unit := start.asked () {Client.fresh.wait with stage := .entering}
def entered : Votes Unit := asking.set () (asking.client ()).granted
def probing : Votes Unit := entered.set () {entered.client () with stage := .probing}
def voting : Votes Unit := probing.set () (probing.client ()).get
def voted : Votes Unit := voting.counted () (voting.client ()).counted
def leaving (ok : Bool) : Votes Unit := voted.set () {voted.client () with stage := .leaving ok}.put
def left (ok : Bool) : Votes Unit := (leaving ok).returned () ((leaving ok).client ()).returned
def ended (ok : Bool) : Votes Unit := (left ok).set () {(left ok).client () with stage := if ok then .bound else .unbound}

theorem votes {may : Hazard Unit → Votes Unit → Prop} : ReflTransGen (Step may) start voted :=
  ((((ReflTransGen.single (.probe () rfl)).tail (.granted () (by decide))).tail
    (.checked () ⟨true,true,true⟩ none none true rfl rfl)).tail (.get () rfl)).tail (.counted () (by decide))

theorem ends {may : Hazard Unit → Votes Unit → Prop} (ok : Bool) (asked : ok = false → may (.fails ()) voted) :
    ReflTransGen (Step may) start (ended ok) :=
  ((votes.tail (.probed () ok rfl (fun _ => ⟨rfl,rfl,rfl⟩) asked)).tail (.returned () (Nat.succ_pos _))).tail
    (.left () ok rfl fun _ => ⟨rfl,rfl,rfl⟩)

def twice : Votes Unit := voting.set () (voting.client ()).get

theorem twiceReached {may : Hazard Unit → Votes Unit → Prop} : ReflTransGen (Step may) start twice :=
  ((((ReflTransGen.single (.probe () rfl)).tail (.granted () (by decide))).tail
    (.checked () ⟨true,true,true⟩ none none true rfl rfl)).tail (.get () rfl)).tail (.get () rfl)

end Sample

theorem failedProbeKeepsVote : ¬∀ s, ReflTransGen (Step fun _ _ => True) Sample.start s → Accounted s := by
  intro claim
  have unbound := (claim _ (Sample.ends false fun _ => trivial)).unbound () rfl
  exact absurd unbound (by decide)

end MhiHost.ClientVotes
