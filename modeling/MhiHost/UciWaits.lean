import MhiHost.UciWrite
import MhiHost.WaitQueue

/-! Who sleeps on a UCI node and what wakes it: readers on `dl_wq`, writers on `ul_wq` and
pollers on both, beside the transfers, the callbacks and the removal of the node. -/
namespace MhiHost.UciWaits
open NetRing (mhiGetFreeDescCount Ringed outstanding)
open Relation (ReflTransGen)
open UciRead (Uci)
open WaitQueue

inductive Fact where
  | disabled | pending | readable | room
  deriving DecidableEq, Repr

inductive Kind where
  | reader | writer
  | poller (input output : Bool)
  deriving DecidableEq, Repr

namespace Kind

def facts : Kind → List Fact
  | reader => [.disabled,.pending]
  | writer => [.disabled,.room]
  | poller input output => .disabled :: ((if input then [.readable] else []) ++ if output then [.room] else [])

def dl : Kind → Bool
  | reader | poller _ _ => true
  | writer => false

def ul : Kind → Bool
  | writer | poller _ _ => true
  | reader => false

end Kind

/- `dlDue` and `ulDue` callbacks have done their work and not yet called `wake_up`; a removal
has cleared `enabled` and wakes `ul_wq` before `dl_wq`. `silent` is set by an uplink
callback that reports an error, for that one wakes nobody. -/
structure Node (τ : Type) where
  uci : Uci τ
  port : Port
  enabled : Bool
  dlDue : Nat
  ulDue : Nat
  closingUl : Bool
  closingDl : Bool
  silent : Bool
  tasks : τ → Option (Kind × Waiter Fact)

namespace Node
variable {τ : Type} (s : Node τ)

def Holds : Fact → Prop
  | .disabled => s.enabled = false
  | .pending => s.uci.dlPending ≠ []
  | .readable => s.uci.dlPending ≠ [] ∨ s.uci.curBuf ≠ none
  | .room => 0 < mhiGetFreeDescCount s.port

def Due (kind : Kind) : Fact → Prop
  | .disabled => kind.ul = true ∧ s.closingUl = true ∨ kind.dl = true ∧ s.closingDl = true
  | .pending | .readable => 0 < s.dlDue
  | .room => 0 < s.ulDue ∨ s.silent = true

def rouse (on : Kind → Bool) (task : Option (Kind × Waiter Fact)) : Option (Kind × Waiter Fact) :=
  task.map fun p => if on p.1 then (p.1,p.2.rouse) else p

def wakeUl : Node τ := {s with tasks := fun t => rouse Kind.ul (s.tasks t), silent := false}
def wakeDl : Node τ := {s with tasks := fun t => rouse Kind.dl (s.tasks t)}

def reads (u : Uci τ) : Node τ := {s with uci := u, dlDue := if u.dlPending <:+ s.uci.dlPending then s.dlDue else s.dlDue+1}

def mhiUlXferCb (r : MhiResult) : Node τ :=
  let s := {s with port := UciWrite.completed s.port r}
  if r.transactionStatus = none then {s with ulDue := s.ulDue+1} else {s with silent := true}

def setTask [DecidableEq τ] (t : τ) (task : Option (Kind × Waiter Fact)) : Node τ :=
  {s with tasks := Function.update s.tasks t task}

end Node

/- Every way in which a task, a callback or the removal can move, in any order. -/
inductive Step {τ : Type} [DecidableEq τ] : Node τ → Node τ → Prop where
  | reads {s} (u : Uci τ) (step : UciRead.Step s.uci u) : Step s (s.reads u)
  | queue {s} (q : QueueReq) : Step s {s with port := (mhiQueue s.port q).1}
  | completion {s} (r : MhiResult) (under : 0 < outstanding s.port) : Step s (s.mhiUlXferCb r)
  | controller {s} (cntrl : Cntrl) : Step s {s with port := {s.port with cntrl := cntrl}}
  | remove {s} : Step s {s with enabled := false, closingUl := true, closingDl := true}
  | closeUl {s} (closing : s.closingUl = true) : Step s {s.wakeUl with closingUl := false}
  | closeDl {s} (closing : s.closingDl = true) (after : s.closingUl = false) : Step s {s.wakeDl with closingDl := false}
  | wakeUl {s} (due : 0 < s.ulDue) : Step s {s.wakeUl with ulDue := s.ulDue-1}
  | wakeDl {s} (due : 0 < s.dlDue) : Step s {s.wakeDl with dlDue := s.dlDue-1}
  | enter {s} (t : τ) (kind : Kind) : Step s (s.setTask t (some (kind,.enter)))
  | look {s} (t : τ) (kind : Kind) (w : Waiter Fact) (fact : Fact) (here : s.tasks t = some (kind,w)) (asked : fact ∈ kind.facts)
      (wanting : ¬s.Holds fact) : Step s (s.setTask t (some (kind,w.look fact)))
  | leave {s} (t : τ) : Step s (s.setTask t none)

def Sound {τ : Type} (s : Node τ) (kind : Kind) (w : Waiter Fact) : Prop :=
  (∀ fact ∈ w.seen, fact ∈ kind.facts) ∧ Served s.Holds (s.Due kind) w

structure Inv {τ : Type} (s : Node τ) : Prop where
  ringed : Ringed s.port
  tasks : ∀ t kind w, s.tasks t = some (kind,w) → Sound s kind w

section Kept
variable {τ : Type} {s s' : Node τ} {kind : Kind} {w : Waiter Fact}

theorem Sound.change (sound : Sound s kind w) (rises : ∀ fact ∈ kind.facts, s'.Holds fact → s.Holds fact ∨ s'.Due kind fact)
    (kept : ∀ fact ∈ kind.facts, s.Due kind fact → s'.Due kind fact) : Sound s' kind w :=
  ⟨sound.1,sound.2.change (fun fact inside => rises fact (sound.1 fact inside)) fun fact inside => kept fact (sound.1 fact inside)⟩

theorem Inv.change (inv : Inv s) (ringed : Ringed s'.port) (tasks : s'.tasks = s.tasks)
    (rises : ∀ kind fact, s'.Holds fact → s.Holds fact ∨ s'.Due kind fact)
    (kept : ∀ kind fact, s.Due kind fact → s'.Due kind fact) : Inv s' := by
  refine ⟨ringed,fun t kind w here => ?_⟩
  rw [tasks] at here
  exact (inv.tasks t kind w here).change (fun fact _ => rises kind fact) fun fact _ => kept kind fact

theorem readRises {a b : Uci τ} (step : UciRead.Step a b) : b.curBuf ≠ none → a.curBuf ≠ none ∨ a.dlPending ≠ [] := by
  have taken (t : τ) (count : Nat) : (a.take t count).curBuf ≠ none → a.curBuf ≠ none ∨ a.dlPending ≠ [] := by
    unfold Uci.take
    split
    · exact .inl
    split
    · exact .inl
    · rename_i pending
      exact fun _ => .inr (by simp [pending])
  cases step with
  | dma | completed | failed | lock | wake | giveUp | copy => exact .inl
  | check t count nonblock =>
    unfold Uci.check
    split
    · split
      · exact .inl
      · exact .inl
    · exact taken t count
  | take t count => exact taken t count
  | finish t got node here cur => exact fun _ => .inl (by simp [cur])

theorem readsInv {u : Uci τ} (step : UciRead.Step s.uci u) (inv : Inv s) : Inv (s.reads u) := by
  refine inv.change inv.ringed rfl (fun kind fact => ?_) fun kind fact => ?_
  · by_cases shrinks : u.dlPending <:+ s.uci.dlPending
    · have some : u.dlPending ≠ [] → s.uci.dlPending ≠ [] := by
        rintro there none
        rw [none,List.suffix_nil] at shrinks
        exact there shrinks
      cases fact with
      | disabled | room => exact .inl
      | pending => exact fun there => .inl (some there)
      | readable =>
        rintro (there | held)
        · exact .inl (.inl (some there))
        · exact .inl ((readRises step held).symm)
    · have due : 0 < (s.reads u).dlDue := by simp [Node.reads,shrinks]
      cases fact with
      | disabled | room => exact .inl
      | pending | readable => exact fun _ => .inr due
  · have more : s.dlDue ≤ (s.reads u).dlDue := by
      simp only [Node.reads]
      split <;> omega
    cases fact with
    | disabled | room => exact id
    | pending | readable => exact fun due => Nat.lt_of_lt_of_le due more

theorem queueRoom {p : Port} (q : QueueReq) (ringed : Ringed p) :
    mhiGetFreeDescCount (mhiQueue p q).1 ≤ mhiGetFreeDescCount p := by
  obtain ⟨w,h,t,held⟩ := ringed
  have call := Queueing.queueCall p q
  have tre := call.tre
  cases answer : (mhiQueue p q).2 with
  | some e =>
    rw [answer,if_neg (fun none => nomatch none)] at tre
    have still : (mhiQueue p q).1.chan.treRing.Holds w h t := by
      rw [tre]
      exact held.rung _
    rw [UciWrite.freeOf still,UciWrite.freeOf held]
  | none =>
    rw [answer,if_pos rfl] at tre
    have grown : (mhiQueue p q).1.chan.treRing.Holds w h (t+1) := by
      rw [tre]
      exact (Ring.addHolds held (Ring.spaceOf held (call.space (call.passed answer)))).rung _
    rw [UciWrite.freeOf grown,UciWrite.freeOf held]
    omega

theorem queueInv (q : QueueReq) (inv : Inv s) : Inv {s with port := (mhiQueue s.port q).1} := by
  refine inv.change (NetRing.queueRing q inv.ringed).1 rfl (fun kind fact found => .inl ?_) fun _ _ => id
  cases fact with
  | disabled | pending | readable => exact found
  | room => exact Int.lt_of_lt_of_le found (queueRoom q inv.ringed)

theorem completionInv {r : MhiResult} (under : 0 < outstanding s.port) (inv : Inv s) : Inv (s.mhiUlXferCb r) := by
  have ringed : Ringed (UciWrite.completed s.port r) := (NetRing.retireRing r inv.ringed under).1
  unfold Node.mhiUlXferCb
  dsimp only
  split
  · refine inv.change ringed rfl (fun kind fact => ?_) fun kind fact => ?_
    · cases fact with
      | disabled | pending | readable => exact .inl
      | room => exact fun _ => .inr (.inl (Nat.succ_pos _))
    · cases fact with
      | disabled | pending | readable => exact id
      | room => exact .imp_left fun _ => Nat.succ_pos _
  · refine inv.change ringed rfl (fun kind fact => ?_) fun kind fact => ?_
    · cases fact with
      | disabled | pending | readable => exact .inl
      | room => exact fun _ => .inr (.inr rfl)
    · cases fact with
      | disabled | pending | readable => exact id
      | room => exact fun _ => .inr rfl

theorem removeInv (inv : Inv s) : Inv {s with enabled := false, closingUl := true, closingDl := true} := by
  have on (kind : Kind) : kind.ul = true ∨ kind.dl = true := by cases kind <;> simp [Kind.ul,Kind.dl]
  refine inv.change inv.ringed rfl (fun kind fact => ?_) fun kind fact => ?_
  · cases fact with
    | pending | readable | room => exact .inl
    | disabled => exact fun _ => .inr ((on kind).imp (⟨·,rfl⟩) (⟨·,rfl⟩))
  · cases fact with
    | pending | readable | room => exact id
    | disabled => exact .imp (fun due => ⟨due.1,rfl⟩) fun due => ⟨due.1,rfl⟩

theorem wakeInv (on : Kind → Bool) (tasks : s'.tasks = fun t => Node.rouse on (s.tasks t)) (port : s'.port = s.port)
    (same : ∀ fact, s'.Holds fact → s.Holds fact)
    (kept : ∀ kind fact, on kind = false → fact ∈ kind.facts → s.Due kind fact → s'.Due kind fact) (inv : Inv s) : Inv s' := by
  refine ⟨port ▸ inv.ringed,fun t kind w here => ?_⟩
  rw [tasks] at here
  obtain ⟨⟨kind',w'⟩,before,woken⟩ := Option.map_eq_some_iff.mp here
  have sound := inv.tasks t kind' w' before
  dsimp only at woken
  split at woken
  · cases woken
    exact ⟨sound.1,servedRouse⟩
  · rename_i off
    cases woken
    exact sound.change (fun fact _ found => .inl (same fact found)) fun fact asked => kept kind fact (by simpa using off) asked

theorem askedUl {fact : Fact} (off : kind.ul = false) (asked : fact ∈ kind.facts) : fact ≠ .room := by
  cases kind with
  | reader =>
    rintro rfl
    simp [Kind.facts] at asked
  | writer | poller input output => cases off

theorem askedDl {fact : Fact} (off : kind.dl = false) (asked : fact ∈ kind.facts) : fact ≠ .pending ∧ fact ≠ .readable := by
  cases kind with
  | writer =>
    constructor <;> (rintro rfl; simp [Kind.facts] at asked)
  | reader | poller input output => cases off

theorem putInv [DecidableEq τ] {t : τ} {task : Option (Kind × Waiter Fact)}
    (sound : ∀ kind w, task = some (kind,w) → Sound s kind w)
    (inv : Inv s) : Inv (s.setTask t task) := by
  refine ⟨inv.ringed,fun u kind w here => ?_⟩
  by_cases same : u = t
  · subst same
    exact sound kind w (by simpa [Node.setTask] using here)
  · exact inv.tasks u kind w (by simpa [Node.setTask,same] using here)

theorem stepInv [DecidableEq τ] (step : Step s s') (inv : Inv s) : Inv s' := by
  cases step with
  | reads u step => exact readsInv step inv
  | queue q => exact queueInv q inv
  | completion r under => exact completionInv under inv
  | controller cntrl => exact inv.change inv.ringed rfl (fun _ _ => .inl) fun _ _ => id
  | remove => exact removeInv inv
  | closeUl closing =>
    refine wakeInv Kind.ul rfl rfl (fun _ => id) (fun kind fact off asked due => ?_) inv
    have other := askedUl off asked
    cases fact with
    | disabled => exact .inr (due.resolve_left fun ul => absurd ul.1 (by simp [off]))
    | pending | readable => exact due
    | room => exact absurd rfl other
  | closeDl closing after =>
    refine wakeInv Kind.dl rfl rfl (fun _ => id) (fun kind fact off asked due => ?_) inv
    have other := askedDl off asked
    cases fact with
    | disabled => exact .inl (due.resolve_right fun dl => absurd dl.1 (by simp [off]))
    | pending => exact absurd rfl other.1
    | readable => exact absurd rfl other.2
    | room => exact due
  | wakeUl due =>
    refine wakeInv Kind.ul rfl rfl (fun _ => id) (fun kind fact off asked due => ?_) inv
    have other := askedUl off asked
    cases fact with
    | disabled | pending | readable => exact due
    | room => exact absurd rfl other
  | wakeDl due =>
    refine wakeInv Kind.dl rfl rfl (fun _ => id) (fun kind fact off asked due => ?_) inv
    have other := askedDl off asked
    cases fact with
    | disabled | room => exact due
    | pending => exact absurd rfl other.1
    | readable => exact absurd rfl other.2
  | enter t kind =>
    refine putInv (fun kind' w same => ?_) inv
    cases same
    exact ⟨nofun,servedEnter⟩
  | look t kind w fact here asked wanting =>
    refine putInv (fun kind' w' same => ?_) inv
    cases same
    obtain ⟨belongs,served⟩ := inv.tasks t kind w here
    exact ⟨List.forall_mem_cons.mpr ⟨asked,belongs⟩,servedLook wanting served⟩
  | leave t => exact putInv nofun inv

end Kept

theorem sleepersServed {τ : Type} [DecidableEq τ] {s s' : Node τ} (idle : ∀ t, s.tasks t = none) (ringed : Ringed s.port)
    (run : ReflTransGen Step s s') {t : τ} {kind : Kind} {w : Waiter Fact} (here : s'.tasks t = some (kind,w))
    (asleep : w.Asleep kind.facts) : ∀ fact ∈ kind.facts, s'.Holds fact → s'.Due kind fact := by
  have begun : Inv s := ⟨ringed,fun t kind w here => by simp [idle] at here⟩
  have inv := Runs.keeps (fun _ _ step inv => stepInv step inv) run begun
  exact (inv.tasks t kind w here).2.asleep asleep

namespace Sample

def quiet : Node Nat := ⟨UciRead.Sample.opened,TransferFifo.uplinkPort,true,0,0,false,false,false,fun _ => none⟩
def entered : Node Nat := quiet.setTask 1 (some (.reader,.enter))
def looked : Node Nat := entered.setTask 1 (some (.reader,Waiter.enter.look .disabled))
def slept : Node Nat := looked.setTask 1 (some (.reader,(Waiter.enter.look .disabled).look .pending))
def filled : Node Nat := slept.reads ({slept.uci with queued := []}.mhiDlXferCb 0 2 fun _ => 0)

theorem fills : ReflTransGen Step quiet filled := by
  have empty : ¬slept.Holds .pending := by simp [Node.Holds,slept,looked,entered,quiet,Node.setTask,UciRead.Sample.opened,Uci.start]
  have enters : Step quiet entered := .enter 1 .reader
  have looks : Step entered looked := .look 1 .reader .enter .disabled rfl (by decide) (by simp [Node.Holds,entered,quiet,Node.setTask])
  have sleeps : Step looked slept := .look 1 .reader _ .pending rfl (by decide) empty
  have comes : Step slept filled := .reads _ (.completed [] 0 0x1000 [] 2 (fun _ => 0) rfl (by decide))
  exact (((ReflTransGen.single enters).tail looks).tail sleeps).tail comes

theorem sleepersServedSample : filled.Holds .pending ∧ ∀ fact ∈ Kind.reader.facts, filled.Holds fact →
    filled.Due .reader fact := by
  have there : filled.tasks 1 = some (.reader,(Waiter.enter.look .disabled).look .pending) := rfl
  exact ⟨by simp [Node.Holds,filled,Node.reads,Uci.mhiDlXferCb],
    sleepersServed (fun _ => rfl) ⟨_,_,_,UciWrite.Sample.held⟩ fills there ⟨rfl,by decide⟩⟩

end Sample

structure Mask where
  err : Bool
  input : Bool
  output : Bool
  deriving DecidableEq, Repr

section Poll
variable {τ : Type} (s : Node τ)

def mhiUciPoll : Mask :=
  if !s.enabled then ⟨true,false,false⟩
  else ⟨false,!s.uci.dlPending.isEmpty || s.uci.curBuf.isSome,decide (0 < mhiGetFreeDescCount s.port)⟩

theorem pollWanting (input output : Bool) : (∀ fact ∈ (Kind.poller input output).facts, ¬s.Holds fact) ↔
    (mhiUciPoll s).err = false ∧ (input = true → (mhiUciPoll s).input = false) ∧
    (output = true → (mhiUciPoll s).output = false) := by
  cases on : s.enabled with
  | false => simp [Kind.facts,mhiUciPoll,Node.Holds,on]
  | true => cases input <;> cases output <;> simp [Kind.facts,mhiUciPoll,Node.Holds,on]

theorem pollReads (on : s.enabled = true) (t : τ) (count : Nat) :
    (mhiUciPoll s).input = true ↔ (s.uci.check t count true).reader = some (t,.taken count) := by
  cases cur : s.uci.curBuf with
  | some node => simp [mhiUciPoll,on,Uci.check,Uci.take,Uci.at',cur]
  | none =>
    cases pending : s.uci.dlPending with
    | nil => simp [mhiUciPoll,on,Uci.check,Uci.unlock,cur,pending]
    | cons node rest => simp [mhiUciPoll,on,Uci.check,Uci.take,Uci.at',cur,pending]

end Poll

end MhiHost.UciWaits
