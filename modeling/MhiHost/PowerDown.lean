import MhiHost.Handlers
import MhiHost.Power
import MhiHost.Runs

/-! Graceful power-down. `mhi_power_down` queues a DISABLE item and waits for the worker
run that handles it; the worker takes the list as a whole and goes through it item by
item, while handlers keep queueing. The DISABLE item removes every device and ends in
DISABLE, and so it stays as long as no later item starts the controller again. -/
namespace MhiHost.PowerDown
open Handlers

/- Where the call stands: how many items are ahead of its own, then that its item has been
taken, then that the worker run has ended. It may return any time after that. -/
inductive Phase where
  | idle
  | waiting (ahead : Nat)
  | handled
  | flushed
  deriving DecidableEq, Repr

def Phase.next : Phase → Phase
  | .waiting 0 => .handled
  | .waiting (n+1) => .waiting n
  | other => other

structure Worker where
  host : Host
  head : List DevStTransition
  job : Option Job
  phase : Phase

namespace Worker
def start (h : Host) : Worker := ⟨h,[],none,.idle⟩
def withHost (s : Worker) (h : Host) : Worker := {s with host := h}
def rest (s : Worker) (h : Host) (job : Option Job) : Worker := {s with host := h, job := job}
end Worker

/- A forced power-down of an earlier session may have come before; the wait for M0 of the
mission mode item only succeeds in M0 or an error state, and nothing but the worker leads
from there to DISABLE. -/
inductive Step (G : Worker → DevStTransition → Prop) : Worker → Worker → Prop where
  | handler {s h} (ran : Handler s.host h) : Step G s (s.withHost h)
  | append {s} (st : DevStTransition) : Step G s (s.withHost (mhiQueueStateTransition s.host st))
  | linkDown {s} (free : s.phase = .idle) :
      Step G s (s.withHost (s.host.setPm (mhiTrysetPmState s.host.cntrl.pmState .ldErrFatalDetect)))
  | powerDown {s} (free : s.phase = .idle) : Step G s {s with
      host := mhiQueueStateTransition s.host .disable
      phase := .waiting (s.head.length + s.host.transitionList.length)}
  | splice {s} (empty : s.head = []) (free : s.job = none) :
      Step G s {s with host := {s.host with transitionList := []}, head := s.host.transitionList}
  | take {s} (st : DevStTransition) (rest : List DevStTransition) (reply : ItemReply) (first : s.head = st :: rest)
      (free : s.job = none) (may : G s st) :
      Step G s ⟨(beginItem s.host st reply).1,rest,(beginItem s.host st reply).2,s.phase.next⟩
  | loaded {s} (passThru edl : Bool) (reply : FwReply) (busy : s.job = some (.loading passThru edl)) :
      Step G s (s.rest (fwLoadFinish s.host passThru edl reply) none)
  | mission {s} (inTime : Bool) (reply : CreateReply) (busy : s.job = some .mission)
      (waited : inTime = true → s.host.cntrl.pmState ≠ .disable) :
      Step G s (s.rest (missionModeFinish s.host inTime reply).1 none)
  | stuck {s} (target prev : PmState) (cleared : Bool) (busy : s.job = some (.resetting target prev))
      (failed : disableStuck target prev cleared = true) : Step G s (s.rest s.host none)
  | cleared {s} (target prev : PmState) (cleared : Bool) (busy : s.job = some (.resetting target prev))
      (passed : disableStuck target prev cleared = false) : Step G s (s.rest s.host (some (.destroying target s.host.devices)))
  | destroy {s h} (target : PmState) (d : Device) (left : List Device) (script : Nat → Bool → Nat → List QueueReq)
      (busy : s.job = some (.destroying target (d :: left))) (ran : mhiDestroyDevice script s.host d = some h) :
      Step G s (s.rest h (some (.destroying target left)))
  | disabled {s} (target : PmState) (reply : ReadyReply) (busy : s.job = some (.destroying target [])) :
      Step G s (s.rest (disableFinish s.host target reply) none)
  | flush {s} (taken : s.phase = .handled) (empty : s.head = []) (free : s.job = none) : Step G s {s with phase := .flushed}

section Removal
variable {h h' : Host}

structure Aside (h h' : Host) : Prop where
  pm : h'.cntrl.pmState = h.cntrl.pmState
  list : h'.transitionList = h.transitionList
  devices : h'.devices = h.devices

theorem Aside.trans {a b c : Host} (first : Aside a b) (second : Aside b c) : Aside a c :=
  ⟨second.pm.trans first.pm,second.list.trans first.list,second.devices.trans first.devices⟩

theorem resetLoopPm {script : Nat → List QueueReq} {fuel i : Nat} {p out : Port} (ran : resetLoop script fuel i p = some out) :
    out.cntrl.pmState = p.cntrl.pmState := by
  induction fuel generalizing i p with
  | zero =>
    simp only [resetLoop] at ran
    split at ran <;> cases ran
    rfl
  | succ fuel ih =>
    simp only [resetLoop] at ran
    split at ran
    · cases ran
      rfl
    · refine (ih ran).trans ?_
      unfold resetOne
      dsimp only
      split
      · exact uplinkPm _ _ _
      · rw [queueAllPm]
        exact uplinkPm _ _ _

theorem resetChanAside {i : Nat} {script : Nat → List QueueReq} (ran : mhiResetChan h i script = some h') : Aside h h' := by
  unfold mhiResetChan at ran
  split at ran
  · cases ran
    exact ⟨rfl,rfl,rfl⟩
  obtain ⟨mid,begun,ran⟩ := Option.bind_eq_some_iff.mp ran
  obtain ⟨p,reset,last⟩ := Option.bind_eq_some_iff.mp ran
  cases Option.some.inj last
  have marked : Aside h mid := by
    unfold resetBegin at begun
    split at begun
    · contradiction
    · obtain ⟨e,_,last⟩ := Option.bind_eq_some_iff.mp begun
      cases Option.some.inj last
      exact ⟨rfl,rfl,rfl⟩
  exact marked.trans ⟨resetLoopPm reset,rfl,rfl⟩

theorem removeFirstAside {c : Option Nat} {script : Nat → List QueueReq} {found : ChState}
    (ran : removeFirst h c script = some (h',found)) : Aside h h' := by
  unfold removeFirst at ran
  split at ran
  · cases ran
    exact ⟨rfl,rfl,rfl⟩
  · obtain ⟨mid,reset,last⟩ := Option.bind_eq_some_iff.mp ran
    cases Option.some.inj last
    have begun := resetChanAside reset
    exact ⟨begun.pm,begun.list,begun.devices⟩

theorem removeLastAside (h : Host) (c : Option Nat) (found : ChState) : Aside h (removeLast h c found) := by
  unfold removeLast
  split <;> exact ⟨rfl,rfl,rfl⟩

theorem driverRemoveAside {d : Device} {script : Bool → Nat → List QueueReq} (ran : mhiDriverRemove h d script = some h') :
    Aside h h' := by
  unfold mhiDriverRemove at ran
  obtain ⟨⟨a,dl⟩,first,ran⟩ := Option.bind_eq_some_iff.mp ran
  obtain ⟨⟨b,ul⟩,second,last⟩ := Option.bind_eq_some_iff.mp ran
  cases Option.some.inj last
  exact (((removeFirstAside first).trans (removeFirstAside second)).trans (removeLastAside _ _ _)).trans (removeLastAside _ _ _)

theorem destroyView {d : Device} {script : Nat → Bool → Nat → List QueueReq} (ran : mhiDestroyDevice script h d = some h') :
    h'.cntrl.pmState = h.cntrl.pmState ∧ h'.transitionList = h.transitionList ∧
    h'.devices = h.devices.filter (fun e => decide (e ≠ d)) := by
  unfold mhiDestroyDevice at ran
  obtain ⟨mid,removed,rfl⟩ := Option.map_eq_some_iff.mp ran
  have aside : Aside h mid := by
    split at removed
    · exact driverRemoveAside removed
    · cases removed
      exact ⟨rfl,rfl,rfl⟩
  exact ⟨aside.pm,aside.list,by simp only [dropDevice,aside.devices]⟩

end Removal

section Items
variable (h : Host)

theorem readyFrame (reply : ReadyReply) : Tried (· = .por) h.cntrl.pmState (mhiReadyStateTransition h reply).1.cntrl.pmState ∧
    (mhiReadyStateTransition h reply).1.transitionList = h.transitionList := by
  have tried : Tried (· = .por) h.cntrl.pmState (readyHost h).cntrl.pmState := .inr ⟨.por,rfl,rfl⟩
  have mapped : Aside (readyHost h) (mhiInitMmio (readyHost h) reply).1 := by
    obtain ⟨_,_,_,_,book,_,same⟩ := mmioView (readyHost h) reply
    rw [same]
    exact ⟨congrArg Book.pm book,rfl,rfl⟩
  have ends := readyEnds h reply
  generalize mhiReadyStateTransition h reply = out at ends ⊢
  cases ends with
  | refused e => exact ⟨.inl rfl,rfl⟩
  | moved => exact ⟨tried,rfl⟩
  | unmapped => exact ⟨by rw [mapped.pm]; exact tried,mapped.list⟩
  | done alive reached =>
    generalize (mhiInitMmio (readyHost h) reply).1 = mid at mapped ⊢
    have passed : (mid.passEvents readyEvent).cntrl.pmState = mid.cntrl.pmState :=
      congrArg Book.pm (forEventsBook readyEventBook mid.cntrl mid.events)
    refine ⟨?_,mapped.list⟩
    rw [← mapped.pm, ← passed] at tried
    exact tried

theorem createView (reply : CreateReply) : (mhiCreateDevices h reply).cntrl = h.cntrl ∧
    (mhiCreateDevices h reply).transitionList = h.transitionList := by
  obtain ⟨_,_,_,same⟩ := fromCreated reply h.maxChan 0 h
  unfold mhiCreateDevices
  rw [same]
  exact ⟨rfl,rfl⟩

theorem missionBeginAside (ee : ExecEnv) : Aside h (missionModeBegin h ee).1 := by
  have read : Aside h (if mhiRegAccessValid h.cntrl.pmState then {h with cntrl := {h.cntrl with ee := ee}} else h) := by
    split <;> exact ⟨rfl,rfl,rfl⟩
  unfold missionModeBegin
  dsimp only
  generalize (if mhiRegAccessValid h.cntrl.pmState then _ else _ : Host) = mid at read
  split
  · exact read
  · have woken : (resumeIfSuspended (mhiAssertDevWake mid.cntrl true)).book.pm = mid.cntrl.book.pm := by
      rw [resumeBook, assertBook, Book.resumePm]
    exact ⟨woken.trans read.pm,read.list,read.devices⟩

theorem deassertPm (c : Cntrl) (override : Bool) : (mhiDeassertDevWake c override).pmState = c.pmState :=
  congrArg Book.pm (deassertBook c override)

theorem missionEventBook (c : Cntrl) (e : MhiEvent) : (missionEvent c e).1.book = c.book := by
  unfold missionEvent
  split
  · rfl
  split
  · exact processDbBook _ _ _ _
  · rfl

theorem missionFinishView (inTime : Bool) (reply : CreateReply) :
    (missionModeFinish h inTime reply).1.cntrl.pmState = h.cntrl.pmState ∧
    (missionModeFinish h inTime reply).1.transitionList = h.transitionList ∧
    (inTime = false → (missionModeFinish h inTime reply).1.devices = h.devices) := by
  unfold missionModeFinish
  split
  · exact ⟨deassertPm _ _,rfl,fun _ => rfl⟩
  · rename_i met
    obtain ⟨cntrl,list⟩ := createView (h.passEvents missionEvent) reply
    have passed : (h.passEvents missionEvent).cntrl.pmState = h.cntrl.pmState :=
      congrArg Book.pm (forEventsBook missionEventBook h.cntrl h.events)
    dsimp only
    exact ⟨by rw [deassertPm, cntrl]; exact passed,list,fun late => by simp [late] at met⟩

theorem fwLoadFrame (passThru edl : Bool) (reply : FwReply) :
    Tried (· = .por) h.cntrl.pmState (fwLoadFinish h passThru edl reply).cntrl.pmState ∧
    (fwLoadFinish h passThru edl reply).transitionList = h.transitionList := by
  unfold fwLoadFinish
  split
  · exact readyFrame h reply.ready
  split
  · exact ⟨.inl rfl,rfl⟩
  dsimp only
  split
  · exact ⟨.inl rfl,rfl⟩
  · exact readyFrame {h with cntrl := {h.cntrl with devState := .reset}} reply.ready

theorem disableFinishFrame (target : PmState) (reply : ReadyReply) :
    Tried (fun st => st = .por ∨ st = .disable) h.cntrl.pmState (disableFinish h target reply).cntrl.pmState ∧
    (disableFinish h target reply).transitionList = h.transitionList := by
  have passed : (resetRings h).cntrl.pmState = h.cntrl.pmState :=
    congrArg Book.pm (forEventsBook resetEventBook h.cntrl h.events)
  unfold disableFinish
  dsimp only
  split
  · obtain ⟨tried,list⟩ := readyFrame (resetRings h) reply
    rw [passed] at tried
    refine ⟨?_,list⟩
    rcases tried with same | ⟨st,por,reached⟩
    · exact .inl same
    · exact .inr ⟨st,.inl por,reached⟩
  · exact ⟨.inr ⟨.disable,.inr rfl,by rw [← passed]; rfl⟩,rfl⟩

theorem disableBeginView (target : PmState) :
    (disableBegin h target).1.transitionList = h.transitionList ∧ (disableBegin h target).1.devices = h.devices ∧
    ((disableBegin h target).2 = none ∧ mhiTrysetPmState h.cntrl.pmState target ≠ target ∧
        (disableBegin h target).1.cntrl.pmState = h.cntrl.pmState ∨
      (disableBegin h target).2 = some h.cntrl.pmState ∧ mhiTrysetPmState h.cntrl.pmState target = target ∧
        (disableBegin h target).1.cntrl.pmState = target) := by
  have told : ∀ g : Host, (if target = .sysErrProcess then g.statusCb .sysError else g).cntrl = g.cntrl ∧
      (if target = .sysErrProcess then g.statusCb .sysError else g).transitionList = g.transitionList ∧
      (if target = .sysErrProcess then g.statusCb .sysError else g).devices = g.devices := by
    intro g
    split <;> exact ⟨rfl,rfl,rfl⟩
  obtain ⟨cntrl,list,devices⟩ := told h
  unfold disableBegin
  dsimp only
  generalize (if target = .sysErrProcess then h.statusCb .sysError else h) = mid at cntrl list devices
  rw [cntrl]
  split
  · rename_i stuck
    exact ⟨list,devices,.inl ⟨rfl,stuck,(trysetCases _ _).resolve_left stuck⟩⟩
  · rename_i reached
    have reached := not_not.mp reached
    dsimp only
    split <;> exact ⟨list,devices,.inr ⟨rfl,reached,reached⟩⟩

end Items

section Invariant

def shutting : Option Job → Bool
  | some (.resetting target _) => decide (target = .shutdownProcess)
  | some (.destroying target _) => decide (target = .shutdownProcess)
  | _ => false

theorem triedOff {ok : PmState → Prop} {pm pm' away : PmState} (tried : Tried ok pm pm') (never : ¬ok away)
    (off : pm ≠ away) : pm' ≠ away := by
  rcases tried with rfl | ⟨st,allowed,rfl⟩
  · exact off
  · rcases trysetCases pm st with reached | stuck
    · rw [reached]
      rintro rfl
      exact never allowed
    · rw [stuck]
      exact off

theorem triedHeld {pm pm' : PmState} (tried : Tried Shared pm pm') (held : pm = .shutdownProcess ∨ pm = .disable) : pm' = pm := by
  rcases tried with same | ⟨st,⟨off,por,down,link⟩,rfl⟩
  · exact same
  · rcases held with rfl | rfl <;> cases st <;> first | rfl | contradiction

inductive Final (s : Worker) : Prop where
  | resetting (prev : PmState) (job : s.job = some (.resetting .shutdownProcess prev))
      (pm : s.host.cntrl.pmState = .shutdownProcess)
  | destroying (left : List Device) (job : s.job = some (.destroying .shutdownProcess left))
      (pm : s.host.cntrl.pmState = .shutdownProcess) (all : ∀ d ∈ s.host.devices, d ∈ left)
  | done (job : s.job = none ∨ s.job = some .mission) (pm : s.host.cntrl.pmState = .disable) (devices : s.host.devices = [])

theorem Final.same {s s' : Worker} (final : Final s) (job : s'.job = s.job)
    (pm : s'.host.cntrl.pmState = s.host.cntrl.pmState) (devices : s'.host.devices = s.host.devices) : Final s' := by
  cases final with
  | resetting prev busy down => exact .resetting prev (job.trans busy) (pm.trans down)
  | destroying left busy down all => exact .destroying left (job.trans busy) (pm.trans down) (by rw [devices]; exact all)
  | done idle down gone => exact .done (by rw [job]; exact idle) (pm.trans down) (devices.trans gone)

theorem Final.held {s : Worker} (final : Final s) : s.host.cntrl.pmState = .shutdownProcess ∨
    s.host.cntrl.pmState = .disable := by
  cases final with
  | resetting prev busy down => exact .inl down
  | destroying left busy down all => exact .inl down
  | done idle down gone => exact .inr down

structure Kept (s : Worker) : Prop where
  still : shutting s.job = false → s.host.cntrl.pmState ≠ .shutdownProcess
  placed : ∀ n, s.phase = .waiting n → (s.head ++ s.host.transitionList)[n]? = some .disable
  final : s.phase = .handled ∨ s.phase = .flushed → Final s
  flushed : s.phase = .flushed → s.job = none ∨ s.job = some .mission

variable {s : Worker}

theorem frameKept {h : Host} (frame : Frame Shared s.host h) (kept : Kept s) : Kept (s.withHost h) := by
  refine ⟨fun off => triedOff frame.pm (by simp [Shared]) (kept.still off),?_,?_,kept.flushed⟩
  · intro n waiting
    obtain ⟨items,list⟩ := frame.list
    have there := kept.placed n waiting
    obtain ⟨inside,_⟩ := List.getElem?_eq_some_iff.mp there
    show (s.head ++ h.transitionList)[n]? = _
    rw [list, ← List.append_assoc, List.getElem?_append_left inside]
    exact there
  · intro ended
    have final := kept.final ended
    exact final.same rfl (triedHeld frame.pm final.held) frame.devices

theorem beginView (h : Host) (st : DevStTransition) (reply : ItemReply) :
    (beginItem h st reply).1.transitionList = h.transitionList ∧
    (shutting (beginItem h st reply).2 = false → h.cntrl.pmState ≠ .shutdownProcess →
      (beginItem h st reply).1.cntrl.pmState ≠ .shutdownProcess) := by
  cases st with
  | pbl =>
    have read : Aside h (readExecEnv h reply.ee) := by
      unfold readExecEnv
      split <;> exact ⟨rfl,rfl,rfl⟩
    simp only [beginItem]
    split <;> exact ⟨read.list,fun _ off => by rw [read.pm]; exact off⟩
  | sbl =>
    obtain ⟨cntrl,list⟩ := createView (setExecEnv h .sbl) reply.create
    exact ⟨list,fun _ off => by simp only [beginItem,cntrl]; exact off⟩
  | fp =>
    obtain ⟨cntrl,list⟩ := createView (setExecEnv h .fp) reply.create
    exact ⟨list,fun _ off => by simp only [beginItem,cntrl]; exact off⟩
  | missionMode =>
    have begun := missionBeginAside h reply.ee
    simp only [beginItem]
    split
    · rename_i ran
      rw [ran] at begun
      exact ⟨begun.list,fun _ off => by rw [begun.pm]; exact off⟩
    · rename_i ran
      rw [ran] at begun
      exact ⟨begun.list,fun _ off => by rw [begun.pm]; exact off⟩
  | ready =>
    obtain ⟨tried,list⟩ := readyFrame h reply.ready
    exact ⟨list,fun _ off => triedOff tried (by simp) off⟩
  | sysErr =>
    obtain ⟨list,_,⟨_,_,pm⟩ | ⟨_,_,pm⟩⟩ := disableBeginView h .sysErrProcess
    · exact ⟨list,fun _ off => by simp only [beginItem,pm]; exact off⟩
    · exact ⟨list,fun _ _ => by simp [beginItem,pm]⟩
  | disable =>
    obtain ⟨list,_,⟨_,_,pm⟩ | ⟨job,_,_⟩⟩ := disableBeginView h .shutdownProcess
    · exact ⟨list,fun _ off => by simp only [beginItem,pm]; exact off⟩
    · exact ⟨list,fun quiet => by simp [beginItem,job,shutting] at quiet⟩

theorem toShutdown {pm : PmState} (off : pm ≠ .shutdownProcess) (live : pm ≠ .disable) :
    mhiTrysetPmState pm .shutdownProcess = .shutdownProcess := by
  cases pm <;> first | rfl | contradiction

def Clean (s : Worker) (st : DevStTransition) : Prop :=
  (s.phase = .waiting 0 → s.host.cntrl.pmState = .disable → s.host.devices = []) ∧
  (s.phase = .handled ∨ s.phase = .flushed → st ≠ .ready ∧ st ≠ .sbl ∧ st ≠ .fp ∧ st ≠ .pbl)

theorem ownFinal {h : Host} {phase : Phase} {rest : List DevStTransition} (reply : ItemReply)
    (off : h.cntrl.pmState ≠ .shutdownProcess) (clean : h.cntrl.pmState = .disable → h.devices = []) :
    Final ⟨(beginItem h .disable reply).1,rest,(beginItem h .disable reply).2,phase⟩ := by
  obtain ⟨_,devices,⟨job,stuck,pm⟩ | ⟨job,_,pm⟩⟩ := disableBeginView h .shutdownProcess
  · have down : h.cntrl.pmState = .disable := by
      by_contra live
      exact stuck (toShutdown off live)
    exact .done (.inl (by simp [beginItem,job])) (pm.trans down) (devices.trans (clean down))
  · exact .resetting h.cntrl.pmState (by simp [beginItem,job]) pm

theorem laterFinal {h : Host} {phase : Phase} {rest : List DevStTransition} {st : DevStTransition} (reply : ItemReply)
    (harmless : st ≠ .ready ∧ st ≠ .sbl ∧ st ≠ .fp ∧ st ≠ .pbl) (down : h.cntrl.pmState = .disable) (gone : h.devices = []) :
    Final ⟨(beginItem h st reply).1,rest,(beginItem h st reply).2,phase⟩ ∧
    ((beginItem h st reply).2 = none ∨ (beginItem h st reply).2 = some .mission) := by
  have refused : ∀ target, target = .sysErrProcess ∨ target = .shutdownProcess →
      (disableBegin h target).2 = none ∧ (disableBegin h target).1.cntrl.pmState = .disable ∧
      (disableBegin h target).1.devices = [] := by
    intro target way
    obtain ⟨_,devices,⟨job,_,pm⟩ | ⟨_,reached,_⟩⟩ := disableBeginView h target
    · exact ⟨job,pm.trans down,devices.trans gone⟩
    · rw [down] at reached
      rcases way with rfl | rfl <;> cases reached
  cases st with
  | missionMode =>
    have begun := missionBeginAside h reply.ee
    simp only [beginItem]
    split
    · rename_i ran
      rw [ran] at begun
      exact ⟨.done (.inl rfl) (begun.pm.trans down) (begun.devices.trans gone),.inl rfl⟩
    · rename_i ran
      rw [ran] at begun
      exact ⟨.done (.inr rfl) (begun.pm.trans down) (begun.devices.trans gone),.inr rfl⟩
  | sysErr =>
    obtain ⟨job,pm,devices⟩ := refused .sysErrProcess (.inl rfl)
    exact ⟨.done (.inl (by simp [beginItem,job])) pm devices,.inl (by simp [beginItem,job])⟩
  | disable =>
    obtain ⟨job,pm,devices⟩ := refused .shutdownProcess (.inr rfl)
    exact ⟨.done (.inl (by simp [beginItem,job])) pm devices,.inl (by simp [beginItem,job])⟩
  | _ => simp at harmless

theorem takeKept {st : DevStTransition} {rest : List DevStTransition} (reply : ItemReply) (first : s.head = st :: rest)
    (free : s.job = none) (clean : Clean s st) (kept : Kept s) :
    Kept ⟨(beginItem s.host st reply).1,rest,(beginItem s.host st reply).2,s.phase.next⟩ := by
  obtain ⟨list,quiet⟩ := beginView s.host st reply
  have off : s.host.cntrl.pmState ≠ .shutdownProcess := kept.still (by rw [free]; rfl)
  have later : s.phase = .handled ∨ s.phase = .flushed → s.host.cntrl.pmState = .disable ∧ s.host.devices = [] := by
    intro ended
    cases kept.final ended with
    | resetting prev job pm => exact absurd pm off
    | destroying left job pm all => exact absurd pm off
    | done job pm devices => exact ⟨pm,devices⟩
  cases stands : s.phase with
  | idle => exact ⟨fun calm => quiet calm off,fun n waiting => by simp [Phase.next] at waiting,
      fun ended => by simp [Phase.next] at ended,fun ended => by simp [Phase.next] at ended⟩
  | waiting ahead =>
    have there := kept.placed ahead stands
    rw [first] at there
    cases ahead with
    | zero =>
      have own : st = .disable := by simpa using there
      subst own
      refine ⟨fun calm => quiet calm off,fun n waiting => by simp [Phase.next] at waiting,fun _ => ?_,
        fun ended => by simp [Phase.next] at ended⟩
      exact ownFinal reply off (clean.1 stands)
    | succ ahead =>
      refine ⟨fun calm => quiet calm off,fun n waiting => ?_,fun ended => by simp [Phase.next] at ended,
        fun ended => by simp [Phase.next] at ended⟩
      have same : ahead = n := by simpa [Phase.next] using waiting
      subst same
      show (rest ++ (beginItem s.host st reply).1.transitionList)[ahead]? = _
      rw [list]
      simpa using there
  | handled =>
    obtain ⟨down,gone⟩ := later (.inl stands)
    obtain ⟨final,_⟩ := laterFinal reply (clean.2 (.inl stands)) down gone
    exact ⟨fun calm => quiet calm off,fun n waiting => by simp [Phase.next] at waiting,fun _ => final,
      fun ended => by simp [Phase.next] at ended⟩
  | flushed =>
    obtain ⟨down,gone⟩ := later (.inr stands)
    obtain ⟨final,job⟩ := laterFinal reply (clean.2 (.inr stands)) down gone
    exact ⟨fun calm => quiet calm off,fun n waiting => by simp [Phase.next] at waiting,fun _ => final,fun _ => job⟩

theorem restKept {h : Host} {job : Option Job} (list : h.transitionList = s.host.transitionList)
    (still : shutting job = false → h.cntrl.pmState ≠ .shutdownProcess) (final : Final s → Final (s.rest h job))
    (settled : s.job = none ∨ s.job = some .mission → job = none ∨ job = some .mission) (kept : Kept s) :
    Kept (s.rest h job) := by
  refine ⟨still,fun n waiting => ?_,fun ended => final (kept.final ended),fun ended => settled (kept.flushed ended)⟩
  show (s.head ++ h.transitionList)[n]? = _
  rw [list]
  exact kept.placed n waiting

theorem shutdownFinishPm (h : Host) (reply : ReadyReply) :
    (disableFinish h .shutdownProcess reply).cntrl.pmState = mhiTrysetPmState h.cntrl.pmState .disable := by
  have passed : (resetRings h).cntrl.pmState = h.cntrl.pmState :=
    congrArg Book.pm (forEventsBook resetEventBook h.cntrl h.events)
  rw [← passed]
  rfl

theorem disabledKept {target : PmState} {reply : ReadyReply} (busy : s.job = some (.destroying target [])) (kept : Kept s) :
    Kept (s.rest (disableFinish s.host target reply) none) := by
  obtain ⟨tried,list⟩ := disableFinishFrame s.host target reply
  refine restKept list (fun _ => ?_) (fun final => ?_) (fun _ => .inl rfl) kept
  · by_cases down : target = .shutdownProcess
    · subst down
      rw [shutdownFinishPm]
      cases s.host.cntrl.pmState <;> decide
    · exact triedOff tried (by simp) (kept.still (by simp [busy,shutting,down]))
  · cases final with
    | resetting prev job pm => simp [busy] at job
    | destroying left job pm all =>
      cases busy.symm.trans job
      have gone : s.host.devices = [] := List.eq_nil_iff_forall_not_mem.mpr (fun d member => by simpa using all d member)
      refine .done (.inl rfl) ?_ gone
      have last := shutdownFinishPm s.host reply
      rw [pm] at last
      exact last
    | done job pm devices => simp [busy] at job

theorem missionKept {inTime : Bool} {reply : CreateReply} (busy : s.job = some .mission)
    (waited : inTime = true → s.host.cntrl.pmState ≠ .disable) (kept : Kept s) :
    Kept (s.rest (missionModeFinish s.host inTime reply).1 none) := by
  obtain ⟨pm,list,devices⟩ := missionFinishView s.host inTime reply
  have off := kept.still (by rw [busy]; rfl)
  refine restKept list (fun _ => by rw [pm]; exact off) (fun final => ?_) (fun _ => .inl rfl) kept
  cases final with
  | resetting prev job _ => simp [busy] at job
  | destroying left job _ _ => simp [busy] at job
  | done job down gone =>
    have late : inTime = false := eq_false_of_ne_true (fun met => waited met down)
    exact .done (.inl rfl) (pm.trans down) ((devices late).trans gone)

theorem destroyKept {h : Host} {target : PmState} {d : Device} {left : List Device} {script : Nat → Bool → Nat → List QueueReq}
    (busy : s.job = some (.destroying target (d :: left))) (ran : mhiDestroyDevice script s.host d = some h) (kept : Kept s) :
    Kept (s.rest h (some (.destroying target left))) := by
  obtain ⟨pm,list,devices⟩ := destroyView ran
  refine restKept list (fun calm => by rw [pm]; exact kept.still (by rw [busy]; exact calm)) (fun final => ?_)
    (fun quiet => by simp [busy] at quiet) kept
  cases final with
  | resetting before job _ => simp [busy] at job
  | destroying before job down all =>
    cases busy.symm.trans job
    refine .destroying left rfl (pm.trans down) (fun e member => ?_)
    have member : e ∈ s.host.devices.filter (fun e => decide (e ≠ d)) := by rw [← devices]; exact member
    obtain ⟨inside,other⟩ := List.mem_filter.mp member
    exact (List.mem_cons.mp (all e inside)).resolve_left (by simpa using other)
  | done job _ _ => simp [busy] at job

theorem stepKept {s' : Worker} (step : Step Clean s s') (kept : Kept s) : Kept s' := by
  cases step with
  | handler ran => exact frameKept (handlerFrame ran) kept
  | append st =>
    have same : Frame Shared s.host s.host := frameSame rfl rfl rfl
    exact frameKept (same.queue st) kept
  | linkDown free =>
    have tried : Tried (· = .ldErrFatalDetect) s.host.cntrl.pmState (mhiTrysetPmState s.host.cntrl.pmState .ldErrFatalDetect) :=
      .inr ⟨_,rfl,rfl⟩
    exact ⟨fun off => triedOff tried (by simp) (kept.still off),fun n waiting => by simp [Worker.withHost,free] at waiting,
      fun ended => by simp [Worker.withHost,free] at ended,fun ended => by simp [Worker.withHost,free] at ended⟩
  | powerDown free =>
    refine ⟨kept.still,fun n waiting => ?_,fun ended => by simp at ended,fun ended => by simp at ended⟩
    have same : s.head.length + s.host.transitionList.length = n := by simpa using waiting
    subst same
    simp [mhiQueueStateTransition]
  | splice empty free =>
    refine ⟨kept.still,fun n waiting => ?_,fun ended => ?_,kept.flushed⟩
    · have there := kept.placed n waiting
      rw [empty] at there
      simpa using there
    · exact (kept.final ended).same rfl rfl rfl
  | take st rest reply first free clean => exact takeKept reply first free clean kept
  | loaded passThru edl reply busy =>
    obtain ⟨tried,list⟩ := fwLoadFrame s.host passThru edl reply
    have off := kept.still (by rw [busy]; rfl)
    refine restKept list (fun _ => triedOff tried (by simp) off) (fun final => ?_) (fun _ => .inl rfl) kept
    cases final <;> simp_all
  | mission inTime reply busy waited => exact missionKept busy waited kept
  | stuck target prev cleared busy failed =>
    have sysErr : target = .sysErrProcess := by
      simp only [disableStuck,Bool.and_eq_true,decide_eq_true_iff] at failed
      exact failed.2
    subst sysErr
    have off := kept.still (by rw [busy]; rfl)
    refine restKept rfl (fun _ => off) (fun final => ?_) (fun _ => .inl rfl) kept
    cases final <;> simp_all
  | cleared target prev cleared busy passed =>
    refine restKept rfl (fun calm => kept.still (by rw [busy]; exact calm)) (fun final => ?_)
      (fun quiet => by simp [busy] at quiet) kept
    cases final with
    | resetting before job pm =>
      cases busy.symm.trans job
      exact .destroying s.host.devices rfl pm (fun d member => member)
    | destroying left job _ _ => simp [busy] at job
    | done job _ _ => simp [busy] at job
  | destroy target d left script busy ran => exact destroyKept busy ran kept
  | disabled target reply busy => exact disabledKept busy kept
  | flush taken empty free =>
    exact ⟨kept.still,fun n waiting => by simp at waiting,fun _ => (kept.final (.inl taken)).same rfl rfl rfl,fun _ => .inl free⟩

end Invariant

def DownIsFinal (G : Worker → DevStTransition → Prop) (h : Host) : Prop :=
  ∀ s, Relation.ReflTransGen (Step G) (.start h) s → s.phase = .flushed →
    s.host.cntrl.pmState = .disable ∧ s.host.devices = []

theorem powerDownFinal {h : Host} (off : h.cntrl.pmState ≠ .shutdownProcess) : DownIsFinal Clean h := by
  intro s run flushed
  have first : Kept (.start h) := ⟨fun _ => off,fun n waiting => by simp [Worker.start] at waiting,
    fun ended => by simp [Worker.start] at ended,fun ended => by simp [Worker.start] at ended⟩
  have kept := Runs.keeps (I := Kept) (fun _ _ => stepKept) run first
  have idle := kept.flushed flushed
  cases kept.final (.inr flushed) with
  | resetting prev job pm => simp [job] at idle
  | destroying left job pm all => simp [job] at idle
  | done job pm devices => exact ⟨pm,devices⟩

namespace Sample

def reply : ItemReply := ⟨.amss,⟨false,none,none⟩,⟨fun _ => true,fun _ => true,fun _ => false⟩⟩
def device : Device := ⟨0,some 0,none,false⟩
def host : Host := mhiCreateDevices MhiHost.Sample.ready reply.create

def begun : Worker := {Worker.start host with host := mhiQueueStateTransition host .disable, phase := .waiting 0}
def queued (st : DevStTransition) : Worker := begun.withHost (mhiQueueStateTransition begun.host st)
def spliced (st : DevStTransition) : Worker :=
  {queued st with host := {(queued st).host with transitionList := []}, head := [.disable,st]}
def take (st : DevStTransition) (rest : List DevStTransition) (s : Worker) : Worker :=
  ⟨(beginItem s.host st reply).1,rest,(beginItem s.host st reply).2,s.phase.next⟩
def taken (st : DevStTransition) : Worker := take .disable [st] (spliced st)
def cleared (st : DevStTransition) : Worker :=
  (taken st).rest (taken st).host (some (.destroying .shutdownProcess (taken st).host.devices))
def destroyed (st : DevStTransition) : Worker :=
  (cleared st).rest (dropDevice (cleared st).host device) (some (.destroying .shutdownProcess []))
def disabled (st : DevStTransition) : Worker :=
  (destroyed st).rest (disableFinish (destroyed st).host .shutdownProcess reply.ready) none
def flushed (st : DevStTransition) : Worker := {take st [] (disabled st) with job := none, phase := .flushed}

theorem runs {G : Worker → DevStTransition → Prop} (st : DevStTransition) (own : G (spliced st) .disable) :
    Relation.ReflTransGen (Step G) (.start host) (disabled st) := by
  have one : Step G (.start host) begun := .powerDown rfl
  have two : Step G begun (queued st) := .append st
  have three : Step G (queued st) (spliced st) := .splice rfl rfl
  have four : Step G (spliced st) (taken st) := .take .disable [st] reply rfl rfl own
  have five : Step G (taken st) (cleared st) := .cleared .shutdownProcess .m0 true rfl rfl
  have found : (taken st).host.devices = [device] := (disableBeginView (spliced st).host .shutdownProcess).2.1
  have left : (cleared st).job = some (.destroying .shutdownProcess [device]) := by simp only [cleared,Worker.rest,found]
  have six : Step G (cleared st) (destroyed st) := .destroy .shutdownProcess device [] (fun _ _ _ => []) left rfl
  have seven : Step G (destroyed st) (disabled st) := .disabled .shutdownProcess reply.ready rfl
  exact ((((((Relation.ReflTransGen.single one).tail two).tail three).tail four).tail five).tail six).tail seven

end Sample

theorem powerDownFinalSample : Sample.host.devices = [Sample.device] ∧ (Sample.flushed .sysErr).host.cntrl.pmState = .disable ∧
    (Sample.flushed .sysErr).host.devices = [] := by
  have take : Step Clean (Sample.disabled .sysErr) (Sample.take .sysErr [] (Sample.disabled .sysErr)) :=
    .take .sysErr [] Sample.reply rfl rfl ⟨fun own => (by cases own),fun _ => (by decide)⟩
  have flush : Step Clean (Sample.take .sysErr [] (Sample.disabled .sysErr)) (Sample.flushed .sysErr) := .flush rfl rfl rfl
  have own : Clean (Sample.spliced .sysErr) .disable := by
    refine ⟨fun _ down => (by cases down),fun ended => ?_⟩
    rcases ended with ended | ended <;> cases ended
  have run := ((Sample.runs .sysErr own).tail take).tail flush
  exact ⟨rfl,powerDownFinal (by decide) (Sample.flushed .sysErr) run rfl⟩

theorem devicesAfterPowerDown : ¬DownIsFinal (fun _ _ => True) Sample.host := by
  intro final
  have take : Step (fun _ _ => True) (Sample.disabled .sbl) (Sample.take .sbl [] (Sample.disabled .sbl)) :=
    .take .sbl [] Sample.reply rfl rfl trivial
  have flush : Step (fun _ _ => True) (Sample.take .sbl [] (Sample.disabled .sbl)) (Sample.flushed .sbl) := .flush rfl rfl rfl
  have run := ((@Sample.runs (fun _ _ => True) .sbl trivial).tail take).tail flush
  have gone := (final (Sample.flushed .sbl) run rfl).2
  exact absurd gone (by decide)

end MhiHost.PowerDown
