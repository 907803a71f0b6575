import MhiHost.SuspendOutcome

/-! How `mhi_pm_resume` ends. The call is cut at its checks, its write lock and its wait;
between the cuts events, other calls and the worker run. Success is to mean that the device
has come back to M0 for this call. Three things are taken for it: a report of M0 that the host
could not follow, made after the call set M3_EXIT (`stray`) or standing already when it did
(`early`), and an error that woke the call and was gone when it looked (`healed`). -/
namespace MhiHost.ResumeOutcome
open SuspendOutcome (pm dev failed)
open Relation (ReflTransGen)

inductive Phase where
  | idle | notifying | waiting
  | woken (inTime : Bool)
  deriving DecidableEq, Repr

/- `unfollowed`: the device state M0 that stands was reported when the host could not follow.
`setExit`: this call set M3_EXIT; `reachedM0`, `stray`, `healed`: what has happened since;
`late`: its wait timed out. `left` is what it returned, and the power state then. -/
structure Call where
  host : Host
  unfollowed : Bool
  phase : Phase
  setExit : Bool
  early : Bool
  reachedM0 : Bool
  stray : Bool
  healed : Bool
  late : Bool
  left : Option (Option Errno × PmState)

def start (h : Host) : Call := ⟨h,false,.idle,false,false,false,false,false,false,none⟩

/- `mhi_pm_resume` up to its notices to the clients, where it may be over. -/
def checks (h : Host) : Option (Option Errno) :=
  if h.cntrl.pmState = .disable then some none
  else if mhiPmInErrorState h.cntrl.pmState then some (some .eio)
  else none

def exitM3 (h : Host) : Host × Option Errno :=
  let state := mhiTrysetPmState h.cntrl.pmState .m3Exit
  if state ≠ .m3Exit then (h.setPm state,some .eio) else ((h.setPm state).mhiSetMhiState .m0,none)

theorem beginCut (h : Host) : resumeBegin h = (match checks h with | some err => (h,err) | none => exitM3 h) := by
  unfold resumeBegin checks exitM3
  split
  · rfl
  split <;> rfl

inductive Around : Host → Host → Prop where
  | beside {h h'} (ran : SuspendOutcome.Beside h h') : Around h h'
  | m3 {h} : Around h (mhiPmM3Transition h).1
  | suspend {h} : Around h (suspendEnter h).1

def awake (h : Host) : Prop := dev h = .m0 ∨ mhiPmInErrorState (pm h) = true

namespace Call

def returns (s : Call) (err : Option Errno) : Call := {s with phase := .idle,left := some (err,pm s.host)}

def begun (s : Call) : Call :=
  match checks s.host with
  | some err => {s with setExit := false,late := false}.returns err
  | none => {s with setExit := false,late := false,left := none,phase := .notifying}

def entered (s : Call) : Call :=
  match exitM3 s.host with
  | (h,some e) => {s with host := h}.returns (some e)
  | (h,none) => {s with
      host := h
      setExit := true
      early := s.unfollowed
      reachedM0 := false
      stray := false
      healed := false
      phase := .waiting}

def beside (s : Call) (h : Host) : Call := {s with
  host := h
  unfollowed := decide (dev h = .m0 ∧ pm h ≠ .m0) && (s.unfollowed || decide (dev s.host ≠ .m0))
  reachedM0 := s.reachedM0 || decide (pm s.host ≠ .m0 ∧ pm h = .m0)
  stray := s.stray || decide (dev s.host ≠ .m0 ∧ dev h = .m0 ∧ pm h ≠ .m0)
  healed := s.healed || decide (s.phase = .woken true ∧ mhiPmInErrorState (pm s.host) = true ∧ mhiPmInErrorState (pm h) = false)}

end Call

inductive Step : Call → Call → Prop where
  | called {s} (free : s.phase = .idle) : Step s s.begun
  | entered {s} (phase : s.phase = .notifying) : Step s s.entered
  | waited {s} (phase : s.phase = .waiting) (ended : awake s.host) : Step s {s with phase := .woken true}
  | timedOut {s} (phase : s.phase = .waiting) (unmet : ¬awake s.host) : Step s {s with phase := .woken false,late := true}
  | done {s inTime} (phase : s.phase = .woken inTime) : Step s (s.returns (failed inTime s.host))
  | around {s h} (ran : Around s.host h) : Step s (s.beside h)

def Seen (s : Call) : Prop := s.reachedM0 = true ∨ s.stray = true ∨ s.early = true ∨ s.healed = true

def Leaving (state : PmState) : Prop := state = .m3 ∨ state = .m3Exit

def Outcome (s : Call) : Prop := ∀ err state, s.left = some (err,state) →
  match err with
  | none => s.setExit = false ∧ state = .disable ∨ s.setExit = true ∧ mhiPmInErrorState state = false ∧ Seen s
  | some _ => if s.setExit then mhiPmInErrorState state = true ∨ s.late = true else ¬Leaving state

theorem exitCases (h : Host) : Leaving (pm h) ∧ exitM3 h = ((h.setPm .m3Exit).mhiSetMhiState .m0,none) ∨
    ¬Leaving (pm h) ∧ exitM3 h = (h.setPm (pm h),some .eio) := by
  unfold exitM3 pm
  dsimp only
  cases h.cntrl.pmState
  case m3 => exact .inl ⟨.inl rfl,rfl⟩
  case m3Exit => exact .inl ⟨.inr rfl,rfl⟩
  all_goals exact .inr ⟨by simp [Leaving],rfl⟩

def Entered (h h' : Host) : Prop := Leaving (pm h') → Leaving (pm h) ∨ dev h' ≠ .m0

theorem enteredTry {h h' : Host} (st : PmState) (away : ¬Leaving st) (tried : pm h' = mhiTrysetPmState (pm h) st) :
    Entered h h' := by
  intro leaving
  rw [tried] at leaving
  rcases trysetCases (pm h) st with moved | stuck
  · rw [moved] at leaving
    exact absurd leaving away
  · rw [stuck] at leaving
    exact .inl leaving

theorem enteredStill {h h' : Host} (state : pm h' = pm h) : Entered h h' := fun leaving => .inl (state ▸ leaving)

theorem detectEntered (h : Host) (state : DevState) (ee : ExecEnv) (d : SysErr.Detector) :
    Entered h (SysErr.detect h state ee d).1 := by
  have away : ¬Leaving .sysErrDetect := by simp [Leaving]
  cases d with
  | intvec =>
    unfold SysErr.detect
    dsimp only
    split
    · exact enteredStill rfl
    split
    · exact enteredTry .sysErrDetect away rfl
    split
    · exact enteredStill rfl
    · exact enteredStill rfl
  | ring =>
    unfold SysErr.detect
    dsimp only
    split
    · exact enteredStill rfl
    · exact enteredTry .sysErrDetect away rfl
  | task =>
    unfold SysErr.detect
    dsimp only
    split
    · exact enteredTry .sysErrDetect away rfl
    · exact enteredStill rfl

theorem resumeEntered (h : Host) : Entered h (resumeBegin h).1 := by
  rw [beginCut]
  split
  · exact enteredStill rfl
  · rcases exitCases h with ⟨leaving,_⟩ | ⟨_,same⟩
    · exact fun _ => .inl leaving
    · rw [same]
      exact enteredStill rfl

theorem besideEntered {h h' : Host} (ran : SuspendOutcome.Beside h h') : Entered h h' := by
  cases ran with
  | m0 => exact enteredTry .m0 (by simp [Leaving]) rfl
  | m1 =>
    unfold SuspendOutcome.m1Enter
    dsimp only
    split <;> exact enteredTry .m2 (by simp [Leaving]) rfl
  | detected state ee d => exact detectEntered h state ee d
  | disable target worker =>
    obtain ⟨-,-,⟨-,-,same⟩ | ⟨-,-,moved⟩⟩ := PowerDown.disableBeginView h target
    · exact enteredStill same
    · intro leaving
      rw [pm,moved] at leaving
      rcases worker with rfl | rfl <;> simp [Leaving] at leaving
  | disabled => exact enteredTry .disable (by simp [Leaving]) rfl
  | ready => exact enteredTry .por (by simp [Leaving]) rfl
  | reset => exact enteredStill rfl
  | linkDown => exact enteredTry .ldErrFatalDetect (by simp [Leaving]) rfl
  | resume => exact resumeEntered h
  | still state device => exact enteredStill state

theorem aroundEntered {h h' : Host} (ran : Around h h') : Entered h h' := by
  cases ran with
  | beside ran => exact besideEntered ran
  | m3 => exact fun _ => .inr nofun
  | suspend =>
    unfold suspendEnter
    split
    · exact enteredStill rfl
    dsimp only
    split <;> exact enteredTry .m3Enter (by simp [Leaving]) rfl

structure Inv (s : Call) : Prop where
  asleep : Leaving (pm s.host) → dev s.host = .m0 → s.unfollowed = true
  unset : s.phase = .notifying → s.setExit = false
  waits : s.phase = .waiting → s.setExit = true ∧ (dev s.host = .m0 ∨ pm s.host = .m0 → Seen s)
  woke : s.phase = .woken true → s.setExit = true ∧ (mhiPmInErrorState (pm s.host) = true ∨ Seen s)
  slow : s.phase = .woken false → s.setExit = true ∧ s.late = true
  busy : s.phase ≠ .idle → s.left = none
  outcome : Outcome s

theorem silent {s : Call} (none : s.left = none) : Outcome s := by
  intro err state left
  rw [none] at left
  cases left

theorem invStart {h : Host} (reported : Leaving (pm h) → dev h ≠ .m0) : Inv (start h) where
  asleep := fun state report => absurd report (reported state)
  unset := nofun
  waits := nofun
  woke := nofun
  slow := nofun
  busy := fun busy => absurd rfl busy
  outcome := silent rfl

theorem returnsInv {s : Call} {err : Option Errno} (asleep : Leaving (pm s.host) → dev s.host = .m0 → s.unfollowed = true)
    (outcome : Outcome (s.returns err)) : Inv (s.returns err) :=
  ⟨asleep,nofun,nofun,nofun,nofun,fun busy => absurd rfl busy,outcome⟩

theorem begunInv {s : Call} (inv : Inv s) : Inv s.begun := by
  unfold Call.begun
  cases found : checks s.host with
  | none => exact ⟨inv.asleep,fun _ => rfl,nofun,nofun,nofun,fun _ => rfl,silent rfl⟩
  | some err =>
    refine returnsInv inv.asleep ?_
    intro err' state left
    cases left
    unfold checks at found
    split at found
    · rename_i off
      cases found
      exact .inl ⟨rfl,off⟩
    · split at found
      · rename_i error
        cases found
        show ¬Leaving (pm s.host)
        rintro (asleep | exiting)
        · exact (SuspendOutcome.errorAwake error).2 asleep
        · rw [show s.host.cntrl.pmState = .m3Exit from exiting] at error
          cases error
      · cases found

theorem enteredInv {s : Call} (inv : Inv s) (phase : s.phase = .notifying) : Inv s.entered := by
  have left : s.left = none := inv.busy (by rw [phase]; nofun)
  unfold Call.entered
  rcases exitCases s.host with ⟨leaving,exits⟩ | ⟨stays,refused⟩
  · rw [exits]
    refine ⟨fun _ report => inv.asleep leaving report,nofun,fun _ => ⟨rfl,?_⟩,nofun,nofun,fun _ => left,silent left⟩
    rintro (report | state)
    · exact .inr (.inr (.inl (inv.asleep leaving report)))
    · cases state
  · rw [refused]
    refine returnsInv inv.asleep ?_
    intro err state left
    cases left
    show if s.setExit then _ else ¬Leaving (pm s.host)
    rw [inv.unset phase]
    exact stays

theorem seenBeside {s : Call} {h : Host} (seen : Seen s) : Seen (s.beside h) := by
  rcases seen with reached | stray | early | healed
  · exact .inl (by simp [Call.beside,reached])
  · exact .inr (.inl (by simp [Call.beside,stray]))
  · exact .inr (.inr (.inl early))
  · exact .inr (.inr (.inr (by simp [Call.beside,healed])))

theorem besideInv {s : Call} {h : Host} (ran : Entered s.host h) (inv : Inv s) : Inv (s.beside h) where
  asleep leaving report := by
    have awake : pm h ≠ .m0 := by
      intro state
      have leaving : Leaving (pm h) := leaving
      rw [state] at leaving
      simp [Leaving] at leaving
    have report : dev h = .m0 := report
    by_cases before : dev s.host = .m0
    · have was := inv.asleep ((ran leaving).resolve_right fun other => other report) before
      simp [Call.beside,was,report,awake]
    · simp [Call.beside,before,report,awake]
  unset phase := inv.unset phase
  waits phase := by
    obtain ⟨set,seen⟩ := inv.waits phase
    refine ⟨set,fun there => ?_⟩
    have there : dev h = .m0 ∨ pm h = .m0 := there
    by_cases was : dev s.host = .m0 ∨ pm s.host = .m0
    · exact seenBeside (seen was)
    · obtain ⟨unreported,away⟩ := not_or.mp was
      by_cases reached : pm h = .m0
      · exact .inl (by simp [Call.beside,away,reached])
      · have report := there.resolve_right reached
        exact .inr (.inl (by simp [Call.beside,unreported,report,reached]))
  woke phase := by
    obtain ⟨set,why⟩ := inv.woke phase
    refine ⟨set,?_⟩
    rcases why with error | seen
    · cases now : mhiPmInErrorState (pm h) with
      | true => exact .inl now
      | false =>
        have phase : s.phase = .woken true := phase
        exact .inr (.inr (.inr (.inr (by simp [Call.beside,phase,error,now]))))
    · exact .inr (seenBeside seen)
  slow phase := inv.slow phase
  busy phase := inv.busy phase
  outcome err state left := by
    have outcome := inv.outcome err state left
    cases err with
    | none =>
      rcases outcome with off | ⟨set,fine,seen⟩
      · exact .inl off
      · exact .inr ⟨set,fine,seenBeside seen⟩
    | some e => exact outcome

theorem doneInv {s : Call} {inTime : Bool} (phase : s.phase = .woken inTime) (inv : Inv s) :
    Inv (s.returns (failed inTime s.host)) := by
  refine returnsInv inv.asleep ?_
  intro err state left
  cases left
  unfold failed
  cases inTime with
  | false =>
    obtain ⟨set,late⟩ := inv.slow phase
    show if s.setExit then _ else _
    rw [set]
    exact .inr late
  | true =>
    obtain ⟨set,why⟩ := inv.woke phase
    cases error : mhiPmInErrorState s.host.cntrl.pmState with
    | true =>
      show if s.setExit then _ else _
      rw [set]
      exact .inl error
    | false =>
      refine .inr ⟨set,error,why.resolve_left fun bad => ?_⟩
      exact absurd (error.symm.trans bad) nofun

theorem stepInv {s s' : Call} (step : Step s s') (inv : Inv s) : Inv s' := by
  cases step with
  | called free => exact begunInv inv
  | entered phase => exact enteredInv inv phase
  | waited phase ended =>
    have left : s.left = none := inv.busy (by rw [phase]; nofun)
    obtain ⟨set,seen⟩ := inv.waits phase
    refine ⟨inv.asleep,nofun,nofun,fun _ => ⟨set,?_⟩,nofun,fun _ => left,silent left⟩
    rcases ended with report | error
    · exact .inr (seen (.inl report))
    · exact .inl error
  | timedOut phase unmet =>
    have left : s.left = none := inv.busy (by rw [phase]; nofun)
    exact ⟨inv.asleep,nofun,nofun,nofun,fun _ => ⟨(inv.waits phase).1,rfl⟩,fun _ => left,silent left⟩
  | done phase => exact doneInv phase inv
  | around ran => exact besideInv (aroundEntered ran) inv

theorem resumeOutcome {h : Host} {s : Call} (reported : Leaving (pm h) → dev h ≠ .m0)
    (run : ReflTransGen Step (start h) s) : Outcome s :=
  (Runs.keeps (I := Inv) (fun _ _ => stepInv) run (invStart reported)).outcome

namespace Sample

def host : Host := SuspendOutcome.Sample.suspended.host
def exiting (h : Host) : Host := (h.setPm .m3Exit).mhiSetMhiState .m0
def waiting : Call := {start host with host := exiting host,phase := .waiting,setExit := true}
def answered : Call := waiting.beside (CommandDoorbell.m0Enter (exiting host))
def resumed : Call := {answered with phase := .idle,left := some (none,.m0)}

theorem waitingReached : ReflTransGen Step (start host) waiting := by
  have called : Step (start host) {start host with phase := .notifying} := .called rfl
  have entered : Step {start host with phase := .notifying} waiting := .entered rfl
  exact (ReflTransGen.single called).tail entered

theorem resumedReached : ReflTransGen Step (start host) resumed := by
  have m0 : Step waiting answered := .around (.beside .m0)
  have woken : Step answered {answered with phase := .woken true} := .waited rfl (.inl rfl)
  have done : Step {answered with phase := .woken true} resumed := @Step.done _ true rfl
  exact ((waitingReached.tail m0).tail woken).tail done

def early : Host := CommandDoorbell.m0Enter host
def misled : Call := {(start host).beside early with
  host := exiting early,phase := .idle,setExit := true,early := true,stray := false,left := some (none,.m3Exit)}

theorem misledReached : ReflTransGen Step (start host) misled := by
  have reported : Step (start host) ((start host).beside early) := .around (.beside .m0)
  have called : Step ((start host).beside early) {(start host).beside early with phase := .notifying} := .called rfl
  have entered : Step {(start host).beside early with phase := .notifying} {misled with phase := .waiting,left := none} :=
    .entered rfl
  have woken : Step {misled with phase := .waiting,left := none} {misled with phase := .woken true,left := none} :=
    .waited rfl (.inl rfl)
  have done : Step {misled with phase := .woken true,left := none} misled := @Step.done _ true rfl
  exact ((((ReflTransGen.single reported).tail called).tail entered).tail woken).tail done

end Sample

theorem resumeOutcomeSample : Outcome Sample.resumed ∧ Outcome Sample.misled :=
  ⟨resumeOutcome (fun _ => by decide) Sample.resumedReached,resumeOutcome (fun _ => by decide) Sample.misledReached⟩

end MhiHost.ResumeOutcome
