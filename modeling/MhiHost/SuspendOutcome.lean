import MhiHost.SysErr
import MhiHost.CommandDoorbell

/-! How `mhi_pm_suspend` ends. The call is cut at its checks, votes, waits and its write
lock; between the cuts events, votes and queue calls run, of which the outcome depends on
the power state and `dev_state` only. `left` keeps the power state the call returned in. -/
namespace MhiHost.SuspendOutcome
open SysErr (Detector detect)
open CommandDoorbell (m0Enter)

inductive Phase where
  | idle | checked | waiting
  | woken (inTime : Bool)
  | unvoted (inTime : Bool)
  | entering | waitingM3
  | wokenM3 (inTime : Bool)
  deriving DecidableEq, Repr

/- `setEnter` and `quiet`: this call set M3_ENTER, with no vote and no packet pending;
`reachedM3`: M3 was entered since it set it. -/
structure Call where
  host : Host
  phase : Phase
  setEnter : Bool
  quiet : Bool
  reachedM3 : Bool
  left : Option (Option Errno × PmState)

def start (h : Host) : Call := ⟨h,.idle,false,false,false,none⟩

def pm (h : Host) : PmState := h.cntrl.pmState
def dev (h : Host) : DevState := h.cntrl.devState

def m1Enter (h : Host) : Host :=
  let state := mhiTrysetPmState h.cntrl.pmState .m2
  let h := h.setPm state
  if state = .m2 then
    let h := h.mhiSetMhiState .m2
    {h with cntrl := {h.cntrl with devState := .m2}}
  else h

theorem m1Cut (h : Host) : mhiPmM1Transition h =
    if mhiTrysetPmState h.cntrl.pmState .m2 ≠ .m2 then m1Enter h
    else if (m1Enter h).cntrl.pendingPkts ≠ 0 ∨ (m1Enter h).cntrl.devWake ≠ 0 then
      {m1Enter h with cntrl := mhiDeassertDevWake (mhiAssertDevWake (m1Enter h).cntrl true) true}
    else (m1Enter h).statusCb .idle := by
  unfold mhiPmM1Transition m1Enter
  dsimp only
  split
  · rfl
  · rename_i same
    rw [not_not.mp same]
    rfl

inductive Beside : Host → Host → Prop where
  | m0 {h} : Beside h (m0Enter h)
  | m1 {h} : Beside h (m1Enter h)
  | detected {h} (state : DevState) (ee : ExecEnv) (d : Detector) : Beside h (detect h state ee d).1
  | disable {h} (target : PmState) (worker : target = .sysErrProcess ∨ target = .shutdownProcess) :
      Beside h (disableBegin h target).1
  | disabled {h} : Beside h (h.setPm (mhiTrysetPmState h.cntrl.pmState .disable))
  | ready {h} : Beside h (readyHost h)
  | reset {h} : Beside h {h with cntrl := {h.cntrl with devState := .reset}}
  | linkDown {h} : Beside h (h.setPm (mhiTrysetPmState h.cntrl.pmState .ldErrFatalDetect))
  | resume {h} : Beside h (resumeBegin h).1
  | still {h h'} (state : pm h' = pm h) (device : dev h' = dev h) : Beside h h'

inductive Happening where
  | m3
  | beside (h : Host)
  | timeout
  deriving Inhabited

def Call.returns (s : Call) (err : Option Errno) : Call := {s with phase := .idle,left := some (err,pm s.host)}

def Call.next (s : Call) (h : Host) (phase : Phase) (err : Option Errno) : Call :=
  match err with
  | some e => {s with host := h}.returns (some e)
  | none => {s with host := h,phase := phase}

def awakeM0 (h : Host) : Prop := dev h = .m0 ∨ dev h = .m1 ∨ mhiPmInErrorState (pm h) = true
def asleepM3 (h : Host) : Prop := dev h = .m3 ∨ mhiPmInErrorState (pm h) = true

instance (h : Host) : Decidable (awakeM0 h) := inferInstanceAs (Decidable (_ ∨ _ ∨ _))
instance (h : Host) : Decidable (asleepM3 h) := inferInstanceAs (Decidable (_ ∨ _))

def checks (h : Host) : Option Errno :=
  if h.cntrl.pmState = .disable then some .einval
  else if mhiPmInErrorState h.cntrl.pmState then some .eio
  else if h.cntrl.devWake ≠ 0 ∨ h.cntrl.pendingPkts ≠ 0 then some .ebusy
  else none

def failed (inTime : Bool) (h : Host) : Option Errno :=
  if !inTime || mhiPmInErrorState h.cntrl.pmState then some .eio else none

theorem beginCut (h : Host) : suspendBegin h =
    ((if (checks h).isSome then h else {h with cntrl := mhiAssertDevWake h.cntrl false}),checks h) := by
  unfold suspendBegin checks
  split
  · rfl
  split
  · rfl
  split <;> rfl

theorem awakeCut (h : Host) (inTime : Bool) : suspendAwake h inTime =
    ({h with cntrl := mhiDeassertDevWake h.cntrl false},
      failed inTime {h with cntrl := mhiDeassertDevWake h.cntrl false}) := rfl

/- A wait ends in time where its condition holds, and times out where it does not. -/
inductive Step (may : Call → Happening → Prop) : Call → Call → Prop where
  | called {s} (free : s.phase = .idle) :
      Step may s ({s with setEnter := false,quiet := false,reachedM3 := false,left := none}.next s.host .checked (checks s.host))
  | voted {s} (phase : s.phase = .checked) :
      Step may s {s with host := {s.host with cntrl := mhiAssertDevWake s.host.cntrl false},phase := .waiting}
  | waited {s} (inTime : Bool) (phase : s.phase = .waiting) (ended : inTime = decide (awakeM0 s.host)) :
      Step may s {s with phase := .woken inTime}
  | unvoted {s inTime} (phase : s.phase = .woken inTime) :
      Step may s {s with host := {s.host with cntrl := mhiDeassertDevWake s.host.cntrl false},phase := .unvoted inTime}
  | awake {s inTime} (phase : s.phase = .unvoted inTime) : Step may s (s.next s.host .entering (failed inTime s.host))
  | entered {s} (phase : s.phase = .entering) :
      Step may s ({s with
        setEnter := (suspendEnter s.host).2.isNone
        quiet := decide (s.host.cntrl.devWake = 0 ∧ s.host.cntrl.pendingPkts = 0)
        reachedM3 := false}.next
          (suspendEnter s.host).1 .waitingM3 (suspendEnter s.host).2)
  | waitedM3 {s} (phase : s.phase = .waitingM3) (ended : asleepM3 s.host) : Step may s {s with phase := .wokenM3 true}
  | timedOut {s} (phase : s.phase = .waitingM3) (unmet : ¬asleepM3 s.host) (allowed : may s .timeout) :
      Step may s {s with phase := .wokenM3 false}
  | done {s inTime} (phase : s.phase = .wokenM3 inTime) : Step may s (s.returns (failed inTime s.host))
  | m3 {s} (allowed : may s .m3) :
      Step may s {s with
        host := (mhiPmM3Transition s.host).1
        reachedM3 := s.reachedM3 || decide (pm s.host ≠ .m3 ∧ pm (mhiPmM3Transition s.host).1 = .m3)}
  | beside {s h} (ran : Beside s.host h) (allowed : may s (.beside h)) : Step may s {s with host := h}

def Outcome (s : Call) : Prop :=
  ∀ err state, s.left = some (err,state) →
    match err with
    | none => s.setEnter = true ∧ s.quiet = true ∧ s.reachedM3 = true
    | some _ => s.setEnter = true → state ≠ .m3Enter ∧ state ≠ .m3

def pastWait : Phase → Bool
  | .woken inTime => inTime
  | .unvoted inTime => inTime
  | .entering | .waitingM3 | .wokenM3 _ => true
  | _ => false

def Answered (s : Call) : Happening → Prop
  | .m3 => pastWait s.phase = true → pm s.host = .m3Enter
  | .beside h => s.phase = .wokenM3 true → mhiPmInErrorState (pm s.host) = true → mhiPmInErrorState (pm h) = true
  | .timeout => mhiPmInSuspendState (pm s.host) = false

structure Calm (h h' : Host) : Prop where
  device : dev h' = .m3 → dev h = .m3
  m0 : pm h' = .m0 → pm h = .m0 ∨ dev h' ≠ .m3
  asleep : mhiPmInSuspendState (pm h') = true → pm h' = pm h

theorem calmTry {h h' : Host} (st : PmState) (tried : pm h' = mhiTrysetPmState (pm h) st)
    (device : dev h' = .m3 → dev h = .m3) (m0 : st = .m0 → dev h' ≠ .m3) (awake : mhiPmInSuspendState st = false) :
    Calm h h' := by
  refine ⟨device,?_,?_⟩
  · intro reached
    rcases trysetCases (pm h) st with moved | stuck
    · rw [tried,moved] at reached
      exact .inr (m0 reached)
    · rw [tried,stuck] at reached
      exact .inl reached
  · intro asleep
    rcases trysetCases (pm h) st with moved | stuck
    · rw [tried,moved,awake] at asleep
      cases asleep
    · rw [tried,stuck]

theorem calmStill {h h' : Host} (state : pm h' = pm h) (device : dev h' = .m3 → dev h = .m3) : Calm h h' :=
  ⟨device,fun reached => .inl (state.symm.trans reached),fun _ => state⟩

theorem detectCalm (h : Host) (state : DevState) (ee : ExecEnv) (d : Detector) : Calm h (detect h state ee d).1 := by
  have tried : ∀ g : Host, pm g = pm h → dev g = dev h → Calm h (SysErr.sysErrDetect g).1 := by
    intro g state device
    refine calmTry .sysErrDetect ?_ ?_ nofun rfl
    · exact congrArg (mhiTrysetPmState · .sysErrDetect) state
    · intro m3
      exact device.symm.trans m3
  cases d with
  | intvec =>
    unfold detect
    dsimp only
    split
    · exact calmStill rfl id
    split
    · exact tried _ rfl rfl
    split
    · exact calmStill rfl id
    · exact calmStill rfl id
  | ring =>
    unfold detect
    dsimp only
    split
    · exact calmStill rfl id
    · exact tried h rfl rfl
  | task =>
    unfold detect
    dsimp only
    split
    · exact tried h rfl rfl
    · exact calmStill rfl id

theorem disableCalm (h : Host) {target : PmState} (worker : target = .sysErrProcess ∨ target = .shutdownProcess) :
    Calm h (disableBegin h target).1 := by
  have told : (if target = .sysErrProcess then h.statusCb .sysError else h).cntrl = h.cntrl := by split <;> rfl
  have worker : target ≠ .m0 ∧ mhiPmInSuspendState target = false := by
    rcases worker with rfl | rfl <;> exact ⟨nofun,rfl⟩
  have m0 : ∀ g : Host, target = .m0 → dev g ≠ .m3 := fun _ same => absurd same worker.1
  unfold disableBegin
  dsimp only
  generalize (if target = .sysErrProcess then h.statusCb .sysError else h) = g at told
  have state : mhiTrysetPmState g.cntrl.pmState target = mhiTrysetPmState (pm h) target := by rw [told]; rfl
  split
  · refine calmTry target state ?_ (m0 _) worker.2
    intro m3
    have device : dev g = dev h := congrArg Cntrl.devState told
    exact device.symm.trans m3
  · split
    · exact calmTry target state nofun (m0 _) worker.2
    · exact calmTry target state nofun (m0 _) worker.2

theorem besideCalm {h h' : Host} (ran : Beside h h') : Calm h h' := by
  cases ran with
  | m0 => exact calmTry .m0 rfl nofun nofun rfl
  | m1 =>
    unfold m1Enter
    dsimp only
    split
    · exact calmTry .m2 rfl nofun nofun rfl
    · exact calmTry .m2 rfl id nofun rfl
  | detected state ee d => exact detectCalm h state ee d
  | disable target worker => exact disableCalm h worker
  | disabled => exact calmTry .disable rfl id nofun rfl
  | ready => exact calmTry .por rfl nofun nofun rfl
  | reset => exact calmStill rfl nofun
  | linkDown => exact calmTry .ldErrFatalDetect rfl id nofun rfl
  | resume =>
    unfold resumeBegin
    split
    · exact calmStill rfl id
    split
    · exact calmStill rfl id
    dsimp only
    split <;> exact calmTry .m3Exit rfl id nofun rfl
  | still state device => exact calmStill state fun m3 => device.symm.trans m3

def Unreported (h : Host) : Prop := pm h = .m0 ∨ pm h = .m3Enter → dev h ≠ .m3

def Holds (s : Call) : Prop :=
  match s.phase with
  | .woken true | .unvoted true | .entering => Unreported s.host
  | .waitingM3 => s.setEnter = true ∧ s.quiet = true ∧ (dev s.host = .m3 → s.reachedM3 = true)
  | .wokenM3 true =>
      s.setEnter = true ∧ s.quiet = true ∧ (s.reachedM3 = true ∨ mhiPmInErrorState (pm s.host) = true)
  | .wokenM3 false => mhiPmInSuspendState (pm s.host) = false
  | _ => True

def early : Phase → Bool
  | .checked | .waiting | .woken _ | .unvoted _ | .entering => true
  | _ => false

structure Inv (s : Call) : Prop where
  holds : Holds s
  unset : early s.phase = true → s.setEnter = false
  busy : s.phase ≠ .idle → s.left = none
  outcome : Outcome s

theorem invStart (h : Host) : Inv (start h) where
  holds := trivial
  unset := by intro begun; cases begun
  busy := by intro busy; exact absurd rfl busy
  outcome := by intro err state left; cases left

theorem silent {s : Call} (none : s.left = none) : Outcome s := by
  intro err state left
  rw [none] at left
  cases left

theorem besideHolds {s : Call} {h : Host} (calm : Calm s.host h) (allowed : Answered s (.beside h)) (holds : Holds s) :
    Holds {s with host := h} := by
  have m0 : Unreported s.host → Unreported h := by
    rintro before (reached | reached)
    · rcases calm.m0 reached with was | cleared
      · exact fun m3 => before (.inl was) (calm.device m3)
      · exact cleared
    · have same := calm.asleep (by rw [reached]; rfl)
      exact fun m3 => before (.inr (same.symm.trans reached)) (calm.device m3)
  obtain ⟨host,phase,setEnter,quiet,reachedM3,left⟩ := s
  cases phase with
  | woken inTime =>
    cases inTime with
    | true => exact m0 holds
    | false => trivial
  | unvoted inTime =>
    cases inTime with
    | true => exact m0 holds
    | false => trivial
  | entering => exact m0 holds
  | waitingM3 => exact ⟨holds.1,holds.2.1,fun m3 => holds.2.2 (calm.device m3)⟩
  | wokenM3 inTime =>
    cases inTime with
    | true =>
      refine ⟨holds.1,holds.2.1,?_⟩
      rcases holds.2.2 with reached | error
      · exact .inl reached
      · exact .inr (allowed rfl error)
    | false =>
      cases asleep : mhiPmInSuspendState (pm h) with
      | false => exact asleep
      | true =>
        have same := calm.asleep asleep
        rw [same] at asleep
        exact absurd (asleep.symm.trans holds) nofun
  | idle => trivial
  | checked => trivial
  | waiting => trivial

theorem m3Holds {s : Call} (allowed : Answered s .m3) (holds : Holds s) :
    Holds {s with
      host := (mhiPmM3Transition s.host).1
      reachedM3 := s.reachedM3 || decide (pm s.host ≠ .m3 ∧ pm (mhiPmM3Transition s.host).1 = .m3)} := by
  have reached : pm s.host = .m3Enter → pm (mhiPmM3Transition s.host).1 = .m3 := by
    intro entering
    have moved : pm (mhiPmM3Transition s.host).1 = mhiTrysetPmState (pm s.host) .m3 := rfl
    rw [moved,entering]
    rfl
  have counted : pm s.host = .m3Enter →
      decide (pm s.host ≠ .m3 ∧ pm (mhiPmM3Transition s.host).1 = .m3) = true := by
    intro entering
    rw [decide_eq_true_eq]
    exact ⟨by rw [entering]; nofun,reached entering⟩
  have m0 : pm s.host = .m3Enter → Unreported (mhiPmM3Transition s.host).1 := by
    rintro entering (away | away) <;> rw [reached entering] at away <;> cases away
  obtain ⟨host,phase,setEnter,quiet,reachedM3,left⟩ := s
  cases phase with
  | woken inTime =>
    cases inTime with
    | true => exact m0 (allowed rfl)
    | false => trivial
  | unvoted inTime =>
    cases inTime with
    | true => exact m0 (allowed rfl)
    | false => trivial
  | entering => exact m0 (allowed rfl)
  | waitingM3 => exact ⟨holds.1,holds.2.1,fun _ => by simp only [counted (allowed rfl),Bool.or_true]⟩
  | wokenM3 inTime =>
    cases inTime with
    | true => exact ⟨holds.1,holds.2.1,.inl (by simp only [counted (allowed rfl),Bool.or_true])⟩
    | false =>
      have entering : pm host = .m3Enter := allowed rfl
      have awake : mhiPmInSuspendState (pm host) = false := holds
      rw [entering] at awake
      cases awake
  | idle => trivial
  | checked => trivial
  | waiting => trivial

theorem nextInv {s : Call} {h : Host} {phase : Phase} {err : Option Errno} (none : s.left = none)
    (unset : err.isSome = true → s.setEnter = false) (begun : err = .none → early phase = true → s.setEnter = false)
    (holds : err = .none → Holds {s with host := h,phase := phase}) : Inv (s.next h phase err) := by
  cases err with
  | none => exact ⟨holds rfl,begun rfl,fun _ => none,silent none⟩
  | some e =>
    refine ⟨trivial,fun impossible => (by cases impossible),fun busy => absurd rfl busy,?_⟩
    intro err state left
    cases left
    intro set
    exact absurd (set.symm.trans (unset rfl)) nofun

theorem deassertDev (c : Cntrl) (override : Bool) : (mhiDeassertDevWake c override).devState = c.devState := by
  unfold mhiDeassertDevWake
  dsimp only
  split
  · rfl
  · split <;> rfl

theorem errorAwake {state : PmState} (error : mhiPmInErrorState state = true) : state ≠ .m3Enter ∧ state ≠ .m3 := by
  constructor <;> rintro rfl <;> cases error

theorem awakeNot {state : PmState} (awake : mhiPmInSuspendState state = false) : state ≠ .m3Enter ∧ state ≠ .m3 := by
  constructor <;> rintro rfl <;> cases awake

theorem enterFrom {state : PmState} (reached : mhiTrysetPmState state .m3Enter = .m3Enter) : state = .m0 ∨ state = .m3Enter := by
  cases state <;> first | exact .inl rfl | exact .inr rfl | cases reached

theorem enteredInv {s : Call} (inv : Inv s) (phase : s.phase = .entering) : Inv ({s with
    setEnter := (suspendEnter s.host).2.isNone
    quiet := decide (s.host.cntrl.devWake = 0 ∧ s.host.cntrl.pendingPkts = 0)
    reachedM3 := false}.next
      (suspendEnter s.host).1 .waitingM3 (suspendEnter s.host).2) := by
  have none := inv.busy (by rw [phase]; nofun)
  have before : Unreported s.host := by
    have holds := inv.holds
    rw [Holds,phase] at holds
    exact holds
  refine nextInv none ?_ (fun _ begun => by cases begun) ?_
  · intro failed
    simpa using failed
  · intro passed
    unfold suspendEnter at passed ⊢
    split at passed
    · cases passed
    · rename_i idle
      dsimp only at passed ⊢
      split at passed
      · cases passed
      · rename_i reached
        have reached := not_not.mp reached
        simp only [if_neg idle,if_neg (not_not.mpr reached)]
        obtain ⟨votes,packets⟩ := not_or.mp idle
        refine ⟨rfl,decide_eq_true ⟨not_not.mp votes,not_not.mp packets⟩,?_⟩
        intro m3
        exact absurd m3 (before (enterFrom reached))

theorem doneInv {s : Call} {inTime : Bool} (inv : Inv s) (phase : s.phase = .wokenM3 inTime) :
    Inv (s.returns (failed inTime s.host)) := by
  refine ⟨trivial,fun impossible => (by cases impossible),fun busy => absurd rfl busy,?_⟩
  have holds := inv.holds
  rw [Holds,phase] at holds
  intro err state left
  cases left
  cases inTime with
  | false =>
    intro _
    exact awakeNot holds
  | true =>
    obtain ⟨set,quiet,reached⟩ := holds
    cases error : mhiPmInErrorState (pm s.host) with
    | true =>
      have gone : failed true s.host = some .eio := by
        unfold failed
        rw [show mhiPmInErrorState s.host.cntrl.pmState = true from error]
        rfl
      rw [gone]
      intro _
      exact errorAwake error
    | false =>
      have passed : failed true s.host = none := by
        unfold failed
        rw [show mhiPmInErrorState s.host.cntrl.pmState = false from error]
        rfl
      rw [passed]
      rcases reached with reached | bad
      · exact ⟨set,quiet,reached⟩
      · exact absurd (error.symm.trans bad) nofun

theorem besideInv {s : Call} (inv : Inv s) {h : Host} {reached : Bool} (kept : s.reachedM3 = true → reached = true)
    (holds : Holds {s with host := h,reachedM3 := reached}) : Inv {s with host := h,reachedM3 := reached} := by
  refine ⟨holds,inv.unset,inv.busy,?_⟩
  intro err state left
  have outcome := inv.outcome err state left
  cases err with
  | none => exact ⟨outcome.1,outcome.2.1,kept outcome.2.2⟩
  | some e => exact outcome

theorem invStep {s s' : Call} (step : Step Answered s s') (inv : Inv s) : Inv s' := by
  cases step with
  | called free => exact nextInv rfl (fun _ => rfl) (fun _ _ => rfl) (fun _ => trivial)
  | voted phase =>
    have none := inv.busy (by rw [phase]; nofun)
    exact ⟨trivial,fun _ => inv.unset (by rw [phase]; rfl),fun _ => none,silent none⟩
  | waited inTime phase ended =>
    have none := inv.busy (by rw [phase]; nofun)
    refine ⟨?_,fun _ => inv.unset (by rw [phase]; rfl),fun _ => none,silent none⟩
    cases inTime with
    | false => trivial
    | true =>
      have awake : awakeM0 s.host := of_decide_eq_true ended.symm
      rintro at0 m3
      rcases awake with m0 | m1 | error
      · exact absurd (m0.symm.trans m3) nofun
      · exact absurd (m1.symm.trans m3) nofun
      · rcases at0 with at0 | at0 <;> rw [at0] at error <;> cases error
  | @unvoted inTime phase =>
    have none := inv.busy (by rw [phase]; nofun)
    refine ⟨?_,fun _ => inv.unset (by rw [phase]; rfl),fun _ => none,silent none⟩
    have holds := inv.holds
    rw [Holds,phase] at holds
    cases inTime with
    | false => trivial
    | true =>
      have state := PowerDown.deassertPm s.host.cntrl false
      have device := deassertDev s.host.cntrl false
      intro at0 m3
      exact holds (at0.imp state.symm.trans state.symm.trans) (device.symm.trans m3)
  | @awake inTime phase =>
    have none := inv.busy (by rw [phase]; nofun)
    have unset := inv.unset (by rw [phase]; rfl)
    refine nextInv none (fun _ => unset) (fun _ _ => unset) ?_
    intro passed
    have holds := inv.holds
    rw [Holds,phase] at holds
    cases inTime with
    | false => cases passed
    | true => exact holds
  | entered phase => exact enteredInv inv phase
  | waitedM3 phase ended =>
    have none := inv.busy (by rw [phase]; nofun)
    refine ⟨?_,fun impossible => (by cases impossible),fun _ => none,silent none⟩
    have holds := inv.holds
    rw [Holds,phase] at holds
    exact ⟨holds.1,holds.2.1,ended.imp holds.2.2 id⟩
  | timedOut phase unmet allowed =>
    have none := inv.busy (by rw [phase]; nofun)
    exact ⟨allowed,fun impossible => (by cases impossible),fun _ => none,silent none⟩
  | done phase => exact doneInv inv phase
  | m3 allowed => exact besideInv inv (fun was => by rw [was,Bool.true_or]) (m3Holds allowed inv.holds)
  | beside ran allowed => exact besideInv inv id (besideHolds (besideCalm ran) allowed inv.holds)

theorem suspendOutcome {h : Host} {s : Call} (run : Relation.ReflTransGen (Step Answered) (start h) s) : Outcome s :=
  (Runs.keeps (I := Inv) (fun _ _ => invStep) run (invStart h)).outcome

namespace Sample

def awake : Call := {start MhiHost.Sample.ready with phase := .waiting,host :=
  {MhiHost.Sample.ready with cntrl := mhiAssertDevWake MhiHost.Sample.ready.cntrl false}}
def idle : Call := {awake with phase := .entering,host :=
  {awake.host with cntrl := mhiDeassertDevWake awake.host.cntrl false}}
def entering : Call := {idle with host := (suspendEnter idle.host).1,phase := .waitingM3,setEnter := true,quiet := true}
def suspended : Call := {entering with
  host := (mhiPmM3Transition entering.host).1,phase := .idle,reachedM3 := true,left := some (none,.m3)}
def stuck : Call := {entering with phase := .idle,left := some (some .eio,.m3Enter)}

theorem enteringReached (may : Call → Happening → Prop) :
    Relation.ReflTransGen (Step may) (start MhiHost.Sample.ready) entering := by
  have called : Step may (start MhiHost.Sample.ready) {start MhiHost.Sample.ready with phase := .checked} := .called rfl
  have voted : Step may {start MhiHost.Sample.ready with phase := .checked} awake := .voted rfl
  have waited : Step may awake {awake with phase := .woken true} := .waited true rfl rfl
  have unvoted : Step may {awake with phase := .woken true} {idle with phase := .unvoted true} := .unvoted rfl
  have checked : Step may {idle with phase := .unvoted true} idle := @Step.awake _ _ true rfl
  have entered : Step may idle entering := .entered rfl
  exact .tail (.tail (.tail (.tail (.tail (.single called) voted) waited) unvoted) checked) entered

theorem suspendedReached : Relation.ReflTransGen (Step Answered) (start MhiHost.Sample.ready) suspended := by
  have answered : Step Answered entering {suspended with phase := .waitingM3,left := none} := .m3 fun _ => rfl
  have woken : Step Answered {suspended with phase := .waitingM3,left := none}
      {suspended with phase := .wokenM3 true,left := none} := .waitedM3 rfl (.inl rfl)
  have done : Step Answered {suspended with phase := .wokenM3 true,left := none} suspended :=
    @Step.done _ _ true rfl
  exact .tail (.tail (.tail (enteringReached Answered) answered) woken) done

theorem stuckReached : Relation.ReflTransGen (Step fun _ _ => True) (start MhiHost.Sample.ready) stuck := by
  have unmet : ¬asleepM3 entering.host := by decide
  have late : Step (fun _ _ => True) entering {entering with phase := .wokenM3 false} := .timedOut rfl unmet trivial
  have done : Step (fun _ _ => True) {entering with phase := .wokenM3 false} stuck := @Step.done _ _ false rfl
  exact .tail (.tail (enteringReached _) late) done

end Sample

theorem suspendAnsweredOutcome : Sample.suspended.left = some (none,.m3) ∧ Outcome Sample.suspended :=
  ⟨rfl,suspendOutcome Sample.suspendedReached⟩

theorem suspendTimeoutLeavesM3Enter : ¬∀ (h : Host) (s : Call),
    Relation.ReflTransGen (Step fun _ _ => True) (start h) s → Outcome s := by
  intro claim
  have away := claim _ _ Sample.stuckReached (some .eio) .m3Enter rfl rfl
  exact away.1 rfl

end MhiHost.SuspendOutcome
