import MhiHost.Channel
import MhiHost.PciResources

/-! `mhi_async_power_up` from its first check to its labels: the device context and the
interrupts, the BHI offsets, the execution environment, and the reset out of SYS_ERR. Every
register value and every failure is an input. -/
namespace MhiHost.PowerUp
open PciResources (Resources Handler handlers)

inductive WakeRoutine where
  | client (name : Nat) | assertDevWake | deassertDevWake | toggleDevWakeNop | toggleDevWake
  deriving DecidableEq, Repr

structure Controller where
  cntrl : Cntrl
  res : Resources
  regs : Nat
  bhi : Nat
  bhie : Nat
  fbcDownload : Bool
  wakeGet : Option WakeRoutine
  wakePut : Option WakeRoutine
  wakeToggle : Option WakeRoutine
  transitionList : List DevStTransition

/- One evaluation of the wait's condition: the power state other contexts have left, and
what a read of MHICTRL would return. DISABLE is only ever entered under `pm_mutex`, which
the call holds. -/
structure Check where
  pm : PmState
  mhictrl : Except Errno Nat
  locked : pm ≠ .disable

/- `mhictrl` answers the read of the reset request. `inTime` are the evaluations of the
wait's condition made with time left, `atEnd` is the one made after the timeout. -/
structure Answers where
  allocated : Bool
  irq : Handler → Option Errno
  bhiOff : Except Errno Nat
  bhieOff : Except Errno Nat
  execEnv : Except Errno Nat
  mhistatus : Except Errno Nat
  mhictrl : Except Errno Nat
  inTime : List Check
  atEnd : Check

def bhiIntvec : Nat := 0x20
def mhictrlOffset : Nat := 0x38
def mhictrlMhistateMask : Nat := 0xff00
def mhictrlMhistateShift : Nat := 8
def mhictrlResetMask : Nat := 0x2
def mhictrlResetShift : Nat := 1
def mhistatusMhistateMask : Nat := 0xff00
def mhistatusMhistateShift : Nat := 8

def mhiReadRegField (read : Except Errno Nat) (mask shift : Nat) : Except Errno Nat :=
  match read with
  | .error err => .error err
  | .ok tmp => .ok ((tmp &&& mask) >>> shift)

def mhiWriteRegField (c : Cntrl) (read : Except Errno Nat) (base offset mask shift val : Nat) : Cntrl :=
  match read with
  | .error _ => c
  | .ok tmp => mhiWriteReg c base offset ((tmp &&& ((2 ^ 32-1) ^^^ mask)) ||| (val <<< shift))

def mhiSetMhiState (c : Cntrl) (regs : Nat) (read : Except Errno Nat) (state : DevState) : Cntrl :=
  if state = .reset then mhiWriteRegField c read regs mhictrlOffset mhictrlResetMask mhictrlResetShift 1
  else mhiWriteRegField c read regs mhictrlOffset mhictrlMhistateMask mhictrlMhistateShift state.code

def mhiGetExecEnv (read : Except Errno Nat) : Nat :=
  match read with
  | .error _ => ExecEnv.max.code
  | .ok exec => exec

def mhiGetMhiState (read : Except Errno Nat) : Nat :=
  match mhiReadRegField read mhistatusMhistateMask mhistatusMhistateShift with
  | .error _ => DevState.max.code
  | .ok state => state

def inPbl (ee : Nat) : Bool := decide (ee = ExecEnv.pbl.code ∨ ee = ExecEnv.pthru.code ∨ ee = ExecEnv.edl.code)

theorem inPblCode (e : ExecEnv) : inPbl e.code = mhiInPbl e := by
  cases e <;> rfl

def validForPowerOn (ee : Nat) : Bool := inPbl ee || decide (ee = ExecEnv.amss.code) || decide (ee = ExecEnv.sbl.code)

namespace Controller

def setPm (c : Controller) (s : PmState) : Controller := {c with cntrl := {c.cntrl with pmState := s}}

def defaultWake (c : Controller) : Controller :=
  if c.wakeGet.isNone ∨ c.wakePut.isNone ∨ c.wakeToggle.isNone then
    {c with
      wakeGet := some .assertDevWake,wakePut := some .deassertDevWake
      wakeToggle := some (if PmState.m2.within c.cntrl.dbAccess then .toggleDevWakeNop else .toggleDevWake)}
  else c

end Controller

/- The context's own words are left out; `PciResources` says whether it is there. -/
def mhiInitDevCtxt (c : Controller) (allocated : Bool) : Controller × Option Errno :=
  let made := PciResources.mhiInitDevCtxt c.res allocated
  ({c with cntrl := {c.cntrl with devWake := 0,pendingPkts := 0},res := made.1},made.2)

def acquire (c : Controller) (a : Answers) : Controller × Option Errno :=
  let c := c.defaultWake.setPm .disable
  match (if c.res.preInit then (c,none) else mhiInitDevCtxt c a.allocated) with
  | (c,some err) => (c,some err)
  | (c,none) =>
    match PciResources.mhiInitIrqSetup a.irq c.res with
    | (r,some err) => ({c with res := PciResources.deinitUnlessPreInit r},some err)
    | (r,none) => ({c with res := r},none)

def setupBhi (c : Controller) (a : Answers) : Controller × Except Errno Nat :=
  match a.bhiOff with
  | .error err => (c,.error err)
  | .ok val =>
    let c := {c with bhi := c.regs+val}
    if c.fbcDownload then
      match a.bhieOff with
      | .error err => (c,.error err)
      | .ok val => ({c with bhie := c.regs+val},.ok val)
    else (c,.ok val)

def enterPor (c : Controller) : Controller :=
  {c with cntrl := {mhiWriteReg c.cntrl c.bhi bhiIntvec 0 with pmState := .por,ee := .max}}

def Check.holds (k : Check) (val : Nat) : Bool × Nat :=
  if mhiPmInFatalState k.pm then (true,val)
  else match mhiReadRegField k.mhictrl mhictrlResetMask mhictrlResetShift with
    | .error _ => (true,val)
    | .ok field => (decide (field = 0),field)

/- `wait_event_timeout`: whether it returns other than zero, with `val` and the power state
where it ends. The condition has the last word also after the timeout. -/
def waitReset (atEnd : Check) : List Check → Nat → Bool × Nat × PmState
  | [],val => ((atEnd.holds val).1,(atEnd.holds val).2,atEnd.pm)
  | k::ks,val =>
      match k.holds val with
      | (true,val) => (true,val,k.pm)
      | (false,val) => waitReset atEnd ks val

/- The wait is taken to have failed when it returns other than zero. -/
def leaveSysErr (c : Controller) (a : Answers) (val : Nat) : Controller × Option Errno :=
  if mhiGetMhiState a.mhistatus = DevState.sysErr.code then
    let c := {c with cntrl := mhiSetMhiState c.cntrl c.regs a.mhictrl .reset}
    let (ret,_,pm) := waitReset a.atEnd a.inTime val
    let c := c.setPm pm
    if ret then (c,some .eio)
    else ({c with cntrl := mhiWriteReg c.cntrl c.bhi bhiIntvec 0},none)
  else (c,none)

def nextState (ee : Nat) : DevStTransition := if inPbl ee then .pbl else .ready

def start (c : Controller) (a : Answers) : Controller × Option Errno :=
  match setupBhi c a with
  | (c,.error err) => (c,some err)
  | (c,.ok val) =>
    let c := enterPor c
    let currentEe := mhiGetExecEnv a.execEnv
    if !validForPowerOn currentEe then (c,some .eio)
    else
      match leaveSysErr c a val with
      | (c,some err) => (c,some err)
      | (c,none) => ({c with transitionList := c.transitionList ++ [nextState currentEe]},none)

def mhiAsyncPowerUp (c : Controller) (a : Answers) : Controller × Option Errno :=
  if c.res.nrIrqs < 1 then (c,some .einval)
  else
    match acquire c a with
    | (c,some err) => (c,some err)
    | (c,none) =>
      match start c a with
      | (c,some err) => ({c with res := PciResources.deinitUnlessPreInit (PciResources.mhiDeinitFreeIrq c.res)},some err)
      | (c,none) => (c,none)

def ContextRefused (c : Controller) (a : Answers) : Prop := c.res.preInit = false ∧ a.allocated = false

def IrqRefused (r : Resources) (irq : Handler → Option Errno) : Prop :=
  irq .bhi ≠ none ∨
    ∃ i e, r.events[i]? = some e ∧ e.offloadEv = false ∧ (r.nrIrqs ≤ e.irq ∨ irq (.event i) ≠ none)

def OffsetsUnread (c : Controller) (a : Answers) : Prop :=
  (∃ err, a.bhiOff = .error err) ∨ c.fbcDownload = true ∧ ∃ err, a.bhieOff = .error err

def ReadsSysErr (a : Answers) : Prop := mhiGetMhiState a.mhistatus = DevState.sysErr.code

namespace Check

abbrev Fatal (k : Check) : Prop := mhiPmInFatalState k.pm = true

def Clear (k : Check) : Prop := ¬k.Fatal ∧ mhiReadRegField k.mhictrl mhictrlResetMask mhictrlResetShift = .ok 0
def Troubled (k : Check) : Prop := k.Fatal ∨ ∃ err, k.mhictrl = .error err
def Pending (k : Check) : Prop :=
  ¬k.Fatal ∧ ∃ field, mhiReadRegField k.mhictrl mhictrlResetMask mhictrlResetShift = .ok field ∧ field ≠ 0

theorem cases (k : Check) : k.Clear ∨ k.Troubled ∨ k.Pending := by
  by_cases fatal : k.Fatal
  · exact .inr (.inl (.inl fatal))
  cases read : k.mhictrl with
  | error err => exact .inr (.inl (.inr ⟨err,read⟩))
  | ok tmp =>
    have field : mhiReadRegField k.mhictrl mhictrlResetMask mhictrlResetShift =
        .ok ((tmp &&& mhictrlResetMask) >>> mhictrlResetShift) := by
      rw [read]
      rfl
    rcases Decidable.eq_or_ne ((tmp &&& mhictrlResetMask) >>> mhictrlResetShift) 0 with zero | set
    · rw [zero] at field
      exact .inl ⟨fatal,field⟩
    · exact .inr (.inr ⟨fatal,_,field,set⟩)

theorem Clear.holds {k : Check} (clear : k.Clear) (val : Nat) : (k.holds val).1 = true := by
  rw [Check.holds,if_neg clear.1,clear.2]
  rfl

theorem Troubled.holds {k : Check} (troubled : k.Troubled) (val : Nat) : (k.holds val).1 = true := by
  rw [Check.holds]
  split
  · rfl
  · rename_i calm
    rcases troubled with fatal | ⟨err,failed⟩
    · exact absurd fatal calm
    · rw [failed]
      rfl

theorem Pending.holds {k : Check} (pending : k.Pending) (val : Nat) : (k.holds val).1 = false := by
  obtain ⟨calm,field,read,set⟩ := pending
  rw [Check.holds,if_neg calm,read]
  exact decide_eq_false set

theorem Pending.not_clear {k : Check} (pending : k.Pending) : ¬k.Clear := by
  intro clear
  have held := clear.holds 0
  rw [pending.holds] at held
  cases held

theorem Pending.not_troubled {k : Check} (pending : k.Pending) : ¬k.Troubled := by
  intro troubled
  have held := troubled.holds 0
  rw [pending.holds] at held
  cases held

theorem Clear.not_troubled {k : Check} (clear : k.Clear) : ¬k.Troubled := by
  rintro (fatal | ⟨err,failed⟩)
  · exact clear.1 fatal
  · have read := clear.2
    rw [failed] at read
    cases read

end Check

inductive First (p : Check → Prop) : List Check → Prop where
  | here {k ks} (found : p k) : First p (k :: ks)
  | later {k ks} (pending : k.Pending) (rest : First p ks) : First p (k :: ks)

theorem firstCases (ks : List Check) : First Check.Clear ks ∨ First Check.Troubled ks ∨ ∀ k ∈ ks, k.Pending := by
  induction ks with
  | nil => exact .inr (.inr fun k inside => absurd inside List.not_mem_nil)
  | cons k ks ih =>
    rcases k.cases with clear | troubled | pending
    · exact .inl (.here clear)
    · exact .inr (.inl (.here troubled))
    · rcases ih with clear | troubled | rest
      · exact .inl (.later pending clear)
      · exact .inr (.inl (.later pending troubled))
      · refine .inr (.inr ?_)
        intro other inside
        rcases List.mem_cons.mp inside with rfl | inside
        · exact pending
        · exact rest other inside

variable {p : Check → Prop} {ks : List Check}

theorem First.ends (found : First p ks) (stops : ∀ k val, p k → (k.holds val).1 = true) (atEnd : Check) (val : Nat) :
    (waitReset atEnd ks val).1 = true := by
  induction found generalizing val with
  | @here k ks found =>
    have held := stops k val found
    rw [waitReset]
    split
    · rfl
    · rename_i val' passed
      rw [passed] at held
      cases held
  | @later k ks pending _ ih =>
    rw [waitReset]
    split
    · rfl
    · exact ih _

theorem pendingEnds (all : ∀ k ∈ ks, k.Pending) (atEnd : Check) (val : Nat) :
    ∃ val', (waitReset atEnd ks val).1 = (atEnd.holds val').1 := by
  induction ks generalizing val with
  | nil => exact ⟨val,rfl⟩
  | cons k ks ih =>
    have passed := (all k List.mem_cons_self).holds val
    rw [waitReset]
    split
    · rename_i val' held
      rw [held] at passed
      cases passed
    · exact ih (fun other inside => all other (List.mem_cons_of_mem _ inside)) _

theorem First.not_pending (found : First p ks) (stops : ∀ k, p k → ¬k.Pending) : ¬∀ k ∈ ks, k.Pending := by
  induction found with
  | here found => exact fun all => stops _ found (all _ List.mem_cons_self)
  | later _ _ ih => exact fun all => ih fun k inside => all k (List.mem_cons_of_mem _ inside)

theorem First.exclusive {q : Check → Prop} (first : First p ks) (second : First q ks) (apart : ∀ k, p k → ¬q k)
    (left : ∀ k, p k → ¬k.Pending) (right : ∀ k, q k → ¬k.Pending) : False := by
  induction first with
  | here found =>
    cases second with
    | here other => exact apart _ found other
    | later pending _ => exact left _ found pending
  | later pending _ ih =>
    cases second with
    | here other => exact right _ other pending
    | later _ rest => exact ih rest

def TimesOut (a : Answers) : Prop := (∀ k ∈ a.inTime, k.Pending) ∧ a.atEnd.Pending

theorem waitFails {a : Answers} {val : Nat} : (waitReset a.atEnd a.inTime val).1 = false ↔ TimesOut a := by
  constructor
  · intro passed
    have stopped : ∀ {q : Check → Prop}, First q a.inTime → (∀ k val, q k → (k.holds val).1 = true) → False := by
      intro q found stops
      rw [found.ends stops] at passed
      cases passed
    rcases firstCases a.inTime with clear | troubled | all
    · exact (stopped clear fun _ val found => found.holds val).elim
    · exact (stopped troubled fun _ val found => found.holds val).elim
    · obtain ⟨val',last⟩ := pendingEnds all a.atEnd val
      rw [last] at passed
      refine ⟨all,?_⟩
      rcases a.atEnd.cases with clear | troubled | pending
      · rw [clear.holds] at passed
        cases passed
      · rw [troubled.holds] at passed
        cases passed
      · exact pending
  · rintro ⟨all,last⟩
    obtain ⟨val',ends⟩ := pendingEnds all a.atEnd val
    exact ends.trans (last.holds val')

theorem waitLocked (atEnd : Check) (ks : List Check) (val : Nat) : (waitReset atEnd ks val).2.2 ≠ .disable := by
  induction ks generalizing val with
  | nil => exact atEnd.locked
  | cons k ks ih =>
    rw [waitReset]
    split
    · exact k.locked
    · exact ih _

inductive Started (c : Controller) (a : Answers) : Controller × Option Errno → Prop where
  | unread {c' err} (offsets : OffsetsUnread c a) (pm : c'.cntrl.pmState = c.cntrl.pmState)
      (list : c'.transitionList = c.transitionList) : Started c a (c',some err)
  | failed {c' err} (offsets : ¬OffsetsUnread c a)
      (ends : validForPowerOn (mhiGetExecEnv a.execEnv) = false ∨ ReadsSysErr a ∧ ¬TimesOut a)
      (pm : c'.cntrl.pmState ≠ .disable) (list : c'.transitionList = c.transitionList) : Started c a (c',some err)
  | queued {c'} (offsets : ¬OffsetsUnread c a) (env : validForPowerOn (mhiGetExecEnv a.execEnv) = true)
      (ends : ReadsSysErr a → TimesOut a)
      (list : c'.transitionList = c.transitionList ++ [nextState (mhiGetExecEnv a.execEnv)]) : Started c a (c',none)

theorem setupBhiKeeps (c : Controller) (a : Answers) :
    (setupBhi c a).1.res = c.res ∧ (setupBhi c a).1.cntrl = c.cntrl ∧ (setupBhi c a).1.transitionList = c.transitionList := by
  unfold setupBhi
  split
  · exact ⟨rfl,rfl,rfl⟩
  · dsimp only
    split
    · split <;> exact ⟨rfl,rfl,rfl⟩
    · exact ⟨rfl,rfl,rfl⟩

theorem setupBhiAnswers (c : Controller) (a : Answers) : (∃ err, (setupBhi c a).2 = .error err) ↔ OffsetsUnread c a := by
  unfold setupBhi OffsetsUnread
  split
  · rename_i err unread
    exact ⟨fun _ => .inl ⟨err,unread⟩,fun _ => ⟨err,rfl⟩⟩
  · rename_i val read
    have first : ¬∃ err, a.bhiOff = .error err := by
      rintro ⟨err,unread⟩
      rw [read] at unread
      cases unread
    dsimp only
    split
    · rename_i download
      split
      · rename_i err unread
        exact ⟨fun _ => .inr ⟨download,err,unread⟩,fun _ => ⟨err,rfl⟩⟩
      · rename_i val' read'
        refine ⟨fun ⟨err,failed⟩ => (by cases failed),?_⟩
        rintro (none | ⟨_,err,unread⟩)
        · exact absurd none first
        · rw [read'] at unread
          cases unread
    · rename_i whole
      refine ⟨fun ⟨err,failed⟩ => (by cases failed),?_⟩
      rintro (none | ⟨download,_⟩)
      · exact absurd none first
      · exact absurd download whole

theorem leaveSysErrKeeps (c : Controller) (a : Answers) (val : Nat) :
    (leaveSysErr c a val).1.res = c.res ∧ (leaveSysErr c a val).1.transitionList = c.transitionList := by
  unfold leaveSysErr
  split
  · dsimp only
    split <;> exact ⟨rfl,rfl⟩
  · exact ⟨rfl,rfl⟩

theorem leaveSysErrAnswers (c : Controller) (a : Answers) (val : Nat) :
    (leaveSysErr c a val).2 = none ∧ (ReadsSysErr a → TimesOut a) ∨
      (∃ err, (leaveSysErr c a val).2 = some err) ∧ ReadsSysErr a ∧ ¬TimesOut a ∧
        (leaveSysErr c a val).1.cntrl.pmState ≠ .disable := by
  unfold leaveSysErr
  split
  · rename_i sysErr
    dsimp only
    split
    · rename_i held
      refine .inr ⟨⟨_,rfl⟩,sysErr,?_,waitLocked _ _ _⟩
      intro out
      rw [waitFails.mpr out] at held
      cases held
    · rename_i passed
      exact .inl ⟨rfl,fun _ => waitFails.mp (Bool.eq_false_iff.mpr passed)⟩
  · rename_i other
    exact .inl ⟨rfl,fun sysErr => absurd sysErr other⟩

theorem started (c : Controller) (a : Answers) : Started c a (start c a) ∧ (start c a).1.res = c.res := by
  have answers := setupBhiAnswers c a
  obtain ⟨res,cntrl,list⟩ := setupBhiKeeps c a
  rw [start]
  cases stage : setupBhi c a with
  | mk d ret =>
    rw [stage] at answers res cntrl list
    cases ret with
    | error err => exact ⟨.unread (answers.mp ⟨err,rfl⟩) (congrArg Cntrl.pmState cntrl) list,res⟩
    | ok val =>
      have read : ¬OffsetsUnread c a := by
        intro unread
        obtain ⟨err,failed⟩ := answers.mpr unread
        cases failed
      dsimp only
      split
      · rename_i invalid
        refine ⟨.failed read (.inl ?_) (show PmState.por ≠ .disable by decide) list,res⟩
        rw [Bool.not_eq_true'] at invalid
        exact invalid
      · rename_i valid
        have env : validForPowerOn (mhiGetExecEnv a.execEnv) = true := by
          rw [Bool.not_eq_true',Bool.not_eq_false] at valid
          exact valid
        have kept := leaveSysErrKeeps (enterPor d) a val
        have outcome := leaveSysErrAnswers (enterPor d) a val
        cases left : leaveSysErr (enterPor d) a val with
        | mk e ret =>
          rw [left] at kept outcome
          have same : e.transitionList = c.transitionList := kept.2.trans list
          rcases outcome with ⟨went,ends⟩ | ⟨⟨err,failed⟩,sysErr,ends,pm⟩
          · cases went
            exact ⟨.queued read env ends (congrArg (· ++ [nextState (mhiGetExecEnv a.execEnv)]) same),kept.1.trans res⟩
          · cases failed
            exact ⟨.failed read (.inr ⟨sysErr,ends⟩) pm same,kept.1.trans res⟩

theorem requestEventsAnswers {irq : Handler → Option Errno} {nrIrqs i : Nat} {es : List PciResources.EventIrq}
    {b : Holdings Handler} : (PciResources.requestEvents irq nrIrqs i es b).2 ≠ none ↔
      ∃ k e, es[k]? = some e ∧ e.offloadEv = false ∧ (nrIrqs ≤ e.irq ∨ irq (.event (i+k)) ≠ none) := by
  induction es generalizing i b with
  | nil => exact ⟨fun failed => absurd rfl failed,fun ⟨k,e,inside,_⟩ => (by cases inside)⟩
  | cons e es ih =>
    have shift : ∀ k, i+1+k = i+(k+1) := fun k => by omega
    have further : (∃ k e', (e :: es)[k]? = some e' ∧ e'.offloadEv = false ∧ (nrIrqs ≤ e'.irq ∨ irq (.event (i+k)) ≠ none)) ↔
        (e.offloadEv = false ∧ (nrIrqs ≤ e.irq ∨ irq (.event i) ≠ none)) ∨
        ∃ k e', es[k]? = some e' ∧ e'.offloadEv = false ∧ (nrIrqs ≤ e'.irq ∨ irq (.event (i+1+k)) ≠ none) := by
      constructor
      · rintro ⟨k,e',inside,refused⟩
        cases k with
        | zero =>
          cases inside
          exact .inl refused
        | succ k =>
          rw [← shift k] at refused
          exact .inr ⟨k,e',inside,refused⟩
      · rintro (refused | ⟨k,e',inside,refused⟩)
        · exact ⟨0,e,rfl,refused⟩
        · rw [shift k] at refused
          exact ⟨k+1,e',inside,refused⟩
    rw [PciResources.requestEvents,further]
    split
    · rename_i offload
      rw [ih]
      refine ⟨.inr,?_⟩
      rintro (⟨inside,_⟩ | rest)
      · rw [offload] at inside
        cases inside
      · exact rest
    · rename_i inside
      rw [Bool.not_eq_true] at inside
      split
      · rename_i beyond
        exact ⟨fun _ => .inl ⟨inside,.inl beyond⟩,fun _ => Option.some_ne_none _⟩
      · rename_i within
        split
        · rename_i err refused
          refine ⟨fun _ => .inl ⟨inside,.inr ?_⟩,fun _ => Option.some_ne_none _⟩
          rw [refused]
          exact Option.some_ne_none err
        · rename_i granted
          rw [ih]
          refine ⟨.inr,?_⟩
          rintro (⟨_,beyond | refused⟩ | rest)
          · exact absurd beyond within
          · exact absurd granted refused
          · exact rest

theorem initIrqSetupAnswers {irq : Handler → Option Errno} {r : Resources} :
    (PciResources.mhiInitIrqSetup irq r).2 ≠ none ↔ IrqRefused r irq := by
  rw [PciResources.mhiInitIrqSetup,IrqRefused]
  split
  · rename_i err refused
    refine ⟨fun _ => .inl ?_,fun _ => Option.some_ne_none err⟩
    rw [refused]
    exact Option.some_ne_none err
  · rename_i granted
    have answers := @requestEventsAnswers irq r.nrIrqs 0 r.events (r.irqs.take .bhi)
    simp only [Nat.zero_add] at answers
    rw [or_iff_right (fun refused => refused granted),← answers]
    split
    · rename_i looped
      rw [looped]
      exact ⟨fun failed => absurd rfl failed,fun failed => absurd rfl failed⟩
    · rename_i err i looped
      rw [looped]
      exact ⟨fun _ => Option.some_ne_none _,fun _ => Option.some_ne_none _⟩

theorem wakeKeeps (c : Controller) : c.defaultWake.res = c.res ∧ c.defaultWake.transitionList = c.transitionList ∧
    c.defaultWake.fbcDownload = c.fbcDownload := by
  unfold Controller.defaultWake
  split <;> exact ⟨rfl,rfl,rfl⟩

def context (r : Resources) (allocated : Bool) : Resources × Option Errno :=
  if r.preInit then (r,none) else PciResources.mhiInitDevCtxt r allocated

theorem contextAnswers (c : Controller) (a : Answers) : (context c.res a.allocated).2 = none ↔ ¬ContextRefused c a := by
  unfold context ContextRefused PciResources.mhiInitDevCtxt
  cases c.res.preInit <;> cases a.allocated <;> simp

theorem contextKeeps (r : Resources) (allocated : Bool) : (context r allocated).1.events = r.events ∧
    (context r allocated).1.nrIrqs = r.nrIrqs ∧ (context r allocated).1.preInit = r.preInit ∧
    (context r allocated).1.irqs = r.irqs := by
  unfold context PciResources.mhiInitDevCtxt
  split
  · exact ⟨rfl,rfl,rfl,rfl⟩
  · split <;> exact ⟨rfl,rfl,rfl,rfl⟩

theorem acquireStages (c : Controller) (a : Answers) :
    (acquire c a).1.cntrl.pmState = .disable ∧ (acquire c a).1.transitionList = c.transitionList ∧
      (acquire c a).1.fbcDownload = c.fbcDownload ∧
      ((acquire c a).1.res,(acquire c a).2) = match context c.res a.allocated with
        | (r,some err) => (r,some err)
        | (r,none) =>
          match PciResources.mhiInitIrqSetup a.irq r with
          | (r,some err) => (PciResources.deinitUnlessPreInit r,some err)
          | (r,none) => (r,none) := by
  obtain ⟨res,list,download⟩ := wakeKeeps c
  have same : (c.defaultWake.setPm .disable).res = c.res := res
  unfold acquire context mhiInitDevCtxt
  dsimp only
  rw [same]
  cases ready : c.res.preInit with
  | true =>
    rw [if_pos rfl,if_pos rfl]
    dsimp only
    rw [same]
    split <;> exact ⟨rfl,list,download,rfl⟩
  | false =>
    rw [if_neg Bool.false_ne_true,if_neg Bool.false_ne_true]
    cases PciResources.mhiInitDevCtxt c.res a.allocated with
    | mk r ret =>
      cases ret with
      | some err => exact ⟨rfl,list,download,rfl⟩
      | none =>
        dsimp only
        split <;> exact ⟨rfl,list,download,rfl⟩

theorem acquireAnswers (c : Controller) (a : Answers) :
    (acquire c a).2 = none ↔ ¬ContextRefused c a ∧ ¬IrqRefused c.res a.irq := by
  obtain ⟨_,_,_,stages⟩ := acquireStages c a
  obtain ⟨events,nrIrqs,_,_⟩ := contextKeeps c.res a.allocated
  have made := contextAnswers c a
  have answers := congrArg Prod.snd stages
  dsimp only at answers
  rw [answers]
  cases stage : context c.res a.allocated with
  | mk r ret =>
    rw [stage] at made events nrIrqs
    have refused : IrqRefused r a.irq ↔ IrqRefused c.res a.irq := by
      unfold IrqRefused
      rw [events,nrIrqs]
    cases ret with
    | some err => exact ⟨fun none => absurd none (Option.some_ne_none err),fun both => absurd (made.mpr both.1) (Option.some_ne_none err)⟩
    | none =>
      rw [← refused,← initIrqSetupAnswers]
      dsimp only
      split
      · rename_i q err setup
        rw [setup]
        exact ⟨fun none => absurd none (Option.some_ne_none err),fun both => absurd (Option.some_ne_none err) both.2⟩
      · rename_i q setup
        rw [setup]
        exact ⟨fun _ => ⟨made.mp rfl,fun failed => failed rfl⟩,fun _ => rfl⟩

theorem asDriver (c : Controller) (a : Answers) : ∃ later,
    PciResources.mhiAsyncPowerUp c.res a.allocated a.irq later = ((mhiAsyncPowerUp c a).1.res,(mhiAsyncPowerUp c a).2) := by
  obtain ⟨_,_,_,stages⟩ := acquireStages c a
  refine ⟨(start (acquire c a).1 a).2,?_⟩
  unfold mhiAsyncPowerUp PciResources.mhiAsyncPowerUp
  by_cases few : c.res.nrIrqs < 1
  · rw [if_pos few,if_pos few]
  rw [if_neg few,if_neg few]
  rw [context] at stages
  cases acquired : acquire c a with
  | mk d ret =>
    rw [acquired] at stages
    cases made : (if c.res.preInit then (c.res,none) else PciResources.mhiInitDevCtxt c.res a.allocated) with
    | mk r failed =>
      rw [made] at stages
      cases failed with
      | some err =>
        cases stages
        rfl
      | none =>
        dsimp only at stages ⊢
        cases setup : PciResources.mhiInitIrqSetup a.irq r with
        | mk q refused =>
          rw [setup] at stages
          cases refused with
          | some err =>
            obtain ⟨undone,ended⟩ := Prod.mk.inj stages
            cases ended
            exact congrArg (·,some err) undone.symm
          | none =>
            cases stages
            obtain ⟨_,res⟩ := started d a
            dsimp only
            cases ran : start d a with
            | mk e ret =>
              rw [ran] at res
              cases ret with
              | some err => exact congrArg (fun r => (PciResources.deinitUnlessPreInit (PciResources.mhiDeinitFreeIrq r),some err)) res.symm
              | none => exact congrArg (·,none) res.symm

theorem deinitUnlessPreInitLeaves (r : Resources) : (PciResources.deinitUnlessPreInit r).irqs = r.irqs ∧
    (PciResources.deinitUnlessPreInit r).mhiCtxt = (r.preInit && r.mhiCtxt) := by
  unfold PciResources.deinitUnlessPreInit PciResources.mhiDeinitDevCtxt
  cases ready : r.preInit with
  | true => exact ⟨rfl,rfl⟩
  | false =>
    rw [if_neg Bool.false_ne_true]
    split
    · exact ⟨rfl,rfl⟩
    · rename_i missing
      exact ⟨rfl,Bool.eq_false_iff.mpr missing⟩

theorem failedReleases {r r' : Resources} {allocated : Bool} {irq : Handler → Option Errno} {later : Option Errno}
    {err : Errno} (ran : PciResources.mhiAsyncPowerUp r allocated irq later = (r',some err)) (wired : 1 ≤ r.nrIrqs) :
    (∀ h, r'.irqs.held h = r.irqs.held h) ∧
      r'.mhiCtxt = if (context r allocated).2 = none then r.preInit && r.mhiCtxt else r.mhiCtxt := by
  rw [PciResources.mhiAsyncPowerUp,if_neg (Nat.not_lt.mpr wired)] at ran
  have kept : ∀ {q : Resources}, (context r allocated) = (q,none) → q.irqs = r.irqs ∧ q.preInit = r.preInit ∧
      (q.preInit && q.mhiCtxt) = (r.preInit && r.mhiCtxt) := by
    intro q made
    unfold context PciResources.mhiInitDevCtxt at made
    split at made
    · cases made
      exact ⟨rfl,rfl,rfl⟩
    · rename_i fresh
      split at made
      · cases made
        rw [Bool.not_eq_true] at fresh
        refine ⟨rfl,rfl,?_⟩
        dsimp only
        rw [fresh,Bool.false_and,Bool.false_and]
      · cases made
  rw [context] at kept ⊢
  cases made : (if r.preInit then (r,none) else PciResources.mhiInitDevCtxt r allocated) with
  | mk q failed =>
    rw [made] at ran kept
    cases failed with
    | some e =>
      cases ran
      rw [if_neg (Option.some_ne_none err)]
      have same : r' = r := by
        unfold PciResources.mhiInitDevCtxt at made
        split at made
        · cases made
        · split at made
          · cases made
          · exact (congrArg Prod.fst made).symm
      rw [same]
      exact ⟨fun _ => rfl,rfl⟩
    | none =>
      obtain ⟨irqs,_,ctxt⟩ := kept rfl
      rw [if_pos rfl]
      dsimp only at ran
      cases setup : PciResources.mhiInitIrqSetup irq q with
      | mk p refused =>
        obtain ⟨_,held⟩ := PciResources.initIrqSetupSpec setup
        obtain ⟨_,frame⟩ := PciResources.initIrqSetupFrame setup
        rw [setup] at ran
        have undone := deinitUnlessPreInitLeaves p
        have whole : (p.preInit && p.mhiCtxt) = (r.preInit && r.mhiCtxt) := by
          rw [frame]
          exact ctxt
        cases refused with
        | some e =>
          cases ran
          refine ⟨?_,undone.2.trans whole⟩
          intro h
          rw [undone.1,held h,irqs]
          rfl
        | none =>
          cases later with
          | none => cases ran
          | some e =>
            cases ran
            have freed := deinitUnlessPreInitLeaves (PciResources.mhiDeinitFreeIrq p)
            have events : p.events = q.events := by rw [frame]
            have enough : ∀ h, (handlers p.events).count h ≤ p.irqs.held h := by
              intro h
              rw [held h,events]
              exact Nat.le_add_left _ _
            refine ⟨?_,freed.2.trans whole⟩
            intro h
            have left : (PciResources.mhiDeinitFreeIrq p).irqs.held h = p.irqs.held h-(handlers p.events).count h :=
              Holdings.giveAllHeld enough h
            rw [freed.1,left,held h,events,irqs]
            exact Nat.add_sub_cancel _ _

inductive Called (c : Controller) (a : Answers) : Controller × Option Errno → Prop where
  | early {c' err} (stops : ContextRefused c a ∨ IrqRefused c.res a.irq ∨ OffsetsUnread c a)
      (pm : c'.cntrl.pmState = .disable) (list : c'.transitionList = c.transitionList) : Called c a (c',some err)
  | late {c' err} (context : ¬ContextRefused c a) (irqs : ¬IrqRefused c.res a.irq) (offsets : ¬OffsetsUnread c a)
      (ends : validForPowerOn (mhiGetExecEnv a.execEnv) = false ∨ ReadsSysErr a ∧ ¬TimesOut a)
      (pm : c'.cntrl.pmState ≠ .disable) (list : c'.transitionList = c.transitionList) : Called c a (c',some err)
  | queued {c'} (context : ¬ContextRefused c a) (irqs : ¬IrqRefused c.res a.irq) (offsets : ¬OffsetsUnread c a)
      (env : validForPowerOn (mhiGetExecEnv a.execEnv) = true) (ends : ReadsSysErr a → TimesOut a)
      (list : c'.transitionList = c.transitionList ++ [nextState (mhiGetExecEnv a.execEnv)]) : Called c a (c',none)

theorem called {c : Controller} (a : Answers) (wired : 1 ≤ c.res.nrIrqs) : Called c a (mhiAsyncPowerUp c a) := by
  obtain ⟨pm,list,download,_⟩ := acquireStages c a
  have answers := acquireAnswers c a
  rw [mhiAsyncPowerUp,if_neg (Nat.not_lt.mpr wired)]
  cases acquired : acquire c a with
  | mk d ret =>
    rw [acquired] at pm list download answers
    have offsets : OffsetsUnread d a ↔ OffsetsUnread c a := by
      unfold OffsetsUnread
      rw [download]
    cases ret with
    | some err =>
      refine .early ?_ pm list
      by_cases refused : ContextRefused c a
      · exact .inl refused
      · by_cases irqs : IrqRefused c.res a.irq
        · exact .inr (.inl irqs)
        · exact absurd (answers.mpr ⟨refused,irqs⟩) (Option.some_ne_none err)
    | none =>
      obtain ⟨context,irqs⟩ := answers.mp rfl
      obtain ⟨outcome,_⟩ := started d a
      dsimp only
      cases ran : start d a with
      | mk e ret =>
        rw [ran] at outcome
        cases outcome with
        | unread unread pm' list' => exact .early (.inr (.inr (offsets.mp unread))) (pm'.trans pm) (list'.trans list)
        | failed read ends pm' list' =>
          exact .late context irqs (fun unread => read (offsets.mpr unread)) ends pm' (list'.trans list)
        | queued read env ends list' =>
          refine .queued context irqs (fun unread => read (offsets.mpr unread)) env ends (list'.trans ?_)
          exact congrArg (· ++ [nextState (mhiGetExecEnv a.execEnv)]) list

structure FoundSysErr (c : Controller) (a : Answers) : Prop where
  wired : 1 ≤ c.res.nrIrqs
  context : ¬ContextRefused c a
  irqs : ¬IrqRefused c.res a.irq
  offsets : ¬OffsetsUnread c a
  env : validForPowerOn (mhiGetExecEnv a.execEnv) = true
  sysErr : ReadsSysErr a

def ClearedInTime (a : Answers) : Prop := First Check.Clear a.inTime

structure SysErrAnswered (c : Controller) (a : Answers) (out : Controller × Option Errno) : Prop where
  onlyCleared : out.2 = none → ClearedInTime a
  cleared : ClearedInTime a →
    out.2 = none ∧ out.1.transitionList = c.transitionList ++ [nextState (mhiGetExecEnv a.execEnv)]

def WaitTroubled (a : Answers) : Prop :=
  First Check.Troubled a.inTime ∨ (∀ k ∈ a.inTime, k.Pending) ∧ ¬a.atEnd.Pending

theorem clearedNotPending {a : Answers} (clear : ClearedInTime a) : ¬∀ k ∈ a.inTime, k.Pending :=
  clear.not_pending fun _ clear pending => pending.not_clear clear

theorem sysErrPowerUp {c : Controller} {a : Answers} (found : FoundSysErr c a) :
    SysErrAnswered c a (mhiAsyncPowerUp c a) ↔ WaitTroubled a := by
  have outcome := called a found.wired
  -- The call returns zero just when the whole wait is pending.
  have answers : (mhiAsyncPowerUp c a).2 = none ↔ TimesOut a := by
    generalize mhiAsyncPowerUp c a = out at outcome
    cases outcome with
    | early stops _ _ =>
      rcases stops with refused | refused | unread
      · exact absurd refused found.context
      · exact absurd refused found.irqs
      · exact absurd unread found.offsets
    | late _ _ _ ends _ _ =>
      rcases ends with invalid | ⟨_,ended⟩
      · exact absurd (found.env.symm.trans invalid) (by decide)
      · exact ⟨fun none => absurd none (Option.some_ne_none _),fun out => absurd out ended⟩
    | queued _ _ _ _ ends _ => exact ⟨fun _ => ends found.sysErr,fun _ => rfl⟩
  constructor
  · intro answered
    rcases firstCases a.inTime with clear | troubled | all
    · exact absurd (answers.mp (answered.cleared clear).1).1 (clearedNotPending clear)
    · exact .inl troubled
    · refine .inr ⟨all,fun last => ?_⟩
      exact clearedNotPending (answered.onlyCleared (answers.mpr ⟨all,last⟩)) all
  · intro troubled
    have unclear : ¬ClearedInTime a := by
      intro clear
      rcases troubled with first | ⟨all,_⟩
      · exact clear.exclusive first (fun _ found => found.not_troubled) (fun _ clear pending => pending.not_clear clear)
          (fun _ troubled pending => pending.not_troubled troubled)
      · exact clearedNotPending clear all
    refine ⟨fun zero => ?_,fun clear => absurd clear unclear⟩
    obtain ⟨all,last⟩ := answers.mp zero
    rcases troubled with first | ⟨_,ended⟩
    · exact absurd all (first.not_pending fun _ troubled pending => pending.not_troubled troubled)
    · exact absurd last ended

namespace Sample

def cntrl : Cntrl := ⟨.disable,0,.max,.reset,0,0,0,false,false,0,0,[]⟩
def resources : Resources := ⟨[⟨false,1⟩],2,0,Holdings.empty,false,false,0⟩
def controller : Controller := ⟨cntrl,resources,0x1000,0,0,false,none,none,none,[]⟩

def reads (ctrl : Except Errno Nat) : Check := ⟨.por,ctrl,by decide⟩
def answers (ee : Nat) (inTime : List Check) (atEnd : Check) : Answers :=
  ⟨true,fun _ => none,.ok 0x100,.ok 0x200,.ok ee,.ok 0xff04,.ok 0,inTime,atEnd⟩

theorem found (inTime : List Check) (atEnd : Check) : FoundSysErr controller (answers 0 inTime atEnd) := by
  refine ⟨by decide,fun refused => (by cases refused.2),?_,?_,rfl,rfl⟩
  · rintro (refused | ⟨i,e,inside,_,beyond | refused⟩)
    · exact refused rfl
    · cases i with
      | zero =>
        cases inside
        exact absurd beyond (by decide)
      | succ i => cases inside
    · exact refused rfl
  · rintro (⟨err,unread⟩ | ⟨download,_⟩)
    · cases unread
    · cases download

end Sample

theorem sysErrUnread : SysErrAnswered Sample.controller (Sample.answers 0 [Sample.reads (.error .eio)] (Sample.reads (.ok 2)))
    (mhiAsyncPowerUp Sample.controller (Sample.answers 0 [Sample.reads (.error .eio)] (Sample.reads (.ok 2)))) :=
  (sysErrPowerUp (Sample.found _ _)).mpr (.inl (.here (.inr ⟨.eio,rfl⟩)))

theorem sysErrInverted :
    ¬SysErrAnswered Sample.controller (Sample.answers 0 [Sample.reads (.ok 2)] (Sample.reads (.ok 2)))
      (mhiAsyncPowerUp Sample.controller (Sample.answers 0 [Sample.reads (.ok 2)] (Sample.reads (.ok 2)))) ∧
    (mhiAsyncPowerUp Sample.controller (Sample.answers 0 [Sample.reads (.ok 2)] (Sample.reads (.ok 2)))).2 = none ∧
    ClearedInTime (Sample.answers 0 [Sample.reads (.ok 0)] (Sample.reads (.ok 0))) ∧
    (mhiAsyncPowerUp Sample.controller (Sample.answers 0 [Sample.reads (.ok 0)] (Sample.reads (.ok 0)))).2 = some .eio := by
  refine ⟨?_,rfl,.here ⟨by decide,rfl⟩,rfl⟩
  intro answered
  cases answered.onlyCleared rfl with
  | here clear => cases clear.2
  | later _ rest => cases rest

structure LeftOff (c c' : Controller) : Prop where
  unqueued : c'.transitionList = c.transitionList
  freed : ∀ h, c'.res.irqs.held h = c.res.irqs.held h
  context : c'.res.mhiCtxt = c.res.mhiCtxt
  off : c'.cntrl.pmState = .disable

def FailsClean (c : Controller) (a : Answers) : Prop :=
  ContextRefused c a ∨ (IrqRefused c.res a.irq ∨ OffsetsUnread c a) ∧ (c.res.preInit = true ∨ c.res.mhiCtxt = false)

def PowersUp (c : Controller) (a : Answers) : Prop :=
  ¬ContextRefused c a ∧ ¬IrqRefused c.res a.irq ∧ ¬OffsetsUnread c a ∧
    validForPowerOn (mhiGetExecEnv a.execEnv) = true ∧ (ReadsSysErr a → TimesOut a)

theorem failureLeavesOff {c : Controller} (a : Answers) (wired : 1 ≤ c.res.nrIrqs) :
    ((mhiAsyncPowerUp c a).2 ≠ none → LeftOff c (mhiAsyncPowerUp c a).1) ↔ FailsClean c a ∨ PowersUp c a := by
  obtain ⟨later,resources⟩ := asDriver c a
  have outcome := called a wired
  have made := contextAnswers c a
  cases ran : mhiAsyncPowerUp c a with
  | mk c' ret =>
    rw [ran] at outcome resources
    cases outcome with
    | early stops pm list =>
      obtain ⟨freed,ctxt⟩ := failedReleases resources wired
      have kept : c'.res.mhiCtxt = c.res.mhiCtxt ↔ ContextRefused c a ∨ c.res.preInit = true ∨ c.res.mhiCtxt = false := by
        by_cases refused : ContextRefused c a
        · rw [if_neg (fun none => made.mp none refused)] at ctxt
          exact ⟨fun _ => .inl refused,fun _ => ctxt⟩
        · rw [ctxt,if_pos (made.mpr refused),or_iff_right refused]
          cases c.res.preInit <;> cases c.res.mhiCtxt <;> decide
      constructor
      · intro off
        refine .inl ?_
        by_cases refused : ContextRefused c a
        · exact .inl refused
        · exact .inr ⟨stops.resolve_left refused,(kept.mp (off (Option.some_ne_none _)).context).resolve_left refused⟩
      · rintro (clean | up) _
        · exact ⟨list,freed,kept.mpr (clean.imp_right And.right),pm⟩
        · rcases stops with refused | refused | unread
          · exact absurd refused up.1
          · exact absurd refused up.2.1
          · exact absurd unread up.2.2.1
    | late context irqs offsets ends pm list =>
      constructor
      · exact fun off => absurd (off (Option.some_ne_none _)).off pm
      · rintro (clean | up)
        · rcases clean with refused | ⟨refused | unread,_⟩
          · exact absurd refused context
          · exact absurd refused irqs
          · exact absurd unread offsets
        · rcases ends with invalid | ⟨sysErr,ended⟩
          · exact absurd (up.2.2.2.1.symm.trans invalid) (by decide)
          · exact absurd (up.2.2.2.2 sysErr) ended
    | queued context irqs offsets env ends list =>
      exact ⟨fun _ => .inr ⟨context,irqs,offsets,env,ends⟩,fun _ failed => absurd rfl failed⟩

theorem failureUnallocated :
    LeftOff Sample.controller
      (mhiAsyncPowerUp Sample.controller {Sample.answers 0 [] (Sample.reads (.ok 0)) with allocated := false}).1 := by
  refine (failureLeavesOff _ (show 1 ≤ 2 by decide)).mpr (.inl (.inl ⟨rfl,rfl⟩)) ?_
  intro zero
  cases zero

theorem failureLeavesPor :
    (mhiAsyncPowerUp Sample.controller (Sample.answers 3 [] (Sample.reads (.ok 0)))).2 = some .eio ∧
      (mhiAsyncPowerUp Sample.controller (Sample.answers 3 [] (Sample.reads (.ok 0)))).1.cntrl.pmState = .por ∧
      ¬LeftOff Sample.controller (mhiAsyncPowerUp Sample.controller (Sample.answers 3 [] (Sample.reads (.ok 0)))).1 := by
  refine ⟨rfl,rfl,?_⟩
  intro off
  cases off.off

end MhiHost.PowerUp
