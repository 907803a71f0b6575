import MhiHost.PowerDown

/-! The three detectors of a SYS_ERR, cut where each drops pm_lock: what it does under the
lock, and the recovery it starts afterwards from the value `mhi_tryset_pm_state` gave it.
Any number of them may stand between the two. Entries of `MHI_PM_SYS_ERR_DETECT` are
numbered, and each recovery is booked on the entry its detector saw. -/
namespace MhiHost.SysErr
open Handlers PowerDown

inductive Detector where
  | intvec
  | ring
  | task
  deriving DecidableEq, Repr

inductive Recovery where
  | sysErrQueued
  | fatalCallback
  deriving DecidableEq, Repr

def sysErrDetect (h : Host) : Host × Bool :=
  let state := mhiTrysetPmState h.cntrl.pmState .sysErrDetect
  (h.setPm state,decide (state = .sysErrDetect))

/- The part under the lock; the second component is that the local `pm_state` (`new_state`)
is SYS_ERR_DETECT. `state` and `ee` are read from the device. -/
def detect (h : Host) (state : DevState) (ee : ExecEnv) : Detector → Host × Bool
  | .intvec =>
      if !mhiRegAccessValid h.cntrl.pmState then (h,false)
      else if state = .sysErr then sysErrDetect (setExecEnv h ee)
      else if state = .ready ∧ h.cntrl.ee = .edl ∧ ee = .fp then (mhiQueueStateTransition (setExecEnv h ee) .ready,false)
      else (setExecEnv h ee,false)
  | .ring => if h.cntrl.ee = .rddm ∨ h.rddmImage = true then (h,false) else sysErrDetect h
  | .task => if state = .sysErr then sysErrDetect h else (h,false)

def recover (h : Host) : Detector → Host
  | .intvec => if mhiInPbl h.cntrl.ee then h.statusCb .fatalError else mhiPmSysErrHandler h
  | .ring => mhiPmSysErrHandler h
  | .task => mhiPmSysErrHandler h

def recovery (h : Host) : Detector → Recovery
  | .intvec => if mhiInPbl h.cntrl.ee then .fatalCallback else .sysErrQueued
  | .ring => .sysErrQueued
  | .task => .sysErrQueued

theorem recoverActs {h : Host} (without : h.rddmImage = false) (d : Detector) :
    match recovery h d with
    | .sysErrQueued => (recover h d).transitionList = h.transitionList ++ [.sysErr] ∧ (recover h d).callbacks = h.callbacks
    | .fatalCallback => (recover h d).callbacks = h.callbacks ++ [.fatalError] ∧
        (recover h d).transitionList = h.transitionList := by
  have queued : (mhiPmSysErrHandler h).transitionList = h.transitionList ++ [.sysErr] ∧
      (mhiPmSysErrHandler h).callbacks = h.callbacks := by
    rw [mhiPmSysErrHandler,without]
    exact ⟨rfl,rfl⟩
  cases d with
  | intvec =>
    cases pbl : mhiInPbl h.cntrl.ee with
    | true =>
      simp only [recovery,recover,pbl,if_true]
      exact ⟨rfl,rfl⟩
    | false =>
      simp only [recovery,recover,pbl,Bool.false_eq_true,if_false]
      exact queued
  | ring => exact queued
  | task => exact queued

theorem intvecWhole {h : Host} (without : h.rddmImage = false) (state : DevState) (ee : ExecEnv) :
    mhiIntvecThreadedHandler h state ee =
      if (detect h state ee .intvec).2 then recover (detect h state ee .intvec).1 .intvec
      else (detect h state ee .intvec).1 := by
  unfold mhiIntvecThreadedHandler detect
  dsimp only
  split
  · rfl
  · cases state
    case sysErr =>
      simp only [if_true,true_and,sysErrDetect,decide_eq_true_eq]
      have plain : ∀ pm, ((setExecEnv h ee).setPm pm).rddmImage = false := fun _ => without
      rw [plain]
      rfl
    case ready =>
      simp only [reduceCtorEq,if_false,true_and,false_and]
      split
      · have plain : (mhiQueueStateTransition (setExecEnv h ee) .ready).rddmImage = false := without
        rw [plain]
        rfl
      · have plain : (setExecEnv h ee).rddmImage = false := without
        rw [plain]
        rfl
    all_goals
      have plain : (setExecEnv h ee).rddmImage = false := without
      simp [plain]

theorem ringWhole (h : Host) (state : DevState) (ee : ExecEnv) :
    sysErrEvent h = if (detect h state ee .ring).2 then recover (detect h state ee .ring).1 .ring
      else (detect h state ee .ring).1 := by
  unfold sysErrEvent detect
  dsimp only
  split
  · rfl
  · simp only [sysErrDetect,decide_eq_true_eq]
    rfl

inductive Other : Host → Host → Prop where
  | item {h} (st : DevStTransition) (reply : ItemReply) : Other h (beginItem h st reply).1
  | loaded {h} (passThru edl : Bool) (reply : FwReply) : Other h (fwLoadFinish h passThru edl reply)
  | disabled {h} (target : PmState) (reply : ReadyReply) : Other h (disableFinish h target reply)
  | linkDown {h} : Other h (h.setPm (mhiTrysetPmState h.cntrl.pmState .ldErrFatalDetect))
  | m0 {h} : Other h (mhiPmM0Transition h).1
  | m1 {h} : Other h (mhiPmM1Transition h)
  | m3 {h} : Other h (mhiPmM3Transition h).1
  | suspend {h} : Other h (suspendEnter h).1
  | resume {h} : Other h (resumeBegin h).1
  | still {h h'} (pm : h'.cntrl.pmState = h.cntrl.pmState) : Other h h'

theorem itemOff {h : Host} (st : DevStTransition) (reply : ItemReply) (off : h.cntrl.pmState ≠ .sysErrDetect) :
    (beginItem h st reply).1.cntrl.pmState ≠ .sysErrDetect := by
  have disable : ∀ target : PmState, target ≠ .sysErrDetect →
      (disableBegin h target).1.cntrl.pmState ≠ .sysErrDetect := by
    intro target other
    obtain ⟨_,_,⟨_,_,pm⟩ | ⟨_,_,pm⟩⟩ := disableBeginView h target
    · rw [pm]
      exact off
    · rw [pm]
      exact other
  cases st with
  | pbl =>
    have read : (readExecEnv h reply.ee).cntrl.pmState = h.cntrl.pmState := by
      unfold readExecEnv
      split <;> rfl
    simp only [beginItem]
    split <;> rw [read] <;> exact off
  | sbl =>
    rw [beginItem,(createView (setExecEnv h .sbl) reply.create).1]
    exact off
  | fp =>
    rw [beginItem,(createView (setExecEnv h .fp) reply.create).1]
    exact off
  | missionMode =>
    have begun := (missionBeginAside h reply.ee).pm
    simp only [beginItem]
    split <;> rename_i ran <;> rw [ran] at begun <;> rw [begun] <;> exact off
  | ready => exact triedOff (readyFrame h reply.ready).1 (by simp) off
  | sysErr => exact disable .sysErrProcess (by simp)
  | disable => exact disable .shutdownProcess (by simp)

theorem otherOff {h h' : Host} (other : Other h h') (off : h.cntrl.pmState ≠ .sysErrDetect) :
    h'.cntrl.pmState ≠ .sysErrDetect := by
  have tries : ∀ st : PmState, st ≠ .sysErrDetect → mhiTrysetPmState h.cntrl.pmState st ≠ .sysErrDetect := by
    intro st away
    have tried : Tried (· = st) h.cntrl.pmState (mhiTrysetPmState h.cntrl.pmState st) := .inr ⟨st,rfl,rfl⟩
    exact triedOff tried (fun same => away same.symm) off
  cases other with
  | item st reply => exact itemOff st reply off
  | loaded passThru edl reply => exact triedOff (fwLoadFrame h passThru edl reply).1 (by simp) off
  | disabled target reply => exact triedOff (disableFinishFrame h target reply).1 (by simp) off
  | linkDown => exact tries .ldErrFatalDetect (by simp)
  | m0 => exact triedOff (@m0Frame (· = .m0) h rfl).pm (by simp) off
  | m1 => exact triedOff (@m1Frame (· = .m2) h rfl).pm (by simp) off
  | m3 => exact tries .m3 (by simp)
  | suspend =>
    unfold suspendEnter
    split
    · exact off
    dsimp only
    split <;> exact tries .m3Enter (by simp)
  | resume =>
    unfold resumeBegin
    split
    · exact off
    split
    · exact off
    dsimp only
    split <;> exact tries .m3Exit (by simp)
  | still pm =>
    rw [pm]
    exact off

/- `acting t` is a detector of thread `t` that has seen SYS_ERR_DETECT, with the entry it
saw; `entries` counts the entries, and `recoveries` are the actions taken. -/
structure Scene (τ : Type) where
  host : Host
  acting : τ → Option (Detector × Nat)
  entries : Nat
  recoveries : List (Recovery × Nat)

section Runs
variable {τ : Type} [DecidableEq τ]

def start (h : Host) : Scene τ := ⟨h,fun _ => none,0,[]⟩

def entered (h h' : Host) : Bool :=
  decide (h.cntrl.pmState ≠ .sysErrDetect ∧ h'.cntrl.pmState = .sysErrDetect)

def Scene.to (s : Scene τ) (h : Host) : Scene τ :=
  {s with host := h,entries := if entered s.host h then s.entries+1 else s.entries}

def detected (s : Scene τ) (t : τ) (d : Detector) (state : DevState) (ee : ExecEnv) : Scene τ :=
  let out := detect s.host state ee d
  let s := s.to out.1
  if out.2 then {s with acting := Function.update s.acting t (some (d,s.entries-1))} else s

def acted (s : Scene τ) (t : τ) (d : Detector) (n : Nat) : Scene τ :=
  {s.to (recover s.host d) with
    acting := Function.update s.acting t none,recoveries := (recovery s.host d,n) :: s.recoveries}

/- `mhi_queue_state_transition` could not allocate its item. -/
def unqueued (s : Scene τ) (t : τ) : Scene τ := {s with acting := Function.update s.acting t none}

/- `may` says when a detector may look at the device, and whether an item's allocation may
fail. The controller is one without `rddm_image` all along. -/
inductive Step (may : Host → DevState → Prop) (fails : Prop) : Scene τ → Scene τ → Prop where
  | detected {s t} (d : Detector) (state : DevState) (ee : ExecEnv) (free : s.acting t = none)
      (event : d = .ring → state = .sysErr) (allowed : may s.host state) : Step may fails s (detected s t d state ee)
  | acted {s t d n} (seen : s.acting t = some (d,n)) (without : s.host.rddmImage = false) :
      Step may fails s (acted s t d n)
  | unqueued {s t d n} (seen : s.acting t = some (d,n)) (queues : recovery s.host d = .sysErrQueued)
      (allowed : fails) : Step may fails s (unqueued s t)
  | other {s h} (moved : Other s.host h) (without : h.rddmImage = false) : Step may fails s (s.to h)

def done (s : Scene τ) (n : Nat) : Nat := (s.recoveries.map Prod.snd).count n

def OneRecovery (s : Scene τ) : Prop :=
  ∀ n < s.entries, done s n ≤ 1 ∧ ((∀ t d, s.acting t ≠ some (d,n)) → done s n = 1)

def Lone (h : Host) (state : DevState) : Prop := state = .sysErr → h.cntrl.pmState ≠ .sysErrDetect

structure Inv (s : Scene τ) : Prop where
  acting : ∀ t d n, s.acting t = some (d,n) → n < s.entries ∧ done s n = 0
  alone : ∀ t u d e n, s.acting t = some (d,n) → s.acting u = some (e,n) → t = u
  known : ∀ n, s.entries ≤ n → done s n = 0
  one : OneRecovery s

theorem sysErrDetectEntered {h g : Host} (off : h.cntrl.pmState ≠ .sysErrDetect) (same : g.cntrl.pmState = h.cntrl.pmState) :
    entered h (sysErrDetect g).1 = (sysErrDetect g).2 := by
  simp [entered,sysErrDetect,Host.setPm,off,same]

theorem stillEntered {h g : Host} (same : g.cntrl.pmState = h.cntrl.pmState) : entered h g = false := by
  simp [entered,same]

theorem detectEntered {h : Host} {state : DevState} {d : Detector} (ee : ExecEnv) (lone : Lone h state)
    (event : d = .ring → state = .sysErr) : entered h (detect h state ee d).1 = (detect h state ee d).2 := by
  cases d with
  | intvec =>
    unfold detect
    dsimp only
    split
    · exact stillEntered rfl
    split
    · rename_i sysErr
      exact sysErrDetectEntered (lone sysErr) rfl
    split
    · exact stillEntered rfl
    · exact stillEntered rfl
  | ring =>
    unfold detect
    dsimp only
    split
    · exact stillEntered rfl
    · exact sysErrDetectEntered (lone (event rfl)) rfl
  | task =>
    unfold detect
    dsimp only
    split
    · rename_i sysErr
      exact sysErrDetectEntered (lone sysErr) rfl
    · exact stillEntered rfl

omit [DecidableEq τ] in
theorem invStart (h : Host) : Inv (start h : Scene τ) where
  acting := by intro t d n seen; cases seen
  alone := by intro t u d e n seen; cases seen
  known := by intro n _; rfl
  one := by intro n before; cases before

omit [DecidableEq τ] in
theorem Inv.same {s s' : Scene τ} (inv : Inv s) (acting : s'.acting = s.acting) (entries : s'.entries = s.entries)
    (recoveries : s'.recoveries = s.recoveries) : Inv s' := by
  obtain ⟨host,_,_,_⟩ := s'
  cases acting
  cases entries
  cases recoveries
  exact ⟨inv.acting,inv.alone,inv.known,inv.one⟩

theorem invEntered {s : Scene τ} {t : τ} (inv : Inv s) (free : s.acting t = none) (d : Detector) (h : Host) :
    Inv ⟨h,Function.update s.acting t (some (d,s.entries)),s.entries+1,s.recoveries⟩ := by
  have mine : ∀ u e n, Function.update s.acting t (some (d,s.entries)) u = some (e,n) →
      u = t ∧ n = s.entries ∨ u ≠ t ∧ s.acting u = some (e,n) := by
    intro u e n seen
    rcases Decidable.eq_or_ne u t with rfl | other
    · rw [Function.update_self] at seen
      cases seen
      exact .inl ⟨rfl,rfl⟩
    · rw [Function.update_of_ne other] at seen
      exact .inr ⟨other,seen⟩
  constructor
  · intro u e n seen
    rcases mine u e n seen with ⟨_,rfl⟩ | ⟨_,older⟩
    · exact ⟨Nat.lt_succ_self _,inv.known _ (Nat.le_refl _)⟩
    · have before := inv.acting u e n older
      exact ⟨Nat.lt_succ_of_lt before.1,before.2⟩
  · intro u v e f n first second
    rcases mine u e n first with ⟨rfl,rfl⟩ | ⟨_,left⟩
    · rcases mine v f _ second with ⟨same,_⟩ | ⟨_,right⟩
      · exact same.symm
      · exact absurd (inv.acting v f _ right).1 (Nat.lt_irrefl _)
    · rcases mine v f n second with ⟨_,rfl⟩ | ⟨_,right⟩
      · exact absurd (inv.acting u e _ left).1 (Nat.lt_irrefl _)
      · exact inv.alone u v e f n left right
  · intro n above
    exact inv.known n (Nat.le_of_succ_le above)
  · intro n below
    rcases Nat.lt_succ_iff_lt_or_eq.mp below with older | rfl
    · refine ⟨(inv.one n older).1,?_⟩
      intro nobody
      apply (inv.one n older).2
      intro u e seen
      have kept : Function.update s.acting t (some (d,s.entries)) u ≠ some (e,n) := nobody u e
      rcases Decidable.eq_or_ne u t with rfl | other
      · rw [free] at seen
        cases seen
      · rw [Function.update_of_ne other] at kept
        exact kept seen
    · refine ⟨?_,?_⟩
      · have none : done s s.entries = 0 := inv.known _ (Nat.le_refl _)
        exact none.le.trans (Nat.zero_le _)
      · intro nobody
        exact absurd (Function.update_self t (some (d,s.entries)) s.acting) (nobody t d)

theorem recoverPm (h : Host) (d : Detector) : (recover h d).cntrl.pmState = h.cntrl.pmState := by
  have queued : (mhiPmSysErrHandler h).cntrl.pmState = h.cntrl.pmState := by
    unfold mhiPmSysErrHandler
    split <;> rfl
  cases d with
  | intvec =>
    unfold recover
    dsimp only
    split
    · rfl
    · exact queued
  | ring => exact queued
  | task => exact queued

theorem invActed {s : Scene τ} {t : τ} {d : Detector} {n : Nat} (inv : Inv s) (seen : s.acting t = some (d,n)) :
    Inv (acted s t d n) := by
  obtain ⟨below,none⟩ := inv.acting t d n seen
  have entries : (acted s t d n).entries = s.entries := by
    simp [acted,Scene.to,stillEntered (recoverPm s.host d)]
  have left : ∀ u e m, (acted s t d n).acting u = some (e,m) → m ≠ n ∧ s.acting u = some (e,m) := by
    intro u e m held
    rcases Decidable.eq_or_ne u t with rfl | other
    · simp [acted] at held
    · simp only [acted,Function.update_of_ne other] at held
      refine ⟨?_,held⟩
      rintro rfl
      exact other (inv.alone u t e d m held seen)
  have counted : ∀ m, done (acted s t d n) m = done s m+if n = m then 1 else 0 := by
    intro m
    simp [done,acted,List.count_cons]
  have others : ∀ m, m ≠ n → done (acted s t d n) m = done s m := by
    intro m away
    rw [counted,if_neg (Ne.symm away)]
    rfl
  constructor
  · intro u e m held
    obtain ⟨away,before⟩ := left u e m held
    obtain ⟨known,fresh⟩ := inv.acting u e m before
    exact ⟨by rw [entries]; exact known,(others m away).trans fresh⟩
  · intro u v e f m first second
    exact inv.alone u v e f m (left u e m first).2 (left v f m second).2
  · intro m above
    rw [entries] at above
    have away : m ≠ n := fun same => by
      subst same
      exact Nat.lt_irrefl _ (Nat.lt_of_lt_of_le below above)
    exact (others m away).trans (inv.known m above)
  · intro m inside
    rw [entries] at inside
    rcases Decidable.eq_or_ne m n with rfl | away
    · have once : done (acted s t d m) m = 1 := by rw [counted,none,if_pos rfl]
      exact ⟨once.le,fun _ => once⟩
    · obtain ⟨most,exactly⟩ := inv.one m inside
      rw [others m away]
      refine ⟨most,fun nobody => exactly ?_⟩
      intro u e held
      rcases Decidable.eq_or_ne u t with rfl | other
      · rw [seen] at held
        cases held
        exact away rfl
      · apply nobody u e
        simp only [acted,Function.update_of_ne other]
        exact held

theorem invStep {s s' : Scene τ} (step : Step Lone False s s') (inv : Inv s) : Inv s' := by
  cases step with
  | @detected t d state ee free event lone =>
    have same := detectEntered ee lone event
    cases saw : (detect s.host state ee d).2 with
    | false =>
      have kept : detected s t d state ee = s.to (detect s.host state ee d).1 := by simp [detected,saw]
      rw [kept]
      exact inv.same rfl (by simp [Scene.to,same,saw]) rfl
    | true =>
      have next := invEntered inv free d (detect s.host state ee d).1
      simpa [detected,same,saw,Scene.to] using next
  | acted seen without => exact invActed inv seen
  | unqueued seen queues allowed => exact allowed.elim
  | @other h moved without =>
    have quiet : entered s.host h = false := by
      unfold entered
      rw [decide_eq_false_iff_not]
      rintro ⟨off,reached⟩
      exact otherOff moved off reached
    exact inv.same rfl (by simp [Scene.to,quiet]) rfl

theorem oneRecoveryEach {h : Host} {s : Scene τ} (run : Relation.ReflTransGen (Step Lone False) (start h) s) :
    OneRecovery s :=
  (Runs.keeps (I := Inv) (fun _ _ => invStep) run (invStart h)).one

end Runs

namespace Sample

def begun : Scene Bool := start MhiHost.Sample.ready
def seen : Scene Bool := detected begun false .intvec .sysErr .amss
def once : Scene Bool := acted seen false .intvec 0
def met : Scene Bool := detected seen true .ring .sysErr .amss
def twice : Scene Bool := acted (acted met false .intvec 0) true .ring 0

theorem onceReached : Relation.ReflTransGen (Step Lone False) begun once := by
  have lone : Lone begun.host .sysErr := fun _ => by decide
  have first : Step Lone False begun seen := .detected .intvec .sysErr .amss rfl nofun lone
  exact .tail (.single first) (.acted rfl rfl)

theorem twiceReached : Relation.ReflTransGen (Step (fun _ _ => True) True) begun twice := by
  have first : Step (fun _ _ => True) True begun seen := .detected .intvec .sysErr .amss rfl nofun trivial
  have second : Step (fun _ _ => True) True seen met := .detected .ring .sysErr .amss rfl (fun _ => rfl) trivial
  exact .tail (.tail (.tail (.single first) second) (.acted rfl rfl)) (.acted rfl rfl)

end Sample

theorem oneDetectorRecoversOnce : Sample.once.entries = 1 ∧ Sample.once.recoveries = [(.sysErrQueued,0)] ∧
    OneRecovery Sample.once :=
  ⟨by decide,by decide,oneRecoveryEach Sample.onceReached⟩

theorem twoDetectorsRecoverTwice : ¬∀ (h : Host) (s : Scene Bool), h.rddmImage = false →
    Relation.ReflTransGen (Step (fun _ _ => True) True) (start h) s → OneRecovery s := by
  intro claim
  have one := (claim _ _ rfl Sample.twiceReached 0 (by decide)).1
  have two : done Sample.twice 0 = 2 := by decide
  rw [two] at one
  exact absurd one (by decide)

end MhiHost.SysErr
