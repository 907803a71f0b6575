import MhiHost.Host
import MhiHost.Runs

/-! The fatal-error restart of `pci_generic.c`: one pointer `s_mhi_cntrl` and one work
item for every controller. A callback stores the pointer and then schedules; an
execution clears the pending bit as it starts, reads the pointer once and power-cycles
what it read. Each step takes one tick, so that "starts after" compares two ticks. -/
namespace MhiHost.StatusWork
variable {κ τ : Type}

inductive CntrlCall where
  | mhiPowerDown | mhiUnprepareAfterPowerDown | mhiPrepareForPowerUp | mhiAsyncPowerUp
  deriving DecidableEq, Repr

/- The calls of `mhi_pci_status_cb_work_func`, and what is left of them after one: a
failed prepare skips the power-up. -/
def mhiPciStatusCbWorkFunc : List CntrlCall :=
  [.mhiPowerDown,.mhiUnprepareAfterPowerDown,.mhiPrepareForPowerUp,.mhiAsyncPowerUp]

def callsLeft (call : CntrlCall) (err : Bool) (rest : List CntrlCall) : List CntrlCall :=
  if call = .mhiPrepareForPowerUp ∧ err then [] else rest

inductive Phase (κ : Type) where
  | idle
  | started (tick : Nat)
  | cycling (tick : Nat) (cntrl : Option κ) (left : List CntrlCall)
  deriving DecidableEq, Repr

structure Status (κ τ : Type) where
  sMhiCntrl : Option κ
  pending : Bool
  caller : τ → Option κ
  phase : Phase κ
  now : Nat
  calls : List (κ × Nat)
  cycles : List (κ × Nat)

def start : Status κ τ := ⟨none,false,fun _ => none,.idle,0,[],[]⟩

def begins (s : Status κ τ) : Status κ τ :=
  {s with pending := false,phase := .started s.now,now := s.now+1}

def reads (s : Status κ τ) (tick : Nat) : Status κ τ :=
  {s with phase := .cycling tick s.sMhiCntrl mhiPciStatusCbWorkFunc,now := s.now+1}

def returns (s : Status κ τ) (tick : Nat) (c : κ) (left : List CntrlCall) : Status κ τ :=
  {s with phase := .cycling tick (some c) left,now := s.now+1}

def ends (s : Status κ τ) (tick : Nat) (c : κ) : Status κ τ :=
  {s with phase := .idle,now := s.now+1,cycles := (c,tick) :: s.cycles}

inductive WorkStep : Status κ τ → Status κ τ → Prop where
  | begins {s} (queued : s.pending = true) (idle : s.phase = .idle) : WorkStep s (begins s)
  | reads {s tick} (phase : s.phase = .started tick) : WorkStep s (reads s tick)
  | returns {s tick c call rest} (err : Bool) (phase : s.phase = .cycling tick (some c) (call :: rest)) :
      WorkStep s (returns s tick c (callsLeft call err rest))
  | ends {s tick c} (phase : s.phase = .cycling tick (some c) []) : WorkStep s (ends s tick c)

/- An execution that has not read the pointer yet, or will be started, is owed to the
controller whose callback stored last. -/
def Owing (s : Status κ τ) : Prop :=
  s.pending = true ∨ (∃ tick, s.phase = .started tick) ∨ ∃ t, s.caller t ≠ none

def Unshared (s : Status κ τ) (c : κ) : Prop := Owing s → s.sMhiCntrl = some c

def AtRest (s : Status κ τ) : Prop := s.pending = false ∧ s.phase = .idle

def Served (s : Status κ τ) (call : κ × Nat) : Prop :=
  ∃ cycle ∈ s.cycles, cycle.1 = call.1 ∧ call.2 < cycle.2

def NoLostRestart (s : Status κ τ) : Prop :=
  (AtRest s → ∀ call ∈ s.calls, Served s call) ∧
  ∃ s', Relation.ReflTransGen WorkStep s s' ∧ AtRest s' ∧ ∀ call ∈ s.calls, Served s' call

def Due (s : Status κ τ) (call : κ × Nat) : Prop :=
  (s.pending = true ∧ s.sMhiCntrl = some call.1) ∨
  (∃ tick, s.phase = .started tick ∧ call.2 < tick ∧ s.sMhiCntrl = some call.1) ∨
  ∃ tick left, s.phase = .cycling tick (some call.1) left ∧ call.2 < tick

structure Inv (s : Status κ τ) : Prop where
  caller : ∀ t c, s.caller t = some c → s.sMhiCntrl = some c
  stored : s.pending = true ∨ (∃ tick, s.phase = .started tick) → s.sMhiCntrl ≠ none
  cycled : ∀ tick left, s.phase ≠ .cycling tick none left
  past : ∀ call ∈ s.calls, call.2 < s.now
  owed : ∀ call ∈ s.calls, Served s call ∨ Due s call

theorem invStart : Inv (start : Status κ τ) where
  caller := by intro t c stored; cases stored
  stored := by rintro (queued | ⟨tick,phase⟩) <;> contradiction
  cycled := by intro tick left phase; cases phase
  past := by intro call member; cases member
  owed := by intro call member; cases member

theorem invWork {s s' : Status κ τ} (inv : Inv s) (step : WorkStep s s') : Inv s' := by
  have older : ∀ call ∈ s.calls, call.2 < s.now+1 := fun call member => Nat.lt_succ_of_lt (inv.past call member)
  cases step with
  | begins queued idle =>
    refine ⟨inv.caller,fun _ => inv.stored (.inl queued),fun tick left phase => (by cases phase),older,?_⟩
    intro call member
    rcases inv.owed call member with served | ⟨_,pointer⟩ | ⟨tick,phase,_⟩ | ⟨tick,left,phase,_⟩
    · exact .inl served
    · exact .inr (.inr (.inl ⟨s.now,rfl,inv.past call member,pointer⟩))
    · rw [idle] at phase
      cases phase
    · rw [idle] at phase
      cases phase
  | @reads tick phase =>
    have pointer := inv.stored (.inr ⟨tick,phase⟩)
    refine ⟨inv.caller,fun _ => pointer,?_,older,?_⟩
    · intro later left cycling
      exact pointer (Phase.cycling.inj cycling).2.1
    · intro call member
      rcases inv.owed call member with served | queued | ⟨since,began,later,pointer⟩ | ⟨since,left,began,_⟩
      · exact .inl served
      · exact .inr (.inl queued)
      · rw [phase] at began
        cases began
        exact .inr (.inr (.inr ⟨tick,mhiPciStatusCbWorkFunc,by simp [reads,pointer],later⟩))
      · rw [phase] at began
        cases began
  | @returns tick c call rest err phase =>
    refine ⟨inv.caller,?_,fun tick left phase => (by cases phase),older,?_⟩
    · rintro (queued | ⟨since,began⟩)
      · exact inv.stored (.inl queued)
      · cases began
    · intro made member
      rcases inv.owed made member with served | queued | ⟨since,began,_⟩ | ⟨since,left,began,later⟩
      · exact .inl served
      · exact .inr (.inl queued)
      · rw [phase] at began
        cases began
      · rw [phase] at began
        cases began
        exact .inr (.inr (.inr ⟨tick,_,rfl,later⟩))
  | @ends tick c phase =>
    refine ⟨inv.caller,?_,fun tick left phase => (by cases phase),older,?_⟩
    · rintro (queued | ⟨since,began⟩)
      · exact inv.stored (.inl queued)
      · cases began
    · intro call member
      rcases inv.owed call member with ⟨cycle,found,done⟩ | queued | ⟨since,began,_⟩ | ⟨since,left,began,later⟩
      · exact .inl ⟨cycle,List.mem_cons_of_mem _ found,done⟩
      · exact .inr (.inl queued)
      · rw [phase] at began
        cases began
      · rw [phase] at began
        cases began
        exact .inl ⟨(call.1,tick),List.mem_cons_self,rfl,later⟩

theorem servedAtRest {s : Status κ τ} (inv : Inv s) (rest : AtRest s) : ∀ call ∈ s.calls, Served s call := by
  intro call member
  rcases inv.owed call member with served | ⟨queued,_⟩ | ⟨tick,phase,_⟩ | ⟨tick,left,phase,_⟩
  · exact served
  · rw [rest.1] at queued
    cases queued
  · rw [rest.2] at phase
    cases phase
  · rw [rest.2] at phase
    cases phase

theorem callsMade {s : Status κ τ} {tick : Nat} {c : κ} {left : List CntrlCall}
    (phase : s.phase = .cycling tick (some c) left) :
    ∃ s', Relation.ReflTransGen WorkStep s s' ∧ s'.phase = .idle ∧ s'.calls = s.calls ∧ s'.pending = s.pending := by
  induction left generalizing s with
  | nil => exact ⟨_,.single (.ends phase),rfl,rfl,rfl⟩
  | cons call rest ih =>
    have step := WorkStep.returns false phase
    have next : (returns s tick c (callsLeft call false rest)).phase = .cycling tick (some c) rest := by
      simp [returns,callsLeft]
    obtain ⟨s',run,done⟩ := ih next
    exact ⟨s',.head step run,done⟩

theorem executionEnds {s : Status κ τ} (inv : Inv s) :
    ∃ s', Relation.ReflTransGen WorkStep s s' ∧ s'.phase = .idle ∧ s'.calls = s.calls ∧ s'.pending = s.pending := by
  cases phase : s.phase with
  | idle => exact ⟨s,.refl,phase,rfl,rfl⟩
  | started tick =>
    obtain ⟨c,pointer⟩ := Option.ne_none_iff_exists'.mp (inv.stored (.inr ⟨tick,phase⟩))
    have step := WorkStep.reads phase
    obtain ⟨s',run,done⟩ := callsMade (s := reads s tick) (c := c) (by rw [reads,pointer])
    exact ⟨s',.head step run,done⟩
  | cycling tick cntrl left =>
    cases cntrl with
    | none => exact absurd phase (inv.cycled tick left)
    | some c => exact callsMade phase

theorem invWorkRun {s s' : Status κ τ} (inv : Inv s) (run : Relation.ReflTransGen WorkStep s s') : Inv s' :=
  Runs.keeps (fun _ _ step kept => invWork kept step) run inv

theorem comesToRest {s : Status κ τ} (inv : Inv s) :
    ∃ s', Relation.ReflTransGen WorkStep s s' ∧ AtRest s' ∧ s'.calls = s.calls := by
  obtain ⟨u,ended,idle,calls,_⟩ := executionEnds inv
  cases queued : u.pending with
  | false => exact ⟨u,ended,⟨queued,idle⟩,calls⟩
  | true =>
    have step := WorkStep.begins queued idle
    obtain ⟨v,run,rest,same,cleared⟩ := executionEnds (invWork (invWorkRun inv ended) step)
    exact ⟨v,ended.trans (.head step run),⟨cleared,rest⟩,same.trans calls⟩

section Callbacks
variable [DecidableEq τ]

def mhiPciStatusCb (s : Status κ τ) (t : τ) (c : κ) (cb : MhiCallback) : Status κ τ :=
  if cb ≠ .fatalError then {s with now := s.now+1}
  else {s with sMhiCntrl := some c,caller := Function.update s.caller t (some c),now := s.now+1}

def scheduleWork (s : Status κ τ) (t : τ) (c : κ) : Status κ τ :=
  {s with
    pending := true,caller := Function.update s.caller t none,now := s.now+1,calls := (c,s.now) :: s.calls}

/- `may` says when a callback of a controller may store the pointer. -/
inductive Step (may : Status κ τ → κ → Prop) : Status κ τ → Status κ τ → Prop where
  | called {s t c cb} (free : s.caller t = none) (allowed : cb = .fatalError → may s c) :
      Step may s (mhiPciStatusCb s t c cb)
  | scheduled {s t c} (stored : s.caller t = some c) : Step may s (scheduleWork s t c)
  | work {s s'} (step : WorkStep s s') : Step may s s'

theorem invCalled {s : Status κ τ} {t : τ} {c : κ} {cb : MhiCallback} (inv : Inv s)
    (allowed : cb = .fatalError → Unshared s c) : Inv (mhiPciStatusCb s t c cb) := by
  unfold mhiPciStatusCb
  split
  · exact ⟨inv.caller,inv.stored,inv.cycled,fun call member => Nat.lt_succ_of_lt (inv.past call member),inv.owed⟩
  · rename_i fatal
    have unshared := allowed (not_not.mp fatal)
    -- whatever is owed an execution is owed it for this same controller
    have same : ∀ {d}, Owing s → s.sMhiCntrl = some d → d = c := by
      intro d owing pointer
      have pointerToo := unshared owing
      rw [pointer] at pointerToo
      exact Option.some.inj pointerToo
    constructor
    · intro u d stored
      rcases Decidable.eq_or_ne u t with rfl | other
      · simp only [Function.update_self] at stored
        exact stored
      · simp only [Function.update_of_ne other] at stored
        have owing : Owing s := .inr (.inr ⟨u,by simp [stored]⟩)
        rw [same owing (inv.caller u d stored)]
    · intro _ missing
      cases missing
    · exact inv.cycled
    · intro call member
      exact Nat.lt_succ_of_lt (inv.past call member)
    · intro call member
      rcases inv.owed call member with served | ⟨queued,pointer⟩ | ⟨tick,phase,later,pointer⟩ | cycling
      · exact .inl served
      · exact .inr (.inl ⟨queued,by rw [same (.inl queued) pointer]⟩)
      · exact .inr (.inr (.inl ⟨tick,phase,later,by rw [same (.inr (.inl ⟨tick,phase⟩)) pointer]⟩))
      · exact .inr (.inr (.inr cycling))

theorem invScheduled {s : Status κ τ} {t : τ} {c : κ} (inv : Inv s) (stored : s.caller t = some c) :
    Inv (scheduleWork s t c) := by
  have pointer := inv.caller t c stored
  constructor
  · intro u d held
    rcases Decidable.eq_or_ne u t with rfl | other
    · simp [scheduleWork] at held
    · simp only [scheduleWork,Function.update_of_ne other] at held
      exact inv.caller u d held
  · intro _
    simp [scheduleWork,pointer]
  · exact inv.cycled
  · intro call member
    rcases List.mem_cons.mp member with rfl | older
    · exact Nat.lt_succ_self _
    · exact Nat.lt_succ_of_lt (inv.past call older)
  · intro call member
    rcases List.mem_cons.mp member with rfl | older
    · exact .inr (.inl ⟨rfl,pointer⟩)
    · rcases inv.owed call older with served | ⟨_,held⟩ | later
      · exact .inl served
      · exact .inr (.inl ⟨rfl,held⟩)
      · exact .inr (.inr later)

theorem invStep {s s' : Status κ τ} (step : Step Unshared s s') (inv : Inv s) : Inv s' := by
  cases step with
  | called free allowed => exact invCalled inv allowed
  | scheduled stored => exact invScheduled inv stored
  | work step => exact invWork inv step

theorem invRun {s : Status κ τ} (run : Relation.ReflTransGen (Step Unshared) start s) : Inv s :=
  Runs.keeps (fun _ _ => invStep) run invStart

theorem restartsServed {s : Status κ τ} (run : Relation.ReflTransGen (Step Unshared) start s) :
    NoLostRestart s := by
  have inv := invRun run
  obtain ⟨s',worked,rest,calls⟩ := comesToRest inv
  refine ⟨servedAtRest inv,s',worked,rest,?_⟩
  intro call member
  exact servedAtRest (invWorkRun inv worked) rest call (by rw [calls]; exact member)

namespace Sample

def fatal (s : Status Bool Bool) (c : Bool) : Status Bool Bool := mhiPciStatusCb s c c .fatalError

def reading : Status Bool Bool := reads (begins (scheduleWork (fatal start false) false false)) 2
def handed : Status Bool Bool := scheduleWork (fatal reading true) true true

def both : Status Bool Bool := scheduleWork (scheduleWork (fatal (fatal start false) true) false false) true true
def raced : Status Bool Bool :=
  let down := returns (reads (begins both) 4) 4 true (mhiPciStatusCbWorkFunc.drop 1)
  let prepared := returns (returns down 4 true (mhiPciStatusCbWorkFunc.drop 2)) 4 true [.mhiAsyncPowerUp]
  ends (returns prepared 4 true []) 4 true

theorem readingReached : Relation.ReflTransGen (Step Unshared) start reading := by
  have called : Step Unshared start (fatal start false) := by
    refine .called rfl ?_
    rintro - (queued | ⟨tick,phase⟩ | ⟨t,held⟩)
    · cases queued
    · cases phase
    · exact absurd rfl held
  refine .tail (.tail (.tail (.single called) (.scheduled rfl)) (.work (.begins rfl rfl))) (.work (.reads rfl))

theorem handedReached : Relation.ReflTransGen (Step Unshared) start handed := by
  have called : Step Unshared reading (fatal reading true) := by
    refine .called rfl ?_
    rintro - (queued | ⟨tick,phase⟩ | ⟨t,held⟩)
    · cases queued
    · cases phase
    · cases t <;> exact absurd rfl held
  exact .tail (.tail readingReached called) (.scheduled rfl)

theorem racedReached : Relation.ReflTransGen (Step fun (_ : Status Bool Bool) (_ : Bool) => True) start raced := by
  have first : Step (fun _ _ => True) start (fatal start false) := .called rfl fun _ => trivial
  have second : Step (fun _ _ => True) (fatal start false) (fatal (fatal start false) true) :=
    .called rfl fun _ => trivial
  have stored := Relation.ReflTransGen.tail (.single first) second
  have queued : Relation.ReflTransGen (Step fun _ _ => True) start both :=
    .tail (.tail stored (.scheduled rfl)) (.scheduled rfl)
  have read := Relation.ReflTransGen.tail (.tail queued (.work (.begins rfl rfl))) (.work (.reads rfl))
  have prepared := Relation.ReflTransGen.tail (.tail (.tail read (.work (.returns false rfl)))
    (.work (.returns false rfl))) (.work (.returns false rfl))
  exact .tail (.tail prepared (.work (.returns false rfl))) (.work (.ends rfl))

end Sample

theorem handedServed : Sample.handed.calls = [(true,5),(false,1)] ∧ NoLostRestart Sample.handed :=
  ⟨rfl,restartsServed Sample.handedReached⟩

theorem racedRestartLost : ¬∀ s : Status Bool Bool,
    Relation.ReflTransGen (Step fun _ _ => True) start s → NoLostRestart s := by
  intro claim
  obtain ⟨cycle,member,same,_⟩ := (claim _ Sample.racedReached).1 ⟨rfl,rfl⟩ (false,2) (by decide)
  cases List.mem_singleton.mp member
  cases same

end Callbacks

end MhiHost.StatusWork
