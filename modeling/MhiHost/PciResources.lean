import MhiHost.Internal
import MhiHost.Holdings
import MhiHost.Runs

/-! Interrupt handlers and the device context over the life of a controller driven by
`pci_generic.c`: probe, the status work executed any number of times, and remove. Each
call of the core is one step, so that an execution of the work may stand between any two
calls of probe or remove. -/
namespace MhiHost.PciResources

inductive Handler where
  | bhi
  | event (i : Nat)
  deriving DecidableEq, Repr

structure EventIrq where
  offloadEv : Bool
  irq : Nat
  deriving DecidableEq, Repr

/- `nullDeinits` counts calls of `mhi_deinit_dev_ctxt` that found `mhi_ctxt` NULL. -/
structure Resources where
  events : List EventIrq
  nrIrqs : Nat
  rddmSize : Nat
  irqs : Holdings Handler
  mhiCtxt : Bool
  preInit : Bool
  nullDeinits : Nat

def handlersFrom : Nat → List EventIrq → List Handler
  | _,[] => []
  | i,e::es => if e.offloadEv then handlersFrom (i+1) es else .event i :: handlersFrom (i+1) es

def handlers (events : List EventIrq) : List Handler := handlersFrom 0 events ++ [.bhi]

def mhiDeinitFreeIrq (r : Resources) : Resources :=
  {r with irqs := Holdings.giveAll (handlers r.events) r.irqs}

/- The loop of `mhi_init_irq_setup`, with the index it stops at on an error. `answer` is
what the interrupt core returns for each handler. -/
def requestEvents (answer : Handler → Option Errno) (nrIrqs : Nat) :
    Nat → List EventIrq → Holdings Handler → Holdings Handler × Option (Errno × Nat)
  | _,[],b => (b,none)
  | i,e::es,b =>
      if e.offloadEv then requestEvents answer nrIrqs (i+1) es b
      else if nrIrqs ≤ e.irq then (b,some (.einval,i))
      else match answer (.event i) with
        | some err => (b,some (err,i))
        | none => requestEvents answer nrIrqs (i+1) es (b.take (.event i))

def mhiInitIrqSetup (answer : Handler → Option Errno) (r : Resources) : Resources × Option Errno :=
  match answer .bhi with
  | some err => (r,some err)
  | none =>
    match requestEvents answer r.nrIrqs 0 r.events (r.irqs.take .bhi) with
    | (b,none) => ({r with irqs := b},none)
    | (b,some (err,i)) =>
        ({r with irqs := (Holdings.giveAll (handlersFrom 0 (r.events.take i)).reverse b).giveBack .bhi},some err)

def mhiDeinitDevCtxt (r : Resources) : Resources :=
  if r.mhiCtxt then {r with mhiCtxt := false} else {r with nullDeinits := r.nullDeinits+1}

def mhiInitDevCtxt (r : Resources) (allocated : Bool) : Resources × Option Errno :=
  if allocated then ({r with mhiCtxt := true},none) else (r,some .enomem)

def mhiPrepareForPowerUp (r : Resources) (allocated : Bool) (bhieOff : Option Errno) : Resources × Option Errno :=
  match mhiInitDevCtxt r allocated with
  | (r,some err) => (r,some err)
  | (r,none) =>
    if r.rddmSize ≠ 0 ∧ bhieOff.isSome then (r,bhieOff) else ({r with preInit := true},none)

def deinitUnlessPreInit (r : Resources) : Resources := if r.preInit then r else mhiDeinitDevCtxt r

def mhiAsyncPowerUp (r : Resources) (allocated : Bool) (answer : Handler → Option Errno) (later : Option Errno) :
    Resources × Option Errno :=
  if r.nrIrqs < 1 then (r,some .einval)
  else match (if r.preInit then (r,none) else mhiInitDevCtxt r allocated) with
    | (r,some err) => (r,some err)
    | (r,none) =>
      match mhiInitIrqSetup answer r with
      | (r,some err) => (deinitUnlessPreInit r,some err)
      | (r,none) =>
        match later with
        | some err => (deinitUnlessPreInit (mhiDeinitFreeIrq r),some err)
        | none => (r,none)

def mhiPowerDown (r : Resources) : Resources := deinitUnlessPreInit (mhiDeinitFreeIrq r)

def mhiUnprepareAfterPowerDown (r : Resources) : Resources := {mhiDeinitDevCtxt r with preInit := false}

inductive MainPc where
  | probing | prepare | powerUp | unprepare | gone
  | bound | removeUnprepare | removeUnregister | removed
  deriving DecidableEq, Repr

inductive WorkPc where
  | idle | unprepare | prepare | powerUp
  deriving DecidableEq, Repr

inductive Caller where
  | work | remove
  deriving DecidableEq, Repr

structure Driver where
  res : Resources
  main : MainPc
  work : WorkPc
  restartFailed : Bool

def start (events : List EventIrq) (nrIrqs rddmSize : Nat) : Driver :=
  ⟨⟨events,nrIrqs,rddmSize,Holdings.empty,false,false,0⟩,.probing,.idle,false⟩

/- The work is scheduled by the controller's own interrupt handler, so it runs only after
that has been requested. `may` says when the work or remove may begin. -/
inductive Step (may : Driver → Caller → Prop) : Driver → Driver → Prop where
  | claimed {s} (err : Bool) (pc : s.main = .probing) :
      Step may s {s with main := if err then .gone else .prepare}
  | prepared {s r err} (allocated bhieOff) (pc : s.main = .prepare)
      (call : mhiPrepareForPowerUp s.res allocated bhieOff = (r,err)) :
      Step may s {s with res := r,main := if err.isSome then .gone else .powerUp}
  | poweredUp {s r err} (allocated answer later) (pc : s.main = .powerUp)
      (call : mhiAsyncPowerUp s.res allocated answer later = (r,err)) :
      Step may s {s with res := r,main := if err.isSome then .unprepare else .bound}
  | unprepared {s} (pc : s.main = .unprepare) :
      Step may s {s with res := mhiUnprepareAfterPowerDown s.res,main := .gone}
  | removeDown {s} (pc : s.main = .bound) (allowed : may s .remove) :
      Step may s {s with res := mhiPowerDown s.res,main := .removeUnprepare}
  | removeUnprepared {s} (pc : s.main = .removeUnprepare) :
      Step may s {s with res := mhiUnprepareAfterPowerDown s.res,main := .removeUnregister}
  | removed {s} (pc : s.main = .removeUnregister) : Step may s {s with main := .removed}
  | workDown {s} (pc : s.work = .idle) (wired : 0 < s.res.irqs.taken .bhi) (allowed : may s .work) :
      Step may s {s with res := mhiPowerDown s.res,work := .unprepare}
  | workUnprepared {s} (pc : s.work = .unprepare) :
      Step may s {s with res := mhiUnprepareAfterPowerDown s.res,work := .prepare}
  | workPrepared {s r err} (allocated bhieOff) (pc : s.work = .prepare)
      (call : mhiPrepareForPowerUp s.res allocated bhieOff = (r,err)) :
      Step may s {s with
        res := r,work := if err.isSome then .idle else .powerUp,restartFailed := s.restartFailed || err.isSome}
  | workPoweredUp {s r err} (allocated answer later) (pc : s.work = .powerUp)
      (call : mhiAsyncPowerUp s.res allocated answer later = (r,err)) :
      Step may s {s with res := r,work := .idle,restartFailed := s.restartFailed || err.isSome}

structure Stands (r : Resources) (wired ready : Bool) : Prop where
  sound : r.irqs.Sound
  deinits : r.nullDeinits = 0
  held : ∀ h, r.irqs.held h = if wired then (handlers r.events).count h else 0
  ready : ready = true → r.mhiCtxt = true ∧ r.preInit = true

theorem deinitFreeIrqStands {r : Resources} {ready : Bool} (stands : Stands r true ready) :
    Stands (mhiDeinitFreeIrq r) false ready := by
  have all : ∀ h, (handlers r.events).count h ≤ r.irqs.held h := by
    intro h
    rw [stands.held h]
    exact Nat.le_refl _
  refine ⟨Holdings.giveAllSound all stands.sound,stands.deinits,?_,stands.ready⟩
  intro h
  have rest : (mhiDeinitFreeIrq r).irqs.held h = r.irqs.held h-(handlers r.events).count h := Holdings.giveAllHeld all h
  rw [stands.held h] at rest
  exact rest.trans (Nat.sub_self _)

theorem takeCount (e : EventIrq) (es : List EventIrq) (i : Nat) (n : Nat) :
    handlersFrom i ((e :: es).take (n+1)) =
      (if e.offloadEv then [] else [Handler.event i]) ++ handlersFrom (i+1) (es.take n) := by
  rw [List.take_succ_cons,handlersFrom]
  split
  · rfl
  · rfl

theorem requestEventsHeld {answer : Handler → Option Errno} {nrIrqs i : Nat} {es : List EventIrq}
    {b b' : Holdings Handler} {stop : Option (Errno × Nat)} (ran : requestEvents answer nrIrqs i es b = (b',stop)) :
    (stop = none → ∀ h, b'.held h = b.held h+(handlersFrom i es).count h) ∧
    ∀ err k, stop = some (err,k) → i ≤ k ∧ ∀ h, b'.held h = b.held h+(handlersFrom i (es.take (k-i))).count h := by
  induction es generalizing i b with
  | nil =>
    cases ran
    exact ⟨fun _ h => rfl,fun err k stopped => by cases stopped⟩
  | cons e es ih =>
    rw [requestEvents] at ran
    have stopped : ∀ err, (b,some (err,i)) = (b',stop) →
        (stop = none → ∀ h, b'.held h = b.held h+(handlersFrom i (e :: es)).count h) ∧
        ∀ err k, stop = some (err,k) →
          i ≤ k ∧ ∀ h, b'.held h = b.held h+(handlersFrom i ((e :: es).take (k-i))).count h := by
      rintro err ended
      cases ended
      refine ⟨fun none => (by cases none),?_⟩
      rintro err k ended
      cases ended
      refine ⟨Nat.le_refl _,?_⟩
      intro h
      rw [Nat.sub_self]
      rfl
    split at ran
    · rename_i offload
      obtain ⟨all,part⟩ := ih ran
      refine ⟨?_,?_⟩
      · intro none h
        rw [all none h,handlersFrom,if_pos offload]
      · intro err k ended
        obtain ⟨above,counts⟩ := part err k ended
        refine ⟨by omega,?_⟩
        intro h
        have shift : k-i = k-(i+1)+1 := by omega
        rw [counts h,shift,takeCount,if_pos offload,List.nil_append]
    · rename_i inside
      split at ran
      · exact stopped _ ran
      · split at ran
        · exact stopped _ ran
        · obtain ⟨all,part⟩ := ih ran
          refine ⟨?_,?_⟩
          · intro none h
            have split : handlersFrom i (e :: es) = [Handler.event i] ++ handlersFrom (i+1) es := by
              rw [handlersFrom,if_neg inside,List.singleton_append]
            rw [all none h,Holdings.takeHeld,split,List.count_append]
            omega
          · intro err k ended
            obtain ⟨above,counts⟩ := part err k ended
            refine ⟨by omega,?_⟩
            intro h
            have shift : k-i = k-(i+1)+1 := by omega
            rw [counts h,shift,takeCount,if_neg inside,Holdings.takeHeld,List.count_append]
            omega

theorem requestEventsSound {answer : Handler → Option Errno} {nrIrqs i : Nat} {es : List EventIrq}
    {b : Holdings Handler} (sound : b.Sound) : (requestEvents answer nrIrqs i es b).1.Sound := by
  induction es generalizing i b with
  | nil => exact sound
  | cons e es ih =>
    rw [requestEvents]
    split
    · exact ih sound
    · split
      · exact sound
      · split
        · exact sound
        · exact ih (Holdings.takeSound sound)

theorem initIrqSetupSpec {answer : Handler → Option Errno} {r r' : Resources} {err : Option Errno}
    (ran : mhiInitIrqSetup answer r = (r',err)) : (r.irqs.Sound → r'.irqs.Sound) ∧
      ∀ h, r'.irqs.held h = r.irqs.held h+if err.isNone then (handlers r.events).count h else 0 := by
  rw [mhiInitIrqSetup] at ran
  split at ran
  · cases ran
    exact ⟨id,fun _ => rfl⟩
  · have loopSound := fun sound : r.irqs.Sound =>
      @requestEventsSound answer r.nrIrqs 0 r.events _ (@Holdings.takeSound _ _ _ Handler.bhi sound)
    split at ran
    · rename_i b looped
      obtain ⟨all,_⟩ := requestEventsHeld looped
      rw [looped] at loopSound
      cases ran
      refine ⟨loopSound,?_⟩
      intro h
      have counts := all rfl h
      rw [Holdings.takeHeld] at counts
      simp only [handlers,List.count_append,Option.isNone_none,if_true]
      omega
    · rename_i b e k looped
      obtain ⟨_,part⟩ := requestEventsHeld looped
      rw [looped] at loopSound
      cases ran
      obtain ⟨_,counts⟩ := part e k rfl
      have before : ∀ h, b.held h = r.irqs.held h+[Handler.bhi].count h+(handlersFrom 0 (r.events.take k)).count h := by
        intro h
        have count := counts h
        rw [Holdings.takeHeld] at count
        simpa using count
      have enough : ∀ h, (handlersFrom 0 (r.events.take k)).reverse.count h ≤ b.held h := by
        intro h
        rw [before h,List.count_reverse]
        exact Nat.le_add_left _ _
      have only : ∀ h, (Holdings.giveAll (handlersFrom 0 (r.events.take k)).reverse b).held h =
          r.irqs.held h+[Handler.bhi].count h := by
        intro h
        rw [Holdings.giveAllHeld enough,before h,List.count_reverse]
        exact Nat.add_sub_cancel _ _
      have last : 0 < (Holdings.giveAll (handlersFrom 0 (r.events.take k)).reverse b).held Handler.bhi := by
        rw [only,List.count_singleton_self]
        exact Nat.succ_pos _
      refine ⟨fun sound => Holdings.giveBackSound last (Holdings.giveAllSound enough (loopSound sound)),?_⟩
      intro h
      calc _ = _ := Holdings.giveBackHeld last h
        _ = r.irqs.held h := by rw [only h]; exact Nat.add_sub_cancel _ _

theorem initIrqSetupFrame {answer : Handler → Option Errno} {r r' : Resources} {err : Option Errno}
    (ran : mhiInitIrqSetup answer r = (r',err)) : ∃ irqs, r' = {r with irqs := irqs} := by
  rw [mhiInitIrqSetup] at ran
  split at ran
  · cases ran
    exact ⟨r.irqs,rfl⟩
  · split at ran <;> cases ran <;> exact ⟨_,rfl⟩

theorem initIrqSetupStands {answer : Handler → Option Errno} {r r' : Resources} {err : Option Errno} {ready : Bool}
    (stands : Stands r false ready) (ran : mhiInitIrqSetup answer r = (r',err)) :
    Stands r' err.isNone ready := by
  obtain ⟨sound,held⟩ := initIrqSetupSpec ran
  obtain ⟨irqs,rfl⟩ := initIrqSetupFrame ran
  refine ⟨sound stands.sound,stands.deinits,?_,stands.ready⟩
  intro h
  have counts := held h
  rw [stands.held h] at counts
  simpa only [Bool.false_eq_true,if_false,Nat.zero_add] using counts

theorem deinitDevCtxtStands {r : Resources} (stands : Stands r false true) :
    Stands (mhiUnprepareAfterPowerDown r) false false := by
  have present := (stands.ready rfl).1
  rw [mhiUnprepareAfterPowerDown,mhiDeinitDevCtxt,if_pos present]
  exact ⟨stands.sound,stands.deinits,stands.held,fun impossible => by cases impossible⟩

theorem powerDownStands {r : Resources} (stands : Stands r true true) : Stands (mhiPowerDown r) false true := by
  have freed := deinitFreeIrqStands stands
  rw [mhiPowerDown,deinitUnlessPreInit,if_pos (freed.ready rfl).2]
  exact freed

theorem prepareStands {r r' : Resources} {allocated : Bool} {bhieOff err : Option Errno}
    (stands : Stands r false false) (ran : mhiPrepareForPowerUp r allocated bhieOff = (r',err)) :
    Stands r' false err.isNone := by
  have unready : ∀ {q : Resources}, q.irqs = r.irqs → q.nullDeinits = r.nullDeinits → Stands q false false := by
    intro q irqs deinits
    refine ⟨?_,deinits.trans stands.deinits,?_,fun impossible => by cases impossible⟩
    · rw [irqs]
      exact stands.sound
    · intro h
      rw [irqs]
      exact stands.held h
  unfold mhiPrepareForPowerUp mhiInitDevCtxt at ran
  split at ran
  · rename_i q e failed
    cases ran
    split at failed
    · cases failed
    · cases failed
      exact stands
  · rename_i q made
    split at made
    · cases made
      split at ran
      · rename_i bad
        cases ran
        have missing : bhieOff.isNone = false := by
          cases bhieOff with
          | none => cases bad.2
          | some e => rfl
        rw [missing]
        exact unready rfl rfl
      · cases ran
        exact ⟨stands.sound,stands.deinits,stands.held,fun _ => ⟨rfl,rfl⟩⟩
    · cases made

theorem asyncPowerUpStands {r r' : Resources} {allocated : Bool} {answer : Handler → Option Errno}
    {later err : Option Errno} (stands : Stands r false true)
    (ran : mhiAsyncPowerUp r allocated answer later = (r',err)) : Stands r' err.isNone true := by
  have preInit := (stands.ready rfl).2
  rw [mhiAsyncPowerUp,if_pos preInit] at ran
  rcases Nat.lt_or_ge r.nrIrqs 1 with few | enough
  · rw [if_pos few] at ran
    cases ran
    exact stands
  · rw [if_neg (Nat.not_lt.mpr enough)] at ran
    cases setup : mhiInitIrqSetup answer r with
    | mk q failed =>
      have after := initIrqSetupStands stands setup
      have kept : q.preInit = true := by
        obtain ⟨irqs,rfl⟩ := initIrqSetupFrame setup
        exact preInit
      simp only [setup] at ran
      cases failed with
      | some e =>
        simp only [deinitUnlessPreInit,kept,if_true] at ran
        cases ran
        exact after
      | none =>
        cases later with
        | none =>
          cases ran
          exact after
        | some e =>
          have freed := deinitFreeIrqStands after
          simp only [deinitUnlessPreInit,(freed.ready rfl).2,if_true] at ran
          cases ran
          exact freed

def expected : MainPc → WorkPc → Bool → Option (Bool × Bool)
  | .bound,.idle,false => some (true,true)
  | .bound,.idle,true => some (false,false)
  | .bound,.unprepare,false => some (false,true)
  | .bound,.prepare,false => some (false,false)
  | .bound,.powerUp,false => some (false,true)
  | .bound,_,true => none
  | .powerUp,.idle,false => some (false,true)
  | .unprepare,.idle,false => some (false,true)
  | .removeUnprepare,.idle,false => some (false,true)
  | _,.idle,false => some (false,false)
  | _,_,_ => none

def Orderly (s : Driver) : Caller → Prop
  | .work => s.main = .bound ∧ s.restartFailed = false
  | .remove => s.work = .idle ∧ s.restartFailed = false

structure Inv (s : Driver) : Prop where
  stands : ∃ wired ready, expected s.main s.work s.restartFailed = some (wired,ready) ∧ Stands s.res wired ready

theorem Stands.forget {r : Resources} {wired ready : Bool} (stands : Stands r wired ready) : Stands r wired false :=
  ⟨stands.sound,stands.deinits,stands.held,fun impossible => by cases impossible⟩

theorem invStart (events : List EventIrq) (nrIrqs rddmSize : Nat) : Inv (start events nrIrqs rddmSize) :=
  ⟨false,false,rfl,Holdings.soundEmpty,rfl,fun _ => rfl,fun impossible => by cases impossible⟩

theorem idleUnlessBound {m : MainPc} {w : WorkPc} {f : Bool} {p : Bool × Bool} (point : expected m w f = some p)
    (unbound : m ≠ .bound) : w = .idle ∧ f = false := by
  cases m <;> cases w <;> cases f <;> first | exact ⟨rfl,rfl⟩ | exact absurd rfl unbound | cases point

theorem boundWhileWorking {m : MainPc} {w : WorkPc} {f : Bool} {p : Bool × Bool} (point : expected m w f = some p)
    (working : w ≠ .idle) : m = .bound ∧ f = false := by
  cases m <;> cases w <;> cases f <;> first | exact ⟨rfl,rfl⟩ | exact absurd rfl working | cases point

theorem Inv.main {s : Driver} {wired ready : Bool} (inv : Inv s) (unbound : s.main ≠ .bound)
    (point : expected s.main .idle false = some (wired,ready)) :
    s.work = .idle ∧ s.restartFailed = false ∧ Stands s.res wired ready := by
  obtain ⟨wired',ready',found,stands⟩ := inv.stands
  obtain ⟨idle,whole⟩ := idleUnlessBound found unbound
  rw [idle,whole,point] at found
  cases found
  exact ⟨idle,whole,stands⟩

theorem Inv.working {s : Driver} {wired ready : Bool} (inv : Inv s) (working : s.work ≠ .idle)
    (point : expected .bound s.work false = some (wired,ready)) :
    s.main = .bound ∧ s.restartFailed = false ∧ Stands s.res wired ready := by
  obtain ⟨wired',ready',found,stands⟩ := inv.stands
  obtain ⟨bound,whole⟩ := boundWhileWorking found working
  rw [bound,whole,point] at found
  cases found
  exact ⟨bound,whole,stands⟩

theorem Inv.bound {s : Driver} (inv : Inv s) (bound : s.main = .bound) (idle : s.work = .idle)
    (whole : s.restartFailed = false) : Stands s.res true true := by
  obtain ⟨wired,ready,found,stands⟩ := inv.stands
  rw [bound,idle,whole] at found
  cases found
  exact stands

theorem invStep {s s' : Driver} (step : Step Orderly s s') (inv : Inv s) : Inv s' := by
  cases step with
  | claimed err pc =>
    obtain ⟨idle,whole,stands⟩ := inv.main (by rw [pc]; nofun) (by rw [pc]; rfl)
    cases err <;> exact ⟨_,_,by rw [idle,whole]; rfl,stands⟩
  | @prepared r err allocated bhieOff pc call =>
    obtain ⟨idle,whole,stands⟩ := inv.main (by rw [pc]; nofun) (by rw [pc]; rfl)
    have after := prepareStands stands call
    cases err <;> exact ⟨_,_,by rw [idle,whole]; rfl,after⟩
  | @poweredUp r err allocated answer later pc call =>
    obtain ⟨idle,whole,stands⟩ := inv.main (by rw [pc]; nofun) (by rw [pc]; rfl)
    have after := asyncPowerUpStands stands call
    cases err <;> exact ⟨_,_,by rw [idle,whole]; rfl,after⟩
  | unprepared pc =>
    obtain ⟨idle,whole,stands⟩ := inv.main (by rw [pc]; nofun) (by rw [pc]; rfl)
    exact ⟨_,_,by rw [idle,whole]; rfl,deinitDevCtxtStands stands⟩
  | removeDown pc allowed =>
    obtain ⟨idle,whole⟩ := allowed
    exact ⟨_,_,by rw [idle,whole]; rfl,powerDownStands (inv.bound pc idle whole)⟩
  | removeUnprepared pc =>
    obtain ⟨idle,whole,stands⟩ := inv.main (by rw [pc]; nofun) (by rw [pc]; rfl)
    exact ⟨_,_,by rw [idle,whole]; rfl,deinitDevCtxtStands stands⟩
  | removed pc =>
    obtain ⟨idle,whole,stands⟩ := inv.main (by rw [pc]; nofun) (by rw [pc]; rfl)
    exact ⟨_,_,by rw [idle,whole]; rfl,stands⟩
  | workDown pc wired allowed =>
    obtain ⟨bound,whole⟩ := allowed
    exact ⟨_,_,by rw [bound,whole]; rfl,powerDownStands (inv.bound bound pc whole)⟩
  | workUnprepared pc =>
    obtain ⟨bound,whole,stands⟩ := inv.working (by rw [pc]; nofun) (by rw [pc]; rfl)
    exact ⟨_,_,by rw [bound,whole]; rfl,deinitDevCtxtStands stands⟩
  | @workPrepared r err allocated bhieOff pc call =>
    obtain ⟨bound,whole,stands⟩ := inv.working (by rw [pc]; nofun) (by rw [pc]; rfl)
    have after := prepareStands stands call
    cases err <;> exact ⟨_,_,by rw [bound,whole]; rfl,after⟩
  | @workPoweredUp r err allocated answer later pc call =>
    obtain ⟨bound,whole,stands⟩ := inv.working (by rw [pc]; nofun) (by rw [pc]; rfl)
    have after := asyncPowerUpStands stands call
    cases err with
    | none => exact ⟨_,_,by rw [bound,whole]; rfl,after⟩
    | some e => exact ⟨_,_,by rw [bound,whole]; rfl,after.forget⟩

structure Kept (s : Driver) : Prop where
  freed : s.res.irqs.stray = []
  deinits : s.res.nullDeinits = 0
  released : s.main = .removed → ∀ h, s.res.irqs.held h = 0 ∧ s.res.irqs.returned h = s.res.irqs.taken h

theorem Inv.kept {s : Driver} (inv : Inv s) : Kept s := by
  obtain ⟨wired,ready,found,stands⟩ := inv.stands
  refine ⟨stands.sound.stray,stands.deinits,?_⟩
  intro done h
  obtain ⟨_,_,stands⟩ := inv.main (by rw [done]; nofun) (by rw [done]; rfl)
  have none : s.res.irqs.held h = 0 := stands.held h
  have balance := stands.sound.balance h
  rw [none] at balance
  exact ⟨none,balance.symm⟩

theorem resourcesKept {events : List EventIrq} {nrIrqs rddmSize : Nat} {s : Driver}
    (run : Relation.ReflTransGen (Step Orderly) (start events nrIrqs rddmSize) s) : Kept s :=
  (Runs.keeps (I := Inv) (fun _ _ => invStep) run (invStart events nrIrqs rddmSize)).kept

namespace Sample

def granted : Handler → Option Errno := fun _ => none
def fresh : Driver := start [⟨false,1⟩] 2 0
def prepared : Driver := {fresh with res := (mhiPrepareForPowerUp fresh.res true none).1,main := .powerUp}
def bound : Driver :=
  {prepared with res := (mhiAsyncPowerUp prepared.res true granted none).1,main := .bound}
def down : Driver := {bound with res := mhiUnprepareAfterPowerDown (mhiPowerDown bound.res),work := .prepare}

def reprepared : Driver := {down with res := (mhiPrepareForPowerUp down.res true none).1,work := .powerUp}
def restarted : Driver :=
  {reprepared with res := (mhiAsyncPowerUp reprepared.res true granted none).1,work := .idle}
def removed : Driver :=
  {restarted with res := mhiUnprepareAfterPowerDown (mhiPowerDown restarted.res),main := .removed}

def unprepared : Driver := {down with work := .idle,restartFailed := true}
def freedTwice : Driver := {unprepared with res := mhiPowerDown unprepared.res,main := .removeUnprepare}

theorem downReached {may : Driver → Caller → Prop} (allowed : may bound .work) :
    Relation.ReflTransGen (Step may) fresh down := by
  have claimed : Step may fresh {fresh with main := .prepare} := .claimed false rfl
  have ready : Step may {fresh with main := .prepare} prepared := .prepared true none rfl rfl
  have up : Step may prepared bound := .poweredUp true granted none rfl rfl
  have stopped := Step.workDown (s := bound) rfl (by decide) allowed
  exact .tail (.tail (.tail (.tail (.single claimed) ready) up) stopped) (.workUnprepared rfl)

theorem removedReached : Relation.ReflTransGen (Step Orderly) fresh removed := by
  have again : Step Orderly down reprepared := .workPrepared true none rfl rfl
  have up : Step Orderly reprepared restarted := .workPoweredUp true granted none rfl rfl
  have off := @Step.removeDown Orderly restarted rfl ⟨rfl,rfl⟩
  have restart := Relation.ReflTransGen.tail (.tail (@downReached Orderly ⟨rfl,rfl⟩) again) up
  exact .tail (.tail (.tail restart off) (.removeUnprepared rfl)) (.removed rfl)

theorem freedTwiceReached : Relation.ReflTransGen (Step fun _ _ => True) fresh freedTwice := by
  have failed : Step (fun _ _ => True) down unprepared := .workPrepared false none rfl rfl
  exact .tail (.tail (downReached trivial) failed) (.removeDown rfl trivial)

end Sample

theorem restartThenRemoveKept : Sample.removed.main = .removed ∧ Sample.removed.res.irqs.taken .bhi = 2 ∧
    Kept Sample.removed :=
  ⟨rfl,by decide,resourcesKept Sample.removedReached⟩

theorem failedRestartFreesTwice : ¬∀ (events : List EventIrq) (nrIrqs rddmSize : Nat) (s : Driver),
    Relation.ReflTransGen (Step fun _ _ => True) (start events nrIrqs rddmSize) s → Kept s := by
  intro claim
  have none := (claim _ _ _ _ Sample.freedTwiceReached).freed
  have stray : Sample.freedTwice.res.irqs.stray = [.bhi,.event 0] := by decide
  rw [stray] at none
  cases none

end MhiHost.PciResources
