import MhiHost.Internal
import MhiHost.Runs

/-! The memory of an event ring against the interrupts and tasklet runs that look at it, over
power-ups and power-downs. `free_irq` waits for the handlers under way, `tasklet_kill` for a
run that is scheduled or under way; an interrupt may schedule one again in between. The
context is allocated by the power-up itself or before it, and freed accordingly. -/
namespace MhiHost.RingLifetime
open Relation (ReflTransGen)

/- `entered` has read `mhi_ctxt` and not asked for the power state yet, `inside` has been let in. -/
inductive Task where
  | idle | entered | inside
  deriving DecidableEq, Repr

/- Where the owner of the controller is. A power-up is `refused` before it enters POR and has
`failed` after it; `closing` and `killed` are the worker's part of `mhi_power_down`. -/
inductive Power where
  | off | prepared | requested | refused | started | failed | on | closing | killed
  deriving DecidableEq, Repr

structure Life where
  pm : PmState
  ctxt : Bool
  irq : Bool
  handlers : Nat
  sched : Bool
  task : Task
  power : Power
  deriving DecidableEq, Repr

namespace Life

def start (pm : PmState) : Life := ⟨pm,false,false,0,false,.idle,.off⟩

def look (s : Life) : Life := {s with task := if mhiEventAccessInvalid s.pm then .idle else .inside}

/- `mhi_pm_disable_transition` returns at once where the state machine refuses it. -/
def shutdown (s : Life) : Life :=
  let pm := mhiTrysetPmState s.pm .shutdownProcess
  {s with pm := pm, power := if pm = .shutdownProcess then .closing else .killed}

def Touching (s : Life) : Prop := 0 < s.handlers ∨ s.task ≠ .idle

end Life

inductive Hazard where
  | schedule | giveUp
  deriving DecidableEq, Repr

inductive Step (may : Hazard → Life → Prop) : Life → Life → Prop where
  | interrupt {s} (irq : s.irq = true) : Step may s {s with handlers := s.handlers+1}
  | handled {s} (pending : Bool) (busy : 0 < s.handlers) (asked : pending = true → may .schedule s) :
      Step may s {s with handlers := s.handlers-1, sched := s.sched || pending}
  | runs {s} (sched : s.sched = true) (idle : s.task = .idle) : Step may s {s with sched := false, task := .entered}
  | look {s} (here : s.task = .entered) : Step may s s.look
  | leave {s} (here : s.task ≠ .idle) : Step may s {s with task := .idle}
  | move {s} (target : PmState) (open_ : target ≠ .disable ∧ target ≠ .shutdownProcess) :
      Step may s {s with pm := mhiTrysetPmState s.pm target}
  | panic {s} : Step may s {s with pm := .ldErrFatalDetect}
  | prepare {s} (here : s.power = .off) : Step may s {s with ctxt := true, power := .prepared}
  | begin {s} (here : s.power = .prepared) : Step may s {s with pm := .disable, power := .requested}
  | request {s} (here : s.power = .requested) : Step may s {s with irq := true}
  | refuse {s} (here : s.power = .requested) : Step may s {s with power := .refused}
  | por {s} (here : s.power = .requested) (irq : s.irq = true) : Step may s {s with pm := .por, power := .started}
  | succeed {s} (here : s.power = .started) : Step may s {s with power := .on}
  | fail {s} (here : s.power = .started) : Step may s {s with power := .failed}
  | giveBack {s} (here : s.power = .refused) (waited : s.handlers = 0) : Step may s {s with irq := false, power := .prepared}
  | giveUp {s} (here : s.power = .failed) (waited : s.handlers = 0) (asked : may .giveUp s) :
      Step may s {s with irq := false, power := .prepared}
  | shutdown {s} (here : s.power = .on) : Step may s s.shutdown
  | kill {s} (here : s.power = .closing) (waited : s.sched = false ∧ s.task = .idle) : Step may s {s with power := .killed}
  | disable {s} (here : s.power = .killed) : Step may s {s with pm := mhiTrysetPmState s.pm .disable}
  | freeIrq {s} (here : s.power = .killed) (waited : s.handlers = 0) : Step may s {s with irq := false, power := .prepared}
  | release {s} (here : s.power = .prepared) : Step may s {s with ctxt := false, power := .off}

namespace Power

def owns : Power → Bool
  | .off => false
  | _ => true

def up : Power → Bool
  | .started | .failed | .on => true
  | _ => false

def rests : Power → Bool
  | .off | .prepared | .requested | .refused | .killed => true
  | _ => false

def down : Power → Bool
  | .off | .prepared => true
  | _ => false

end Power

def Resting (s : Life) : Prop := s.sched = false ∧ s.task = .idle

/- No handler finds events before POR or once the worker has killed the tasklets, and a power-up
that fails in POR leaves no tasklet behind. -/
def May : Hazard → Life → Prop
  | .schedule,s => s.power.rests = false
  | .giveUp,s => Resting s

structure Safe (s : Life) : Prop where
  alive : s.Touching → s.ctxt = true
  alone : s.power = .killed → s.task = .idle

def Up (pm : PmState) : Prop := pm ≠ .disable ∧ pm ≠ .shutdownProcess

structure Inv (s : Life) : Prop where
  owns : s.ctxt = s.power.owns
  listening : s.irq = false → s.handlers = 0
  silent : s.power.down = true → s.irq = false
  rests : s.power.rests = true → Resting s
  up : s.power.up = true → Up s.pm

theorem Inv.safe {s : Life} (inv : Inv s) : Safe s where
  alive touching := by
    rw [inv.owns]
    cases here : s.power with
    | off =>
      have none := inv.listening (inv.silent (by rw [here]; rfl))
      have resting := inv.rests (by rw [here]; rfl)
      rcases touching with handler | running
      · omega
      · exact absurd resting.2 running
    | _ => rfl
  alone here := (inv.rests (by rw [here]; rfl)).2

/-! The state machine: a shutdown begins from any state that is up. -/

theorem upKept {pm target : PmState} (up : Up pm) (open_ : Up target) : Up (mhiTrysetPmState pm target) := by
  rcases trysetCases pm target with moved | stayed
  · rw [moved]
    exact open_
  · rw [stayed]
    exact up

theorem shutdownBegins (pm : PmState) (up : Up pm) : mhiTrysetPmState pm .shutdownProcess = .shutdownProcess := by
  obtain ⟨enabled,running⟩ := up
  revert enabled running
  cases pm <;> decide

section Steps
variable {s : Life}

theorem moveInv {pm : PmState} (inv : Inv s) (up : s.power.up = true → Up s.pm → Up pm) : Inv {s with pm := pm} :=
  ⟨inv.owns,inv.listening,inv.silent,inv.rests,fun high => up high (inv.up high)⟩

theorem ownerInv {power : Power} (inv : Inv s) (owns : s.power.owns = power.owns) (awake : power.down = false)
    (rests : power.rests = true → Resting s) (up : power.up = true → Up s.pm) : Inv {s with power := power} := by
  refine ⟨inv.owns.trans owns,inv.listening,fun down => ?_,rests,up⟩
  cases awake.symm.trans down

theorem runsInv (inv : Inv s) (sched : s.sched = true) : Inv {s with sched := false, task := .entered} := by
  refine ⟨inv.owns,inv.listening,inv.silent,fun rests => ?_,inv.up⟩
  cases (inv.rests rests).1.symm.trans sched

theorem lookInv (inv : Inv s) (here : s.task = .entered) : Inv s.look := by
  refine ⟨inv.owns,inv.listening,inv.silent,fun rests => ?_,inv.up⟩
  cases (inv.rests rests).2.symm.trans here

theorem leaveInv (inv : Inv s) : Inv {s with task := .idle} :=
  ⟨inv.owns,inv.listening,inv.silent,fun rests => ⟨(inv.rests rests).1,rfl⟩,inv.up⟩

theorem handledInv {pending : Bool} (inv : Inv s) (busy : 0 < s.handlers) (asked : pending = true → May .schedule s) :
    Inv {s with handlers := s.handlers-1, sched := s.sched || pending} := by
  refine ⟨inv.owns,fun off => ?_,inv.silent,fun rests => ?_,inv.up⟩
  · have none := inv.listening off
    omega
  · obtain ⟨unscheduled,idle⟩ := inv.rests rests
    cases pending with
    | true => cases (asked rfl).symm.trans rests
    | false => exact ⟨by simp [unscheduled],idle⟩

theorem shutdownInv (inv : Inv s) (here : s.power = .on) : Inv s.shutdown := by
  have begins := shutdownBegins s.pm (inv.up (by rw [here]; rfl))
  have owns := inv.owns
  rw [here] at owns
  simp only [Life.shutdown,begins,if_true]
  exact ⟨owns,inv.listening,nofun,nofun,nofun⟩

theorem freedInv (inv : Inv s) (owns : s.power.owns = true) (waited : s.handlers = 0) (resting : Resting s) :
    Inv {s with irq := false, power := .prepared} :=
  ⟨inv.owns.trans owns,fun _ => waited,fun _ => rfl,fun _ => resting,nofun⟩

theorem stepInv {s' : Life} (step : Step May s s') (inv : Inv s) : Inv s' := by
  cases step with
  | interrupt irq =>
    refine ⟨inv.owns,fun off => ?_,inv.silent,inv.rests,inv.up⟩
    cases off.symm.trans irq
  | handled pending busy asked => exact handledInv inv busy asked
  | runs sched idle => exact runsInv inv sched
  | look here => exact lookInv inv here
  | leave here => exact leaveInv inv
  | move target open_ => exact moveInv inv fun _ up => upKept up open_
  | panic => exact moveInv inv fun _ _ => by simp [Up]
  | prepare here => exact ⟨rfl,inv.listening,fun _ => inv.silent (by rw [here]; rfl),fun _ => inv.rests (by rw [here]; rfl),nofun⟩
  | begin here =>
    have resting := inv.rests (by rw [here]; rfl)
    exact ownerInv (moveInv inv fun up => by rw [here] at up; cases up) (by rw [here]; rfl) rfl (fun _ => resting) nofun
  | request here =>
    refine ⟨inv.owns,nofun,fun down => ?_,inv.rests,inv.up⟩
    rw [here] at down
    cases down
  | refuse here =>
    have resting := inv.rests (by rw [here]; rfl)
    exact ownerInv inv (by rw [here]; rfl) rfl (fun _ => resting) nofun
  | por here irq =>
    have owns := inv.owns
    rw [here] at owns
    exact ⟨owns,inv.listening,nofun,nofun,fun _ => by simp [Up]⟩
  | succeed here =>
    have up := inv.up (by rw [here]; rfl)
    exact ownerInv inv (by rw [here]; rfl) rfl nofun fun _ => up
  | fail here =>
    have up := inv.up (by rw [here]; rfl)
    exact ownerInv inv (by rw [here]; rfl) rfl nofun fun _ => up
  | giveBack here waited => exact freedInv inv (by rw [here]; rfl) waited (inv.rests (by rw [here]; rfl))
  | giveUp here waited asked => exact freedInv inv (by rw [here]; rfl) waited asked
  | shutdown here => exact shutdownInv inv here
  | kill here waited => exact ownerInv inv (by rw [here]; rfl) rfl (fun _ => waited) nofun
  | disable here =>
    refine moveInv inv fun up => ?_
    rw [here] at up
    cases up
  | freeIrq here waited => exact freedInv inv (by rw [here]; rfl) waited (inv.rests (by rw [here]; rfl))
  | release here => exact ⟨rfl,inv.listening,fun _ => inv.silent (by rw [here]; rfl),fun _ => inv.rests (by rw [here]; rfl),nofun⟩

end Steps

theorem startInv (pm : PmState) : Inv (Life.start pm) :=
  ⟨rfl,fun _ => rfl,fun _ => rfl,fun _ => ⟨rfl,rfl⟩,nofun⟩

theorem ringsOutlive {pm : PmState} {s : Life} (run : ReflTransGen (Step May) (Life.start pm) s) : Safe s := by
  have inv : Inv s := Runs.keeps (fun _ _ step inv => stepInv step inv) run (startInv pm)
  exact inv.safe

namespace Sample

def started : Life := ⟨.por,true,true,0,true,.idle,.started⟩
def working : Life := ⟨.por,true,true,1,false,.inside,.on⟩
def left : Life := ⟨.por,false,false,0,false,.inside,.off⟩
def late : Life := ⟨.disable,false,false,0,false,.entered,.off⟩

theorem requested {may : Hazard → Life → Prop} :
    ReflTransGen (Step may) (Life.start .disable) ⟨.por,true,true,0,false,.idle,.started⟩ :=
  (((ReflTransGen.single (.prepare rfl)).tail (.begin rfl)).tail (.request rfl)).tail (.por rfl rfl)

theorem starts {may : Hazard → Life → Prop} (asked : ∀ s, s.power = .started → may .schedule s) :
    ReflTransGen (Step may) (Life.start .disable) started :=
  (requested.tail (.interrupt rfl)).tail (.handled true (by decide) fun _ => asked _ rfl)

theorem works : ReflTransGen (Step May) (Life.start .disable) working := by
  have began := @starts May fun s here => by rw [May,here]; rfl
  exact (((began.tail (.runs rfl rfl)).tail (.look rfl)).tail (.succeed rfl)).tail (.interrupt rfl)

def without (left : Hazard) (hazard : Hazard) (s : Life) : Prop := hazard = left ∨ May hazard s

theorem leaves : ReflTransGen (Step (without .giveUp)) (Life.start .disable) left := by
  have began := @starts (without .giveUp) fun s here => .inr (by rw [May,here]; rfl)
  exact ((((began.tail (.fail rfl)).tail (.giveUp rfl rfl (.inl rfl))).tail (.release rfl)).tail (.runs rfl rfl)).tail (.look rfl)

theorem comesLate : ReflTransGen (Step (without .schedule)) (Life.start .disable) late := by
  have killed : ReflTransGen (Step (without .schedule)) (Life.start .disable)
      ⟨.shutdownProcess,true,true,0,false,.idle,.killed⟩ :=
    ((requested.tail (.succeed rfl)).tail (.shutdown rfl)).tail (.kill rfl ⟨rfl,rfl⟩)
  have scheduled := (killed.tail (.interrupt rfl)).tail (.handled true (by decide) fun _ => .inl rfl)
  exact (((scheduled.tail (.disable rfl)).tail (.freeIrq rfl rfl)).tail (.release rfl)).tail (.runs rfl rfl)

end Sample

theorem ringsOutliveSample : (Sample.working.Touching ∧ Sample.working.ctxt = true) ∧ Safe Sample.working :=
  ⟨⟨.inl (by decide),rfl⟩,ringsOutlive Sample.works⟩

theorem eitherTouchesFreed (left : Hazard) :
    ¬∀ s, ReflTransGen (Step (Sample.without left)) (Life.start .disable) s → Safe s := by
  intro claim
  cases left with
  | schedule =>
    have alive := (claim _ Sample.comesLate).alive (.inr nofun)
    cases alive
  | giveUp =>
    have alive := (claim _ Sample.leaves).alive (.inr nofun)
    cases alive

end MhiHost.RingLifetime
