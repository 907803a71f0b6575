import MhiHost.NetRing
import MhiHost.TransferFifo

/-! The receive refill of `mhi_net_mbim.c`. The work item is one `delayed_work`: pending,
running, or both, never running twice at once; while it is being cancelled it cannot be
queued. A completed TRE is off the ring (`taken`), then its callback decrements
`rx_queued`, then it tests what it got (`calls`). Completions are cut off from the moment
the channel is suspended for removal, but for those of the reset. -/
namespace MhiHost.RefillWork
open NetRing
open Relation (ReflTransGen)

def rxQueueSz : Nat := 128

/- `remaining` is an int, `rx_queue_sz` a u32: the comparison is unsigned. -/
def low (remaining : Int) : Bool := (remaining % 2 ^ 32).toNat ≤ rxQueueSz / 2

inductive Phase where
  | idle | allocating | queueing | counting | checking | rescheduling | leaving
  deriving DecidableEq, Repr

inductive Removal where
  | bound | resetting | removing | freed
  deriving DecidableEq, Repr

structure Refill where
  port : Port
  up : Bool
  rxQueued : Int
  pending : Bool
  canceling : Bool
  phase : Phase
  taken : Nat
  calls : List Int
  removal : Removal

namespace Refill

def probed (p : Port) : Refill := ⟨p,false,0,false,false,.idle,0,[],.bound⟩

def go (s : Refill) (phase : Phase) : Refill := {s with phase := phase}
def scheduleDelayedWork (s : Refill) : Refill := {s with pending := s.pending || !s.canceling}

def decrement (s : Refill) : Refill :=
  {s with taken := s.taken - 1, rxQueued := s.rxQueued - 1, calls := s.calls ++ [s.rxQueued - 1]}
def test (s : Refill) (remaining : Int) (others : List Int) : Refill :=
  let s := {s with calls := others}
  if low remaining then s.scheduleDelayedWork else s

/- `mhi_net_rx_refill_work`: -ENOMEM only says that the ring is full, every other error is
logged; both leave the loop. -/
def queue (s : Refill) (q : QueueReq) : Refill :=
  let out := mhiQueue s.port q
  let s := {s with port := out.1}
  if out.2 = none then s.go .counting else s.go .checking

def check (s : Refill) : Refill := if s.rxQueued = 0 then s.go .rescheduling else s.go .leaving

def suspend (s : Refill) : Refill :=
  {s with port := {s.port with chan := {s.port.chan with chState := .suspended}}, removal := .resetting}

end Refill

/- `may` is asked when the removal starts. The callbacks of the events run under the
channel's lock, which the suspension takes; the reset ends with the ring empty and its last
callback done. -/
inductive Step (may : Refill → Prop) : Refill → Refill → Prop where
  | begin {s} (due : s.pending = true) (idle : s.phase = .idle) :
      Step may s ({s with pending := false}.go .allocating)
  | allocate {s} (ok : Bool) (here : s.phase = .allocating) : Step may s (s.go (if ok then .queueing else .checking))
  | queue {s} (q : QueueReq) (here : s.phase = .queueing) (frame : ∃ data, q.payload = .skb data) : Step may s (s.queue q)
  | count {s} (here : s.phase = .counting) : Step may s ({s with rxQueued := s.rxQueued + 1}.go .allocating)
  | check {s} (here : s.phase = .checking) : Step may s s.check
  | reschedule {s} (here : s.phase = .rescheduling) : Step may s (s.scheduleDelayedWork.go .idle)
  | leave {s} (here : s.phase = .leaving) : Step may s (s.go .idle)
  | completed {s} (r : MhiResult) (some : 0 < outstanding s.port) (live : s.removal = .bound ∨ s.removal = .resetting) :
      Step may s {s with port := retire s.port r, taken := s.taken + 1}
  | decrement {s} (due : 0 < s.taken) : Step may s s.decrement
  | test {s remaining} (front back : List Int) (due : s.calls = front ++ remaining :: back) :
      Step may s (s.test remaining (front ++ back))
  | ndoOpen {s} (down : s.up = false) (locked : s.canceling = false) (bound : s.removal = .bound) :
      Step may s ({s with up := true}.scheduleDelayedWork)
  | ndoStop {s} (up : s.up = true) (live : s.removal = .bound ∨ s.removal = .removing) :
      Step may s {s with up := false, pending := false, canceling := true}
  | cancelled {s} (canceling : s.canceling = true) (idle : s.phase = .idle) : Step may s {s with canceling := false}
  | controller {s} (c : Cntrl) : Step may s {s with port := {s.port with cntrl := c}}
  | suspend {s} (bound : s.removal = .bound) (locked : s.canceling = false) (unlocked : s.taken = 0 ∧ s.calls = [])
      (asked : may s) : Step may s s.suspend
  | mhiNetRemove {s} (here : s.removal = .resetting) (empty : outstanding s.port = 0) (done : s.taken = 0 ∧ s.calls = []) :
      Step may s {s with removal := .removing}
  -- the channel is not enabled, so `mhi_unprepare_from_transfer` returns at once
  | freeNetdev {s} (here : s.removal = .removing) (down : s.up = false) (locked : s.canceling = false) :
      Step may s {s with removal := .freed}

def Fed (s : Refill) : Prop := 0 < outstanding s.port ∨ s.phase ≠ .idle ∨ s.pending = true

def CallbackAhead (s : Refill) : Prop := 0 < s.taken ∨ ∃ remaining ∈ s.calls, low remaining = true

structure NeverStarved (s : Refill) : Prop where
  counted : s.phase ≠ .counting → s.taken = 0 → s.rxQueued = outstanding s.port
  fed : s.up = true → s.taken = 0 → s.calls = [] → Fed s
  ahead : s.up = true → Fed s ∨ CallbackAhead s

structure Inv (s : Refill) : Prop where
  ring : Ringed s.port
  counted : s.rxQueued + (if s.phase = .counting then 1 else 0) = outstanding s.port + s.taken
  locked : s.canceling = true → s.up = false
  fed : s.up = true → 0 < outstanding s.port ∨ (s.phase ≠ .idle ∧ s.phase ≠ .leaving) ∨ s.pending = true ∨ CallbackAhead s

section Steps
variable {may : Refill → Prop} {s : Refill}

theorem countedPlain (inv : Inv s) (plain : s.phase ≠ .counting) : s.rxQueued = outstanding s.port + s.taken := by
  have counted := inv.counted
  rw [if_neg plain] at counted
  omega

theorem busyInv {s' : Refill} (inv : Inv s) (phase : Phase) (here : s'.phase = phase) (busy : phase ≠ .idle ∧ phase ≠ .leaving)
    (same : s'.up = s.up ∧ s'.canceling = s.canceling) (ring : Ringed s'.port)
    (counted : s'.rxQueued + (if phase = .counting then 1 else 0) = outstanding s'.port + s'.taken) : Inv s' := by
  rw [← here] at busy counted
  refine ⟨ring,counted,?_,fun _ => .inr (.inl busy)⟩
  rw [same.1,same.2]
  exact inv.locked

theorem queueInv {q : QueueReq} (inv : Inv s) (here : s.phase = .queueing) : Inv (s.queue q) := by
  obtain ⟨ring,level⟩ := queueRing q inv.ring
  have before := countedPlain inv (by rw [here]; decide)
  unfold Refill.queue
  dsimp only
  split
  · rename_i accepted
    rw [if_pos accepted] at level
    refine busyInv inv .counting rfl ⟨by decide,by decide⟩ ⟨rfl,rfl⟩ ring ?_
    show s.rxQueued + 1 = (outstanding (mhiQueue s.port q).1 : Int) + s.taken
    omega
  · rename_i refused
    rw [if_neg refused] at level
    refine busyInv inv .checking rfl ⟨by decide,by decide⟩ ⟨rfl,rfl⟩ ring ?_
    show s.rxQueued + 0 = (outstanding (mhiQueue s.port q).1 : Int) + s.taken
    omega

theorem checkInv (inv : Inv s) (here : s.phase = .checking) : Inv s.check := by
  have before := countedPlain inv (by rw [here]; decide)
  unfold Refill.check
  split
  · refine busyInv inv .rescheduling rfl ⟨by decide,by decide⟩ ⟨rfl,rfl⟩ inv.ring ?_
    show s.rxQueued + 0 = (outstanding s.port : Int) + s.taken
    omega
  · refine ⟨inv.ring,?_,inv.locked,fun _ => ?_⟩
    · show s.rxQueued + 0 = (outstanding s.port : Int) + s.taken
      omega
    · rcases Nat.eq_zero_or_pos (outstanding s.port) with none | some
      · exact .inr (.inr (.inr (.inl (by show 0 < s.taken; omega))))
      · exact .inl some

theorem scheduledPending (inv : Inv s) (up : s.up = true) : (s.pending || !s.canceling) = true := by
  cases canceling : s.canceling with
  | false => exact Bool.or_true _
  | true => exact absurd ((inv.locked canceling).symm.trans up) Bool.false_ne_true

theorem rescheduleInv (inv : Inv s) (here : s.phase = .rescheduling) : Inv (s.scheduleDelayedWork.go .idle) := by
  have before := countedPlain inv (by rw [here]; decide)
  refine ⟨inv.ring,?_,inv.locked,fun up => ?_⟩
  · show s.rxQueued + 0 = (outstanding s.port : Int) + s.taken
    omega
  · exact .inr (.inr (.inl (scheduledPending inv up)))

theorem decrementInv (inv : Inv s) (due : 0 < s.taken) : Inv s.decrement := by
  have counted := inv.counted
  refine ⟨inv.ring,?_,inv.locked,fun up => ?_⟩
  · show s.rxQueued - 1 + (if s.phase = .counting then 1 else 0) = (outstanding s.port : Int) + (s.taken - 1 : Nat)
    omega
  · show 0 < outstanding s.port ∨ (s.phase ≠ .idle ∧ s.phase ≠ .leaving) ∨ s.pending = true ∨ CallbackAhead s.decrement
    by_cases busy : s.phase ≠ .idle ∧ s.phase ≠ .leaving
    · exact .inr (.inl busy)
    · have plain : s.phase ≠ .counting := fun counting => busy (by rw [counting]; decide)
      have before := countedPlain inv plain
      rcases Nat.eq_zero_or_pos (outstanding s.port) with none | some
      · rcases Nat.lt_or_ge 1 s.taken with more | last
        · exact .inr (.inr (.inr (.inl (by show 0 < s.taken - 1; omega))))
        · have zero : s.rxQueued - 1 = 0 := by omega
          refine .inr (.inr (.inr (.inr ⟨s.rxQueued - 1,List.mem_append_right _ List.mem_cons_self,?_⟩)))
          rw [zero]
          rfl
      · exact .inl some

theorem testInv {remaining : Int} {front back : List Int} (inv : Inv s) (due : s.calls = front ++ remaining :: back) :
    Inv (s.test remaining (front ++ back)) := by
  unfold Refill.test
  dsimp only
  split
  · refine ⟨inv.ring,inv.counted,inv.locked,fun up => .inr (.inr (.inl ?_))⟩
    have queued := scheduledPending inv up
    exact queued
  · rename_i high
    refine ⟨inv.ring,inv.counted,inv.locked,fun up => ?_⟩
    rcases inv.fed up with some | busy | pending | taken | ⟨r,member,isLow⟩
    · exact .inl some
    · exact .inr (.inl busy)
    · exact .inr (.inr (.inl pending))
    · exact .inr (.inr (.inr (.inl taken)))
    · refine .inr (.inr (.inr (.inr ⟨r,?_,isLow⟩)))
      rw [due] at member
      show r ∈ front ++ back
      rcases List.mem_append.mp member with before | after
      · exact List.mem_append_left _ before
      · rcases List.mem_cons.mp after with same | later
        · rw [same] at isLow
          exact absurd isLow high
        · exact List.mem_append_right _ later

theorem leaveInv (inv : Inv s) (here : s.phase = .leaving) : Inv (s.go .idle) := by
  have before := countedPlain inv (by rw [here]; decide)
  refine ⟨inv.ring,?_,inv.locked,fun up => ?_⟩
  · show s.rxQueued + 0 = (outstanding s.port : Int) + s.taken
    omega
  · rcases inv.fed up with some | busy | rest
    · exact .inl some
    · exact absurd here busy.2
    · exact .inr (.inr rest)

theorem stepInv {s' : Refill} (step : Step may s s') (inv : Inv s) : Inv s' := by
  cases step with
  | begin due idle =>
    have before := countedPlain inv (by rw [idle]; decide)
    exact busyInv inv .allocating rfl ⟨by decide,by decide⟩ ⟨rfl,rfl⟩ inv.ring ((Int.add_zero _).trans before)
  | allocate ok here =>
    have before := countedPlain inv (by rw [here]; decide)
    cases ok with
    | true => exact busyInv inv .queueing rfl ⟨by decide,by decide⟩ ⟨rfl,rfl⟩ inv.ring ((Int.add_zero _).trans before)
    | false => exact busyInv inv .checking rfl ⟨by decide,by decide⟩ ⟨rfl,rfl⟩ inv.ring ((Int.add_zero _).trans before)
  | queue q here frame => exact queueInv inv here
  | count here =>
    have counted := inv.counted
    rw [here,if_pos rfl] at counted
    exact busyInv inv .allocating rfl ⟨by decide,by decide⟩ ⟨rfl,rfl⟩ inv.ring ((Int.add_zero _).trans counted)
  | check here => exact checkInv inv here
  | reschedule here => exact rescheduleInv inv here
  | leave here => exact leaveInv inv here
  | completed r some live =>
    obtain ⟨ring,level⟩ := retireRing r inv.ring some
    have counted := inv.counted
    refine ⟨ring,?_,inv.locked,fun _ => .inr (.inr (.inr (.inl (Nat.succ_pos _))))⟩
    show s.rxQueued + (if s.phase = .counting then 1 else 0) = (outstanding (retire s.port r) : Int) + (s.taken + 1 : Nat)
    omega
  | decrement due => exact decrementInv inv due
  | test front back due => exact testInv inv due
  | ndoOpen down locked bound =>
    refine ⟨inv.ring,inv.counted,?_,fun _ => .inr (.inr (.inl ?_))⟩
    · intro canceling
      exact absurd (locked.symm.trans canceling) Bool.false_ne_true
    · show (s.pending || !s.canceling) = true
      rw [locked]
      exact Bool.or_true _
  | ndoStop up live => exact ⟨inv.ring,inv.counted,fun _ => rfl,(fun up => nomatch up)⟩
  | cancelled canceling idle => exact ⟨inv.ring,inv.counted,(fun on => nomatch on),inv.fed⟩
  | controller c => exact ⟨inv.ring,inv.counted,inv.locked,inv.fed⟩
  | suspend bound locked unlocked asked => exact ⟨inv.ring,inv.counted,inv.locked,inv.fed⟩
  | mhiNetRemove here empty done => exact ⟨inv.ring,inv.counted,inv.locked,inv.fed⟩
  | freeNetdev here down locked => exact ⟨inv.ring,inv.counted,inv.locked,inv.fed⟩

end Steps

theorem probedInv {p : Port} (prepared : Prepared p) : Inv (Refill.probed p) := by
  obtain ⟨ring,empty⟩ := preparedRing prepared
  refine ⟨ring,?_,(fun on => nomatch on),(fun up => nomatch up)⟩
  show (0 : Int) + 0 = (outstanding p : Int) + (0 : Nat)
  rw [empty]
  rfl

theorem invStarved {s : Refill} (inv : Inv s) : NeverStarved s := by
  have ahead : s.up = true → Fed s ∨ CallbackAhead s := by
    intro up
    rcases inv.fed up with some | busy | pending | ahead
    · exact .inl (.inl some)
    · exact .inl (.inr (.inl busy.1))
    · exact .inl (.inr (.inr pending))
    · exact .inr ahead
  refine ⟨?_,?_,ahead⟩
  · intro plain done
    have counted := countedPlain inv plain
    omega
  · intro up done none
    rcases ahead up with fed | taken | ⟨r,member,_⟩
    · exact fed
    · omega
    · rw [none] at member
      cases member

theorem neverStarved {p : Port} {s : Refill} (prepared : Prepared p)
    (run : ReflTransGen (Step fun _ => True) (Refill.probed p) s) : NeverStarved s :=
  invStarved (Runs.keeps (I := Inv) (fun _ _ step inv => stepInv step inv) run (probedInv prepared))

def Still (s : Refill) : Prop := s.pending = false ∧ s.phase = .idle
instance (s) : Decidable (Still s) := by unfold Still; infer_instance

/- The removal starts with the interface up, so that it will be stopped, or with nothing
left that could queue the work. -/
def MayRemove (s : Refill) : Prop := s.up = true ∨ (Still s ∧ outstanding s.port = 0)

def Silent (s : Refill) : Prop := s.taken = 0 ∧ s.calls = []

structure Calm (s : Refill) : Prop where
  resetting : s.removal = .resetting → s.up = true ∨ (Still s ∧ outstanding s.port = 0 ∧ Silent s)
  removing : s.removal = .removing → Silent s ∧ (s.up = true ∨ (s.canceling = true ∧ s.pending = false) ∨ Still s)
  freed : s.removal = .freed → Silent s ∧ Still s

section Removing
variable {s : Refill}

theorem workCalm {s' : Refill} (calm : Calm s) (awake : ¬Still s)
    (same : s'.removal = s.removal ∧ s'.up = s.up ∧ s'.taken = s.taken ∧ s'.calls = s.calls)
    (cancel : s.canceling = true → s.pending = false → s'.canceling = true ∧ s'.pending = false) : Calm s' := by
  obtain ⟨removal,up,taken,calls⟩ := same
  constructor
  · rw [removal]
    intro here
    rcases calm.resetting here with on | ⟨still,_⟩
    · exact .inl (up.trans on)
    · exact absurd still awake
  · rw [removal]
    intro here
    obtain ⟨silent,rest⟩ := calm.removing here
    refine ⟨⟨taken.trans silent.1,calls.trans silent.2⟩,?_⟩
    rcases rest with on | ⟨canceling,unqueued⟩ | still
    · exact .inl (up.trans on)
    · exact .inr (.inl (cancel canceling unqueued))
    · exact absurd still awake
  · rw [removal]
    intro here
    exact absurd (calm.freed here).2 awake

theorem callCalm {s' : Refill} (calm : Calm s) (busy : ¬(outstanding s.port = 0 ∧ Silent s))
    (live : s.removal = .bound ∨ s.removal = .resetting ∨ ¬Silent s) (same : s'.removal = s.removal ∧ s'.up = s.up) :
    Calm s' := by
  obtain ⟨removal,up⟩ := same
  have out : s.removal ≠ .bound → s.removal ≠ .resetting → ¬Silent s := by
    intro unbound done
    rcases live with here | here | loud
    · exact absurd here unbound
    · exact absurd here done
    · exact loud
  constructor
  · rw [removal]
    intro here
    rcases calm.resetting here with on | ⟨_,quiet⟩
    · exact .inl (up.trans on)
    · exact absurd quiet busy
  · rw [removal]
    intro here
    exact absurd (calm.removing here).1 (out (by rw [here]; decide) (by rw [here]; decide))
  · rw [removal]
    intro here
    exact absurd (calm.freed here).1 (out (by rw [here]; decide) (by rw [here]; decide))

theorem stepCalm {s' : Refill} (step : Step MayRemove s s') (calm : Calm s) : Calm s' := by
  have running : ∀ {phase : Phase}, s.phase = phase → phase ≠ .idle → ¬Still s := by
    intro phase here busy still
    exact busy (here.symm.trans still.2)
  cases step with
  | begin due idle =>
    refine workCalm calm (fun still => ?_) ⟨rfl,rfl,rfl,rfl⟩ (fun _ unqueued => ?_)
    · rw [still.1] at due
      cases due
    · rw [unqueued] at due
      cases due
  | allocate ok here => exact workCalm calm (running here (by decide)) ⟨rfl,rfl,rfl,rfl⟩ fun on off => ⟨on,off⟩
  | queue q here frame =>
    unfold Refill.queue
    dsimp only
    split
    · exact workCalm calm (running here (by decide)) ⟨rfl,rfl,rfl,rfl⟩ fun on off => ⟨on,off⟩
    · exact workCalm calm (running here (by decide)) ⟨rfl,rfl,rfl,rfl⟩ fun on off => ⟨on,off⟩
  | count here => exact workCalm calm (running here (by decide)) ⟨rfl,rfl,rfl,rfl⟩ fun on off => ⟨on,off⟩
  | check here =>
    unfold Refill.check
    split
    · exact workCalm calm (running here (by decide)) ⟨rfl,rfl,rfl,rfl⟩ fun on off => ⟨on,off⟩
    · exact workCalm calm (running here (by decide)) ⟨rfl,rfl,rfl,rfl⟩ fun on off => ⟨on,off⟩
  | reschedule here =>
    refine workCalm calm (running here (by decide)) ⟨rfl,rfl,rfl,rfl⟩ fun on off => ⟨on,?_⟩
    show (s.pending || !s.canceling) = false
    rw [on,off]
    rfl
  | leave here => exact workCalm calm (running here (by decide)) ⟨rfl,rfl,rfl,rfl⟩ fun on off => ⟨on,off⟩
  | completed r some live =>
    refine callCalm calm (fun quiet => ?_) (live.imp_right .inl) ⟨rfl,rfl⟩
    omega
  | decrement due =>
    have loud : ¬Silent s := fun silent => by rw [silent.1] at due; cases due
    exact callCalm calm (fun quiet => loud quiet.2) (.inr (.inr loud)) ⟨rfl,rfl⟩
  | test front back due =>
    have loud : ¬Silent s := fun silent => by simp [silent.2] at due
    unfold Refill.test
    dsimp only
    split
    · exact callCalm calm (fun quiet => loud quiet.2) (.inr (.inr loud)) ⟨rfl,rfl⟩
    · exact callCalm calm (fun quiet => loud quiet.2) (.inr (.inr loud)) ⟨rfl,rfl⟩
  | ndoOpen down locked bound =>
    exact ⟨fun here => .inl rfl,(fun here => by cases bound.symm.trans here),(fun here => by cases bound.symm.trans here)⟩
  | ndoStop up live =>
    refine ⟨?_,fun here => ⟨(calm.removing here).1,.inr (.inl ⟨rfl,rfl⟩)⟩,?_⟩
    · intro here
      rcases live with is | is
      · cases is.symm.trans here
      · cases is.symm.trans here
    · intro here
      rcases live with is | is
      · cases is.symm.trans here
      · cases is.symm.trans here
  | cancelled canceling idle =>
    refine ⟨calm.resetting,?_,calm.freed⟩
    intro here
    obtain ⟨silent,rest⟩ := calm.removing here
    refine ⟨silent,?_⟩
    rcases rest with on | ⟨_,unqueued⟩ | still
    · exact .inl on
    · exact .inr (.inr ⟨unqueued,idle⟩)
    · exact .inr (.inr still)
  | controller c => exact ⟨calm.resetting,calm.removing,calm.freed⟩
  | suspend bound locked unlocked asked =>
    refine ⟨fun _ => ?_,(fun here => nomatch here),(fun here => nomatch here)⟩
    rcases asked with on | ⟨still,empty⟩
    · exact .inl on
    · exact .inr ⟨still,empty,unlocked⟩
  | mhiNetRemove here empty done =>
    refine ⟨(fun here => nomatch here),fun _ => ⟨done,?_⟩,(fun here => nomatch here)⟩
    rcases calm.resetting here with on | ⟨still,_⟩
    · exact .inl on
    · exact .inr (.inr still)
  | freeNetdev here down locked =>
    refine ⟨(fun here => nomatch here),(fun here => nomatch here),fun _ => ?_⟩
    obtain ⟨silent,rest⟩ := calm.removing here
    refine ⟨silent,?_⟩
    rcases rest with on | ⟨canceling,_⟩ | still
    · exact absurd (down.symm.trans on) Bool.false_ne_true
    · exact absurd (locked.symm.trans canceling) Bool.false_ne_true
    · exact still

def resetTurn (s : Refill) (r : MhiResult) : Refill :=
  {s with
    port := retire s.port r, rxQueued := s.rxQueued - 1, calls := []
    pending := s.pending || (low (s.rxQueued - 1) && !s.canceling)}

theorem resetTurns {may : Refill → Prop} (r : MhiResult) (here : s.removal = .resetting) (silent : Silent s)
    (some : 0 < outstanding s.port) : ReflTransGen (Step may) s (resetTurn s r) := by
  obtain ⟨port,up,rxQueued,pending,canceling,phase,taken,calls,removal⟩ := s
  obtain ⟨rfl,rfl⟩ := silent
  let called : Refill := ⟨retire port r,up,rxQueued - 1,pending,canceling,phase,0,[rxQueued - 1],removal⟩
  have tested : called.test (rxQueued - 1) [] = resetTurn ⟨port,up,rxQueued,pending,canceling,phase,0,[],removal⟩ r := by
    unfold Refill.test resetTurn
    cases isLow : low (rxQueued - 1) with
    | true => rfl
    | false => simp [called]
  rw [← tested]
  have taken := @Step.completed may _ r some (.inr here)
  exact ((ReflTransGen.single taken).tail (.decrement (Nat.succ_pos _))).tail (.test [] [] rfl)

structure Drained (s s' : Refill) : Prop where
  empty : outstanding s'.port = 0
  silent : Silent s'
  same : s'.removal = s.removal ∧ s'.up = s.up ∧ s'.canceling = s.canceling ∧ s'.phase = s.phase
  pending : s.pending = true → s'.pending = true
  last : s.canceling = false → s.rxQueued = outstanding s.port → 0 < outstanding s.port → s'.pending = true

theorem drains {may : Refill → Prop} (ring : Ringed s.port) (here : s.removal = .resetting) (silent : Silent s) :
    ∃ s', ReflTransGen (Step may) s s' ∧ Drained s s' := by
  induction left : outstanding s.port generalizing s with
  | zero => exact ⟨s,.refl,left,silent,⟨rfl,rfl,rfl,rfl⟩,fun on => on,fun _ _ some => by omega⟩
  | succ n ih =>
    let r : MhiResult := ⟨0,none,0,some .enotconn⟩
    have some : 0 < outstanding s.port := by omega
    obtain ⟨ring',level⟩ := retireRing r ring some
    have turn := @resetTurns s may r here silent some
    obtain ⟨s',run,drained⟩ := @ih (resetTurn s r) ring' here ⟨silent.1,rfl⟩ (by show outstanding (retire s.port r) = n; omega)
    refine ⟨s',turn.trans run,drained.empty,drained.silent,drained.same,?_,?_⟩
    · intro on
      exact drained.pending (by show (s.pending || _) = true; rw [on]; rfl)
    · intro free counted _
      rcases Nat.eq_zero_or_pos n with zero | more
      · refine drained.pending ?_
        have last : s.rxQueued - 1 = 0 := by omega
        show (s.pending || (low (s.rxQueued - 1) && !s.canceling)) = true
        rw [last,free]
        exact Bool.or_true _
      · refine drained.last free ?_ ?_
        · show s.rxQueued - 1 = (outstanding (retire s.port r) : Int)
          omega
        · show 0 < outstanding (retire s.port r)
          omega

theorem outlives (inv : Inv s) (bound : s.removal = .bound) (locked : s.canceling = false) (silent : Silent s)
    (unmet : ¬MayRemove s) : Step (fun _ => True) s s.suspend ∧
      ∃ s', ReflTransGen (Step fun _ => True) s.suspend s' ∧ s'.removal = .freed ∧ ¬Still s' := by
  have down : s.up = false := by
    cases up : s.up with
    | false => rfl
    | true => exact absurd (.inl up) unmet
  obtain ⟨s',run,drained⟩ := @drains s.suspend (fun _ => True) inv.ring rfl silent
  obtain ⟨removal,up,canceling,phase⟩ := drained.same
  have removing := run.tail (.mhiNetRemove removal drained.empty drained.silent)
  have freed := removing.tail (.freeNetdev rfl (up.trans down) (canceling.trans locked))
  refine ⟨.suspend bound locked silent trivial,_,freed,rfl,?_⟩
  rintro ⟨unqueued,idle⟩
  have off : s.pending = false := by
    cases on : s.pending with
    | false => rfl
    | true => exact absurd (unqueued.symm.trans (drained.pending on)) Bool.false_ne_true
  have still : s.phase = .idle := phase.symm.trans idle
  have counted := countedPlain inv (by rw [still]; decide)
  rcases Nat.eq_zero_or_pos (outstanding s.port) with none | some
  · exact unmet (.inr ⟨⟨off,still⟩,none⟩)
  · have exact' : s.rxQueued = outstanding s.port := by
      rw [counted,silent.1]
      exact Int.add_zero _
    exact absurd (unqueued.symm.trans (drained.last locked exact' some)) Bool.false_ne_true

end Removing

theorem noRefillOutlives {p : Port} (prepared : Prepared p) :
    (∀ s, ReflTransGen (Step MayRemove) (Refill.probed p) s → s.removal = .freed → Still s) ∧
    ∀ s, ReflTransGen (Step fun _ => True) (Refill.probed p) s → s.removal = .bound → s.canceling = false → Silent s →
      ¬MayRemove s → Step (fun _ => True) s s.suspend ∧
        ∃ s', ReflTransGen (Step fun _ => True) s.suspend s' ∧ s'.removal = .freed ∧ ¬Still s' := by
  constructor
  · intro s run freed
    have start : Calm (Refill.probed p) := ⟨(fun here => nomatch here),(fun here => nomatch here),(fun here => nomatch here)⟩
    exact ((Runs.keeps (I := Calm) (fun _ _ step calm => stepCalm step calm) run start).freed freed).2
  · intro s run bound locked silent unmet
    have inv := Runs.keeps (I := Inv) (fun _ _ step inv => stepInv step inv) run (probedInv prepared)
    exact outlives inv bound locked silent unmet

namespace Sample

def config : ChannelConfig := ⟨"IP_HW0_MBIM",101,4,0,0,.fromDevice,ExecEnv.amss.bit,some .disable,false,false,false⟩
def chan : Chan :=
  {(configureChan 128 config).getD Chan.zero with
    treRing := layRing ((configureChan 128 config).getD Chan.zero).treRing 0x1000 0x8000}
def port : Port := ⟨TransferFifo.idleCntrl,(mhiInitChanCtxt chan (some 0x4000)).1⟩
def skb : QueueReq := ⟨.skb 0x20,0x10,16384,MhiFlags.eot,⟨0x9000,0,true⟩⟩
def done : MhiResult := ⟨0x10,some .fromDevice,100,none⟩

theorem prepared : Prepared port :=
  ⟨treWindow 0x1000 4 (by decide),chan,0x4000,
    (TransferFifo.configuredOf (show configureChan 128 config = some _ from rfl) (by decide) rfl rfl rfl
      (by decide) (by decide) (by decide)).laid,rfl⟩

def opened : Refill := {Refill.probed port with up := true}.scheduleDelayedWork
def queued : Refill := ((({opened with pending := false}.go .allocating).go .queueing).queue skb)

def taken (s : Refill) : Refill := {s with port := retire s.port done, taken := s.taken + 1}
def counted (s : Refill) : Refill := {s with rxQueued := s.rxQueued + 1}.go .allocating

def raced : Refill := (((counted ((taken queued).decrement.test (-1) [])).go .checking).check.scheduleDelayedWork).go .idle

def filled : Refill := ((counted queued).go .checking).check.go .idle
def stopped : Refill := {filled with up := false}
def freed (s : Refill) : Refill := {s with removal := .freed}
def left : Refill := freed ((taken stopped.suspend).decrement.test 0 [])
def ended : Refill := freed {(taken filled.suspend).decrement.test 0 [] with up := false, pending := false}

theorem queues {may : Refill → Prop} : ReflTransGen (Step may) (Refill.probed port) queued := by
  have opens : Step may (Refill.probed port) opened := .ndoOpen rfl rfl rfl
  exact (((ReflTransGen.single opens).tail (.begin rfl rfl)).tail (.allocate true rfl)).tail (.queue skb rfl ⟨_,rfl⟩)

theorem calls {may : Refill → Prop} {s : Refill} (some : 0 < outstanding s.port) (silent : Silent s)
    (live : s.removal = .bound ∨ s.removal = .resetting) :
    ReflTransGen (Step may) s ((taken s).decrement.test (s.rxQueued - 1) []) := by
  have due : (taken s).decrement.calls = [] ++ (s.rxQueued - 1) :: [] := by
    show s.calls ++ [s.rxQueued - 1] = _
    rw [silent.2]
  exact ((ReflTransGen.single (.completed done some live)).tail (.decrement (Nat.succ_pos _))).tail (.test [] [] due)

theorem checks {may : Refill → Prop} {s : Refill} (here : s.phase = .counting) :
    ReflTransGen (Step may) s ((counted s).go .checking).check :=
  ((ReflTransGen.single (.count here)).tail (.allocate false rfl)).tail (.check rfl)

theorem races : ReflTransGen (Step fun _ => True) (Refill.probed port) raced :=
  ((queues.trans (calls (by decide) ⟨rfl,rfl⟩ (.inl rfl))).trans (checks (by decide))).tail (.reschedule (by decide))

theorem fills {may : Refill → Prop} : ReflTransGen (Step may) (Refill.probed port) filled :=
  (queues.trans (checks (by decide))).tail (.leave (by decide))

theorem stops {may : Refill → Prop} : ReflTransGen (Step may) (Refill.probed port) stopped :=
  (fills.tail (.ndoStop rfl (.inl rfl))).tail (.cancelled rfl rfl)

theorem leaves : ReflTransGen (Step fun _ => True) (Refill.probed port) left := by
  have suspended : ReflTransGen (Step fun _ => True) (Refill.probed port) stopped.suspend :=
    stops.tail (.suspend rfl rfl ⟨rfl,rfl⟩ trivial)
  have reset := suspended.trans (calls (by decide) ⟨rfl,rfl⟩ (.inr rfl))
  exact (reset.tail (.mhiNetRemove (by decide) (by decide) ⟨rfl,rfl⟩)).tail (.freeNetdev rfl (by decide) (by decide))

theorem ends : ReflTransGen (Step MayRemove) (Refill.probed port) ended := by
  have suspended : ReflTransGen (Step MayRemove) (Refill.probed port) filled.suspend :=
    fills.tail (.suspend rfl rfl ⟨rfl,rfl⟩ (.inl (by decide)))
  have reset := suspended.trans (calls (by decide) ⟨rfl,rfl⟩ (.inr rfl))
  have removing := reset.tail (.mhiNetRemove (by decide) (by decide) ⟨rfl,rfl⟩)
  have cancelled := (removing.tail (.ndoStop (by decide) (.inr rfl))).tail (.cancelled rfl (by decide))
  exact cancelled.tail (.freeNetdev rfl rfl rfl)

end Sample

theorem racedRefillFed : Sample.raced.rxQueued = 0 ∧ Sample.raced.pending = true ∧ NeverStarved Sample.raced :=
  ⟨by decide,by decide,neverStarved Sample.prepared Sample.races⟩

theorem upRemovalLeavesNothing : Sample.ended.removal = .freed ∧ Still Sample.ended :=
  ⟨rfl,(noRefillOutlives Sample.prepared).1 _ Sample.ends rfl⟩

theorem downRemovalLeavesRefill : ¬∀ s : Refill,
    ReflTransGen (Step fun _ => True) (Refill.probed Sample.port) s → s.removal = .freed → Still s := by
  intro claim
  exact absurd (claim _ Sample.leaves rfl) (by decide)

end MhiHost.RefillWork
