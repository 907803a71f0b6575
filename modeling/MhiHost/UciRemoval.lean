import MhiHost.UciRead

/-! Removing a UCI node while its file operations run. `udev->lock` is held by the part of
an open that starts the channel, by a release and by the first half of the removal;
`read_lock` and `write_lock` by the call whose position says so. Files are opened once and
released after their last call has returned. What the driver core answers is open, and a
completion may come at any time. -/
namespace MhiHost.UciRemoval
open UciRead (Uci)
open Wire (Bytes)
open Relation (ReflTransGen)

inductive DriverCall where
  | mhiPrepareForTransfer | mhiUnprepareFromTransfer | mhiGetFreeDescCount | mhiQueueBuf
  deriving DecidableEq, Repr

inductive WriteAt where
  | head | counting | waiting | waitCounting | woken | queueing
  deriving DecidableEq, Repr

/- `late` marks an open attempted after `mhi_uci_remove` has returned. -/
inductive Ending where
  | failed (late : Bool)
  | released
  deriving DecidableEq, Repr

inductive Pos (φ : Type) where
  | idle
  | lookedUp (f : φ) (late : Bool)
  | preparing (f : φ) (late : Bool)
  | counting (f : φ) (late : Bool)
  | filling (f : φ) (late : Bool) (left : Nat)
  | releasing (f : φ) (ending : Ending)
  | unpreparing (f : φ) (ending : Ending)
  | reading (f : φ)
  | writing (f : φ) (count : Nat) (nonblock : Bool) (place : WriteAt)
  | polling (f : φ)
  | pollCounting (f : φ)
  deriving DecidableEq, Repr

inductive Removal where
  | bound | disabling | disabled | returned
  deriving DecidableEq, Repr

namespace Pos
variable {φ : Type}

def locked : Pos φ → Bool
  | preparing .. | counting .. | filling .. | releasing .. | unpreparing .. => true
  | _ => false

def writes : Pos φ → Bool
  | writing .. => true
  | _ => false

def file : Pos φ → Option φ
  | idle => none
  | lookedUp f _ | preparing f _ | counting f _ | filling f _ _ | releasing f _ | unpreparing f _ => some f
  | reading f | writing f _ _ _ | polling f | pollCounting f => some f

def late : Pos φ → Bool
  | lookedUp _ l | preparing _ l | counting _ l | filling _ l _ => l
  | releasing _ (.failed l) | unpreparing _ (.failed l) => l
  | _ => false

def committed : Pos φ → Bool
  | preparing .. | counting .. | pollCounting .. => true
  | filling _ _ left => left != 0
  | writing _ _ _ place => place = .counting || place = .waitCounting || place = .queueing
  | _ => false

end Pos

/- `uchan` is the channel object's reference count; `late` are the driver calls made by
file operations after the removal has returned, `opens` how each open ended. -/
structure Node (φ τ : Type) where
  enabled : Bool
  listed : Bool
  ul : Bool
  dl : Bool
  uchan : Option Nat
  uci : Uci τ
  files : φ → Bool
  pos : τ → Pos φ
  removal : Removal
  late : List DriverCall
  opens : List (Bool × Bool)

section Operations
variable {φ τ : Type} [DecidableEq φ] [DecidableEq τ]

namespace Node

def probed (ul dl : Bool) (uci : Uci τ) : Node φ τ :=
  ⟨true,true,ul,dl,none,uci,fun _ => false,fun _ => .idle,.bound,[],[]⟩

def go (s : Node φ τ) (t : τ) (p : Pos φ) : Node φ τ := {s with pos := Function.update s.pos t p}
def setFile (s : Node φ τ) (f : φ) (isOpen : Bool) : Node φ τ := {s with files := Function.update s.files f isOpen}
def calls (s : Node φ τ) (c : DriverCall) : Node φ τ :=
  {s with late := if s.removal = .returned then s.late ++ [c] else s.late}

def opened (s : Node φ τ) (t : τ) (f : φ) (late : Bool) : Node φ τ :=
  {(s.setFile f true).go t .idle with opens := s.opens ++ [(late,true)]}
def refused (s : Node φ τ) (t : τ) (late : Bool) : Node φ τ :=
  {s.go t .idle with opens := s.opens ++ [(late,false)]}

def lookUp (s : Node φ τ) (t : τ) (f : φ) : Node φ τ :=
  let late := decide (s.removal = .returned)
  if s.listed then s.go t (.lookedUp f late) else s.refused t late

def startChan (s : Node φ τ) (t : τ) (f : φ) (late alloc : Bool) : Node φ τ :=
  match s.uchan with
  | some (refs+1) => {s with uchan := some (refs+2)}.opened t f late
  | _ =>
    if alloc then
      {s with uchan := some 0, uci := {s.uci with dlPending := [], curBuf := none, dlSize := 0}}.go t (.preparing f late)
    else s.refused t late

def started (s : Node φ τ) (t : τ) (f : φ) (late : Bool) : Node φ τ := {s with uchan := some 1}.opened t f late

def prepare (s : Node φ τ) (t : τ) (f : φ) (late ok : Bool) : Node φ τ :=
  let s := s.calls .mhiPrepareForTransfer
  if ok then if s.dl then s.go t (.counting f late) else s.started t f late
  else s.go t (.releasing f (.failed late))

def count (s : Node φ τ) (t : τ) (f : φ) (late : Bool) (nrTrbs : Nat) : Node φ τ :=
  let s := s.calls .mhiGetFreeDescCount
  if nrTrbs = 0 then s.go t (.releasing f (.failed late)) else s.go t (.filling f late nrTrbs)

def fill (s : Node φ τ) (t : τ) (f : φ) (late : Bool) (left : Nat) (buf : Option Nat) (ok : Bool) : Node φ τ :=
  match buf with
  | none => s.go t (.releasing f (.failed late))
  | some buf =>
    let s := s.calls .mhiQueueBuf
    if ok then {s with uci := {s.uci with queued := s.uci.queued ++ [(buf,s.uci.mtu)]}}.go t (.filling f late left)
    else s.go t (.releasing f (.failed late))

def closeChan (s : Node φ τ) (t : τ) (f : φ) (ending : Ending) : Node φ τ :=
  let s := {s with uchan := none, uci := {s.uci with dlPending := [], curBuf := none}}
  match ending with
  | .failed late => s.refused t late
  | .released => (s.setFile f false).go t .idle

def chanRelease (s : Node φ τ) (t : τ) (f : φ) (ending : Ending) : Node φ τ :=
  if s.enabled then s.go t (.unpreparing f ending) else s.closeChan t f ending

def release (s : Node φ τ) (t : τ) (f : φ) (refs : Nat) : Node φ τ :=
  let s := {s with uchan := some (refs-1)}
  if refs-1 = 0 then s.go t (.releasing f .released) else s.setFile f false

def poll (s : Node φ τ) (t : τ) (f : φ) : Node φ τ := if s.enabled then s.go t (.pollCounting f) else s.go t .idle

/- One step of `mhi_uci_write`; `nrAvail` is what the count says, `ok` whether the buffer
could be had, copied and queued. -/
def write (s : Node φ τ) (t : τ) (f : φ) (left : Nat) (nonblock : Bool) (place : WriteAt) (nrAvail : Nat)
    (filled ok : Bool) : Node φ τ :=
  let stay := fun (s : Node φ τ) place => s.go t (.writing f left nonblock place)
  match place with
  | .head =>
    if left = 0 then s.go t .idle
    else if s.enabled && nonblock then stay s .counting else stay s .waiting
  | .counting =>
    let s := s.calls .mhiGetFreeDescCount
    if nrAvail = 0 then s.go t .idle else stay s .waiting
  | .waiting => if s.enabled then stay s .waitCounting else stay s .woken
  | .waitCounting =>
    let s := s.calls .mhiGetFreeDescCount
    if nrAvail = 0 then stay s .waiting else stay s .woken
  | .woken => if s.enabled then stay s .queueing else s.go t .idle
  | .queueing =>
    if !filled then s.go t .idle
    else
      let s := s.calls .mhiQueueBuf
      if ok then s.go t (.writing f (left - min left s.uci.mtu) nonblock .head) else s.go t .idle

def withUci (s : Node φ τ) (u : Uci τ) : Node φ τ := {s with uci := u}

def finish (s : Node φ τ) (t : τ) (node : Nat) (got : Bytes) (ok : Bool) : Node φ τ :=
  let left := s.uci.dlSize - got.length
  let asked := if left = 0 then s.calls .mhiQueueBuf else s
  if left = 0 ∧ !ok then asked.withUci ({s.uci with dlSize := 0, curBuf := none}.unlock t [])
  else asked.withUci (s.uci.finish t node got)

end Node

inductive Moment where
  | removed | starting | reading
  deriving DecidableEq, Repr

inductive Step (may : Moment → Node φ τ → Prop) : Node φ τ → Node φ τ → Prop where
  | lookUp {s} (t : τ) (f : φ) (free : s.pos t = .idle) (new : s.files f = false) (mine : ∀ u, (s.pos u).file ≠ some f) :
      Step may s (s.lookUp t f)
  | startChan {s} (t : τ) (f : φ) (late alloc : Bool) (here : s.pos t = .lookedUp f late)
      (lock : ∀ u, (s.pos u).locked = false) (other : s.removal ≠ .disabling) (allowed : may .starting s) :
      Step may s (s.startChan t f late alloc)
  | prepare {s} (t : τ) (f : φ) (late ok : Bool) (here : s.pos t = .preparing f late) : Step may s (s.prepare t f late ok)
  | count {s} (t : τ) (f : φ) (late : Bool) (nrTrbs : Nat) (here : s.pos t = .counting f late) :
      Step may s (s.count t f late nrTrbs)
  | fill {s} (t : τ) (f : φ) (late : Bool) (left : Nat) (buf : Option Nat) (ok : Bool)
      (here : s.pos t = .filling f late (left+1)) : Step may s (s.fill t f late left buf ok)
  | filled {s} (t : τ) (f : φ) (late : Bool) (here : s.pos t = .filling f late 0) : Step may s (s.started t f late)
  | release {s} (t : τ) (f : φ) (refs : Nat) (free : s.pos t = .idle) (isOpen : s.files f = true)
      (last : ∀ u, (s.pos u).file ≠ some f) (lock : ∀ u, (s.pos u).locked = false) (other : s.removal ≠ .disabling)
      (counted : s.uchan = some refs) : Step may s (s.release t f refs)
  | chanRelease {s} (t : τ) (f : φ) (ending : Ending) (here : s.pos t = .releasing f ending) :
      Step may s (s.chanRelease t f ending)
  | unprepare {s} (t : τ) (f : φ) (ending : Ending) (here : s.pos t = .unpreparing f ending) :
      Step may s ((s.calls .mhiUnprepareFromTransfer).closeChan t f ending)
  | poll {s} (t : τ) (f : φ) (free : s.pos t = .idle) (isOpen : s.files f = true) : Step may s (s.go t (.polling f))
  | polled {s} (t : τ) (f : φ) (here : s.pos t = .polling f) : Step may s (s.poll t f)
  | pollCount {s} (t : τ) (f : φ) (here : s.pos t = .pollCounting f) :
      Step may s ((s.calls .mhiGetFreeDescCount).go t .idle)
  | write {s} (t : τ) (f : φ) (count : Nat) (nonblock : Bool) (free : s.pos t = .idle) (isOpen : s.files f = true)
      (uplink : s.ul = true) (lock : ∀ u, (s.pos u).writes = false) : Step may s (s.go t (.writing f count nonblock .head))
  | writes {s} (t : τ) (f : φ) (left : Nat) (nonblock : Bool) (place : WriteAt) (nrAvail : Nat) (filled ok : Bool)
      (here : s.pos t = .writing f left nonblock place) : Step may s (s.write t f left nonblock place nrAvail filled ok)
  | writeSignal {s} (t : τ) (f : φ) (left : Nat) (nonblock : Bool) (here : s.pos t = .writing f left nonblock .waiting) :
      Step may s (s.go t .idle)
  | read {s} (t : τ) (f : φ) (count : Nat) (nonblock : Bool) (free : s.pos t = .idle) (isOpen : s.files f = true)
      (downlink : s.dl = true) (lock : s.uci.reader = none) :
      Step may s ((s.withUci (s.uci.at' t (.entered count nonblock))).go t (.reading f))
  | readCheck {s} (t : τ) (count : Nat) (nonblock : Bool) (here : s.uci.reader = some (t,.entered count nonblock))
      (allowed : may .reading s) : Step may s (s.withUci (s.uci.check t count nonblock))
  | readWake {s} (t : τ) (count : Nat) (here : s.uci.reader = some (t,.waiting count)) (data : s.uci.dlPending ≠ [])
      (alive : s.enabled = true) : Step may s (s.withUci (s.uci.at' t (.woken count)))
  | readGiveUp {s} (t : τ) (count : Nat) (here : s.uci.reader = some (t,.waiting count)) :
      Step may s (s.withUci (s.uci.unlock t []))
  | readTake {s} (t : τ) (count : Nat) (here : s.uci.reader = some (t,.woken count)) :
      Step may s (s.withUci (s.uci.take t count))
  | readCopy {s} (t : τ) (count node : Nat) (here : s.uci.reader = some (t,.taken count)) (cur : s.uci.curBuf = some node) :
      Step may s (s.withUci (s.uci.copy t node count))
  | readFault {s} (t : τ) (count : Nat) (here : s.uci.reader = some (t,.taken count)) :
      Step may s (s.withUci (s.uci.unlock t []))
  | readFinish {s} (t : τ) (got : Bytes) (node : Nat) (ok : Bool) (here : s.uci.reader = some (t,.copied got))
      (cur : s.uci.curBuf = some node) : Step may s (s.finish t node got ok)
  | readReturn {s} (t : τ) (f : φ) (here : s.pos t = .reading f) (done : ∀ phase, s.uci.reader ≠ some (t,phase)) :
      Step may s (s.go t .idle)
  -- the device's steps and the callback are those that leave the reader where it is
  | received {s u} (step : UciRead.Step s.uci u) (same : u.reader = s.uci.reader) : Step may s (s.withUci u)
  | disable {s} (bound : s.removal = .bound) (lock : ∀ u, (s.pos u).locked = false) :
      Step may s {s with enabled := false, removal := .disabling}
  | unlock {s} (held : s.removal = .disabling) : Step may s {s with removal := .disabled}
  | removed {s} (off : s.removal = .disabled) (allowed : may .removed s) :
      Step may s {s with listed := false, removal := .returned}

def holding : UciRead.Phase → Bool
  | .woken _ | .taken _ | .copied _ => true
  | _ => false

def Quiet (s : Node φ τ) : Prop :=
  (∀ t, (s.pos t).committed = false) ∧ ∀ t phase, s.uci.reader = some (t,phase) → holding phase = false

/- When the removal returns no call has its driver call ahead of it. After that an open
that had found the node starts no channel, and no read finds data. -/
def Clear : Moment → Node φ τ → Prop
  | .removed,s => Quiet s
  | .starting,s => s.removal = .returned → ∃ refs, s.uchan = some (refs+1)
  | .reading,s => s.removal = .returned → s.uci.curBuf = none ∧ s.uci.dlPending = []

def Final (s : Node φ τ) : Prop := s.late = [] ∧ ∀ o ∈ s.opens, o.1 = true → o.2 = false

structure Inv (s : Node φ τ) : Prop where
  off : s.removal ≠ .bound → s.enabled = false
  unprepares : ∀ t f e, s.pos t = .unpreparing f e → s.enabled = true
  gone : s.removal = .returned → s.listed = false ∧ Quiet s
  early : ∀ t, (s.pos t).late = false
  late : s.late = []
  opens : ∀ o ∈ s.opens, o.1 = true → o.2 = false

end Operations

section Frames
variable {φ τ : Type} {s : Node φ τ} {t : τ} {f : φ} {late : Bool}

theorem callsEarly (c : DriverCall) (before : s.removal ≠ .returned) : s.calls c = s := by
  unfold Node.calls
  rw [if_neg before]

theorem committedEarly (inv : Inv s) {p : Pos φ} (here : s.pos t = p) (committed : p.committed = true) :
    s.removal ≠ .returned := by
  intro returned
  have quiet := (inv.gone returned).2.1 t
  rw [here,committed] at quiet
  cases quiet

theorem enabledEarly (inv : Inv s) (enabled : s.enabled = true) : s.removal ≠ .returned := by
  intro returned
  rw [inv.off (by rw [returned]; decide)] at enabled
  cases enabled

theorem chanInv (inv : Inv s) (uchan : Option Nat) {u : Uci τ} (reader : u.reader = s.uci.reader) :
    Inv {s with uchan := uchan, uci := u} := by
  refine ⟨inv.off,inv.unprepares,?_,inv.early,inv.late,inv.opens⟩
  intro returned
  obtain ⟨unlisted,still⟩ := inv.gone returned
  refine ⟨unlisted,still.1,?_⟩
  intro t phase here
  exact still.2 t phase (reader.symm.trans here)

theorem uciInv (inv : Inv s) {u : Uci τ}
    (reader : s.removal = .returned → ∀ t phase, u.reader = some (t,phase) → holding phase = false) : Inv (s.withUci u) :=
  ⟨inv.off,inv.unprepares,(fun returned => ⟨(inv.gone returned).1,(inv.gone returned).2.1,reader returned⟩),
    inv.early,inv.late,inv.opens⟩

theorem loggedInv (inv : Inv s) {o : Bool × Bool} (fine : o.1 = true → o.2 = false) :
    Inv {s with opens := s.opens ++ [o]} := by
  refine ⟨inv.off,inv.unprepares,inv.gone,inv.early,inv.late,?_⟩
  intro x member
  rcases List.mem_append.mp member with before | last
  · exact inv.opens x before
  · rw [List.mem_singleton.mp last]
    exact fine

theorem earlyAt {p : Pos φ} (inv : Inv s) (here : s.pos t = p) : p.late = false := by
  have early := inv.early t
  rw [here] at early
  exact early

theorem disableInv (inv : Inv s) (lock : ∀ u, (s.pos u).locked = false) :
    Inv {s with enabled := false, removal := .disabling} := by
  refine ⟨fun _ => rfl,?_,(fun returned => nomatch returned),inv.early,inv.late,inv.opens⟩
  intro u g e here
  have locked := lock u
  rw [here] at locked
  cases locked

theorem probedInv (ul dl : Bool) (uci : Uci τ) : Inv (Node.probed ul dl uci : Node φ τ) :=
  ⟨(fun begun => absurd rfl begun),(fun _ _ _ here => nomatch here),(fun returned => nomatch returned),
    fun _ => rfl,rfl,fun _ member => nomatch member⟩

theorem checkInv {count : Nat} {nonblock : Bool} (inv : Inv s) (clear : Clear .reading s) :
    Inv (s.withUci (s.uci.check t count nonblock)) := by
  refine uciInv inv ?_
  intro returned u phase is
  obtain ⟨cur,pending⟩ := clear returned
  have none : (s.uci.curBuf.isNone && s.uci.dlPending.isEmpty) = true := by rw [cur,pending]; rfl
  rw [Uci.check,if_pos none] at is
  split at is
  · cases is
  · cases is
    rfl

theorem holdingInv {u : Uci τ} {phase : UciRead.Phase} (inv : Inv s) (here : s.uci.reader = some (t,phase))
    (holds : holding phase = true) : s.removal ≠ .returned ∧ Inv (s.withUci u) := by
  have before : s.removal ≠ .returned := by
    intro returned
    rw [(inv.gone returned).2.2 t phase here] at holds
    cases holds
  exact ⟨before,uciInv inv fun returned => absurd returned before⟩

theorem unlockInv {got : Bytes} (inv : Inv s) : Inv (s.withUci (s.uci.unlock t got)) :=
  uciInv inv fun _ _ _ is => nomatch is

theorem finishInv {node : Nat} {got : Bytes} {ok : Bool} (inv : Inv s) (here : s.uci.reader = some (t,.copied got)) :
    Inv (s.finish t node got ok) := by
  have before := (holdingInv (u := s.uci) inv here rfl).1
  unfold Node.finish
  dsimp only
  rw [callsEarly _ before,ite_self]
  split
  · exact (holdingInv inv here rfl).2
  · exact (holdingInv inv here rfl).2

variable [DecidableEq τ]

theorem goInv (inv : Inv s) (p : Pos φ) (unprepares : ∀ f e, p = .unpreparing f e → s.enabled = true)
    (quiet : s.removal = .returned → p.committed = false) (early : p.late = false) : Inv (s.go t p) := by
  refine ⟨inv.off,?_,?_,?_,inv.late,inv.opens⟩
  · intro u g e here
    rcases Decidable.eq_or_ne u t with rfl | other
    · simp only [Node.go,Function.update_self] at here
      exact unprepares g e here
    · simp only [Node.go,Function.update_of_ne other] at here
      exact inv.unprepares u g e here
  · intro returned
    obtain ⟨unlisted,still⟩ := inv.gone returned
    refine ⟨unlisted,?_,still.2⟩
    intro u
    rcases Decidable.eq_or_ne u t with rfl | other
    · simp only [Node.go,Function.update_self]
      exact quiet returned
    · simp only [Node.go,Function.update_of_ne other]
      exact still.1 u
  · intro u
    rcases Decidable.eq_or_ne u t with rfl | other
    · simp only [Node.go,Function.update_self]
      exact early
    · simp only [Node.go,Function.update_of_ne other]
      exact inv.early u

theorem restInv (inv : Inv s) (p : Pos φ) (plain : ∀ f e, p ≠ .unpreparing f e) (quiet : p.committed = false)
    (early : p.late = false) : Inv (s.go t p) :=
  goInv inv p (fun f e same => absurd same (plain f e)) (fun _ => quiet) early

theorem idleInv (inv : Inv s) : Inv (s.go t .idle) := restInv inv .idle (fun _ _ same => nomatch same) rfl rfl

theorem aheadInv (inv : Inv s) (p : Pos φ) (before : s.removal ≠ .returned) (plain : ∀ f e, p ≠ .unpreparing f e)
    (early : p.late = false) : Inv (s.go t p) :=
  goInv inv p (fun f e same => absurd same (plain f e)) (fun returned => absurd returned before) early

theorem refusedInv (inv : Inv s) (late : Bool) : Inv (s.refused t late) := loggedInv (idleInv (t := t) inv) fun _ => rfl

theorem failedInv (inv : Inv s) (early : late = false) : Inv (s.go t (.releasing f (.failed late))) :=
  restInv inv _ (fun _ _ same => nomatch same) rfl early

theorem lookUpInv (inv : Inv s) : Inv (s.lookUp t f) := by
  unfold Node.lookUp
  dsimp only
  split
  · rename_i listed
    -- the entry is still there, so the removal has not returned
    have before : s.removal ≠ .returned := by
      intro returned
      rw [(inv.gone returned).1] at listed
      cases listed
    exact aheadInv inv _ before (fun _ _ same => nomatch same) (decide_eq_false before)
  · exact refusedInv inv _

theorem countInv {nrTrbs : Nat} (inv : Inv s) (here : s.pos t = .counting f late) (early : late = false) :
    Inv (s.count t f late nrTrbs) := by
  have before := committedEarly inv here rfl
  unfold Node.count
  rw [callsEarly _ before]
  dsimp only
  split
  · exact failedInv inv early
  · exact aheadInv inv _ before (fun _ _ same => nomatch same) early

theorem fillInv {left : Nat} {buf : Option Nat} {ok : Bool} (inv : Inv s) (here : s.pos t = .filling f late (left+1))
    (early : late = false) : Inv (s.fill t f late left buf ok) := by
  have before := committedEarly inv here rfl
  unfold Node.fill
  rw [callsEarly _ before]
  cases buf with
  | none => exact failedInv inv early
  | some buf =>
    dsimp only
    split
    · have queued : Inv {s with uci := {s.uci with queued := s.uci.queued ++ [(buf,s.uci.mtu)]}} := chanInv inv s.uchan rfl
      exact aheadInv queued (.filling f late left) before (fun _ _ same => nomatch same) early
    · exact failedInv inv early

theorem pollInv (inv : Inv s) : Inv (s.poll t f) := by
  unfold Node.poll
  split
  · rename_i enabled
    exact aheadInv inv _ (enabledEarly inv enabled) (fun _ _ same => nomatch same) rfl
  · exact idleInv inv

theorem writeInv {left nrAvail : Nat} {nonblock filled ok : Bool} {place : WriteAt} (inv : Inv s)
    (here : s.pos t = .writing f left nonblock place) : Inv (s.write t f left nonblock place nrAvail filled ok) := by
  have stays : ∀ next, Pos.committed (.writing f left nonblock next) = false → Inv (s.go t (.writing f left nonblock next)) :=
    fun next plain => restInv inv _ (fun _ _ same => nomatch same) plain rfl
  have ahead : ∀ next, s.removal ≠ .returned → Inv (s.go t (.writing f left nonblock next)) :=
    fun next before => aheadInv inv _ before (fun _ _ same => nomatch same) rfl
  unfold Node.write
  cases place with
  | head =>
    dsimp only
    split
    · exact idleInv inv
    · split
      · rename_i both
        exact ahead _ (enabledEarly inv (Bool.and_eq_true_iff.mp both).1)
      · exact stays _ rfl
  | counting =>
    rw [callsEarly _ (committedEarly inv here rfl)]
    dsimp only
    split
    · exact idleInv inv
    · exact stays _ rfl
  | waiting =>
    dsimp only
    split
    · rename_i enabled
      exact ahead _ (enabledEarly inv enabled)
    · exact stays _ rfl
  | waitCounting =>
    rw [callsEarly _ (committedEarly inv here rfl)]
    dsimp only
    split
    · exact stays _ rfl
    · exact stays _ rfl
  | woken =>
    dsimp only
    split
    · rename_i enabled
      exact ahead _ (enabledEarly inv enabled)
    · exact idleInv inv
  | queueing =>
    dsimp only
    rw [callsEarly .mhiQueueBuf (committedEarly inv here rfl)]
    split
    · exact idleInv inv
    · split
      · exact restInv inv _ (fun _ _ same => nomatch same) rfl rfl
      · exact idleInv inv

end Frames

section Steps
variable {φ τ : Type} [DecidableEq φ] [DecidableEq τ] {s : Node φ τ} {t : τ} {f : φ} {late : Bool}

theorem openedInv (inv : Inv s) (early : late = false) : Inv (s.opened t f late) := by
  have filed : Inv (s.setFile f true) := ⟨inv.off,inv.unprepares,inv.gone,inv.early,inv.late,inv.opens⟩
  exact loggedInv (idleInv (t := t) filed) fun asked => absurd (early.symm.trans asked) Bool.false_ne_true

theorem closeInv (inv : Inv s) (ending : Ending) : Inv (s.closeChan t f ending) := by
  have closed : Inv {s with uchan := none, uci := {s.uci with dlPending := [], curBuf := none}} := chanInv inv none rfl
  cases ending with
  | failed late => exact refusedInv closed late
  | released => exact idleInv ⟨closed.off,closed.unprepares,closed.gone,closed.early,closed.late,closed.opens⟩

theorem startedInv (inv : Inv s) (early : late = false) : Inv (s.started t f late) :=
  openedInv (chanInv inv (some 1) rfl) early

theorem startChanInv {alloc : Bool} (inv : Inv s) (here : s.pos t = .lookedUp f late)
    (clear : Clear .starting s) : Inv (s.startChan t f late alloc) := by
  have early : late = false := by
    have early := inv.early t
    rw [here] at early
    exact early
  unfold Node.startChan
  split
  · exact openedInv (chanInv inv _ rfl) early
  · rename_i dead
    split
    · have before : s.removal ≠ .returned := by
        intro returned
        obtain ⟨refs,alive⟩ := clear returned
        exact dead refs alive
      refine aheadInv (chanInv inv _ ?_) _ before (fun _ _ same => nomatch same) early
      rfl
    · exact refusedInv inv late

theorem prepareInv {ok : Bool} (inv : Inv s) (here : s.pos t = .preparing f late) (early : late = false) :
    Inv (s.prepare t f late ok) := by
  have before := committedEarly inv here rfl
  unfold Node.prepare
  rw [callsEarly _ before]
  dsimp only
  split
  · split
    · exact aheadInv inv _ before (fun _ _ same => nomatch same) early
    · exact startedInv inv early
  · exact failedInv inv early

theorem releaseInv {refs : Nat} (inv : Inv s) : Inv (s.release t f refs) := by
  have dropped := chanInv inv (some (refs-1)) rfl
  unfold Node.release
  dsimp only
  split
  · exact restInv dropped _ (fun _ _ same => nomatch same) rfl rfl
  · exact ⟨dropped.off,dropped.unprepares,dropped.gone,dropped.early,dropped.late,dropped.opens⟩

theorem chanReleaseInv {ending : Ending} (inv : Inv s) (here : s.pos t = .releasing f ending) :
    Inv (s.chanRelease t f ending) := by
  unfold Node.chanRelease
  split
  · rename_i enabled
    have early := inv.early t
    rw [here] at early
    refine goInv inv _ (fun _ _ _ => enabled) (fun _ => rfl) ?_
    cases ending with
    | failed late => exact early
    | released => rfl
  · exact closeInv inv ending

theorem unprepareInv {ending : Ending} (inv : Inv s) (here : s.pos t = .unpreparing f ending) :
    Inv ((s.calls .mhiUnprepareFromTransfer).closeChan t f ending) := by
  -- it holds the lock since it saw `enabled`, so the removal has not begun
  rw [callsEarly _ (enabledEarly inv (inv.unprepares t f ending here))]
  exact closeInv inv ending

theorem stepInv {s' : Node φ τ} (step : Step Clear s s') (inv : Inv s) : Inv s' := by
  cases step with
  | lookUp t f free new mine => exact lookUpInv inv
  | startChan t f late alloc here lock other allowed => exact startChanInv inv here allowed
  | prepare t f late ok here => exact prepareInv inv here (earlyAt inv here)
  | count t f late nrTrbs here => exact countInv inv here (earlyAt inv here)
  | fill t f late left buf ok here => exact fillInv inv here (earlyAt inv here)
  | filled t f late here => exact startedInv inv (earlyAt inv here)
  | release t f refs free isOpen last lock other counted => exact releaseInv inv
  | chanRelease t f ending here => exact chanReleaseInv inv here
  | unprepare t f ending here => exact unprepareInv inv here
  | poll t f free isOpen => exact restInv inv _ (fun _ _ same => nomatch same) rfl rfl
  | polled t f here => exact pollInv inv
  | pollCount t f here =>
    rw [callsEarly _ (committedEarly inv here rfl)]
    exact idleInv inv
  | write t f count nonblock free isOpen uplink lock => exact restInv inv _ (fun _ _ same => nomatch same) rfl rfl
  | writes t f left nonblock place nrAvail filled ok here => exact writeInv inv here
  | writeSignal t f left nonblock here => exact idleInv inv
  | read t f count nonblock free isOpen downlink lock =>
    have entered : Inv (s.withUci (s.uci.at' t (.entered count nonblock))) := by
      refine uciInv inv ?_
      intro _ u phase is
      cases is
      rfl
    exact restInv entered _ (fun _ _ same => nomatch same) rfl rfl
  | readCheck t count nonblock here allowed => exact checkInv inv allowed
  | readWake t count here data alive =>
    exact uciInv inv fun returned => absurd returned (enabledEarly inv alive)
  | readGiveUp t count here => exact unlockInv inv
  | readTake t count here => exact (holdingInv inv here rfl).2
  | readCopy t count node here cur => exact (holdingInv inv here rfl).2
  | readFault t count here => exact unlockInv inv
  | readFinish t got node ok here cur => exact finishInv inv here
  | readReturn t f here done => exact idleInv inv
  | received step same =>
    refine uciInv inv ?_
    intro returned u phase is
    exact (inv.gone returned).2.2 u phase (same.symm.trans is)
  | disable bound lock => exact disableInv inv lock
  | unlock held =>
    exact ⟨fun _ => inv.off (by rw [held]; decide),inv.unprepares,(fun returned => nomatch returned),inv.early,inv.late,inv.opens⟩
  | removed off allowed =>
    exact ⟨fun _ => inv.off (by rw [off]; decide),inv.unprepares,fun _ => ⟨rfl,allowed⟩,inv.early,inv.late,inv.opens⟩

theorem removalFinal {ul dl : Bool} {uci : Uci τ} (run : ReflTransGen (Step Clear) (Node.probed ul dl uci : Node φ τ) s) :
    Final s := by
  have kept := Runs.keeps (I := Inv) (fun _ _ step inv => stepInv step inv) run (probedInv ul dl uci)
  exact ⟨kept.late,kept.opens⟩

end Steps

namespace Sample

def bound : Node Bool Bool := Node.probed true true (Uci.start 0x1000 (fun _ => 0) (fun _ => ⟨0,0⟩) [])
def starting : Node Bool Bool := ((bound.lookUp true true).startChan true true false true).prepare true true false true
def inUse : Node Bool Bool := ((starting.count true true false 1).fill true true false 0 (some 0) true).started true true false

def received : Node Bool Bool := inUse.withUci ({inUse.uci with queued := []}.mhiDlXferCb 0 2 fun _ => 0)
def reading : Node Bool Bool := (received.withUci (received.uci.at' true (.entered 8 false))).go true (.reading true)
def taken : Node Bool Bool := reading.withUci (reading.uci.check true 8 false)
def copied : Node Bool Bool := taken.withUci (taken.uci.copy true 0x1000 8)
def hasRead : Node Bool Bool := (copied.finish true 0x1000 [0,0] true).go true .idle

def turn (left : Nat) (place : WriteAt) (s : Node Bool Bool) : Node Bool Bool := s.write false true left false place 1 true true
def offered : Node Bool Bool := turn 4 .waiting (turn 4 .head (hasRead.go false (.writing true 4 false .head)))
def used : Node Bool Bool := turn 0 .head (turn 4 .queueing (turn 4 .woken (turn 4 .waitCounting offered)))

def remove (s : Node Bool Bool) : Node Bool Bool :=
  {s with enabled := false, listed := false, removal := .returned}

def refusing : Node Bool Bool := (((remove used).lookUp false false).go true (.polling true)).poll true true
def closed : Node Bool Bool := (refusing.release true true 1).chanRelease true true .released

def raced : Node Bool Bool := ((remove (bound.lookUp true true)).startChan true true false true).prepare true true false true

theorem removes {may : Moment → Node Bool Bool → Prop} {s : Node Bool Bool} (bound : s.removal = .bound)
    (lock : ∀ u, (s.pos u).locked = false) (allowed : may .removed {s with enabled := false, removal := .disabled}) :
    ReflTransGen (Step may) s (remove s) :=
  ((ReflTransGen.single (.disable bound lock)).tail (.unlock rfl)).tail (.removed rfl allowed)

theorem opens : ReflTransGen (Step Clear) bound inUse := by
  have found : Step Clear bound (bound.lookUp true true) := .lookUp true true rfl rfl (by decide)
  have begun : Step Clear (bound.lookUp true true) ((bound.lookUp true true).startChan true true false true) :=
    .startChan true true false true rfl (by decide) (by decide) (fun returned => nomatch returned)
  have started : ReflTransGen (Step Clear) bound starting :=
    ((ReflTransGen.single found).tail begun).tail (.prepare true true false true rfl)
  exact ((started.tail (.count true true false 1 rfl)).tail
    (.fill true true false 0 (some 0) true rfl)).tail (.filled true true false rfl)

theorem reads : ReflTransGen (Step Clear) inUse hasRead := by
  have came : Step Clear inUse received := .received (.completed [] 0 0x1000 [] 2 _ rfl (by decide)) rfl
  have begun : Step Clear received reading := .read true true 8 false rfl rfl rfl rfl
  have tested : Step Clear reading taken := .readCheck true 8 false rfl fun returned => nomatch returned
  have taken' : Step Clear taken copied := .readCopy true 8 0x1000 rfl rfl
  have finished : Step Clear copied (copied.finish true 0x1000 [0,0] true) := .readFinish true [0,0] 0x1000 true rfl rfl
  have ended : Step Clear (copied.finish true 0x1000 [0,0] true) hasRead := .readReturn true true rfl fun _ there => nomatch there
  exact (((((ReflTransGen.single came).tail begun).tail tested).tail taken').tail finished).tail ended

theorem writes : ReflTransGen (Step Clear) hasRead used := by
  have begun : Step Clear hasRead (hasRead.go false (.writing true 4 false .head)) :=
    .write false true 4 false rfl rfl rfl (by decide)
  have turns (left : Nat) (place : WriteAt) {s : Node Bool Bool} (here : s.pos false = .writing true left false place) :
      Step Clear s (turn left place s) := .writes false true left false place 1 true true here
  have waits : ReflTransGen (Step Clear) hasRead offered :=
    ((ReflTransGen.single begun).tail (turns 4 .head rfl)).tail (turns 4 .waiting rfl)
  exact (((waits.tail (turns 4 .waitCounting rfl)).tail (turns 4 .woken rfl)).tail (turns 4 .queueing rfl)).tail
    (turns 0 .head rfl)

theorem closes : ReflTransGen (Step Clear) bound closed := by
  have quiet : Quiet {used with enabled := false, removal := .disabled} := ⟨by decide,fun _ _ is => nomatch is⟩
  have removed := ((opens.trans reads).trans writes).trans (removes rfl (by decide) quiet)
  have refused := removed.tail (.lookUp false false rfl rfl (by decide))
  have polled : ReflTransGen (Step Clear) bound refusing :=
    (refused.tail (.poll true true rfl rfl)).tail (.polled true true rfl)
  have last : Step Clear refusing (refusing.release true true 1) :=
    .release true true 1 rfl rfl (by decide) (by decide) (by decide) rfl
  exact (polled.tail last).tail (.chanRelease true true .released rfl)

theorem races : ReflTransGen (Step fun _ _ => True) bound raced := by
  have found : Step (fun _ _ => True) bound (bound.lookUp true true) := .lookUp true true rfl rfl (by decide)
  have removed := (ReflTransGen.single found).trans (@removes (fun _ _ => True) _ rfl (by decide) trivial)
  have begun := removed.tail (.startChan true true false true rfl (by decide) (by decide) trivial)
  exact begun.tail (.prepare true true false true rfl)

end Sample

theorem closedFinal : Sample.closed.removal = .returned ∧ Sample.closed.opens = [(false,true),(true,false)] ∧
    Sample.closed.uci.reads = [(true,[0,0])] ∧ Final Sample.closed :=
  ⟨rfl,rfl,rfl,removalFinal Sample.closes⟩

theorem racedOpenPrepares : ¬∀ s : Node Bool Bool,
    ReflTransGen (Step fun _ _ => True) Sample.bound s → Final s := by
  intro claim
  have silent := (claim _ Sample.races).1
  cases silent

end MhiHost.UciRemoval
