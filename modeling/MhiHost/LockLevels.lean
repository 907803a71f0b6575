import Mathlib.Logic.Function.Basic
import MhiHost.Runs

/-! CPUs whose threads take and drop locks, with softirqs that strike between their steps. The
order that rules out deadlock has two levels for a lock and a mode, one of waiting for it and one of
holding it: a reader who passes the writers in the queue waits for a writer only, and may come
later in the order than one who lines up behind them. -/
namespace MhiHost.LockLevels

/- `queued`: a reader who lines up behind a waiting writer. -/
inductive Mode where
  | exclusive
  | shared
  | queued
  deriving DecidableEq, Repr

def Mode.Blocks : Mode → Mode → Prop
  | .exclusive,_ => True
  | _,holder => holder = .exclusive

/- Whether the first can be waiting while the second has the lock: in the queue a reader waits for
readers too, behind the writer who waits for them. -/
def Mode.Waits : Mode → Mode → Prop
  | .shared,holder => holder = .exclusive
  | _,_ => True

theorem Mode.blocksWaits {taker holder : Mode} (blocks : taker.Blocks holder) : taker.Waits holder := by
  cases taker with
  | shared => exact blocks
  | exclusive | queued => trivial

inductive Code (L : Type) where
  | skip
  | sleep
  | hold (lock : L) (mode : Mode) (body : Code L)
  | await (lock : L)
  | seq (first second : Code L)
  | choice (left right : Code L)
  | loop (body : Code L)
  | any (body : Nat → Code L)

def steps {L : Type} : List (Code L) → Code L
  | [] => .skip
  | c :: cs => .seq c (steps cs)

def maybe {L : Type} (c : Code L) : Code L := .choice c .skip

inductive Item (L : Type) where
  | code (c : Code L)
  | drop (lock : L) (mode : Mode)

structure Levels {L : Type} (masks : L → Bool) where
  want : L → Mode → Nat
  held : L → Mode → Nat
  floor : Nat
  top : Nat
  waits : ∀ {lock taker holder}, Mode.Waits taker holder → want lock taker ≤ held lock holder
  below : ∀ lock mode, want lock mode ≤ top
  masked : ∀ {lock}, masks lock = true → ∀ mode, floor ≤ held lock mode
  unmasked : ∀ {lock}, masks lock = false → ∀ mode, held lock mode ≤ floor

section Discipline
variable {L : Type} {masks : L → Bool}

def Climbs (lv : Levels masks) : Nat → Code L → Prop
  | _,.skip => True
  | level,.sleep => level < lv.floor
  | level,.hold lock mode body => level < lv.want lock mode ∧ Climbs lv (max level (lv.held lock mode)) body
  | level,.await lock => level < lv.want lock .exclusive
  | level,.seq first second => Climbs lv level first ∧ Climbs lv level second
  | level,.choice left right => Climbs lv level left ∧ Climbs lv level right
  | level,.loop body => Climbs lv level body
  | level,.any body => ∀ i, Climbs lv level (body i)

def level (lv : Levels masks) (base : Nat) : List (Item L) → Nat
  | [] => base
  | .code _ :: rest => level lv base rest
  | .drop lock mode :: rest => max (level lv base rest) (lv.held lock mode)

def Climbing (lv : Levels masks) (base : Nat) : List (Item L) → Prop
  | [] => True
  | .code c :: rest => Climbs lv (level lv base rest) c ∧ Climbing lv base rest
  | .drop _ _ :: rest => Climbing lv base rest

end Discipline

section Running
variable {L : Type}

/- One item; `free` says which locks are there to be taken. -/
inductive Turn (free : L → Mode → Prop) : List (Item L) → List (Item L) → Prop where
  | skip {rest} : Turn free (.code .skip :: rest) rest
  | sleep {rest} : Turn free (.code .sleep :: rest) rest
  | hold {lock mode body rest} (here : free lock mode) :
      Turn free (.code (.hold lock mode body) :: rest) (.code body :: .drop lock mode :: rest)
  | await {lock rest} (here : free lock .exclusive) : Turn free (.code (.await lock) :: rest) rest
  | seq {first second rest} : Turn free (.code (.seq first second) :: rest) (.code first :: .code second :: rest)
  | left {left right rest} : Turn free (.code (.choice left right) :: rest) (.code left :: rest)
  | right {left right rest} : Turn free (.code (.choice left right) :: rest) (.code right :: rest)
  | again {body rest} : Turn free (.code (.loop body) :: rest) (.code body :: .code (.loop body) :: rest)
  | leave {body rest} : Turn free (.code (.loop body) :: rest) rest
  | any {body rest} (i : Nat) : Turn free (.code (.any body) :: rest) (.code (body i) :: rest)
  | drop {lock mode rest} : Turn free (.drop lock mode :: rest) rest

structure Cpu (L : Type) where
  thread : List (Item L)
  softirq : Option (List (Item L))

def Cpu.running (cpu : Cpu L) : List (Item L) := cpu.softirq.getD cpu.thread

def Cpu.Holds (cpu : Cpu L) (lock : L) (mode : Mode) : Prop :=
  .drop lock mode ∈ cpu.thread ∨ ∃ items, cpu.softirq = some items ∧ .drop lock mode ∈ items

def Cpu.Busy (cpu : Cpu L) : Prop := cpu.thread ≠ [] ∨ cpu.softirq.isSome = true

variable {ι σ : Type}

def Free (cpus : ι → Cpu L) (lock : L) (mode : Mode) : Prop :=
  ∀ i holder, (cpus i).Holds lock holder → ¬mode.Blocks holder

def asks : List (Item L) → Option (L × Mode)
  | .code (.hold lock mode _) :: _ => some (lock,mode)
  | .code (.await lock) :: _ => some (lock,.exclusive)
  | _ => none

def WaitsFor (cpus : ι → Cpu L) (i j : ι) : Prop :=
  ∃ lock mode holder, asks (cpus i).running = some (lock,mode) ∧ (cpus j).Holds lock holder ∧ mode.Waits holder

def start (program : ι → Code L) : ι → Cpu L := fun i => ⟨[.code (program i)],none⟩

def Inv {masks : L → Bool} (lv : Levels masks) (cpus : ι → Cpu L) : Prop :=
  ∀ i, Climbing lv 0 (cpus i).thread ∧ ∀ items, (cpus i).softirq = some items →
    Climbing lv lv.floor items ∧ ∀ lock mode, Item.drop lock mode ∈ (cpus i).thread → masks lock = false

variable [DecidableEq ι]

inductive Acts (cpus : ι → Cpu L) (i : ι) : (ι → Cpu L) → Prop where
  | thread {items} (alone : (cpus i).softirq = none) (turn : Turn (Free cpus) (cpus i).thread items) :
      Acts cpus i (Function.update cpus i ⟨items,none⟩)
  | softirq {items after} (busy : (cpus i).softirq = some items) (turn : Turn (Free cpus) items after) :
      Acts cpus i (Function.update cpus i ⟨(cpus i).thread,some after⟩)
  | back (done : (cpus i).softirq = some []) : Acts cpus i (Function.update cpus i ⟨(cpus i).thread,none⟩)

inductive Step (masks : L → Bool) (handler : σ → Code L) (cpus : ι → Cpu L) : (ι → Cpu L) → Prop where
  | acts {i after} (act : Acts cpus i after) : Step masks handler cpus after
  | strikes (i : ι) (h : σ) (alone : (cpus i).softirq = none)
      (on : ∀ lock mode, Item.drop lock mode ∈ (cpus i).thread → masks lock = false) :
      Step masks handler cpus (Function.update cpus i ⟨(cpus i).thread,some [.code (handler h)]⟩)

def Able (cpus : ι → Cpu L) (i : ι) : Prop := ∃ after, Acts cpus i after

def Clear (cpus : ι → Cpu L) (i : ι) : Prop := Able cpus i ∧ ∀ j, ¬WaitsFor cpus i j

end Running

section Order
variable {L ι σ : Type} {masks : L → Bool} {lv : Levels masks}

theorem turnClimbs {free : L → Mode → Prop} {base : Nat} {items after : List (Item L)} (turn : Turn free items after)
    (climbing : Climbing lv base items) : Climbing lv base after := by
  cases turn with
  | skip | sleep | await | leave => exact climbing.2
  | hold here => exact ⟨climbing.1.2,climbing.2⟩
  | seq => exact ⟨climbing.1.1,climbing.1.2,climbing.2⟩
  | left => exact ⟨climbing.1.1,climbing.2⟩
  | right => exact ⟨climbing.1.2,climbing.2⟩
  | again => exact ⟨climbing.1,climbing.1,climbing.2⟩
  | any i => exact ⟨climbing.1 i,climbing.2⟩
  | drop => exact climbing

theorem baseLevel {base : Nat} (items : List (Item L)) : base ≤ level lv base items := by
  induction items with
  | nil => exact Nat.le_refl _
  | cons item rest ih =>
    cases item with
    | code c => exact ih
    | drop lock mode => exact Nat.le_trans ih (Nat.le_max_left _ _)

theorem heldLevel {base : Nat} {items : List (Item L)} {lock : L} {mode : Mode} (inside : .drop lock mode ∈ items) :
    lv.held lock mode ≤ level lv base items := by
  induction items with
  | nil => cases inside
  | cons item rest ih =>
    cases item with
    | code c =>
      rcases List.mem_cons.mp inside with same | inside
      · cases same
      · exact ih inside
    | drop other its =>
      rcases List.mem_cons.mp inside with same | inside
      · cases same
        exact Nat.le_max_right _ _
      · exact Nat.le_trans (ih inside) (Nat.le_max_left _ _)

theorem asksAbove {base : Nat} {items : List (Item L)} {lock : L} {mode : Mode} (climbing : Climbing lv base items)
    (asked : asks items = some (lock,mode)) : level lv base items < lv.want lock mode := by
  cases items with
  | nil => cases asked
  | cons item rest =>
    cases item with
    | drop other its => cases asked
    | code c =>
      cases c with
      | hold other its body =>
        cases asked
        exact climbing.1.1
      | await other =>
        cases asked
        exact climbing.1
      | skip | sleep | seq | choice | loop | any => cases asked

theorem turns {free : L → Mode → Prop} {items : List (Item L)} (some_ : items ≠ [])
    (here : ∀ lock mode, asks items = some (lock,mode) → free lock mode) : ∃ after, Turn free items after := by
  cases items with
  | nil => exact absurd rfl some_
  | cons item rest =>
    cases item with
    | drop lock mode => exact ⟨_,.drop⟩
    | code c =>
      cases c with
      | skip => exact ⟨_,.skip⟩
      | sleep => exact ⟨_,.sleep⟩
      | hold lock mode body => exact ⟨_,.hold (here lock mode rfl)⟩
      | await lock => exact ⟨_,.await (here lock .exclusive rfl)⟩
      | seq first second => exact ⟨_,.seq⟩
      | choice left right => exact ⟨_,.left⟩
      | loop body => exact ⟨_,.leave⟩
      | any body => exact ⟨_,.any 0⟩

variable {cpus : ι → Cpu L}

theorem startInv {program : ι → Code L} (climbs : ∀ i, Climbs lv 0 (program i)) : Inv lv (start program) := by
  intro i
  refine ⟨⟨climbs i,trivial⟩,fun items none_ => ?_⟩
  cases none_

@[simp] theorem climbsSteps {n : Nat} {codes : List (Code L)} : Climbs lv n (steps codes) ↔ ∀ c ∈ codes, Climbs lv n c := by
  induction codes with
  | nil => simp [steps,Climbs]
  | cons c codes ih => simp [steps,Climbs,ih]

@[simp] theorem climbsSkip {n : Nat} : Climbs lv n (.skip : Code L) ↔ True := Iff.rfl

@[simp] theorem climbsChoice {n : Nat} {left right : Code L} :
    Climbs lv n (.choice left right) ↔ Climbs lv n left ∧ Climbs lv n right := Iff.rfl

@[simp] theorem climbsLoop {n : Nat} {body : Code L} : Climbs lv n (.loop body) ↔ Climbs lv n body := Iff.rfl

@[simp] theorem climbsAny {n : Nat} {body : Nat → Code L} :
    Climbs lv n (.any body) ↔ ∀ i, Climbs lv n (body i) := Iff.rfl

@[simp] theorem climbsMaybe {n : Nat} {c : Code L} : Climbs lv n (maybe c) ↔ Climbs lv n c := by simp [maybe]

theorem holderAbove {j : ι} {lock next : L} {holder mode : Mode} (kept : Inv lv cpus) (has : (cpus j).Holds lock holder)
    (asked : asks (cpus j).running = some (next,mode)) : lv.held lock holder < lv.want next mode := by
  cases soft : (cpus j).softirq with
  | none =>
    rw [Cpu.running,soft,Option.getD_none] at asked
    rcases has with inside | ⟨items,busy,_⟩
    · exact Nat.lt_of_le_of_lt (heldLevel inside) (asksAbove (kept j).1 asked)
    · rw [soft] at busy
      cases busy
  | some items =>
    obtain ⟨climbing,off⟩ := (kept j).2 items soft
    rw [Cpu.running,soft,Option.getD_some] at asked
    have above := asksAbove climbing asked
    rcases has with inside | ⟨others,busy,inside⟩
    · -- the thread under the softirq has nothing above the floor
      have low := lv.unmasked (off lock holder inside) holder
      exact Nat.lt_of_le_of_lt (Nat.le_trans low (baseLevel items)) above
    · rw [soft] at busy
      cases busy
      exact Nat.lt_of_le_of_lt (heldLevel inside) above

theorem holderBusy {j : ι} {lock : L} {holder : Mode} (has : (cpus j).Holds lock holder) : (cpus j).Busy := by
  rcases has with inside | ⟨items,busy,_⟩
  · exact .inl (List.ne_nil_of_mem inside)
  · exact .inr (by rw [busy]; rfl)

theorem chainRises {i j : ι} (kept : Inv lv cpus) (chain : Relation.TransGen (WaitsFor cpus) i j) :
    ∀ {lock next : L} {mode its : Mode}, asks (cpus i).running = some (lock,mode) → asks (cpus j).running = some (next,its) →
      lv.want lock mode < lv.want next its := by
  induction chain with
  | single waits =>
    intro lock next mode its first last
    obtain ⟨other,how,holder,asked,has,stops⟩ := waits
    cases asked.symm.trans first
    exact Nat.lt_of_le_of_lt (lv.waits stops) (holderAbove kept has last)
  | tail _ waits ih =>
    intro lock next mode its first last
    obtain ⟨other,how,holder,asked,has,stops⟩ := waits
    exact Nat.lt_trans (ih first asked) (Nat.lt_of_le_of_lt (lv.waits stops) (holderAbove kept has last))

theorem noCycle {i : ι} (kept : Inv lv cpus) : ¬Relation.TransGen (WaitsFor cpus) i i := by
  intro chain
  have asked : ∃ lock mode, asks (cpus i).running = some (lock,mode) := by
    obtain ⟨_,⟨lock,mode,_,asked,_⟩,_⟩ := Relation.TransGen.head'_iff.mp chain
    exact ⟨lock,mode,asked⟩
  obtain ⟨lock,mode,asked⟩ := asked
  exact Nat.lt_irrefl _ (chainRises kept chain asked asked)

theorem sleepsOpen {i : ι} {rest : List (Item L)} (kept : Inv lv cpus) (sleeps : (cpus i).running = .code .sleep :: rest) :
    (cpus i).softirq = none ∧ ∀ lock mode, (cpus i).Holds lock mode → masks lock = false := by
  cases soft : (cpus i).softirq with
  | some items =>
    rw [Cpu.running,soft,Option.getD_some] at sleeps
    have climbing := ((kept i).2 items soft).1
    rw [sleeps] at climbing
    exact absurd climbing.1 (Nat.not_lt.mpr (baseLevel rest))
  | none =>
    refine ⟨rfl,fun lock mode has => ?_⟩
    rw [Cpu.running,soft,Option.getD_none] at sleeps
    have climbing := (kept i).1
    rcases has with inside | ⟨items,busy,_⟩
    · rw [sleeps] at climbing inside
      rcases List.mem_cons.mp inside with same | behind
      · cases same
      · cases off : masks lock with
        | false => rfl
        | true =>
          have high : lv.floor ≤ level lv 0 rest := Nat.le_trans (lv.masked off mode) (heldLevel behind)
          exact absurd climbing.1 (Nat.not_lt.mpr high)
    · rw [soft] at busy
      cases busy

variable [DecidableEq ι]

theorem Inv.put {i : ι} {cpu : Cpu L} (kept : Inv lv cpus) (thread : Climbing lv 0 cpu.thread)
    (softirq : ∀ items, cpu.softirq = some items →
      Climbing lv lv.floor items ∧ ∀ lock mode, Item.drop lock mode ∈ cpu.thread → masks lock = false) :
    Inv lv (Function.update cpus i cpu) := by
  intro j
  by_cases same : j = i
  · subst same
    rw [Function.update_self]
    exact ⟨thread,softirq⟩
  · rw [Function.update_of_ne same]
    exact kept j

theorem stepInv {handler : σ → Code L} {after : ι → Cpu L} (soft : ∀ h, Climbs lv lv.floor (handler h))
    (step : Step masks handler cpus after) (kept : Inv lv cpus) : Inv lv after := by
  cases step with
  | @acts i _ act =>
    cases act with
    | thread alone turn =>
      refine kept.put (turnClimbs turn (kept i).1) fun items none_ => ?_
      cases none_
    | softirq busy turn =>
      obtain ⟨climbing,off⟩ := (kept i).2 _ busy
      refine kept.put (kept i).1 fun items same => ?_
      cases same
      exact ⟨turnClimbs turn climbing,off⟩
    | back done =>
      refine kept.put (kept i).1 fun items none_ => ?_
      cases none_
  | strikes i h alone on =>
    refine kept.put (kept i).1 fun items same => ?_
    cases same
    exact ⟨⟨soft h,trivial⟩,on⟩

theorem clearOrWaits {i : ι} (busy : (cpus i).Busy) : Clear cpus i ∨ ∃ j, WaitsFor cpus i j := by
  by_cases waits : ∃ j, WaitsFor cpus i j
  · exact .inr waits
  · have alone : ∀ j, ¬WaitsFor cpus i j := fun j waiting => waits ⟨j,waiting⟩
    have here : ∀ lock mode, asks (cpus i).running = some (lock,mode) → Free cpus lock mode :=
      fun lock mode asked j holder has stops => waits ⟨j,lock,mode,holder,asked,has,Mode.blocksWaits stops⟩
    refine .inl ⟨?_,alone⟩
    cases soft : (cpus i).softirq with
    | none =>
      rw [Cpu.running,soft,Option.getD_none] at here
      rcases busy with some_ | busy
      · obtain ⟨after,turn⟩ := turns some_ here
        exact ⟨_,.thread soft turn⟩
      · rw [soft] at busy
        cases busy
    | some items =>
      rw [Cpu.running,soft,Option.getD_some] at here
      cases items with
      | nil => exact ⟨_,.back soft⟩
      | cons item rest =>
        obtain ⟨after,turn⟩ := turns (List.cons_ne_nil item rest) here
        exact ⟨_,.softirq soft turn⟩

theorem progress {i : ι} (kept : Inv lv cpus) (busy : (cpus i).Busy) :
    ∃ j, Relation.ReflTransGen (WaitsFor cpus) i j ∧ Clear cpus j := by
  -- by how far the lock that is asked for is from the top
  have climb : ∀ n, ∀ i, (cpus i).Busy →
      (∀ lock mode, asks (cpus i).running = some (lock,mode) → lv.top - lv.want lock mode < n) →
      ∃ j, Relation.ReflTransGen (WaitsFor cpus) i j ∧ Clear cpus j := by
    intro n
    induction n with
    | zero =>
      intro i busy near
      rcases clearOrWaits busy with clear | ⟨j,lock,mode,_,asked,_⟩
      · exact ⟨i,.refl,clear⟩
      · exact absurd (near lock mode asked) (Nat.not_lt_zero _)
    | succ n ih =>
      intro i busy near
      rcases clearOrWaits busy with clear | ⟨j,lock,mode,holder,asked,has,stops⟩
      · exact ⟨i,.refl,clear⟩
      · have nearer : ∀ next its, asks (cpus j).running = some (next,its) → lv.top - lv.want next its < n := by
          intro next its asks'
          have higher := Nat.lt_of_le_of_lt (lv.waits stops) (holderAbove kept has asks')
          have inTop := lv.below next its
          have close := near lock mode asked
          omega
        obtain ⟨last,path,clear⟩ := ih j (holderBusy has) nearer
        exact ⟨last,.head ⟨lock,mode,holder,asked,has,stops⟩ path,clear⟩
  exact climb (lv.top+1) i busy fun lock mode _ => by omega

theorem runInv {program : ι → Code L} {handler : σ → Code L} (climbs : ∀ i, Climbs lv 0 (program i))
    (soft : ∀ h, Climbs lv lv.floor (handler h))
    (run : Relation.ReflTransGen (Step masks handler) (start program) cpus) : Inv lv cpus :=
  Runs.keeps (fun _ _ step kept => stepInv soft step kept) run (startInv climbs)

end Order
end MhiHost.LockLevels
