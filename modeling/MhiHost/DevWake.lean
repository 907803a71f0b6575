import MhiHost.Host
import MhiHost.Runs
import Mathlib.Algebra.BigOperators.Group.Finset.Piecewise
import Mathlib.Algebra.Order.BigOperators.Group.Finset
import Mathlib.Data.Fintype.Basic

/-! Device-wake votes, thread by thread: `mhi_assert_dev_wake` and `mhi_deassert_dev_wake`
cut at their atomic operations, with each section under `wlock` as one step, beside the M0
and M1 handlers and the wake part of `mhi_init_mmio`, which takes no `wlock`. A part under
the write lock runs while no thread holds the read lock. -/
namespace MhiHost.DevWake
open Relation (ReflTransGen)

structure Words where
  pm : PmState
  devWake : Int
  wakeSet : Bool
  doorbell : Nat
  deriving DecidableEq, Repr

namespace Words

def ring (w : Words) (val : Nat) (set : Bool) : Words := {w with doorbell := val, wakeSet := set}

/- The three sections under `wlock`. -/
def force (w : Words) : Words :=
  let w := {w with devWake := w.devWake + 1}
  if mhiWakeDbForceSetValid w.pm && !w.wakeSet then w.ring 1 true else w
def slow (w : Words) : Words :=
  let w := {w with devWake := w.devWake + 1}
  if decide (w.devWake = 1) && mhiWakeDbSetValid w.pm && !w.wakeSet then w.ring 1 true else w
def dropSlow (w : Words) (override : Bool) : Words :=
  let w := {w with devWake := w.devWake - 1}
  if decide (w.devWake = 0) && mhiWakeDbClearValid w.pm && !override && w.wakeSet then w.ring 0 false else w

end Words

def lastRung (c : Cntrl) : Nat := ((c.mmio.filter fun write => write.1 == c.wakeDb).getLast?).elim 0 (·.2)
def words (c : Cntrl) : Words := ⟨c.pmState,c.devWake,c.wakeSet,lastRung c⟩

theorem rungLast (c : Cntrl) (val : Nat) : lastRung (mhiWriteDb c c.wakeDb val) = val % 2 ^ 32 := by
  unfold lastRung mhiWriteDb mhiWriteReg
  simp [List.filter_append]

theorem ringWords (c : Cntrl) {val : Nat} (set : Bool) (small : val < 2 ^ 32) :
    words {mhiWriteDb c c.wakeDb val with wakeSet := set} = (words c).ring val set := by
  have last := rungLast c val
  rw [Nat.mod_eq_of_lt small] at last
  exact congrArg (fun v => (⟨c.pmState,c.devWake,set,v⟩ : Words)) last

theorem assertWords (c : Cntrl) (force : Bool) : words (mhiAssertDevWake c force) =
    if force then (words c).force
    else if (words c).devWake ≠ 0 then {words c with devWake := (words c).devWake + 1} else (words c).slow := by
  have rung := ringWords {c with devWake := c.devWake + 1} true (show 1 < 2 ^ 32 by decide)
  unfold mhiAssertDevWake
  cases force with
  | true =>
    rw [if_pos rfl, if_pos rfl]
    dsimp only
    rw [apply_ite words, rung]
    rfl
  | false =>
    rw [if_neg Bool.false_ne_true, if_neg Bool.false_ne_true, apply_ite words]
    dsimp only
    rw [apply_ite words, rung]
    rfl

theorem deassertWords (c : Cntrl) (override : Bool) : words (mhiDeassertDevWake c override) =
    if (words c).devWake ≠ 1 then {words c with devWake := (words c).devWake - 1} else (words c).dropSlow override := by
  have rung := ringWords {c with devWake := c.devWake - 1} false (show 0 < 2 ^ 32 by decide)
  unfold mhiDeassertDevWake
  rw [apply_ite words]
  dsimp only
  rw [apply_ite words, rung]
  rfl

theorem mmioWords (h : Host) (reply : ReadyReply) {val : Nat} (mapped : reply.chdbOff = some val) :
    words (mhiInitMmio h reply).1.cntrl = {words h.cntrl with doorbell := 0, wakeSet := false} := by
  have last := rungLast {h.cntrl with wakeDb := h.regs + val + 8 * mhiDevWakeDb} 0
  unfold mhiInitMmio
  rw [mapped]
  dsimp only
  split <;> exact congrArg (fun v => (⟨h.cntrl.pmState,h.cntrl.devWake,false,v⟩ : Words)) last

inductive Assert where
  | force | fast | slow
  deriving DecidableEq, Repr

inductive Back where
  | caller | m0 | m1
  deriving DecidableEq, Repr

inductive Pc where
  | idle
  | reading
  | asserting (part : Assert) (back : Back)
  | deasserting (slow override : Bool)
  | m0Moved
  | m0Ringing
  | m1Moved
  | m1Leaving
  | m1Got
  | readyMoved
  | mmio
  | mmioUpper
  | mmioCleared
  deriving DecidableEq, Repr

namespace Pc

def locked : Pc → Bool
  | idle | m0Moved | m1Moved | m1Leaving | readyMoved => false
  | _ => true

def inVote : Pc → Bool
  | asserting _ _ | deasserting _ _ => true
  | _ => false

def inM1 : Pc → Bool
  | m1Moved | m1Leaving | m1Got | asserting _ .m1 => true
  | _ => false

def claims : Pc → Bool
  | deasserting _ _ | m0Ringing | m1Got => true
  | _ => false

def owes : Pc → Bool
  | m1Moved | m1Leaving | asserting .force .m1 => true
  | _ => false

def mapping : Pc → Bool
  | mmio | mmioUpper | mmioCleared => true
  | _ => false

def passes (p q : Pc) : Bool := decide (p ≠ mmioCleared) && !q.mapping && (!p.owes || q.owes)

end Pc

def Back.resume : Back → Pc
  | .caller => .reading
  | .m0 => .m0Ringing
  | .m1 => .m1Got

structure State (τ : Type) where
  words : Words
  votes : τ → Nat
  pc : τ → Pc

section Threads
variable {τ : Type} [DecidableEq τ]

namespace State

def start (pm : PmState) : State τ := ⟨⟨pm,0,false,0⟩,fun _ => 0,fun _ => .idle⟩
def turn (s : State τ) (t : τ) (p : Pc) : State τ := {s with pc := Function.update s.pc t p}
def setPm (s : State τ) (pm : PmState) : State τ := {s with words := {s.words with pm := pm}}
def vote (s : State τ) (t : τ) (w : Words) (n : Nat) (p : Pc) : State τ :=
  ⟨w,Function.update s.votes t n,Function.update s.pc t p⟩

end State

/- `may` says in which power states `mhi_init_mmio` starts. `pending` is what the M1
handler reads of `pending_pkts`. Votes can pass from one thread to another. -/
inductive Step (may : PmState → Prop) : State τ → State τ → Prop where
  | lock {s} (t : τ) (here : s.pc t = .idle) : Step may s (s.turn t .reading)
  | unlock {s} (t : τ) (here : s.pc t = .reading) : Step may s (s.turn t .idle)
  | assert {s} (t : τ) (force : Bool) (here : s.pc t = .reading) :
      Step may s (s.turn t (.asserting (if force then .force else .fast) .caller))
  | deassert {s} (t : τ) (override : Bool) (here : s.pc t = .reading) (matched : 0 < s.votes t) :
      Step may s (s.turn t (.deasserting false override))
  | handOver {s} (t u : τ) (here : s.pc t = .idle ∨ s.pc t = .reading) (matched : 0 < s.votes t) (apart : t ≠ u) :
      Step may s {s with votes := Function.update (Function.update s.votes t (s.votes t - 1)) u (s.votes u + 1)}
  | force {s back} (t : τ) (here : s.pc t = .asserting .force back) :
      Step may s (s.vote t s.words.force (s.votes t + 1) back.resume)
  | fast {s back} (t : τ) (here : s.pc t = .asserting .fast back) (held : s.words.devWake ≠ 0) :
      Step may s (s.vote t {s.words with devWake := s.words.devWake + 1} (s.votes t + 1) back.resume)
  | miss {s back} (t : τ) (here : s.pc t = .asserting .fast back) (zero : s.words.devWake = 0) :
      Step may s (s.turn t (.asserting .slow back))
  | slow {s back} (t : τ) (here : s.pc t = .asserting .slow back) :
      Step may s (s.vote t s.words.slow (s.votes t + 1) back.resume)
  | drop {s override} (t : τ) (here : s.pc t = .deasserting false override) (more : s.words.devWake ≠ 1) :
      Step may s (s.vote t {s.words with devWake := s.words.devWake - 1} (s.votes t - 1) .reading)
  | dropMiss {s override} (t : τ) (here : s.pc t = .deasserting false override) (one : s.words.devWake = 1) :
      Step may s (s.turn t (.deasserting true override))
  | dropSlow {s override} (t : τ) (here : s.pc t = .deasserting true override) :
      Step may s (s.vote t (s.words.dropSlow override) (s.votes t - 1) .reading)
  | m0 {s} (t : τ) (here : s.pc t = .idle) (free : ∀ u, (s.pc u).locked = false) :
      Step may s ((s.setPm (mhiTrysetPmState s.words.pm .m0)).turn t
        (if mhiTrysetPmState s.words.pm .m0 = .m0 then .m0Moved else .idle))
  | m0Get {s} (t : τ) (here : s.pc t = .m0Moved) : Step may s (s.turn t (.asserting .force .m0))
  | m0Put {s} (t : τ) (here : s.pc t = .m0Ringing) : Step may s (s.turn t (.deasserting false false))
  | m1 {s} (t : τ) (here : s.pc t = .idle) (free : ∀ u, (s.pc u).locked = false) :
      Step may s ((s.setPm (mhiTrysetPmState s.words.pm .m2)).turn t
        (if mhiTrysetPmState s.words.pm .m2 = .m2 then .m1Moved else .idle))
  | m1Check {s} (t : τ) (pending : Bool) (here : s.pc t = .m1Moved) :
      Step may s (s.turn t (if pending || decide (s.words.devWake ≠ 0) then .m1Leaving else .idle))
  | m1Get {s} (t : τ) (here : s.pc t = .m1Leaving) : Step may s (s.turn t (.asserting .force .m1))
  | m1Put {s} (t : τ) (here : s.pc t = .m1Got) : Step may s (s.turn t (.deasserting false true))
  | ready {s} (t : τ) (here : s.pc t = .idle) (free : ∀ u, (s.pc u).locked = false) :
      Step may s ((s.setPm (mhiTrysetPmState s.words.pm .por)).turn t
        (if mhiTrysetPmState s.words.pm .por = .por then .readyMoved else .idle))
  | initMmio {s} (t : τ) (here : s.pc t = .readyMoved)
      (allowed : mhiRegAccessValid s.words.pm = true → may s.words.pm) :
      Step may s (s.turn t (if mhiRegAccessValid s.words.pm then .mmio else .idle))
  | mmioUpper {s} (t : τ) (here : s.pc t = .mmio) : Step may s (s.turn t .mmioUpper)
  | mmioLower {s} (t : τ) (here : s.pc t = .mmioUpper) :
      Step may s ({s with words := {s.words with doorbell := 0}}.turn t .mmioCleared)
  | mmioFlag {s} (t : τ) (here : s.pc t = .mmioCleared) :
      Step may s ({s with words := {s.words with wakeSet := false}}.turn t .reading)
  | move {s} (pm : PmState) (other : pm ≠ .m2) (free : ∀ u, (s.pc u).locked = false) : Step may s (s.setPm pm)

end Threads

/- Between its doorbell write and its flag, `mhi_init_mmio` is where a section under
`wlock` would be: the flag is compared outside it. -/
structure Sound {τ : Type} [Fintype τ] (s : State τ) : Prop where
  votes : s.words.devWake = ∑ t, (s.votes t : Int)
  positive : 0 ≤ s.words.devWake
  flag : (∀ t, s.pc t ≠ .mmioCleared) → s.words.wakeSet = decide (s.words.doorbell = 1)
  awake : s.words.pm = .m2 → (∀ t, (s.pc t).inM1 = false ∧ (s.pc t).inVote = false) →
    0 < s.words.devWake → s.words.wakeSet = true

def Rings (pm : PmState) : Prop := mhiWakeDbClearValid pm = true
instance (pm) : Decidable (Rings pm) := by unfold Rings; infer_instance

structure Moves (w w' : Words) (d : Int) : Prop where
  pm : w'.pm = w.pm
  count : w'.devWake = w.devWake + d
  still : ¬Rings w.pm → w'.wakeSet = w.wakeSet ∧ w'.doorbell = w.doorbell
  flag : w.wakeSet = decide (w.doorbell = 1) → w'.wakeSet = decide (w'.doorbell = 1)
  awake : w.pm = .m2 → 0 ≤ w.devWake → (0 < w.devWake → w.wakeSet = true) → 0 < w'.devWake → w'.wakeSet = true

section Parts
variable {w : Words}

theorem forceMoves (w : Words) : Moves w w.force 1 ∧ (w.pm = .m2 → w.force.wakeSet = true) := by
  unfold Words.force
  dsimp only
  split
  · rename_i rings
    rw [Bool.and_eq_true] at rings
    exact ⟨⟨rfl,rfl,fun quiet => absurd rings.1 quiet,fun _ => rfl,fun _ _ _ _ => rfl⟩,fun _ => rfl⟩
  · rename_i kept
    have set : w.pm = .m2 → w.wakeSet = true := by
      intro m2
      cases flag : w.wakeSet with
      | true => rfl
      | false => exact absurd (by rw [m2, flag]; decide) kept
    exact ⟨⟨rfl,rfl,fun _ => ⟨rfl,rfl⟩,fun same => same,fun m2 _ _ _ => set m2⟩,set⟩

theorem fastMoves (held : w.devWake ≠ 0) : Moves w {w with devWake := w.devWake + 1} 1 := by
  refine ⟨rfl,rfl,fun _ => ⟨rfl,rfl⟩,fun same => same,?_⟩
  intro _ positive awake _
  exact awake (by omega)

theorem slowMoves (w : Words) : Moves w w.slow 1 := by
  unfold Words.slow
  dsimp only
  split
  · rename_i rings
    simp only [Bool.and_eq_true] at rings
    have valid : Rings w.pm := by
      cases pm : w.pm <;> first | rfl | exact absurd rings.1.2 (by rw [pm]; decide)
    exact ⟨rfl,rfl,fun quiet => absurd valid quiet,fun _ => rfl,fun _ _ _ _ => rfl⟩
  · rename_i kept
    refine ⟨rfl,rfl,fun _ => ⟨rfl,rfl⟩,fun same => same,?_⟩
    intro m2 positive awake _
    show w.wakeSet = true
    -- either the count was already above zero, or this vote was the one to ring
    rcases Decidable.em (w.devWake = 0) with zero | held
    · cases flag : w.wakeSet with
      | true => rfl
      | false => exact absurd (by rw [zero, m2, flag]; rfl) kept
    · exact awake (by omega)

theorem dropMoves (w : Words) : Moves w {w with devWake := w.devWake - 1} (-1) := by
  refine ⟨rfl,rfl,fun _ => ⟨rfl,rfl⟩,fun same => same,?_⟩
  intro _ _ awake left
  exact awake (by have after : 0 < w.devWake - 1 := left; omega)

theorem dropSlowMoves (w : Words) (override : Bool) : Moves w (w.dropSlow override) (-1) := by
  unfold Words.dropSlow
  dsimp only
  split
  · rename_i rings
    simp only [Bool.and_eq_true,decide_eq_true_eq] at rings
    refine ⟨rfl,rfl,fun quiet => absurd rings.1.1.2 quiet,fun _ => rfl,?_⟩
    intro _ _ _ left
    have after : 0 < w.devWake - 1 := left
    omega
  · refine ⟨rfl,rfl,fun _ => ⟨rfl,rfl⟩,fun same => same,?_⟩
    intro _ _ awake left
    exact awake (by have after : 0 < w.devWake - 1 := left; omega)

end Parts

structure Inv {τ : Type} [Fintype τ] (s : State τ) : Prop where
  votes : s.words.devWake = ∑ t, (s.votes t : Int)
  claimed : ∀ t, (s.pc t).claims = true → 0 < s.votes t
  flag : (∀ t, s.pc t ≠ .mmioCleared) → s.words.wakeSet = decide (s.words.doorbell = 1)
  cleared : ∀ t, s.pc t = .mmioCleared → s.words.doorbell = 0
  quiet : ∀ t, (s.pc t).mapping = true → ¬Rings s.words.pm
  awake : s.words.pm = .m2 → (0 < s.words.devWake → s.words.wakeSet = true) ∨ ∃ t, (s.pc t).owes = true

theorem pcCases {τ : Type} [DecidableEq τ] {pc : τ → Pc} {t : τ} {p : Pc} {P : Pc → Prop} {u : τ}
    (here : P (Function.update pc t p u)) : u = t ∧ P p ∨ u ≠ t ∧ P (pc u) := by
  rcases Decidable.eq_or_ne u t with rfl | other
  · rw [Function.update_self] at here
    exact .inl ⟨rfl,here⟩
  · rw [Function.update_of_ne other] at here
    exact .inr ⟨other,here⟩

section Turn
variable {τ : Type} [DecidableEq τ] {pc : τ → Pc} {t u : τ} {p : Pc}

theorem noneCleared (before : pc t ≠ .mmioCleared) (none : ∀ u, Function.update pc t p u ≠ .mmioCleared) :
    ∀ u, pc u ≠ .mmioCleared := by
  intro u mid
  rcases Decidable.eq_or_ne u t with rfl | other
  · exact before mid
  · have still := none u
    rw [Function.update_of_ne other] at still
    exact still mid

theorem debtKept (other : u ≠ t) (debt : (pc u).owes = true) : ∃ v, (Function.update pc t p v).owes = true := by
  refine ⟨u,?_⟩
  rw [Function.update_of_ne other]
  exact debt

theorem debtTaken (debt : p.owes = true) : ∃ v, (Function.update pc t p v).owes = true := by
  refine ⟨t,?_⟩
  rw [Function.update_self]
  exact debt

end Turn

section Run
variable {τ : Type} [DecidableEq τ] [Fintype τ] {s s' : State τ}

omit [DecidableEq τ] in
theorem Inv.positive (inv : Inv s) : 0 ≤ s.words.devWake := by
  rw [inv.votes]
  exact Finset.sum_nonneg fun t _ => Int.natCast_nonneg _

theorem sumVote (votes : τ → Nat) (t : τ) (n : Nat) :
    ∑ u, (Function.update votes t n u : Int) = ∑ u, (votes u : Int) + (n - votes t) := by
  have cast : (fun u => (Function.update votes t n u : Int)) = Function.update (fun u => (votes u : Int)) t n := by
    funext u
    rcases Decidable.eq_or_ne u t with rfl | other
    · rw [Function.update_self, Function.update_self]
    · rw [Function.update_of_ne other, Function.update_of_ne other]
  have rest := Finset.add_sum_erase Finset.univ (fun u => (votes u : Int)) (Finset.mem_univ t)
  rw [cast, Finset.sum_update_of_mem (Finset.mem_univ t), Finset.sdiff_singleton_eq_erase, ← rest]
  omega

theorem turnInv {t : τ} {p q : Pc} (inv : Inv s) (here : s.pc t = q) (claimed : p.claims = true → 0 < s.votes t)
    (before : q ≠ .mmioCleared) (after : p ≠ .mmioCleared) (quiet : p.mapping = true → ¬Rings s.words.pm)
    (owes : q.owes = true → p.owes = true ∨ s.words.devWake = 0) : Inv (s.turn t p) := by
  subst here
  refine ⟨inv.votes,?_,?_,?_,?_,?_⟩
  · intro u here
    rcases pcCases (P := fun q => q.claims = true) here with ⟨rfl,own⟩ | ⟨_,other⟩
    · exact claimed own
    · exact inv.claimed u other
  · intro none
    exact inv.flag (noneCleared before none)
  · intro u here
    rcases pcCases (P := fun q => q = .mmioCleared) here with ⟨_,own⟩ | ⟨_,other⟩
    · exact absurd own after
    · exact inv.cleared u other
  · intro u here
    rcases pcCases (P := fun q => q.mapping = true) here with ⟨_,own⟩ | ⟨_,other⟩
    · exact quiet own
    · exact inv.quiet u other
  · intro m2
    rcases inv.awake m2 with set | ⟨u,debt⟩
    · exact .inl set
    · rcases Decidable.eq_or_ne u t with rfl | other
      · rcases owes debt with still | zero
        · exact .inr (debtTaken still)
        · exact .inl fun positive => absurd (show 0 < s.words.devWake from positive) (by omega)
      · exact .inr (debtKept other debt)

theorem passInv {t : τ} {p q : Pc} (inv : Inv s) (here : s.pc t = p) (passes : p.passes q = true)
    (claimed : q.claims = true → 0 < s.votes t) : Inv (s.turn t q) := by
  simp only [Pc.passes,Bool.and_eq_true,Bool.or_eq_true,Bool.not_eq_true',decide_eq_true_eq] at passes
  refine turnInv inv here claimed passes.1.1 ?_ (fun inside => ?_) (fun debt => ?_)
  · rintro rfl
    cases passes.1.2
  · rw [passes.1.2] at inside
    cases inside
  · rcases passes.2 with none | still
    · rw [none] at debt
      cases debt
    · exact .inl still

theorem voteInv {t : τ} {w : Words} {n : Nat} {p q : Pc} {d : Int} (inv : Inv s) (here : s.pc t = q)
    (moves : Moves s.words w d) (count : (n : Int) = s.votes t + d) (before : q ≠ .mmioCleared) (after : p.mapping = false)
    (claimed : p.claims = true → 0 < n) (owes : q.owes = true → s.words.pm = .m2 → w.wakeSet = true) :
    Inv (s.vote t w n p) := by
  subst here
  refine ⟨?_,?_,?_,?_,?_,?_⟩
  · show w.devWake = ∑ u, (Function.update s.votes t n u : Int)
    rw [sumVote, moves.count, inv.votes]
    omega
  · intro u here
    show 0 < Function.update s.votes t n u
    rcases pcCases (P := fun q => q.claims = true) here with ⟨rfl,own⟩ | ⟨apart,other⟩
    · rw [Function.update_self]
      exact claimed own
    · rw [Function.update_of_ne apart]
      exact inv.claimed u other
  · intro none
    exact moves.flag (inv.flag (noneCleared before none))
  · intro u here
    rcases pcCases (P := fun q => q = .mmioCleared) here with ⟨_,rfl⟩ | ⟨_,other⟩
    · cases after
    · have still := moves.still (inv.quiet u (by rw [other]; rfl))
      exact still.2.trans (inv.cleared u other)
  · intro u here
    show ¬Rings w.pm
    rw [moves.pm]
    rcases pcCases (P := fun q => q.mapping = true) here with ⟨_,own⟩ | ⟨_,other⟩
    · rw [after] at own
      cases own
    · exact inv.quiet u other
  · intro m2
    have was : s.words.pm = .m2 := by rw [← moves.pm]; exact m2
    rcases inv.awake was with set | ⟨u,debt⟩
    · exact .inl (moves.awake was inv.positive set)
    · rcases Decidable.eq_or_ne u t with rfl | other
      · exact .inl fun _ => owes debt was
      · exact .inr (debtKept other debt)

omit [DecidableEq τ] in
theorem setPmInv {pm : PmState} (inv : Inv s) (free : ∀ u, (s.pc u).mapping = false)
    (m2 : pm = .m2 → s.words.pm = .m2 ∨ ∃ u, (s.pc u).owes = true) : Inv (s.setPm pm) := by
  refine ⟨inv.votes,inv.claimed,inv.flag,inv.cleared,?_,?_⟩
  · intro u here
    have inside : (s.pc u).mapping = true := here
    rw [free u] at inside
    cases inside
  · intro now
    rcases m2 now with was | debt
    · exact inv.awake was
    · exact .inr debt

theorem unmapped {p : Pc} (free : p.locked = false) : p.mapping = false := by
  cases p <;> first | rfl | cases free

theorem movedInv {t : τ} {pm : PmState} {p : Pc} (inv : Inv s) (here : s.pc t = .idle) (free : ∀ u, (s.pc u).locked = false)
    (unclaimed : p.claims = false) (away : p.locked = false) (m2 : pm = .m2 → s.words.pm = .m2 ∨ p.owes = true) :
    Inv ((s.setPm pm).turn t p) := by
  have after : p.mapping = false := unmapped away
  have turned : Inv (s.turn t p) := by
    refine turnInv inv here (fun claim => ?_) (fun is => nomatch is) ?_ (fun inside => ?_) (fun debt => nomatch debt)
    · rw [unclaimed] at claim; cases claim
    · rintro rfl; cases after
    · rw [after] at inside; cases inside
  refine setPmInv (s := s.turn t p) turned ?_ ?_
  · intro u
    show (Function.update s.pc t p u).mapping = false
    rcases Decidable.eq_or_ne u t with rfl | other
    · rw [Function.update_self]
      exact after
    · rw [Function.update_of_ne other]
      exact unmapped (free u)
  · intro now
    rcases m2 now with was | debt
    · exact .inl was
    · exact .inr (debtTaken debt)

theorem clearedInv {t : τ} (inv : Inv s) (here : s.pc t = .mmioUpper) :
    Inv ({s with words := {s.words with doorbell := 0}}.turn t .mmioCleared) := by
  have quiet : ¬Rings s.words.pm := inv.quiet t (by rw [here]; rfl)
  refine ⟨inv.votes,?_,?_,fun _ _ => rfl,?_,?_⟩
  · intro u here'
    rcases pcCases (P := fun q => q.claims = true) here' with ⟨_,own⟩ | ⟨_,other⟩
    · cases own
    · exact inv.claimed u other
  · intro none
    exact (none t (Function.update_self ..)).elim
  · exact fun _ _ => quiet
  · intro m2
    have was : s.words.pm = .m2 := m2
    exact absurd (show Rings s.words.pm by rw [was]; decide) quiet

theorem flaggedInv {t : τ} (inv : Inv s) (here : s.pc t = .mmioCleared) :
    Inv ({s with words := {s.words with wakeSet := false}}.turn t .reading) := by
  have quiet : ¬Rings s.words.pm := inv.quiet t (by rw [here]; rfl)
  have zero : s.words.doorbell = 0 := inv.cleared t here
  refine ⟨inv.votes,?_,?_,fun _ _ => zero,?_,?_⟩
  · intro u here'
    rcases pcCases (P := fun q => q.claims = true) here' with ⟨_,own⟩ | ⟨_,other⟩
    · cases own
    · exact inv.claimed u other
  · intro _
    show false = decide (s.words.doorbell = 1)
    rw [zero]
    rfl
  · exact fun _ _ => quiet
  · intro m2
    have was : s.words.pm = .m2 := m2
    exact absurd (show Rings s.words.pm by rw [was]; decide) quiet

theorem handedInv {t u : τ} (inv : Inv s) (here : s.pc t = .idle ∨ s.pc t = .reading) (matched : 0 < s.votes t) (apart : t ≠ u) :
    Inv {s with votes := Function.update (Function.update s.votes t (s.votes t - 1)) u (s.votes u + 1)} := by
  refine ⟨?_,?_,inv.flag,inv.cleared,inv.quiet,inv.awake⟩
  · show s.words.devWake = ∑ v, (Function.update (Function.update s.votes t (s.votes t - 1)) u (s.votes u + 1) v : Int)
    rw [sumVote, sumVote, Function.update_of_ne apart.symm, inv.votes]
    omega
  · intro v claim
    have was := inv.claimed v claim
    show 0 < Function.update (Function.update s.votes t (s.votes t - 1)) u (s.votes u + 1) v
    rcases Decidable.eq_or_ne v u with rfl | other
    · rw [Function.update_self]
      omega
    · rw [Function.update_of_ne other]
      rcases Decidable.eq_or_ne v t with rfl | third
      · have idle : (s.pc v).claims = false := by rcases here with is | is <;> rw [is] <;> rfl
        have held : (s.pc v).claims = true := claim
        rw [idle] at held
        cases held
      · rw [Function.update_of_ne third]
        exact was

omit [DecidableEq τ] in
theorem startInv (pm : PmState) : Inv (State.start pm : State τ) := by
  refine ⟨?_,fun _ claim => ?_,fun _ => rfl,fun _ mid => ?_,fun _ inside => ?_,fun _ => .inl fun positive => ?_⟩
  · exact (Finset.sum_eq_zero fun _ _ => rfl).symm
  · cases claim
  · cases mid
  · cases inside
  · cases positive

theorem resumeUnmapped (back : Back) : back.resume.mapping = false := by cases back <;> rfl

theorem stepInv {may : PmState → Prop} (silent : ∀ pm, may pm → ¬Rings pm) (step : Step may s s') (inv : Inv s) : Inv s' := by
  cases step with
  | lock t here => exact passInv inv here rfl (fun claim => nomatch claim)
  | unlock t here => exact passInv inv here rfl (fun claim => nomatch claim)
  | assert t force here => cases force <;> exact passInv inv here rfl (fun claim => nomatch claim)
  | deassert t override here matched => exact passInv inv here rfl (fun _ => matched)
  | handOver t u here matched apart => exact handedInv inv here matched apart
  | @force back t here =>
    have moves := forceMoves s.words
    exact voteInv inv here moves.1 (Int.natCast_succ _) (fun is => nomatch is) (resumeUnmapped back)
      (fun _ => Nat.succ_pos _) (fun _ => moves.2)
  | @fast back t here held =>
    exact voteInv inv here (fastMoves held) (Int.natCast_succ _) (fun is => nomatch is) (resumeUnmapped back)
      (fun _ => Nat.succ_pos _) (fun debt => nomatch debt)
  | @miss back t here zero => exact passInv inv here (by cases back <;> rfl) (fun claim => nomatch claim)
  | @slow back t here =>
    exact voteInv inv here (slowMoves s.words) (Int.natCast_succ _) (fun is => nomatch is) (resumeUnmapped back)
      (fun _ => Nat.succ_pos _) (fun debt => nomatch debt)
  | @drop override t here more =>
    have own : 0 < s.votes t := inv.claimed t (by rw [here]; rfl)
    exact voteInv inv here (dropMoves s.words) (by omega) (fun is => nomatch is) rfl (fun claim => nomatch claim)
      (fun debt => nomatch debt)
  | @dropMiss override t here one => exact passInv inv here rfl (fun _ => inv.claimed t (by rw [here]; rfl))
  | @dropSlow override t here =>
    have own : 0 < s.votes t := inv.claimed t (by rw [here]; rfl)
    exact voteInv inv here (dropSlowMoves s.words override) (by omega) (fun is => nomatch is) rfl
      (fun claim => nomatch claim) (fun debt => nomatch debt)
  | m0 t here free =>
    refine movedInv inv here free (by split <;> rfl) (by split <;> rfl) ?_
    intro now
    rcases trysetCases s.words.pm .m0 with reached | stuck
    · rw [reached] at now; cases now
    · exact .inl (by rw [← stuck]; exact now)
  | m0Get t here => exact passInv inv here rfl (fun claim => nomatch claim)
  | m0Put t here => exact passInv inv here rfl (fun _ => inv.claimed t (by rw [here]; rfl))
  | m1 t here free =>
    refine movedInv inv here free (by split <;> rfl) (by split <;> rfl) ?_
    intro now
    exact .inr (by rw [if_pos now]; rfl)
  | m1Check t pending here =>
    split
    · exact passInv inv here rfl (fun claim => nomatch claim)
    · -- nothing to leave M2 for: the count was read as zero
      rename_i clear
      simp only [Bool.or_eq_true,decide_eq_true_eq,not_or,not_not] at clear
      exact turnInv inv here (fun claim => nomatch claim) (fun is => nomatch is) (fun is => nomatch is)
        (fun inside => nomatch inside) (fun _ => .inr clear.2)
  | m1Get t here => exact passInv inv here rfl (fun claim => nomatch claim)
  | m1Put t here => exact passInv inv here rfl (fun _ => inv.claimed t (by rw [here]; rfl))
  | ready t here free =>
    refine movedInv inv here free (by split <;> rfl) (by split <;> rfl) ?_
    intro now
    rcases trysetCases s.words.pm .por with reached | stuck
    · rw [reached] at now; cases now
    · exact .inl (by rw [← stuck]; exact now)
  | initMmio t here allowed =>
    split
    · rename_i valid
      exact turnInv inv here (fun claim => nomatch claim) (fun is => nomatch is) (fun is => nomatch is)
        (fun _ => silent _ (allowed valid)) (fun debt => nomatch debt)
    · exact passInv inv here rfl (fun claim => nomatch claim)
  | mmioUpper t here =>
    have quiet : ¬Rings s.words.pm := inv.quiet t (by rw [here]; rfl)
    exact turnInv inv here (fun claim => nomatch claim) (fun is => nomatch is) (fun is => nomatch is)
      (fun _ => quiet) (fun debt => nomatch debt)
  | mmioLower t here => exact clearedInv inv here
  | mmioFlag t here => exact flaggedInv inv here
  | move pm other free => exact setPmInv inv (fun u => unmapped (free u)) (fun now => absurd now other)

omit [DecidableEq τ] in
theorem invSound (inv : Inv s) : Sound s := by
  refine ⟨inv.votes,inv.positive,inv.flag,?_⟩
  intro m2 none positive
  rcases inv.awake m2 with set | ⟨t,debt⟩
  · exact set positive
  · have handler : (s.pc t).inM1 = true := by
      cases at' : s.pc t with
      | asserting part back =>
        rw [at'] at debt
        cases part <;> cases back <;> first | rfl | cases debt
      | _ => rw [at'] at debt; first | rfl | cases debt
    rw [(none t).1] at handler
    cases handler

theorem votesSound {pm : PmState} (run : ReflTransGen (Step fun pm => ¬Rings pm) (State.start pm) s) : Sound s :=
  invSound (Runs.keeps (fun _ _ step inv => stepInv (fun _ quiet => quiet) step inv) run (startInv pm))

end Run

namespace Sample

def fresh (pc : Bool → Pc) : State Bool := ⟨⟨.por,0,false,0⟩,fun _ => 0,pc⟩

theorem forced {may : PmState → Prop} {s : State Bool} {back : Back} {w : Words} (t : Bool)
    (here : s.pc t = .asserting .force back) (is : s.words.force = w) : Step may s (s.vote t w (s.votes t + 1) back.resume) :=
  is ▸ .force t here

theorem dropped {may : PmState → Prop} {s : State Bool} {override : Bool} {w : Words} (t : Bool)
    (here : s.pc t = .deasserting true override) (is : s.words.dropSlow override = w) :
    Step may s (s.vote t w (s.votes t - 1) .reading) := is ▸ .dropSlow t here

theorem slept {may : PmState → Prop} {pc : Bool → Pc} (before : ReflTransGen (Step may) (State.start .por) (fresh pc))
    (idle : pc true = .idle) (free : (pc false).locked = false) : ∃ s, ReflTransGen (Step may) (State.start .por) s ∧
      s.words = ⟨.m2,1,true,1⟩ ∧ s.pc true = .idle ∧ s.pc false = pc false := by
  have unlocked : ∀ u, ((fresh pc).pc u).locked = false := by
    intro u
    cases u with
    | false => exact free
    | true => show (pc true).locked = false; rw [idle]; rfl
  have got : Words.force ⟨.m0,0,false,0⟩ = ⟨.m0,1,true,1⟩ := rfl
  have put : Words.dropSlow ⟨.m0,1,true,1⟩ false = ⟨.m0,0,false,0⟩ := rfl
  have left : Words.force ⟨.m2,1,true,1⟩ = ⟨.m2,2,true,1⟩ := rfl
  have two : (2 : Int) ≠ 1 := by decide
  have ringing := ((before.tail (.m0 true idle unlocked)).tail (.m0Get true rfl)).tail
    (forced true rfl got)
  have rested := ((ringing.tail (.m0Put true rfl)).tail (.dropMiss true rfl rfl)).tail (dropped true rfl put)
  have voted := ((((rested.tail (.unlock true rfl)).tail (.lock true rfl)).tail (.assert true true rfl)).tail
    (forced true rfl got)).tail (.unlock true rfl)
  have leaving := ((voted.tail (.m1 true rfl (fun u => by cases u; exact free; rfl))).tail (.m1Check true false rfl)).tail
    (.m1Get true rfl)
  have done := (((leaving.tail (forced true rfl left)).tail (.m1Put true rfl)).tail (.drop true rfl two)).tail
    (.unlock true rfl)
  exact ⟨_,done,rfl,rfl,rfl⟩

end Sample

theorem mmioFirstSound : ∃ s : State Bool, ReflTransGen (Step fun pm => ¬Rings pm) (State.start .por) s ∧
    s.words = ⟨.m2,1,true,1⟩ ∧ Sound s := by
  have quiet : ¬Rings .por := by decide
  have moved : ReflTransGen (Step fun pm => ¬Rings pm) (State.start .por) _ := .single (.ready false rfl (by decide))
  have mapped := (moved.tail (.initMmio false rfl (fun _ => quiet))).tail (.mmioUpper false rfl)
  have ready := ((mapped.tail (.mmioLower false rfl)).tail (.mmioFlag false rfl)).tail (.unlock false rfl)
  obtain ⟨s,run,words,_,_⟩ := Sample.slept ready rfl rfl
  exact ⟨s,run,words,votesSound run⟩

/- The READY transition has let go of the lock: M0, a vote and M2 come in before
`mhi_init_mmio`, which then clears the doorbell under a vote. -/
theorem mmioClearsVote : ∃ s : State Bool, ReflTransGen (Step fun _ => True) (State.start .por) s ∧
    s.words = ⟨.m2,1,false,0⟩ ∧ (∀ t, s.pc t = .idle) ∧ ¬Sound s := by
  have moved : ReflTransGen (Step fun _ => True) (State.start .por) _ := .single (.ready false rfl (by decide))
  obtain ⟨⟨w,votes,pc⟩,run,words,idle,waits⟩ := Sample.slept moved rfl rfl
  have m2 : w = ⟨.m2,1,true,1⟩ := words
  subst m2
  have entered := run.tail (.initMmio false waits (fun _ => trivial))
  rw [show mhiRegAccessValid _ = true from (by decide : mhiRegAccessValid .m2 = true), if_pos rfl] at entered
  have done := (((entered.tail (.mmioUpper false rfl)).tail (.mmioLower false rfl)).tail (.mmioFlag false rfl)).tail (.unlock false rfl)
  have reached : ∃ s : State Bool, ReflTransGen (Step fun _ => True) (State.start .por) s ∧ s.words = ⟨.m2,1,false,0⟩ ∧
      ∀ t, s.pc t = .idle := by
    refine ⟨_,done,rfl,fun t => ?_⟩
    cases t with
    | false => rfl
    | true => exact idle
  obtain ⟨s,all,ends,rest⟩ := reached
  refine ⟨s,all,ends,rest,fun sound => ?_⟩
  have awake := sound.awake (by rw [ends]) (fun t => by rw [rest t]; exact ⟨rfl,rfl⟩) (by rw [ends]; decide)
  rw [ends] at awake
  cases awake

end MhiHost.DevWake
