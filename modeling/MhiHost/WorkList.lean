import MhiHost.Runs

/-! A list worked off by a deferred work item. A producer adds its item first and schedules
the work after that; work that is pending already is not scheduled twice. A run takes the
list as a whole and then handles what it took one after the other, while producers go on. An
item is known by its position among all that were ever added. -/
namespace MhiHost.WorkList
variable {α : Type}

inductive Run where
  | idle | begun | taken
  deriving DecidableEq, Repr

/- `owed` are the items whose producers have not scheduled the work yet; `queued` and `handled`
are all items ever added and all ever handled. -/
structure Desk (α : Type) where
  list : List α
  batch : List α
  owed : List Nat
  pending : Bool
  run : Run
  queued : List α
  handled : List α

def Desk.empty : Desk α := ⟨[],[],[],false,.idle,[],[]⟩

def added (queued items : List α) : List Nat := List.range' queued.length items.length

inductive Step : Desk α → Desk α → Prop where
  | add {d} (items : List α) :
      Step d {d with list := d.list ++ items, owed := d.owed ++ added d.queued items, queued := d.queued ++ items}
  | schedule {d} (i : Nat) (owes : i ∈ d.owed) : Step d {d with owed := d.owed.erase i, pending := true}
  | begin {d} (pending : d.pending = true) (free : d.run = .idle) : Step d {d with pending := false, run := .begun}
  | splice {d} (begun : d.run = .begun) : Step d {d with list := [], batch := d.list, run := .taken}
  | handle {d a rest} (taken : d.run = .taken) (first : d.batch = a :: rest) :
      Step d {d with batch := rest, handled := d.handled ++ [a]}
  | finish {d} (taken : d.run = .taken) (spent : d.batch = []) : Step d {d with run := .idle}

def Desk.Coming (d : Desk α) : Prop := d.pending = true ∨ d.run = .begun

structure Inv (d : Desk α) : Prop where
  split : d.queued = d.handled ++ d.batch ++ d.list
  held : d.run ≠ .taken → d.batch = []
  coming : ∀ i < d.queued.length, i ∉ d.owed → i < (d.handled ++ d.batch).length ∨ d.Coming

theorem invEmpty : Inv (Desk.empty : Desk α) := ⟨rfl,fun _ => rfl,nofun⟩

theorem stepInv {d e : Desk α} (step : Step d e) (inv : Inv d) : Inv e := by
  obtain ⟨split,held,coming⟩ := inv
  cases step with
  | add items =>
    refine ⟨?_,held,fun i inside away => ?_⟩
    · dsimp only
      rw [split,List.append_assoc _ d.list]
    · simp only [List.mem_append,not_or,added,List.mem_range'_1,not_and,Nat.not_lt,List.length_append] at inside away
      exact coming i (by omega) away.1
  | schedule j owes => exact ⟨split,held,fun _ _ _ => .inr (.inl rfl)⟩
  | begin pending free => exact ⟨split,fun _ => held (by rw [free]; nofun),fun _ _ _ => .inr (.inr rfl)⟩
  | splice begun =>
    have spent : d.batch = [] := held (by rw [begun]; nofun)
    rw [spent,List.append_nil] at split
    exact ⟨by simpa using split,fun away => absurd rfl away,fun i inside _ => .inl (split ▸ inside)⟩
  | handle taken first =>
    rw [first] at split coming
    refine ⟨by simpa using split,fun away => absurd taken away,fun i inside away => ?_⟩
    exact (coming i inside away).imp (fun before => by simpa using before) id
  | finish taken spent =>
    refine ⟨split,fun _ => spent,fun i inside away => (coming i inside away).imp_right ?_⟩
    rintro (pending | begun)
    · exact .inl pending
    · rw [taken] at begun
      cases begun

theorem Inv.rest {d : Desk α} (inv : Inv d) (owed : d.owed = []) (still : d.pending = false) (idle : d.run = .idle) :
    d.handled = d.queued := by
  have spent : d.batch = [] := inv.held (by rw [idle]; nofun)
  have split := inv.split
  rw [spent,List.append_nil] at split
  have clear : d.list = [] := by
    refine List.length_eq_zero_iff.mp (Nat.eq_zero_of_not_pos fun some => ?_)
    have inside : d.handled.length < d.queued.length := by
      rw [split,List.length_append]
      omega
    rcases inv.coming _ inside (by rw [owed]; nofun) with before | pending | begun
    · rw [spent,List.append_nil] at before
      exact Nat.lt_irrefl _ before
    · exact absurd (still.symm.trans pending) nofun
    · exact absurd (idle.symm.trans begun) nofun
  rw [clear,List.append_nil] at split
  exact split.symm

/-! A wait for the work: for the end of the run that takes the instance pending when it is called,
or else of the run under way then. -/

inductive Wait where
  | queued | running | returned
  deriving DecidableEq, Repr

def Wait.call (pending : Bool) (run : Run) : Wait := if pending then .queued else if run = .idle then .returned else .running

def Wait.next : Wait → Bool → Run → Wait
  | .queued,pending,_ => if pending then .queued else .running
  | .running,_,run => if run = .idle then .returned else .running
  | .returned,_,_ => .returned

theorem stepGrows {d e : Desk α} (step : Step d e) : d.queued <+: e.queued := by
  cases step with
  | add items => exact List.prefix_append _ _
  | schedule | begin | splice | handle | finish => exact List.prefix_rfl

def Reached (i : Nat) (d : Desk α) : Wait → Prop
  | .queued => d.pending = true ∧ i < d.queued.length
  | .running => d.run ≠ .idle ∧ i < d.queued.length ∧ (d.run = .begun ∨ i < (d.handled ++ d.batch).length)
  | .returned => i < d.handled.length

structure Awaited (asked : List α) (i : Nat) (d : Desk α) (w : Wait) : Prop where
  inv : Inv d
  known : asked <+: d.queued
  inside : i < asked.length
  reached : Reached i d w

namespace Awaited
variable {asked : List α} {i : Nat} {d e : Desk α} {w : Wait}

theorem call (inv : Inv d) (inside : i < d.queued.length) (away : i ∉ d.owed) :
    Awaited d.queued i d (.call d.pending d.run) := by
  refine ⟨inv,List.prefix_rfl,inside,?_⟩
  unfold Wait.call
  split
  · rename_i pending
    exact ⟨pending,inside⟩
  rename_i still
  rcases inv.coming i inside away with before | pending | begun
  · split
    · rename_i idle
      rw [inv.held (by rw [idle]; nofun),List.append_nil] at before
      exact before
    · rename_i busy
      exact ⟨busy,inside,.inr before⟩
  · exact absurd pending still
  · rw [begun]
    exact ⟨by rw [begun]; nofun,inside,.inl begun⟩

theorem step (step : Step d e) (awaited : Awaited asked i d w) : Awaited asked i e (w.next e.pending e.run) := by
  obtain ⟨inv,known,inside,reached⟩ := awaited
  refine ⟨stepInv step inv,known.trans (stepGrows step),inside,?_⟩
  cases w with
  | queued =>
    obtain ⟨pending,inside⟩ := reached
    cases step with
    | begin _ free => exact ⟨nofun,inside,.inl rfl⟩
    | add items =>
      simp only [Wait.next,pending,if_true]
      exact ⟨rfl,by simp only [List.length_append]; omega⟩
    | schedule j owes => exact ⟨rfl,inside⟩
    | splice | handle | finish =>
      simp only [Wait.next,pending,if_true]
      exact ⟨rfl,inside⟩
  | running =>
    obtain ⟨busy,inside,ahead⟩ := reached
    cases step with
    | add items =>
      simp only [Wait.next,if_neg busy]
      exact ⟨busy,by simp only [List.length_append]; omega,ahead⟩
    | schedule j owes =>
      simp only [Wait.next,if_neg busy]
      exact ⟨busy,inside,ahead⟩
    | begin _ free => exact absurd free busy
    | splice begun =>
      have split := inv.split
      rw [inv.held (by rw [begun]; nofun),List.append_nil] at split
      exact ⟨nofun,inside,.inr (split ▸ inside)⟩
    | handle taken first =>
      simp only [Wait.next,if_neg busy]
      rw [first] at ahead
      exact ⟨busy,inside,by simpa using ahead⟩
    | finish taken spent =>
      rw [spent,List.append_nil] at ahead
      refine ahead.resolve_left fun begun => ?_
      rw [taken] at begun
      cases begun
  | returned =>
    cases step with
    | handle taken first =>
      show i < (d.handled ++ _).length
      rw [List.length_append]
      exact Nat.lt_add_right _ reached
    | add | schedule | begin | splice | finish => exact reached

theorem still (awaited : Awaited asked i d w) : w.next d.pending d.run = w := by
  have reached := awaited.reached
  cases w with
  | queued => exact if_pos reached.1
  | running => exact if_neg reached.1
  | returned => rfl

theorem returned (awaited : Awaited asked i d .returned) : i < d.handled.length ∧ d.handled[i]? = asked[i]? := by
  obtain ⟨inv,⟨more,grown⟩,inside,behind⟩ := awaited
  have behind : i < d.handled.length := behind
  have first : d.queued[i]? = d.handled[i]? := by
    rw [inv.split,List.append_assoc,List.getElem?_append_left behind]
  have same : d.queued[i]? = asked[i]? := by
    rw [← grown,List.getElem?_append_left inside]
  exact ⟨behind,first.symm.trans same⟩

end Awaited
end MhiHost.WorkList
