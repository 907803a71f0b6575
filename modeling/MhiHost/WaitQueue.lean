/-! Sleeping until one of several facts holds. A task enters its queues first, then looks at
the facts one after the other, and sleeps when it has found none and nobody has woken it in
between. What makes a fact hold is announced later, by waking a queue. -/
namespace MhiHost.WaitQueue
variable {ι : Type}

structure Waiter (ι : Type) where
  seen : List ι
  roused : Bool

namespace Waiter

def enter : Waiter ι := ⟨[],false⟩
def look (w : Waiter ι) (fact : ι) : Waiter ι := {w with seen := fact :: w.seen}
def rouse (w : Waiter ι) : Waiter ι := {w with roused := true}

def Asleep (w : Waiter ι) (facts : List ι) : Prop := w.roused = false ∧ ∀ fact ∈ facts, fact ∈ w.seen

end Waiter

/- A fact that holds after it was found wanting is going to be announced. -/
def Served (holds due : ι → Prop) (w : Waiter ι) : Prop := w.roused = false → ∀ fact ∈ w.seen, holds fact → due fact

section Served
variable {holds due holds' due' : ι → Prop} {w : Waiter ι}

theorem servedEnter : Served holds due (Waiter.enter : Waiter ι) := fun _ => nofun

theorem servedLook {fact : ι} (wanting : ¬holds fact) (served : Served holds due w) : Served holds due (w.look fact) := by
  intro quiet
  exact List.forall_mem_cons.mpr ⟨fun found => absurd found wanting,served quiet⟩

theorem servedRouse : Served holds due w.rouse := fun woken => absurd woken (by simp [Waiter.rouse])

theorem Served.change (rises : ∀ fact ∈ w.seen, holds' fact → holds fact ∨ due' fact)
    (kept : ∀ fact ∈ w.seen, due fact → due' fact)
    (served : Served holds due w) : Served holds' due' w :=
  fun quiet fact inside found => (rises fact inside found).elim (fun before => kept fact inside (served quiet fact inside before)) id

theorem Served.asleep {facts : List ι} (served : Served holds due w) (asleep : w.Asleep facts) :
    ∀ fact ∈ facts, holds fact → due fact :=
  fun fact inside => served asleep.1 fact (asleep.2 fact inside)

end Served

end MhiHost.WaitQueue
