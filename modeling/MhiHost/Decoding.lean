import MhiHost.Ethernet
import MhiHost.Trace
import Mathlib.Algebra.GroupWithZero.Nat

/-! What the receive paths of the network drivers do besides computing: the bytes of the
received frame they read, and the life of each socket buffer. -/
namespace MhiHost

/- The received frame, and the buffers `netdev_alloc_skb` returned, in the order it did. -/
inductive Buff where
  | input
  | fresh (n : Nat)
  deriving DecidableEq, Repr

inductive Effect where
  | read (offset len : Nat)
  | subtract (a b : Nat)
  | alloc (n size : Nat)
  | append (n len : Nat)
  | queue (n : Nat) (p : Packet)
  | deliver (b : Buff) (p : Packet)
  | free (b : Buff)
  deriving DecidableEq, Repr

namespace Effect

def allocs (n : Nat) : Effect → Bool
  | alloc m _ => m == n
  | _ => false

def queues (n : Nat) : Effect → Bool
  | queue m _ => m == n
  | _ => false

def delivers (b : Buff) : Effect → Bool
  | deliver c _ => c == b
  | _ => false

def frees (b : Buff) : Effect → Bool
  | free c => c == b
  | _ => false

def receive : Effect → Option Effect
  | queue n p => some (deliver (.fresh n) p)
  | _ => none

def received : Effect → Option Packet
  | deliver _ p => some p
  | _ => none

def appends (n : Nat) : Effect → Nat
  | append m len => if m = n then len else 0
  | _ => 0

end Effect

def delivered (es : List Effect) (b : Buff) : Nat := es.countP (Effect.delivers b)
def freed (es : List Effect) (b : Buff) : Nat := es.countP (Effect.frees b)
def appended (es : List Effect) (n : Nat) : Nat := (es.map (Effect.appends n)).sum
def packets (es : List Effect) : List Packet := es.filterMap Effect.received

def Conserved (es : List Effect) : Prop :=
  freed es .input = 1 ∧ ∀ n size, .alloc n size ∈ es → delivered es (.fresh n)+freed es (.fresh n) = 1

def ReadsInside (len : Nat) (es : List Effect) : Prop := ∀ offset n, .read offset n ∈ es → offset+n ≤ len

theorem readsNone (len : Nat) : ReadsInside len [] := fun _ _ none => absurd none List.not_mem_nil

theorem readsAppend {len : Nat} {es fs : List Effect} :
    ReadsInside len (es ++ fs) ↔ ReadsInside len es ∧ ReadsInside len fs := by
  refine ⟨fun all => ⟨fun o n now => all o n (List.mem_append_left _ now),
    fun o n now => all o n (List.mem_append_right _ now)⟩,?_⟩
  rintro ⟨left,right⟩ o n now
  rcases List.mem_append.mp now with first | second
  · exact left o n first
  · exact right o n second

def LengthsSound (es : List Effect) : Prop := ∀ a b, .subtract a b ∈ es → b ≤ a

def BuffersHold (es : List Effect) : Prop := ∀ n size, .alloc n size ∈ es → appended es n ≤ size

theorem readsFinish {α β : Type} {len : Nat} {t : Trace Effect α} {label : List Effect → Trace Effect β}
    (silent : ∀ es, ReadsInside len (label es).effects) :
    ReadsInside len (t.finish label).effects ↔ ReadsInside len t.effects := by
  refine ⟨fun all o n now => all o n (Trace.memFinish.mpr (.inl now)),fun all o n now => ?_⟩
  rcases Trace.memFinish.mp now with early | ⟨_,late⟩
  · exact all o n early
  · exact silent _ o n late

/- `mhi_net_poll` takes no notice of what a receiver returns. -/
def mhiNetPoll : Option (Trace Effect Nat) → Trace Effect Unit
  | some rxFixup => rxFixup.bind fun _ => .pure ()
  | none => .emit [.free .input] (.pure ())

theorem polled (t : Trace Effect Nat) : (mhiNetPoll (some t)).effects = t.effects ∧ ((mhiNetPoll (some t)).Ends ↔ t.Ends) := by
  have whole : mhiNetPoll (some t) = t.bind fun _ => .pure () := rfl
  rw [whole,Trace.bindEnds]
  refine ⟨?_,fun both => both.1,fun ends => ⟨ends,fun _ _ => nofun⟩⟩
  rw [Trace.bind]
  cases t.outcome with
  | went n => exact List.append_nil _
  | left => rfl
  | lost => rfl

/-! The ledger of the buffers. -/
namespace Effect

def inner : Effect → Bool
  | deliver _ _ => false
  | free _ => false
  | _ => true

end Effect

def Inner (es : List Effect) : Prop := ∀ e ∈ es, e.inner = true

/- Buffers `k` to `k'` were allocated and chained, each once. -/
def Tidy (k : Nat) (es : List Effect) (k' : Nat) : Prop := k ≤ k' ∧ ∀ n,
  es.countP (Effect.allocs n) = (if k ≤ n ∧ n < k' then 1 else 0) ∧ es.countP (Effect.queues n) = (if k ≤ n ∧ n < k' then 1 else 0)

theorem tidyNil (k : Nat) : Tidy k [] k := by
  refine ⟨Nat.le_refl k,fun n => ?_⟩
  have nowhere : ¬(k ≤ n ∧ n < k) := by omega
  rw [if_neg nowhere]
  exact ⟨rfl,rfl⟩

theorem Tidy.append {k k' k'' : Nat} {es fs : List Effect} (first : Tidy k es k') (second : Tidy k' fs k'') :
    Tidy k (es ++ fs) k'' := by
  refine ⟨Nat.le_trans first.1 second.1,fun n => ?_⟩
  have low := first.1
  have high := second.1
  obtain ⟨allocs,queues⟩ := first.2 n
  obtain ⟨allocs',queues'⟩ := second.2 n
  rw [List.countP_append,List.countP_append,allocs,allocs',queues,queues']
  constructor <;> split_ifs <;> omega

theorem innerAppend {es fs : List Effect} : Inner (es ++ fs) ↔ Inner es ∧ Inner fs := List.forall_mem_append

theorem deliveredInner {es : List Effect} (inner : Inner es) (n : Nat) :
    delivered es (.fresh n) = 0 ∧ freed es (.fresh n) = 0 ∧ freed es .input = 0 := by
  have none : ∀ p : Effect → Bool, (∀ e, e.inner = true → p e = false) → es.countP p = 0 := by
    intro p never
    refine List.countP_eq_zero.mpr fun e member => ?_
    rw [never e (inner e member)]
    exact Bool.false_ne_true
  refine ⟨none _ ?_,none _ ?_,none _ ?_⟩
  all_goals
    intro e early
    cases e <;> first | rfl | cases early

theorem receivedInside (len : Nat) (es : List Effect) : ReadsInside len (es.filterMap Effect.receive) := by
  intro offset n member
  obtain ⟨d,_,made⟩ := List.mem_filterMap.mp member
  cases d <;> cases made

theorem receivedQueues (es : List Effect) (n : Nat) :
    (es.filterMap Effect.receive).countP (Effect.delivers (.fresh n)) = es.countP (Effect.queues n) := by
  rw [List.countP_filterMap]
  refine List.countP_congr fun e _ => ?_
  cases e with
  | queue m p => simp [Effect.receive,Effect.delivers,Effect.queues]
  | _ => simp [Effect.receive,Effect.queues]

theorem receivedFrees (es : List Effect) (b : Buff) : (es.filterMap Effect.receive).countP (Effect.frees b) = 0 := by
  refine List.countP_eq_zero.mpr fun e member => ?_
  obtain ⟨d,_,made⟩ := List.mem_filterMap.mp member
  cases d with
  | queue m p =>
    cases made
    exact Bool.false_ne_true
  | _ => cases made

def Chained (es : List Effect) : Prop := ∀ n size, .alloc n size ∈ es → es.countP (Effect.queues n) = 1

theorem conservedIff {es : List Effect} (inner : Inner es) :
    Conserved (es ++ es.filterMap Effect.receive ++ [.free .input]) ↔ Chained es := by
  have ledger : ∀ n, delivered (es ++ es.filterMap Effect.receive ++ [.free .input]) (.fresh n)+
      freed (es ++ es.filterMap Effect.receive ++ [.free .input]) (.fresh n) = es.countP (Effect.queues n) := by
    intro n
    obtain ⟨undelivered,unfreed,_⟩ := deliveredInner inner n
    unfold delivered freed at *
    rw [List.countP_append,List.countP_append,List.countP_append,List.countP_append,undelivered,unfreed,
      receivedQueues,receivedFrees]
    simp [Effect.delivers,Effect.frees]
  have released : freed (es ++ es.filterMap Effect.receive ++ [.free .input]) .input = 1 := by
    obtain ⟨_,_,unfreed⟩ := deliveredInner inner 0
    unfold freed at *
    rw [List.countP_append,List.countP_append,unfreed,receivedFrees]
    rfl
  have asked : ∀ n size, .alloc n size ∈ es ++ es.filterMap Effect.receive ++ [.free .input] ↔ Effect.alloc n size ∈ es := by
    intro n size
    refine ⟨fun member => ?_,fun member => List.mem_append_left _ (List.mem_append_left _ member)⟩
    rcases List.mem_append.mp member with early | last
    · rcases List.mem_append.mp early with first | late
      · exact first
      · obtain ⟨d,_,made⟩ := List.mem_filterMap.mp late
        cases d <;> cases made
    · cases List.mem_singleton.mp last
  constructor
  · intro conserved n size member
    rw [← ledger]
    exact conserved.2 n size ((asked n size).mpr member)
  · intro chained
    refine ⟨released,fun n size member => ?_⟩
    rw [ledger]
    exact chained n size ((asked n size).mp member)

theorem Tidy.chained {k k' : Nat} {es : List Effect} (tidy : Tidy k es k') : Chained es := by
  intro n size member
  obtain ⟨allocs,queues⟩ := tidy.2 n
  have some : 0 < es.countP (Effect.allocs n) := List.countP_pos_iff.mpr ⟨_,member,beq_self_eq_true n⟩
  rw [queues]
  rw [allocs] at some
  split_ifs at some ⊢ with within
  · rfl
  · exact absurd some (Nat.lt_irrefl 0)

theorem Tidy.leaks {k k' size : Nat} {es fs : List Effect} (tidy : Tidy k es k') (taken : .alloc k' size ∈ fs)
    (unchained : fs.countP (Effect.queues k') = 0) : ¬Chained (es ++ fs) := by
  intro chained
  have once := chained k' size (List.mem_append_right _ taken)
  have beyond : ¬(k ≤ k' ∧ k' < k') := fun within => Nat.lt_irrefl _ within.2
  rw [List.countP_append,(tidy.2 k').2,if_neg beyond,unchained] at once
  cases once

/-! Room in the buffers. -/

def Roomy (k : Nat) (es : List Effect) (k' : Nat) : Prop := k ≤ k' ∧ ∀ n,
  (n < k ∨ k' ≤ n → appended es n = 0 ∧ ∀ size, .alloc n size ∉ es) ∧ ∀ size, .alloc n size ∈ es → appended es n ≤ size

theorem appendedAppend (es fs : List Effect) (n : Nat) : appended (es ++ fs) n = appended es n+appended fs n := by
  rw [appended,appended,appended,List.map_append,List.sum_append]

theorem roomyNil (k : Nat) : Roomy k [] k :=
  ⟨Nat.le_refl k,fun _ => ⟨fun _ => ⟨rfl,fun _ => List.not_mem_nil⟩,fun _ none => absurd none List.not_mem_nil⟩⟩

theorem Roomy.append {k k' k'' : Nat} {es fs : List Effect} (first : Roomy k es k') (second : Roomy k' fs k'') :
    Roomy k (es ++ fs) k'' := by
  have low := first.1
  have high := second.1
  refine ⟨Nat.le_trans low high,fun n => ⟨fun outside => ?_,fun size taken => ?_⟩⟩
  · obtain ⟨nothing,untaken⟩ := (first.2 n).1 (by omega)
    obtain ⟨nothing',untaken'⟩ := (second.2 n).1 (by omega)
    rw [appendedAppend,nothing,nothing']
    exact ⟨rfl,fun size taken => (List.mem_append.mp taken).elim (untaken size) (untaken' size)⟩
  · rw [appendedAppend]
    rcases List.mem_append.mp taken with early | late
    · have before : n < k' := by
        by_contra beyond
        exact ((first.2 n).1 (.inr (Nat.not_lt.mp beyond))).2 size early
      rw [((second.2 n).1 (.inl before)).1,Nat.add_zero]
      exact (first.2 n).2 size early
    · have beyond : k' ≤ n := by
        by_contra before
        exact ((second.2 n).1 (.inl (Nat.not_le.mp before))).2 size late
      rw [((first.2 n).1 (.inr beyond)).1,Nat.zero_add]
      exact (second.2 n).2 size late

theorem roomyOpened (k size first : Nat) : Roomy k [.alloc k size,.read first 1] (k+1) := by
  refine ⟨Nat.le_succ k,fun n => ⟨fun other => ⟨rfl,fun size taken => ?_⟩,fun size _ => Nat.zero_le size⟩⟩
  simp only [List.mem_cons,Effect.alloc.injEq,List.not_mem_nil,or_false,reduceCtorEq] at taken
  omega

theorem roomyFilled {k size header len : Nat} (first : Nat) {late : List Effect} (fits : header+len ≤ size)
    (silent : ∀ n, appended late n = 0 ∧ ∀ size, .alloc n size ∉ late) :
    Roomy k ([.alloc k size,.read first 1] ++ ([.append k header,.read first len,.append k len] ++ late)) (k+1) := by
  have asked : ∀ n s, .alloc n s ∈ [Effect.alloc k size,.read first 1] ++ ([.append k header,.read first len,.append k len] ++ late) →
      n = k ∧ s = size := by
    intro n s taken
    simpa [(silent n).2] using taken
  refine ⟨Nat.le_succ k,fun n => ⟨fun outside => ?_,fun s taken => ?_⟩⟩
  · have other : ¬k = n := by omega
    rw [appendedAppend,appendedAppend,(silent n).1]
    refine ⟨?_,fun s taken => other (asked n s taken).1.symm⟩
    simp [appended,Effect.appends,other]
  · obtain ⟨rfl,rfl⟩ := asked n s taken
    rw [appendedAppend,appendedAppend,(silent n).1]
    simpa [appended,Effect.appends] using fits

/-! What a call hands up, and whether it returns. -/
def chained : List Effect → List Packet := List.filterMap fun
  | .queue _ p => some p
  | _ => none

def results {α : Type} (t : Trace Effect α) : Option (List Packet) :=
  match t.outcome with
  | .lost => none
  | _ => some (packets t.effects)

def chainResult {α : Type} (t : Trace Effect α) : Option (List Packet) :=
  match t.outcome with
  | .lost => none
  | _ => some (chained t.effects)

theorem chainedAppend (es fs : List Effect) : chained (es ++ fs) = chained es ++ chained fs := List.filterMap_append

theorem chainResultEmit {α : Type} (es : List Effect) (t : Trace Effect α) :
    chainResult (.emit es t) = (chainResult t).map (chained es ++ ·) := by
  unfold chainResult Trace.emit
  cases t.outcome with
  | lost => rfl
  | left => exact congrArg some (chainedAppend es _)
  | went a => exact congrArg some (chainedAppend es _)

theorem innerPackets {es : List Effect} (inner : Inner es) : packets es = [] := by
  refine List.filterMap_eq_nil_iff.mpr fun e member => ?_
  have early := inner e member
  cases e <;> first | rfl | cases early

theorem receivedPackets (es : List Effect) : packets (es.filterMap Effect.receive) = chained es := by
  rw [packets,chained,List.filterMap_filterMap]
  refine List.filterMap_congr fun e _ => ?_
  cases e <;> rfl

theorem finishResults {α β : Type} {t : Trace Effect α} (inner : Inner t.effects) {late : List Effect}
    (silent : packets late = [])
    (b : β) : results (t.finish fun es => .emit (es.filterMap Effect.receive ++ late) (.pure b)) = chainResult t := by
  have whole : packets (t.effects ++ (t.effects.filterMap Effect.receive ++ late ++ [])) = chained t.effects := by
    have split : ∀ as bs, packets (as ++ bs) = packets as ++ packets bs := fun _ _ => List.filterMap_append
    have none : packets [] = [] := rfl
    rw [split,split,split,innerPackets inner,receivedPackets,silent,none,List.append_nil,List.append_nil,List.nil_append]
  unfold results chainResult Trace.finish
  cases out : t.outcome with
  | lost => rfl
  | left => exact congrArg some whole
  | went a => exact congrArg some whole

end MhiHost
