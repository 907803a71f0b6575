import Mathlib.Logic.Relation
import Mathlib.Data.Set.Finite.Basic
import Mathlib.Data.Set.Finite.Lemmas
import Mathlib.Order.WellFounded

/-! Code that leaves a trail of effects and may jump to its exit label, and relations that
such code follows step by step. -/
namespace MhiHost
open Relation (ReflTransGen TransGen)

/- A run is lost where it is not followed to an end: the fuel is gone, or what the code does
there is not defined. -/
inductive Outcome (α : Type) where
  | went (a : α)
  | left
  | lost
  deriving DecidableEq, Repr

structure Trace (ε α : Type) where
  effects : List ε
  outcome : Outcome α
  deriving DecidableEq, Repr

namespace Trace
variable {ε α β : Type}

def pure (a : α) : Trace ε α := ⟨[],.went a⟩
def exit : Trace ε α := ⟨[],.left⟩
def stop : Trace ε α := ⟨[],.lost⟩
def emit (es : List ε) (t : Trace ε α) : Trace ε α := ⟨es ++ t.effects,t.outcome⟩

def bind (t : Trace ε α) (f : α → Trace ε β) : Trace ε β :=
  match t.outcome with
  | .went a => emit t.effects (f a)
  | .left => ⟨t.effects,.left⟩
  | .lost => ⟨t.effects,.lost⟩

/- The code behind the exit label, which sees the trail so far. -/
def finish (t : Trace ε α) (label : List ε → Trace ε β) : Trace ε β :=
  match t.outcome with
  | .lost => ⟨t.effects,.lost⟩
  | _ => emit t.effects (label t.effects)

def Ends (t : Trace ε α) : Prop := t.outcome ≠ .lost
instance [DecidableEq α] (t : Trace ε α) : Decidable t.Ends := inferInstanceAs (Decidable (_ ≠ _))

theorem memEmit {es : List ε} {t : Trace ε α} {e : ε} : e ∈ (emit es t).effects ↔ e ∈ es ∨ e ∈ t.effects := List.mem_append

theorem memBind {t : Trace ε α} {f : α → Trace ε β} {e : ε} :
    e ∈ (bind t f).effects ↔ e ∈ t.effects ∨ ∃ a, t.outcome = .went a ∧ e ∈ (f a).effects := by
  unfold bind
  cases out : t.outcome with
  | went a =>
    rw [memEmit]
    refine or_congr_right ⟨fun late => ⟨a,rfl,late⟩,?_⟩
    rintro ⟨_,⟨rfl⟩,late⟩
    exact late
  | left => simp
  | lost => simp

theorem bindWent {t : Trace ε α} {f : α → Trace ε β} {b : β} :
    (bind t f).outcome = .went b ↔ ∃ a, t.outcome = .went a ∧ (f a).outcome = .went b := by
  unfold bind
  cases out : t.outcome with
  | went a =>
    refine ⟨fun last => ⟨a,rfl,last⟩,?_⟩
    rintro ⟨_,⟨rfl⟩,last⟩
    exact last
  | left => simp
  | lost => simp

theorem bindEnds {t : Trace ε α} {f : α → Trace ε β} :
    (bind t f).Ends ↔ t.Ends ∧ ∀ a, t.outcome = .went a → (f a).Ends := by
  unfold bind Ends
  cases out : t.outcome with
  | went a =>
    refine ⟨fun last => ⟨nofun,?_⟩,fun last => last.2 a rfl⟩
    rintro _ ⟨rfl⟩
    exact last
  | left => simp
  | lost => simp

theorem pureBind (a : α) (f : α → Trace ε β) : bind (pure a) f = f a := rfl

theorem bindAssoc {γ : Type} (t : Trace ε α) (f : α → Trace ε β) (g : β → Trace ε γ) :
    bind (bind t f) g = bind t fun a => bind (f a) g := by
  obtain ⟨es,out⟩ := t
  cases out with
  | went a =>
    show bind (emit es (f a)) g = emit es (bind (f a) g)
    obtain ⟨fs,out⟩ := f a
    cases out with
    | went b =>
      show emit (es ++ fs) (g b) = emit es (emit fs (g b))
      rw [emit,emit,emit,List.append_assoc]
    | left => rfl
    | lost => rfl
  | left => rfl
  | lost => rfl

theorem bindCongr {t : Trace ε α} {f g : α → Trace ε β} (same : ∀ a, t.outcome = .went a → f a = g a) : bind t f = bind t g := by
  obtain ⟨es,out⟩ := t
  cases out with
  | went a => exact congrArg (emit es) (same a rfl)
  | left => rfl
  | lost => rfl

theorem finishEnds {t : Trace ε α} {label : List ε → Trace ε β} (closes : ∀ es, (label es).Ends) :
    (finish t label).Ends ↔ t.Ends := by
  unfold finish Ends
  cases out : t.outcome with
  | went a => exact ⟨fun _ => nofun,fun _ => closes _⟩
  | left => exact ⟨fun _ => nofun,fun _ => closes _⟩
  | lost => exact ⟨absurd rfl,absurd rfl⟩

theorem pureEnds (a : α) : (pure a : Trace ε α).Ends := nofun
theorem emitEnds {β : Type} (late : List ε → List ε) (b : β) (es : List ε) : (emit (late es) (pure b) : Trace ε β).Ends := nofun

theorem finished {t : Trace ε α} {label : List ε → Trace ε β} (ends : t.Ends) :
    (finish t label).effects = t.effects ++ (label t.effects).effects := by
  unfold finish
  cases out : t.outcome with
  | went a => rfl
  | left => rfl
  | lost => exact absurd out ends

theorem finishWent {t : Trace ε α} {label : List ε → Trace ε β} {b : β} (ends : t.Ends)
    (closes : ∀ es, (label es).outcome = .went b) : (finish t label).outcome = .went b := by
  unfold finish
  cases out : t.outcome with
  | went a => exact closes t.effects
  | left => exact closes t.effects
  | lost => exact absurd out ends

theorem wentEffects {t : Trace ε α} {a : α} (went : t.outcome = .went a) (f : α → Trace ε β) :
    (bind t f).effects = t.effects ++ (f a).effects := by
  rw [bind,went]
  rfl

theorem finishEither (t : Trace ε α) (label : List ε → Trace ε β) :
    (finish t label).effects = t.effects ∨ (finish t label).effects = t.effects ++ (label t.effects).effects := by
  by_cases ends : t.Ends
  · exact .inr (finished ends)
  · have out : t.outcome = .lost := not_not.mp ends
    rw [finish,out]
    exact .inl rfl

theorem memFinish {t : Trace ε α} {label : List ε → Trace ε β} {e : ε} :
    e ∈ (finish t label).effects ↔ e ∈ t.effects ∨ t.Ends ∧ e ∈ (label t.effects).effects := by
  by_cases ends : t.Ends
  · rw [finished ends,List.mem_append]
    exact or_congr_right (and_iff_right ends).symm
  · have out : t.outcome = .lost := not_not.mp ends
    rw [finish,out]
    exact ⟨.inl,fun done => done.elim id fun late => absurd late.1 ends⟩

def loop {σ : Type} (body : σ → Trace ε (σ ⊕ α)) : Nat → σ → Trace ε α
  | 0,_ => stop
  | fuel+1,s => bind (body s) fun
    | .inl next => loop body fuel next
    | .inr a => pure a

end Trace

section Following
variable {α : Type} {step : α → α → Prop} {a : α}

theorem followingEnds (finite : Set.Finite {b | ReflTransGen step a b})
    (acyclic : ∀ b, ReflTransGen step a b → ¬TransGen step b b) : Acc (fun x y => step y x) a := by
  have : Finite {b // ReflTransGen step a b} := finite.to_subtype
  let later (x y : {b // ReflTransGen step a b}) : Prop := TransGen step y.val x.val
  have : IsTrans _ later := ⟨fun _ _ _ left right => TransGen.trans right left⟩
  have : Std.Irrefl later := ⟨fun x => acyclic x.val x.property⟩
  have descends : WellFounded later := Finite.wellFounded_of_trans_of_irrefl later
  have each : ∀ x : {b // ReflTransGen step a b}, Acc (fun x y => step y x) x.val := by
    intro x
    induction x using descends.induction with
    | _ x ih => exact ⟨_,fun y follows => ih ⟨y,x.property.tail follows⟩ (TransGen.single follows)⟩
  exact each ⟨a,ReflTransGen.refl⟩

def Endless (step : α → α → Prop) (a : α) : Prop := ∃ b, ReflTransGen step a b ∧ TransGen step b b

theorem endlessStep (endless : Endless step a) : ∃ c, step a c ∧ Endless step c := by
  obtain ⟨b,way,cycle⟩ := endless
  rcases ReflTransGen.cases_head way with rfl | ⟨c,first,rest⟩
  · obtain ⟨c,first,back⟩ := TransGen.head'_iff.mp cycle
    exact ⟨c,first,c,ReflTransGen.refl,TransGen.tail' back first⟩
  · exact ⟨c,first,b,rest,cycle⟩

end Following

namespace Trace
section Loops
variable {ε α σ : Type} {body : σ → Trace ε (σ ⊕ α)} {s t : σ} {e : ε}

def Goes (body : σ → Trace ε (σ ⊕ α)) (s next : σ) : Prop := (body s).outcome = .went (.inl next)

theorem turnOf {fuel : Nat} (done : e ∈ (loop body fuel s).effects) :
    ∃ t, ReflTransGen (Goes body) s t ∧ e ∈ (body t).effects := by
  induction fuel generalizing s with
  | zero => cases done
  | succ fuel ih =>
    rcases memBind.mp done with now | ⟨next,out,later⟩
    · exact ⟨s,.refl,now⟩
    · cases next with
      | inl next =>
        obtain ⟨t,way,now⟩ := ih later
        exact ⟨t,.head out way,now⟩
      | inr a => cases later

inductive Path (body : σ → Trace ε (σ ⊕ α)) : σ → List ε → σ → Prop where
  | nil (s : σ) : Path body s [] s
  | cons {s next t : σ} {es : List ε} : Goes body s next → Path body next es t → Path body s ((body s).effects ++ es) t

theorem pathOf (way : ReflTransGen (Goes body) s t) : ∃ es, Path body s es t := by
  induction way using ReflTransGen.head_induction_on with
  | refl => exact ⟨[],.nil t⟩
  | head first _ ih =>
    obtain ⟨es,rest⟩ := ih
    exact ⟨_,.cons first rest⟩

theorem emitEmit (es fs : List ε) (t : Trace ε α) : emit es (emit fs t) = emit (es ++ fs) t := by
  rw [emit,emit,emit,List.append_assoc]

theorem pathDone {es : List ε} (path : Path body s es t) :
    ∃ n, ∀ fuel, loop body (n+fuel) s = emit es (loop body fuel t) := by
  induction path with
  | nil s =>
    refine ⟨0,fun fuel => ?_⟩
    rw [Nat.zero_add]
    rfl
  | cons first _ ih =>
    obtain ⟨n,rest⟩ := ih
    refine ⟨n+1,fun fuel => ?_⟩
    have out : (body _).outcome = .went (.inl _) := first
    rw [Nat.add_right_comm,loop,bind,out,← emitEmit,← rest]

theorem loopLeaves {es : List ε} (path : Path body s es t) (out : (body t).outcome = .left) :
    ∃ fuel, loop body fuel s = ⟨es ++ (body t).effects,.left⟩ := by
  obtain ⟨n,whole⟩ := pathDone path
  refine ⟨n+1,?_⟩
  rw [whole,loop,bind,out]
  rfl

theorem turnDone (way : ReflTransGen (Goes body) s t) :
    ∃ fuel, ∀ e ∈ (body t).effects, e ∈ (loop body fuel s).effects := by
  obtain ⟨es,path⟩ := pathOf way
  obtain ⟨n,whole⟩ := pathDone path
  refine ⟨n+1,fun e now => ?_⟩
  rw [whole]
  exact memEmit.mpr (.inr (memBind.mpr (.inl now)))

theorem loopEnds (turns : ∀ t, ReflTransGen (Goes body) s t → (body t).Ends) (descends : Acc (fun t s => Goes body s t) s) :
    ∃ fuel, (loop body fuel s).Ends := by
  induction descends with
  | intro s _ ih =>
    have here := turns s .refl
    cases out : (body s).outcome with
    | went next =>
      cases next with
      | inl next =>
        obtain ⟨fuel,ends⟩ := ih next out fun t way => turns t (.head out way)
        refine ⟨fuel+1,bindEnds.mpr ⟨here,fun a same => ?_⟩⟩
        cases out.symm.trans same
        exact ends
      | inr a =>
        refine ⟨1,bindEnds.mpr ⟨here,fun b same => ?_⟩⟩
        cases out.symm.trans same
        exact nofun
    | left =>
      refine ⟨1,bindEnds.mpr ⟨here,fun a same => ?_⟩⟩
      cases out.symm.trans same
    | lost => exact absurd out here

theorem loopLast {fuel : Nat} (ends : (loop body fuel s).Ends) : ∃ t, ReflTransGen (Goes body) s t ∧
    ((body t).outcome = .left ∧ (loop body fuel s).outcome = .left ∨
      ∃ a, (body t).outcome = .went (.inr a) ∧ (loop body fuel s).outcome = .went a) := by
  induction fuel generalizing s with
  | zero => exact absurd rfl ends
  | succ fuel ih =>
    obtain ⟨turn,rest⟩ := bindEnds.mp ends
    cases out : (body s).outcome with
    | went next =>
      cases next with
      | inl next =>
        obtain ⟨t,way,last⟩ := ih (rest _ out)
        refine ⟨t,.head out way,?_⟩
        rw [loop,bind,out]
        exact last
      | inr a =>
        refine ⟨s,.refl,.inr ⟨a,out,?_⟩⟩
        rw [loop,bind,out]
        rfl
    | left =>
      refine ⟨s,.refl,.inl ⟨out,?_⟩⟩
      rw [loop,bind,out]
    | lost => exact absurd out turn

theorem reachedEnds {fuel : Nat} (ends : (loop body fuel s).Ends) (way : ReflTransGen (Goes body) s t) : (body t).Ends := by
  induction way using ReflTransGen.head_induction_on generalizing fuel with
  | refl =>
    cases fuel with
    | zero => exact absurd rfl ends
    | succ fuel => exact (bindEnds.mp ends).1
  | head first _ ih =>
    cases fuel with
    | zero => exact absurd rfl ends
    | succ fuel => exact ih ((bindEnds.mp ends).2 _ first)

theorem endlessRuns {among : σ → Prop} (turns : ∀ s, among s → (body s).Ends → ∃ next, Goes body s next ∧ among next)
    (here : among s) (fuel : Nat) : ¬(loop body fuel s).Ends := by
  induction fuel generalizing s with
  | zero => exact fun ends => ends rfl
  | succ fuel ih =>
    intro ends
    obtain ⟨turn,rest⟩ := bindEnds.mp ends
    obtain ⟨next,out,later⟩ := turns s here turn
    exact ih later (rest _ out)

theorem turnKeeps {holds : σ → List ε → Prop} {fuel : Nat} (alone : holds s (body s).effects)
    (before : ∀ next, Goes body s next → holds s ((body s).effects ++ (loop body fuel next).effects)) :
    holds s (loop body (fuel+1) s).effects := by
  rw [loop,bind]
  cases out : (body s).outcome with
  | went next =>
    cases next with
    | inl next => exact before next out
    | inr a =>
      show holds s ((body s).effects ++ [])
      rw [List.append_nil]
      exact alone
  | left => exact alone
  | lost => exact alone

theorem loopKeeps {holds : σ → List ε → Prop} (nothing : ∀ s, holds s [])
    (turn : ∀ t, ReflTransGen (Goes body) s t → holds t (body t).effects ∧
      ∀ next, Goes body t next → ∀ es, holds next es → holds t ((body t).effects ++ es)) (fuel : Nat) :
    holds s (loop body fuel s).effects := by
  induction fuel generalizing s with
  | zero => exact nothing s
  | succ fuel ih =>
    obtain ⟨alone,before⟩ := turn s .refl
    exact turnKeeps alone fun next out => before next out _ (ih fun t way => turn t (.head out way))

theorem endedKeeps {holds : σ → List ε → Prop} (turn : ∀ t, ReflTransGen (Goes body) s t → (body t).Ends →
      holds t (body t).effects ∧ ∀ next, Goes body t next → ∀ es, holds next es → holds t ((body t).effects ++ es)) {fuel : Nat}
    (ends : (loop body fuel s).Ends) : holds s (loop body fuel s).effects := by
  induction fuel generalizing s with
  | zero => exact absurd rfl ends
  | succ fuel ih =>
    obtain ⟨here,later⟩ := bindEnds.mp ends
    obtain ⟨alone,before⟩ := turn s .refl here
    exact turnKeeps alone fun next out => before next out _ (ih (fun t way => turn t (.head out way)) (later _ out))

end Loops
end Trace

end MhiHost
