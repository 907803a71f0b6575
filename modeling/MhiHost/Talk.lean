import MhiHost.Trace

/-! Code that asks a partner at every step, and goes on from whatever is answered. A run is
the list of what was asked and answered, in order, with how the code ended. -/
namespace MhiHost

inductive Talk (Q : Type) (A : Q → Type) (α : Type) where
  | pure (a : α)
  | exit
  | stop
  | ask (q : Q) (next : A q → Talk Q A α)

abbrev Exchange (Q : Type) (A : Q → Type) := (q : Q) × A q

namespace Talk
variable {Q : Type} {A : Q → Type} {α β γ σ : Type}

def bind : Talk Q A α → (α → Talk Q A β) → Talk Q A β
  | .pure a,f => f a
  | .exit,_ => .exit
  | .stop,_ => .stop
  | .ask q next,f => .ask q fun a => (next a).bind f

def question (q : Q) : Talk Q A (A q) := .ask q .pure

def Leaves : Talk Q A α → List (Exchange Q A) → Outcome α → Prop
  | .pure a,es,o => es = [] ∧ o = .went a
  | .exit,es,o => es = [] ∧ o = .left
  | .stop,es,o => es = [] ∧ o = .lost
  | .ask q next,es,o => ∃ a rest, es = ⟨q,a⟩ :: rest ∧ (next a).Leaves rest o

def loop (body : σ → Talk Q A (σ ⊕ α)) : Nat → σ → Talk Q A α
  | 0,_ => .stop
  | fuel+1,s => (body s).bind fun
    | .inl next => loop body fuel next
    | .inr a => .pure a

def each (f : β → Talk Q A Unit) : List β → Talk Q A Unit
  | [] => .pure ()
  | b::bs => (f b).bind fun _ => each f bs

@[simp] theorem pureLeaves {a : α} {es : List (Exchange Q A)} {o : Outcome α} :
    (pure a : Talk Q A α).Leaves es o ↔ es = [] ∧ o = .went a := Iff.rfl
@[simp] theorem exitLeaves {es : List (Exchange Q A)} {o : Outcome α} : (exit : Talk Q A α).Leaves es o ↔ es = [] ∧
    o = .left := Iff.rfl
@[simp] theorem stopLeaves {es : List (Exchange Q A)} {o : Outcome α} : (stop : Talk Q A α).Leaves es o ↔ es = [] ∧
    o = .lost := Iff.rfl
@[simp] theorem askLeaves {q : Q} {next : A q → Talk Q A α} {es : List (Exchange Q A)} {o : Outcome α} :
    (ask q next).Leaves es o ↔ ∃ a rest, es = ⟨q,a⟩ :: rest ∧ (next a).Leaves rest o := Iff.rfl

theorem bindLeaves {m : Talk Q A α} {f : α → Talk Q A β} {es : List (Exchange Q A)} {o : Outcome β} :
    (m.bind f).Leaves es o ↔ (∃ a x y, es = x ++ y ∧ m.Leaves x (.went a) ∧ (f a).Leaves y o) ∨
      m.Leaves es .left ∧ o = .left ∨ m.Leaves es .lost ∧ o = .lost := by
  induction m generalizing es with
  | pure a => simp [bind]
  | exit => simp [bind]
  | stop => simp [bind]
  | ask q next ih =>
    simp only [bind,askLeaves,ih]
    constructor
    · rintro ⟨a,rest,rfl,⟨b,x,y,rfl,first,later⟩ | ⟨first,rfl⟩ | ⟨first,rfl⟩⟩
      · exact .inl ⟨b,⟨q,a⟩ :: x,y,rfl,⟨a,x,rfl,first⟩,later⟩
      · exact .inr (.inl ⟨⟨a,rest,rfl,first⟩,rfl⟩)
      · exact .inr (.inr ⟨⟨a,rest,rfl,first⟩,rfl⟩)
    · rintro (⟨b,_,y,rfl,⟨a,x,rfl,first⟩,later⟩ | ⟨⟨a,rest,rfl,first⟩,rfl⟩ | ⟨⟨a,rest,rfl,first⟩,rfl⟩)
      · exact ⟨a,x ++ y,rfl,.inl ⟨b,x,y,rfl,first,later⟩⟩
      · exact ⟨a,rest,rfl,.inr (.inl ⟨first,rfl⟩)⟩
      · exact ⟨a,rest,rfl,.inr (.inr ⟨first,rfl⟩)⟩

theorem bindWent {m : Talk Q A α} {f : α → Talk Q A β} {es : List (Exchange Q A)} {b : β} :
    (m.bind f).Leaves es (.went b) ↔ ∃ a x y, es = x ++ y ∧ m.Leaves x (.went a) ∧ (f a).Leaves y (.went b) := by
  simp [bindLeaves]

theorem bindAssoc (m : Talk Q A α) (f : α → Talk Q A β) (g : β → Talk Q A γ) :
    (m.bind f).bind g = m.bind fun a => (f a).bind g := by
  induction m with
  | pure a => rfl
  | exit => rfl
  | stop => rfl
  | ask q next ih => simp [bind,ih]

theorem eachAppend (f : β → Talk Q A Unit) (l k : List β) : each f (l ++ k) = (each f l).bind fun _ => each f k := by
  induction l with
  | nil => rfl
  | cons b bs ih => simp [each,ih,bindAssoc]

theorem eachFiltered (f : β → Talk Q A Unit) (p : β → Bool) (l : List β) :
    each (fun b => if p b then f b else .pure ()) l = each f (l.filter p) := by
  induction l with
  | nil => rfl
  | cons b bs ih =>
    cases kind : p b with
    | true => simp [each,kind,ih]
    | false => simp [each,kind,ih,bind]

theorem eachMap (f : β → Talk Q A Unit) (g : γ → β) (l : List γ) : each f (l.map g) = each (fun c => f (g c)) l := by
  induction l with
  | nil => rfl
  | cons c cs ih => simp [each,ih]

theorem eachFlatMap (f : β → Talk Q A Unit) (g : γ → List β) (l : List γ) :
    each f (l.flatMap g) = each (fun c => each f (g c)) l := by
  induction l with
  | nil => rfl
  | cons c cs ih => simp [each,eachAppend,ih]

end Talk

namespace Talk
variable {Q : Type} {A : Q → Type} {α : Type}

def follow [DecidableEq Q] : Talk Q A α → List (Exchange Q A) → Option (Outcome α)
  | .pure a,[] => some (.went a)
  | .exit,[] => some .left
  | .stop,[] => some .lost
  | .ask q next,⟨q',a⟩ :: rest => if same : q' = q then (next (same ▸ a)).follow rest else none
  | _,_ => none

theorem followLeaves [DecidableEq Q] {m : Talk Q A α} {es : List (Exchange Q A)} {o : Outcome α} :
    m.follow es = some o → m.Leaves es o := by
  induction m generalizing es with
  | pure a | exit | stop => cases es <;> simp +contextual [follow]
  | ask q next ih =>
    intro followed
    cases es with
    | nil => cases followed
    | cons step rest =>
      obtain ⟨q',a⟩ := step
      simp only [follow,Option.dite_none_right_eq_some] at followed
      obtain ⟨rfl,later⟩ := followed
      exact ⟨a,rest,rfl,ih a later⟩

end Talk

/- A run that falls into a part for each member of a list. -/
inductive Parts {ε β : Type} (part : β → List ε → Prop) : List β → List ε → Prop where
  | nil : Parts part [] []
  | cons {b : β} {bs : List β} {x y : List ε} : part b x → Parts part bs y → Parts part (b :: bs) (x ++ y)

/- The same, cut off inside one of the parts. -/
inductive CutOff {ε β : Type} (part : β → List ε → Prop) (cut : β → List ε → Prop) : List β → List ε → Prop where
  | here {b : β} {bs : List β} {x : List ε} : cut b x → CutOff part cut (b :: bs) x
  | later {b : β} {bs : List β} {x y : List ε} : part b x → CutOff part cut bs y → CutOff part cut (b :: bs) (x ++ y)

section Parts
variable {ε β : Type} {part other cut uncut : β → List ε → Prop} {bs : List β} {es : List ε}

theorem Parts.mono (same : ∀ b x, x.length ≤ es.length → part b x → other b x) (parts : Parts part bs es) :
    Parts other bs es := by
  induction parts with
  | nil => exact .nil
  | cons first _ ih =>
    simp only [List.length_append] at same
    exact .cons (same _ _ (by omega) first) (ih fun b x short => same b x (by omega))

theorem CutOff.mono (same : ∀ b x, part b x → other b x) (less : ∀ b x, cut b x → uncut b x) (off : CutOff part cut bs es) :
    CutOff other uncut bs es := by
  induction off with
  | here first => exact .here (less _ _ first)
  | later first _ ih => exact .later (same _ _ first) ih

end Parts

namespace Talk
variable {Q : Type} {A : Q → Type} {α β σ : Type} {f : β → Talk Q A Unit} {es : List (Exchange Q A)}

theorem eachWent {l : List β} : (each f l).Leaves es (.went ()) ↔ Parts (fun b es => (f b).Leaves es (.went ())) l es := by
  induction l generalizing es with
  | nil =>
    simp only [each,pureLeaves,and_true]
    constructor
    · rintro rfl
      exact .nil
    · rintro ⟨⟩
      rfl
  | cons b bs ih =>
    simp only [each,bindWent,ih]
    constructor
    · rintro ⟨_,x,y,rfl,first,later⟩
      exact .cons first later
    · intro parts
      cases parts with
      | cons first later => exact ⟨(),_,_,rfl,first,later⟩

theorem eachCut {l : List β} {o : Outcome Unit} (short : o ≠ .went ()) :
    (each f l).Leaves es o ↔ CutOff (fun b es => (f b).Leaves es (.went ())) (fun b es => (f b).Leaves es o) l es := by
  induction l generalizing es with
  | nil =>
    simp only [each,pureLeaves,short,and_false,false_iff]
    exact nofun
  | cons b bs ih =>
    simp only [each,bindLeaves,ih]
    constructor
    · rintro (⟨_,x,y,rfl,first,later⟩ | ⟨here,rfl⟩ | ⟨here,rfl⟩)
      · exact .later first later
      · exact .here here
      · exact .here here
    · intro parts
      cases parts with
      | here cut =>
        cases o with
        | went _ => exact absurd rfl short
        | left => exact .inr (.inl ⟨cut,rfl⟩)
        | lost => exact .inr (.inr ⟨cut,rfl⟩)
      | later first rest => exact .inl ⟨(),_,_,rfl,first,rest⟩

inductive Turns (body : σ → Talk Q A (σ ⊕ α)) : σ → List (Exchange Q A) → α → Prop where
  | last {s : σ} {x : List (Exchange Q A)} {a : α} : (body s).Leaves x (.went (.inr a)) → Turns body s x a
  | more {s t : σ} {x y : List (Exchange Q A)} {a : α} : (body s).Leaves x (.went (.inl t)) → Turns body t y a →
      Turns body s (x ++ y) a

section Loop
variable {body : σ → Talk Q A (σ ⊕ α)} {s : σ} {a : α} {fuel : Nat}

theorem loopTurns (went : (loop body fuel s).Leaves es (.went a)) : Turns body s es a := by
  induction fuel generalizing s es with
  | zero => simp [loop] at went
  | succ fuel ih =>
    obtain ⟨next,x,y,rfl,first,later⟩ := bindWent.mp went
    cases next with
    | inl t => exact .more first (ih later)
    | inr b =>
      obtain ⟨rfl,same⟩ := later
      cases same
      rw [List.append_nil]
      exact .last first

theorem loopEnough (busy : ∀ s o, ¬(body s).Leaves [] o) (turns : Turns body s es a) (enough : es.length < fuel) :
    (loop body fuel s).Leaves es (.went a) := by
  induction turns generalizing fuel with
  | @last s x a first =>
    obtain ⟨fuel,rfl⟩ := Nat.exists_eq_add_of_lt enough
    exact bindWent.mpr ⟨.inr a,x,[],(List.append_nil x).symm,first,rfl,rfl⟩
  | @more s t x y a first _ ih =>
    have some : x ≠ [] := fun empty => busy s _ (empty ▸ first)
    have longer : 0 < x.length := List.length_pos_iff.mpr some
    rw [List.length_append] at enough
    cases fuel with
    | zero => cases enough
    | succ fuel => exact bindWent.mpr ⟨.inl t,x,y,rfl,first,ih (by omega)⟩

theorem loopCut {o : Outcome α} (short : ∀ a, o ≠ .went a) (ran : (loop body fuel s).Leaves es o) :
    ∃ t, ∃ xs : List (List (Exchange Q A)), ∃ y, es = xs.flatten ++ y ∧
      (∀ x ∈ xs, ∃ s t, (body s).Leaves x (.went (.inl t))) ∧
      (y = [] ∧ o = .lost ∨ (body t).Leaves y .left ∧ o = .left ∨ (body t).Leaves y .lost ∧ o = .lost) := by
  induction fuel generalizing s es with
  | zero =>
    obtain ⟨rfl,rfl⟩ := ran
    exact ⟨s,[],[],rfl,nofun,.inl ⟨rfl,rfl⟩⟩
  | succ fuel ih =>
    rcases bindLeaves.mp ran with ⟨next,x,y,rfl,first,later⟩ | here
    · cases next with
      | inl t =>
        obtain ⟨t',xs,y,rfl,before,last⟩ := ih later
        refine ⟨t',x :: xs,y,by simp,?_,last⟩
        intro z inside
        rcases List.mem_cons.mp inside with rfl | inside
        · exact ⟨s,t,first⟩
        · exact before z inside
      | inr b => exact absurd later.2 (short b)
    · exact ⟨s,[],es,rfl,nofun,.inr here⟩

end Loop

def Only (p : Q → Prop) : Talk Q A α → Prop
  | .pure _ | .exit | .stop => True
  | .ask q next => p q ∧ ∀ a, (next a).Only p

section Only
variable {p : Q → Prop}

theorem onlyBind {m : Talk Q A α} {g : α → Talk Q A β} (first : m.Only p) (later : ∀ a, (g a).Only p) : (m.bind g).Only p := by
  induction m with
  | pure a => exact later a
  | exit | stop => trivial
  | ask q next ih => exact ⟨first.1,fun a => ih a (first.2 a)⟩

theorem onlyLoop {body : σ → Talk Q A (σ ⊕ α)} (turn : ∀ s, (body s).Only p) (fuel : Nat) (s : σ) :
    (loop body fuel s).Only p := by
  induction fuel generalizing s with
  | zero => trivial
  | succ fuel ih =>
    refine onlyBind (turn s) fun next => ?_
    cases next with
    | inl t => exact ih t
    | inr a => trivial

theorem onlyAsked {m : Talk Q A α} {o : Outcome α} (only : m.Only p) (ran : m.Leaves es o) : ∀ step ∈ es, p step.1 := by
  induction m generalizing es with
  | pure a | exit | stop =>
    obtain ⟨rfl,-⟩ := ran
    exact nofun
  | ask q next ih =>
    obtain ⟨a,rest,rfl,later⟩ := ran
    exact List.forall_mem_cons.mpr ⟨only.1,ih a (only.2 a) later⟩

end Only
end Talk

end MhiHost
