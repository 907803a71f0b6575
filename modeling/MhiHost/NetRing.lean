import MhiHost.Queueing

/-! A transfer ring as a network driver sees it: how many descriptors are free, how many
are outstanding, and what a queue call and a completion make of that. -/
namespace MhiHost.NetRing
open Queueing (queueCall)

def mhiGetFreeDescCount (p : Port) : Int := getNrAvailRingElements p.chan.treRing

/- One element stays empty; what else is not free is outstanding. -/
def outstanding (p : Port) : Nat := p.chan.treRing.elements - 1 - (mhiGetFreeDescCount p).toNat

def Ringed (p : Port) : Prop := ∃ w h t, p.chan.treRing.Holds w h t

section Ring
variable {p : Port}

theorem outstandingOf {w h t} (held : p.chan.treRing.Holds w h t) : outstanding p = t - h := by
  have ordered := held.ordered
  have room := held.room
  have free : mhiGetFreeDescCount p = (h + w.count - 1 - t : Nat) := Ring.availOf held
  rw [outstanding,free,held.spans.elements,Int.toNat_natCast]
  omega

theorem queueRing (q : QueueReq) (ringed : Ringed p) : Ringed (mhiQueue p q).1 ∧
    outstanding (mhiQueue p q).1 = outstanding p + if (mhiQueue p q).2 = none then 1 else 0 := by
  obtain ⟨w,h,t,held⟩ := ringed
  have call := queueCall p q
  have tre := call.tre
  have ordered := held.ordered
  cases answer : (mhiQueue p q).2 with
  | some e =>
    rw [answer,if_neg (fun none => nomatch none)] at tre
    have still : (mhiQueue p q).1.chan.treRing.Holds w h t := by
      rw [tre]
      exact held.rung _
    refine ⟨⟨w,h,t,still⟩,?_⟩
    rw [outstandingOf still,outstandingOf held,if_neg (fun none => nomatch none),Nat.add_zero]
  | none =>
    rw [answer,if_pos rfl] at tre
    have space := Ring.spaceOf held (call.space (call.passed answer))
    have grown : (mhiQueue p q).1.chan.treRing.Holds w h (t + 1) := by
      rw [tre]
      exact (Ring.addHolds held space).rung _
    refine ⟨⟨w,h,t + 1,grown⟩,?_⟩
    rw [outstandingOf grown,outstandingOf held,if_pos rfl]
    omega

theorem queueElements (p : Port) (q : QueueReq) : (mhiQueue p q).1.chan.treRing.elements = p.chan.treRing.elements := by
  rw [(queueCall p q).tre]
  split <;> rfl

theorem retireRing (r : MhiResult) (ringed : Ringed p) (some : 0 < outstanding p) :
    Ringed (retire p r) ∧ outstanding (retire p r) + 1 = outstanding p := by
  obtain ⟨w,h,t,held⟩ := ringed
  rw [outstandingOf held] at some ⊢
  have fewer : (retire p r).chan.treRing.Holds w (h + 1) t := Ring.delHolds held (by omega)
  refine ⟨⟨w,h + 1,t,fewer⟩,?_⟩
  rw [outstandingOf fewer]
  omega

end Ring

structure Prepared (p : Port) : Prop where
  init : ∃ (w : Cyclic.Window) (ch : Chan) (vz : Nat), ch.treRing.Over w ∧ mhiInitChanCtxt ch (some vz) = (p.chan,none)

theorem preparedRing {p : Port} (prepared : Prepared p) : Ringed p ∧ outstanding p = 0 := by
  obtain ⟨w,ch,vz,laid,init⟩ := prepared.init
  have first : ch.treRing.base = w.slot 0 := by
    rw [Cyclic.Window.slot,Nat.zero_mod,Nat.zero_mul,Nat.add_zero]
    exact laid.base
  have held : (mhiInitChanCtxt ch (some vz)).1.treRing.Holds w 0 0 :=
    ⟨laid.moved _ _ _ _,first,first,Nat.le_refl _,by have counted := w.counted; omega⟩
  rw [congrArg Prod.fst init] at held
  exact ⟨⟨w,0,0,held⟩,outstandingOf held⟩

end MhiHost.NetRing
