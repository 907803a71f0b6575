import MhiHost.Config
import MhiHost.Queueing
import Mathlib.Data.List.Forall2

/-! The transfer ring and the buffer ring of a channel as one FIFO. Both rings have
different element sizes and wrap at different addresses; the two share one pair of
unwrapped counters. What was handed back, followed by what the rings still hold, is
what was ever placed. `R` is what a TRE says about its local element. -/
namespace MhiHost
open Cyclic (Window)

def handed (ch : Chan) : List Nat := ch.xferLog.map MhiResult.bufAddr

structure Fifo (R : MhiTre → BufInfo → Prop) (wt wb : Window) (ch : Chan) (h t : Nat) (placed : List Nat) : Prop where
  tre : ch.treRing.Holds wt h t
  buf : ch.bufRing.Holds wb h t
  paired : List.Forall₂ R (wt.view ch.treMem h t) (wb.view ch.bufMem h t)
  order : handed ch ++ (wb.view ch.bufMem h t).map BufInfo.cbBuf = placed

namespace Fifo
variable {R : MhiTre → BufInfo → Prop} {wt wb : Window} {p : Port} {h t : Nat} {placed : List Nat}

theorem of {ch ch' : Chan} (fifo : Fifo R wt wb ch h t placed) (tre : ch'.treRing.Holds wt h t)
    (buf : ch'.bufRing = ch.bufRing) (bufMem : ch'.bufMem = ch.bufMem) (treMem : ch'.treMem = ch.treMem)
    (log : ch'.xferLog = ch.xferLog) : Fifo R wt wb ch' h t placed where
  tre := tre
  buf := buf ▸ fifo.buf
  paired := by rw [treMem, bufMem]; exact fifo.paired
  order := by simpa only [handed,log,bufMem] using fifo.order

theorem ringDb (fifo : Fifo R wt wb p.chan h t placed) : Fifo R wt wb (mhiRingChanDb p).chan h t placed :=
  fifo.of (fifo.tre.rung _) rfl rfl rfl rfl

theorem ringIf (fifo : Fifo R wt wb p.chan h t placed) : Fifo R wt wb (ringIfAccessible p).chan h t placed := by
  unfold ringIfAccessible
  split
  · exact ringDb fifo
  · exact fifo

/- A mapping error leaves a half-written local element, but in the free cell. -/
theorem scribble {b : BufInfo} (fifo : Fifo R wt wb p.chan h t placed) :
    Fifo R wt wb {p.chan with bufMem := Function.update p.chan.bufMem p.chan.bufRing.wp b} h t placed where
  tre := fifo.tre
  buf := fifo.buf
  paired := by
    rw [fifo.buf.wp]
    simpa only [wb.viewUpdate _ _ fifo.buf.room] using fifo.paired
  order := by
    rw [fifo.buf.wp]
    simpa only [handed,wb.viewUpdate _ _ fifo.buf.room] using fifo.order

theorem genTreRefused {info flags reply out e} (fifo : Fifo R wt wb p.chan h t placed)
    (ran : mhiGenTre p info flags reply = (out,some e)) :
    Fifo R wt wb out.chan h t placed ∧ out.chan.accepted = p.chan.accepted ∧ out.chan.preAlloc = p.chan.preAlloc := by
  unfold mhiGenTre at ran
  cases mapped : (fillBufInfo p info reply).2 with
  | none => simp [mapped] at ran
  | some err =>
    simp only [mapped,Prod.mk.injEq] at ran
    obtain ⟨rfl,_⟩ := ran
    exact ⟨scribble fifo,rfl,rfl⟩

theorem genTreFills {info flags reply out} (fifo : Fifo R wt wb p.chan h t placed) (wide : wt.count ≤ wb.count)
    (space : t + 1 < h + wt.count)
    (told : ∀ b d, b.len = info.len → R ⟨b.pAddr,MhiTre.dataDword0 info.len,d⟩ b)
    (ran : mhiGenTre p info flags reply = (out,none)) :
    Fifo R wt wb out.chan h (t + 1) (placed ++ [info.cbBuf]) ∧ out.chan.accepted = p.chan.accepted ∧
      out.chan.preAlloc = p.chan.preAlloc := by
  unfold mhiGenTre at ran
  cases mapped : (fillBufInfo p info reply).2 with
  | some err => simp [mapped] at ran
  | none =>
    simp only [mapped,Prod.mk.injEq,and_true] at ran
    subst out
    obtain ⟨cb,len⟩ := Queueing.fillNames (p := p) info reply
    refine ⟨⟨Ring.addHolds fifo.tre space,Ring.addHolds fifo.buf (by omega),?_,?_⟩,rfl,rfl⟩
    · simp only [fifo.tre.wp,fifo.buf.wp]
      rw [wt.viewWrite _ _ fifo.tre.ordered fifo.tre.room, wb.viewWrite _ _ fifo.buf.ordered fifo.buf.room]
      exact List.rel_append fifo.paired (.cons (told _ _ len) .nil)
    · have order := fifo.order
      simp only [handed,fifo.buf.wp] at order ⊢
      rw [wb.viewWrite _ _ fifo.buf.ordered fifo.buf.room, List.map_append, ← List.append_assoc, order]
      simp [cb]

structure Grows (R : MhiTre → BufInfo → Prop) (wt wb : Window) (ch ch' : Chan) (h t : Nat) (placed : List Nat) : Prop where
  grown : ∃ t' added, t ≤ t' ∧ Fifo R wt wb ch' h t' (placed ++ added) ∧ ch'.accepted = ch.accepted ++ added
  preAlloc : ch'.preAlloc = ch.preAlloc

theorem Grows.refl {ch : Chan} (fifo : Fifo R wt wb ch h t placed) : Grows R wt wb ch ch h t placed :=
  ⟨⟨t,[],Nat.le_refl t,by simpa using fifo,by simp⟩,rfl⟩

theorem Grows.after {ch ch' ch'' : Chan} {mid h' : Nat} {first : List Nat} (le : t ≤ mid)
    (accepted : ch'.accepted = ch.accepted ++ first) (preAlloc : ch'.preAlloc = ch.preAlloc)
    (more : Grows R wt wb ch' ch'' h' mid (placed ++ first)) : Grows R wt wb ch ch'' h' t placed := by
  obtain ⟨⟨last,second,le',done,accepted'⟩,preAlloc'⟩ := more
  refine ⟨⟨last,first ++ second,Nat.le_trans le le',?_,?_⟩,preAlloc'.trans preAlloc⟩
  · rw [← List.append_assoc]
    exact done
  · rw [← List.append_assoc, ← accepted]
    exact accepted'

theorem Grows.refused {info flags reply out e} {c : Cntrl} (fifo : Fifo R wt wb p.chan h t placed)
    (ran : mhiGenTre {p with cntrl := c} info flags reply = (out,some e)) :
    Grows R wt wb p.chan out.chan h t placed := by
  obtain ⟨kept,accepted,preAlloc⟩ := genTreRefused (p := {p with cntrl := c}) fifo ran
  exact ⟨⟨t,[],Nat.le_refl t,by simpa using kept,by simpa using accepted⟩,preAlloc⟩

theorem ringIfLog (p : Port) : (ringIfAccessible p).chan.accepted = p.chan.accepted ∧
    (ringIfAccessible p).chan.preAlloc = p.chan.preAlloc := by
  unfold ringIfAccessible
  split <;> exact ⟨rfl,rfl⟩

theorem Grows.filled {info flags reply out} {c c' : Cntrl} (fifo : Fifo R wt wb p.chan h t placed)
    (wide : wt.count ≤ wb.count) (free : ¬mhiIsRingFull p.chan.treRing = true)
    (told : ∀ b d, b.len = info.len → R ⟨b.pAddr,MhiTre.dataDword0 info.len,d⟩ b)
    (ran : mhiGenTre {p with cntrl := c} info flags reply = (out,none)) :
    Grows R wt wb p.chan (accept (ringIfAccessible {out with cntrl := c'}) info.cbBuf).chan h t placed := by
  have space := Ring.spaceOf fifo.tre (eq_false_of_ne_true free)
  obtain ⟨filled,accepted,preAlloc⟩ := genTreFills (p := {p with cntrl := c}) fifo wide space told ran
  obtain ⟨log,same⟩ := ringIfLog {out with cntrl := c'}
  have rung := ringIf (p := {out with cntrl := c'}) filled
  refine ⟨⟨t + 1,[info.cbBuf],by omega,rung.of rung.tre rfl rfl rfl rfl,?_⟩,same.trans preAlloc⟩
  show (ringIfAccessible {out with cntrl := c'}).chan.accepted ++ [info.cbBuf] = _
  rw [log]
  exact congrArg (· ++ [info.cbBuf]) accepted

theorem queueLocked {info flags reply} (fifo : Fifo R wt wb p.chan h t placed) (wide : wt.count ≤ wb.count)
    (told : ∀ b d, b.len = info.len → R ⟨b.pAddr,MhiTre.dataDword0 info.len,d⟩ b) :
    Grows R wt wb p.chan (queueLocked p info flags reply).1.chan h t placed := by
  unfold MhiHost.queueLocked
  split
  · exact .refl fifo
  split
  · exact .refl fifo
  rename_i free
  split
  · exact .refl fifo
  dsimp only
  split
  · rename_i out e ran
    exact .refused fifo ran
  · rename_i out ran
    exact .filled fifo wide free told ran

theorem fill {buf len flags reply out err} (fifo : Fifo R wt wb p.chan h t placed) (wide : wt.count ≤ wb.count)
    (told : ∀ b d, b.len = len → R ⟨b.pAddr,MhiTre.dataDword0 len,d⟩ b)
    (ran : mhiQueueBufFill p buf len flags reply = (out,err)) :
    (∃ t', t ≤ t' ∧ Fifo R wt wb out.chan h t' (placed ++ if err.isNone then [buf] else [])) ∧
      out.chan.accepted = p.chan.accepted := by
  have stays : ∀ ch : Chan, ∀ e : Errno, Fifo R wt wb ch h t placed → ch.accepted = p.chan.accepted →
      (∃ t', t ≤ t' ∧ Fifo R wt wb ch h t' (placed ++ if (some e).isNone then [buf] else [])) ∧
        ch.accepted = p.chan.accepted := by
    intro ch e kept same
    exact ⟨⟨t,Nat.le_refl t,by simpa using kept⟩,same⟩
  unfold mhiQueueBufFill at ran
  split at ran
  · cases ran
    exact stays _ _ fifo rfl
  split at ran
  · cases ran
    exact stays _ _ fifo rfl
  rename_i free
  have space := Ring.spaceOf fifo.tre (eq_false_of_ne_true free)
  cases err with
  | some e =>
    obtain ⟨kept,accepted,_⟩ := genTreRefused fifo ran
    exact stays _ e kept accepted
  | none =>
    obtain ⟨filled,accepted,_⟩ := genTreFills fifo wide space told ran
    exact ⟨⟨t + 1,Nat.le_succ t,filled⟩,accepted⟩

theorem queueBuf {buf len flags reply} (fifo : Fifo R wt wb p.chan h t placed) (wide : wt.count ≤ wb.count)
    (told : ∀ b d, b.len = len → R ⟨b.pAddr,MhiTre.dataDword0 len,d⟩ b) :
    Grows R wt wb p.chan (mhiQueueBuf p buf len flags reply).1.chan h t placed := by
  unfold mhiQueueBuf mhiQueueBufFill
  by_cases failing : mhiPmInErrorState p.cntrl.pmState = true
  · simp only [failing]
    exact .refl fifo
  by_cases full : mhiIsRingFull p.chan.treRing = true
  · simp only [failing,full]
    exact .refl fifo
  simp only [failing,full]
  split
  · rename_i out e ran
    exact .refused fifo ran
  · rename_i out ran
    exact .filled (c := p.cntrl) fifo wide full told ran

theorem queue {q} (fifo : Fifo R wt wb p.chan h t placed) (wide : wt.count ≤ wb.count)
    (told : ∀ b d, b.len = q.len → R ⟨b.pAddr,MhiTre.dataDword0 q.len,d⟩ b) :
    Grows R wt wb p.chan (mhiQueue p q).1.chan h t placed := by
  unfold mhiQueue
  split
  · exact queueBuf fifo wide told
  · exact queueLocked fifo wide told
  · exact queueLocked fifo wide told

theorem retire {r : MhiResult} (fifo : Fifo R wt wb p.chan h t placed) (filled : h < t)
    (named : r.bufAddr = (p.chan.bufMem p.chan.bufRing.rp).cbBuf) :
    Fifo R wt wb (retire p r).chan (h + 1) t placed := by
  have paired := fifo.paired
  have order := fifo.order
  rw [wt.viewPop _ filled, wb.viewPop _ filled] at paired
  rw [wb.viewPop _ filled, List.map_cons, ← fifo.buf.rp, ← named] at order
  refine ⟨Ring.delHolds fifo.tre filled,Ring.delHolds fifo.buf filled,(List.forall₂_cons.mp paired).2,?_⟩
  simpa [handed,MhiHost.retire] using order

def Tells (R : MhiTre → BufInfo → Prop) (len : Nat) : Prop := ∀ b d, b.len = len → R ⟨b.pAddr,MhiTre.dataDword0 len,d⟩ b

theorem queueAll {qs : List QueueReq} (fifo : Fifo R wt wb p.chan h t placed) (wide : wt.count ≤ wb.count)
    (told : ∀ q ∈ qs, Tells R q.len) : Grows R wt wb p.chan (MhiHost.queueAll p qs).chan h t placed := by
  induction qs generalizing p t placed with
  | nil => exact .refl fifo
  | cons q rest ih =>
    obtain ⟨⟨mid,first,le,kept,accepted⟩,preAlloc⟩ := fifo.queue (q := q) wide (told q List.mem_cons_self)
    exact .after le accepted preAlloc (ih kept fun r member => told r (List.mem_cons_of_mem _ member))

theorem recycle {bufInfo reply} (fifo : Fifo R wt wb p.chan h t placed) (wide : wt.count ≤ wb.count)
    (own : p.chan.preAlloc = true → ∀ len, Tells R len) :
    Grows R wt wb p.chan (recycleBuf p bufInfo reply).chan h t placed := by
  unfold recycleBuf
  split
  · rename_i mine
    have grows := @queueBuf R wt wb p h t placed (p.chan.bufMem bufInfo).cbBuf (p.chan.bufMem bufInfo).len MhiFlags.eot reply
      fifo wide (own mine _)
    dsimp only
    split
    · rename_i out ran
      rw [ran] at grows
      exact grows
    · rename_i out e ran
      rw [ran] at grows
      obtain ⟨⟨t',added,le,kept,accepted⟩,preAlloc⟩ := grows
      exact ⟨⟨t',added,le,kept.of kept.tre rfl rfl rfl rfl,accepted⟩,preAlloc⟩
  · exact .refl fifo

theorem xferOne {ev evTre} {script : CbScript} (fifo : Fifo R wt wb p.chan h t placed) (wide : wt.count ≤ wb.count)
    (filled : h < t) (told : ∀ q ∈ script.calls, Tells R q.len) (own : p.chan.preAlloc = true → ∀ len, Tells R len) :
    Grows R wt wb p.chan (MhiHost.xferOne ev evTre script p).chan (h + 1) t placed := by
  have retired : Fifo R wt wb (MhiHost.retire p (xferResult p ev evTre)).chan (h + 1) t placed := fifo.retire filled rfl
  obtain ⟨⟨mid,first,le,called,accepted⟩,preAlloc⟩ := retired.queueAll wide told
  have mine : (MhiHost.queueAll (MhiHost.retire p (xferResult p ev evTre)) script.calls).chan.preAlloc = true →
      ∀ len, Tells R len := fun mine => own (preAlloc.symm.trans mine)
  exact .after le accepted preAlloc
    (@recycle R wt wb ⟨countUplink _ (-1) _,_⟩ (h + 1) mid (placed ++ first) _ _ called wide mine)

theorem xferLoop {ev evTre devRp script} {g fuel i : Nat} (fifo : Fifo R wt wb p.chan h t placed) (wide : wt.count ≤ wb.count)
    (told : ∀ i, ∀ q ∈ (script i).calls, Tells R q.len) (own : p.chan.preAlloc = true → ∀ len, Tells R len)
    (goal : devRp = wt.slot g) (ahead : h ≤ g) (inside : g ≤ t) (enough : g - h ≤ fuel) :
    ∃ p', MhiHost.xferLoop ev evTre devRp script fuel i p = some p' ∧ Grows R wt wb p.chan p'.chan g t placed := by
  induction fuel generalizing p h t placed i with
  | zero =>
    have equal : h = g := by omega
    subst g
    exact ⟨p,by rw [MhiHost.xferLoop, if_pos (fifo.tre.rp.trans goal.symm)],.refl fifo⟩
  | succ fuel ih =>
    by_cases stop : p.chan.treRing.rp = devRp
    · have equal : h = g := by
        have room := fifo.tre.room
        exact wt.slotNear ahead (by omega) ((fifo.tre.rp.symm.trans stop).trans goal)
      subst g
      exact ⟨p,by rw [MhiHost.xferLoop, if_pos stop],.refl fifo⟩
    · have behind : h < g := by
        rcases Nat.lt_or_ge h g with lt | ge
        · exact lt
        · exact absurd (fifo.tre.rp.trans ((congrArg wt.slot (by omega : h = g)).trans goal.symm)) stop
      obtain ⟨⟨mid,first,le,kept,accepted⟩,preAlloc⟩ :=
        @xferOne R wt wb p h t placed ev evTre (script i) fifo wide (by omega) (told i) own
      obtain ⟨p',ran,more⟩ := @ih _ (h + 1) mid _ (i + 1) kept (fun mine => own (preAlloc.symm.trans mine)) behind
        (by omega) (by omega)
      exact ⟨p',by rw [MhiHost.xferLoop, if_neg stop]; exact ran,.after le accepted preAlloc more⟩

theorem fresh {ch : Chan} {vz : Nat} (laid : ch.treRing.Over wt) (block : Allocated vz (sizeofMhiBufInfo * ch.bufRing.elements))
    (base : wb.base = vz) (size : wb.size = sizeofMhiBufInfo) (count : wb.count = ch.bufRing.elements)
    (bus : ch.bufRing.iommuBase + sizeofMhiBufInfo * ch.bufRing.elements ≤ wordSpan) :
    Fifo R wt wb (mhiInitChanCtxt ch (some vz)).1 0 0 (handed ch) := by
  have countedT := wt.counted
  have countedB := wb.counted
  simp only [mhiInitChanCtxt]
  refine ⟨⟨laid.moved _ _ _ _,?_,?_,Nat.le_refl 0,by omega⟩,
    ⟨⟨base.symm,size.symm,count.symm,?_,block.1,block.2,bus⟩,?_,?_,Nat.le_refl 0,by omega⟩,?_,?_⟩
  · simp [Window.slot,laid.base]
  · simp [Window.slot,laid.base]
  · rw [size, count]
  · simp [Window.slot,base]
  · simp [Window.slot,base]
  · simp [Window.viewEmpty]
  · simp [handed,Window.viewEmpty]

end Fifo
end MhiHost
