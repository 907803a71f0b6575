import MhiHost.Fifo
import MhiHost.Occupancy

/-! Buffers across the teardown of a channel. Of a channel that its client feeds, what
was handed back and what the rings hold is what queue calls were granted for or have
filled so far, whichever call is part-way. A reset empties the rings once; queue calls
look at neither the channel state nor the mutex, so only the caller keeps them from
filling the rings again before the context is released. -/
namespace MhiHost.Teardown
open Cyclic (Window)

structure Alike (ch ch' : Chan) : Prop where
  tre : ∃ db, ch'.treRing = {ch.treRing with ctxtWp := db}
  bufRing : ch'.bufRing = ch.bufRing
  bufMem : ch'.bufMem = ch.bufMem
  treMem : ch'.treMem = ch.treMem
  xferLog : ch'.xferLog = ch.xferLog
  accepted : ch'.accepted = ch.accepted
  preAlloc : ch'.preAlloc = ch.preAlloc
  offloadCh : ch'.offloadCh = ch.offloadCh

namespace Alike

theorem refl (ch : Chan) : Alike ch ch := ⟨⟨ch.treRing.ctxtWp,rfl⟩,rfl,rfl,rfl,rfl,rfl,rfl,rfl⟩

theorem trans {ch mid ch' : Chan} (first : Alike ch mid) (second : Alike mid ch') : Alike ch ch' where
  tre := by
    obtain ⟨_,one⟩ := first.tre
    obtain ⟨db,two⟩ := second.tre
    exact ⟨db,by rw [two, one]⟩
  bufRing := second.bufRing.trans first.bufRing
  bufMem := second.bufMem.trans first.bufMem
  treMem := second.treMem.trans first.treMem
  xferLog := second.xferLog.trans first.xferLog
  accepted := second.accepted.trans first.accepted
  preAlloc := second.preAlloc.trans first.preAlloc
  offloadCh := second.offloadCh.trans first.offloadCh

theorem state (ch : Chan) (st : ChState) : Alike ch {ch with chState := st} :=
  ⟨⟨ch.treRing.ctxtWp,rfl⟩,rfl,rfl,rfl,rfl,rfl,rfl,rfl⟩

theorem reinit (ch : Chan) : Alike ch (reinitCompletion ch) := ⟨⟨ch.treRing.ctxtWp,rfl⟩,rfl,rfl,rfl,rfl,rfl,rfl,rfl⟩

theorem ring (p : Port) : Alike p.chan (mhiRingChanDb p).chan := ⟨⟨_,rfl⟩,rfl,rfl,rfl,rfl,rfl,rfl,rfl⟩

theorem ringIf (p : Port) : Alike p.chan (ringIfAccessible p).chan := by
  unfold ringIfAccessible
  split
  · exact ring p
  · exact refl p.chan

theorem rearm (ch : Chan) : Alike ch {ch with dbCfg := {ch.dbCfg with dbMode := true}} :=
  ⟨⟨ch.treRing.ctxtWp,rfl⟩,rfl,rfl,rfl,rfl,rfl,rfl,rfl⟩

theorem dbMode (p : Port) : Alike p.chan (dbModeEvent p).chan := by
  unfold dbModeEvent
  dsimp only
  split
  · exact (rearm p.chan).trans (ringIf {p with chan := {p.chan with dbCfg := {p.chan.dbCfg with dbMode := true}}})
  · exact rearm p.chan

theorem wait (ch : Chan) (inTime : Bool) : Alike ch (waitForCompletion ch inTime).1 := by
  unfold waitForCompletion
  split
  · unfold takeCompletion
    dsimp only
    split
    · exact refl ch
    · exact ⟨⟨ch.treRing.ctxtWp,rfl⟩,rfl,rfl,rfl,rfl,rfl,rfl,rfl⟩
  · exact refl ch

theorem completion (h : Host) (ev : MhiTre) (j : Nat) : Alike (h.chans j) ((mhiProcessCmdCompletion h ev).chans j) := by
  unfold mhiProcessCmdCompletion
  dsimp only
  by_cases same : j = (h.cmdMem (mhiToVirtual h.cmdRing ev.getEvPtr)).getCmdChid
  · rw [← same, setChanSelf]
    unfold complete
    split
    · exact ⟨⟨(h.chans j).treRing.ctxtWp,rfl⟩,rfl,rfl,rfl,rfl,rfl,rfl,rfl⟩
    · exact ⟨⟨(h.chans j).treRing.ctxtWp,rfl⟩,rfl,rfl,rfl,rfl,rfl,rfl,rfl⟩
  · rw [(Touches.setChan _ h _).others j same]
    exact refl _

theorem m0Chan (h : Host) (i j : Nat) : Alike (h.chans j) ((m0Chan h i).chans j) := by
  by_cases same : j = i
  · subst j
    have armed : Alike (h.chans i) (if (h.chans i).dbCfg.resetReq then {h.chans i with
        dbCfg := {(h.chans i).dbCfg with dbMode := true}} else h.chans i) := by
      split
      · exact rearm _
      · exact refl _
    unfold MhiHost.m0Chan
    dsimp only at armed ⊢
    generalize (if (h.chans i).dbCfg.resetReq then {h.chans i with
        dbCfg := {(h.chans i).dbCfg with dbMode := true}} else h.chans i) = ch at armed ⊢
    split
    · rw [setPortSelf]
      exact armed.trans (ring ⟨h.cntrl,ch⟩)
    · rw [setChanSelf]
      exact armed
  · rw [(m0ChanView h i).1.others j same]
    exact refl _

theorem m0Fold (l : List Nat) (h : Host) (j : Nat) : Alike (h.chans j) ((l.foldl MhiHost.m0Chan h).chans j) := by
  induction l generalizing h with
  | nil => exact refl _
  | cons i rest ih => exact (m0Chan h i j).trans (ih (MhiHost.m0Chan h i))

theorem m0 (h : Host) (j : Nat) : Alike (h.chans j) ((mhiPmM0Transition h).1.chans j) := by
  have chans : ∀ mid : Host, mid.chans = h.chans → Alike (h.chans j) ((m0Chans mid).chans j) := by
    intro mid same
    rw [← same]
    exact m0Fold _ mid j
  unfold mhiPmM0Transition
  dsimp only
  split
  · exact refl _
  split
  · exact chans _ (m0MissionView _).2.1
  · exact chans _ rfl

end Alike

structure Returned (ch : Chan) (f : List Nat) : Prop where
  empty : ch.treRing.rp = ch.treRing.wp
  wide : ch.treRing.elements ≤ ch.bufRing.elements
  bus : ∀ base, Allocated base (sizeofMhiBufInfo * ch.bufRing.elements) →
    ch.bufRing.iommuBase + sizeofMhiBufInfo * ch.bufRing.elements ≤ wordSpan
  all : (handed ch).Perm (ch.accepted ++ f)

structure Carried (w wb : Window) (ch : Chan) (f : List Nat) (h n : Nat) (placed : List Nat) : Prop where
  wide : w.count ≤ wb.count
  size : wb.size = sizeofMhiBufInfo
  fifo : Fifo (fun _ _ => True) w wb ch h n placed
  all : placed.Perm (ch.accepted ++ f)

def Kept (w : Window) (ch : Chan) (f : List Nat) : Prop :=
  ch.bufRing.base = 0 ∧ Returned ch f ∨ ∃ wb h n placed, Carried w wb ch f h n placed

section Keeping
variable {w : Window} {ch ch' : Chan} {f : List Nat}

theorem Kept.alike (kept : Kept w ch f) (alike : Alike ch ch') : Kept w ch' f := by
  obtain ⟨db,tre⟩ := alike.tre
  rcases kept with ⟨base,back⟩ | ⟨wb,h,n,placed,carried⟩
  · refine .inl ⟨alike.bufRing ▸ base,?_,?_,?_,?_⟩
    · rw [tre]; exact back.empty
    · rw [tre, alike.bufRing]; exact back.wide
    · rw [alike.bufRing]; exact back.bus
    · rw [handed, alike.xferLog, alike.accepted]; exact back.all
  · refine .inr ⟨wb,h,n,placed,carried.wide,carried.size,?_,?_⟩
    · exact carried.fifo.of (by rw [tre]; exact carried.fifo.tre.rung db) alike.bufRing alike.bufMem alike.treMem alike.xferLog
    · rw [alike.accepted]; exact carried.all

theorem Kept.carried (kept : Kept w ch f) (loaded : ch.treRing.rp ≠ ch.treRing.wp ∨ ch.bufRing.base ≠ 0) :
    ∃ wb h n placed, Carried w wb ch f h n placed := by
  rcases kept with ⟨base,back⟩ | carried
  · rcases loaded with more | live
    · exact absurd back.empty more
    · exact absurd base live
  · exact carried

theorem Kept.returned (kept : Kept w ch f) (empty : ch.treRing.rp = ch.treRing.wp) : Returned ch f := by
  rcases kept with ⟨_,back⟩ | ⟨wb,h,n,placed,carried⟩
  · exact back
  · have same := (Ring.emptyIff carried.fifo.tre).mp empty
    have order := carried.fifo.order
    rw [same, Window.viewEmpty, List.map_nil, List.append_nil] at order
    have buf := carried.fifo.buf.spans
    have bus := buf.bus
    refine ⟨empty,?_,?_,order ▸ carried.all⟩
    · rw [carried.fifo.tre.spans.elements, buf.elements]
      exact carried.wide
    · rw [buf.len, carried.size, ← buf.elements] at bus
      exact fun _ _ => bus

theorem Kept.release (kept : Kept w ch f) (empty : ch.treRing.rp = ch.treRing.wp) : Kept w (mhiDeinitChanCtxt ch) f := by
  have back := kept.returned empty
  exact .inl ⟨rfl,back.empty,back.wide,back.bus,back.all⟩

theorem Kept.init {vz : Nat} (kept : Kept w ch f) (empty : ch.treRing.rp = ch.treRing.wp) (spans : ch.treRing.Over w)
    (block : Allocated vz (sizeofMhiBufInfo * ch.bufRing.elements)) : Kept w (mhiInitChanCtxt ch (some vz)).1 f := by
  have back := kept.returned empty
  have wide : w.count ≤ ch.bufRing.elements := spans.elements ▸ back.wide
  have counted := w.counted
  refine .inr ⟨⟨vz,sizeofMhiBufInfo,ch.bufRing.elements,by decide,by omega⟩,0,0,handed ch,wide,rfl,?_,back.all⟩
  exact Fifo.fresh spans block rfl rfl rfl (back.bus vz block)

end Keeping

section Functions
variable {w wb : Window} {p : Port} {f : List Nat} {h n : Nat} {placed : List Nat}

theorem Carried.queue (carried : Carried w wb p.chan f h n placed) (q : QueueReq) : Kept w (mhiQueue p q).1.chan f := by
  obtain ⟨⟨t,added,_,grown,accepted⟩,_⟩ := carried.fifo.queue (q := q) carried.wide (fun _ _ _ => trivial)
  refine .inr ⟨wb,h,t,placed ++ added,carried.wide,carried.size,grown,?_⟩
  rw [accepted, List.append_assoc]
  exact (carried.all.append_right added).trans (by
    rw [List.append_assoc]
    exact List.perm_append_comm.append_left p.chan.accepted)

theorem Carried.fill {buf len flags reply out err} (carried : Carried w wb p.chan f h n placed)
    (ran : mhiQueueBufFill p buf len flags reply = (out,err)) :
    Kept w out.chan (if err.isNone then buf :: f else f) := by
  obtain ⟨⟨t,_,filled⟩,accepted⟩ := carried.fifo.fill carried.wide (fun _ _ _ => trivial) ran
  refine .inr ⟨wb,h,t,_,carried.wide,carried.size,filled,?_⟩
  rw [accepted]
  split
  · refine (carried.all.append_right [buf]).trans ?_
    rw [List.append_assoc]
    exact (List.perm_append_singleton buf f).append_left p.chan.accepted
  · rw [List.append_nil]
    exact carried.all

theorem Carried.retire {r : MhiResult} (carried : Carried w wb p.chan f h n placed)
    (more : p.chan.treRing.rp ≠ p.chan.treRing.wp) (named : r.bufAddr = (p.chan.bufMem p.chan.bufRing.rp).cbBuf) :
    Kept w (retire p r).chan f := by
  have ordered := carried.fifo.tre.ordered
  have filled : h ≠ n := fun same => more ((Ring.emptyIff carried.fifo.tre).mpr same)
  exact .inr ⟨wb,h + 1,n,placed,carried.wide,carried.size,carried.fifo.retire (by omega) named,carried.all⟩

theorem Kept.finish {buf : Nat} (kept : Kept w p.chan f) (part : buf ∈ f) :
    Kept w (mhiQueueBufFinish p buf).chan (f.erase buf) := by
  have granted : (p.chan.accepted ++ f).Perm ((p.chan.accepted ++ [buf]) ++ f.erase buf) := by
    rw [List.append_assoc]
    exact (List.perm_cons_erase part).append_left p.chan.accepted
  have alike := Alike.ringIf {p with cntrl := countUplink p.chan.dir 1 (wakeToggle (resumeIfSuspended p.cntrl))}
  have same := alike.accepted
  unfold mhiQueueBufFinish
  dsimp only
  rcases Kept.alike kept alike with ⟨base,back⟩ | ⟨wb,h,n,placed,carried⟩
  · refine .inl ⟨base,back.empty,back.wide,back.bus,back.all.trans ?_⟩
    simp only [accept]
    rw [same]
    exact granted
  · refine .inr ⟨wb,h,n,placed,carried.wide,carried.size,?_,carried.all.trans ?_⟩
    · exact carried.fifo.of carried.fifo.tre rfl rfl rfl rfl
    · simp only [accept]
      rw [same]
      exact granted

end Functions

/- A queue call fills its TRE while the channel is enabled, or before a teardown has
found the rings empty. -/
def InUse (st : Station) : Prop :=
  st.core.bufBase ≠ 0 ∧ (st.core.chState = .enabled ∨ draining st.op = true)

section Steps
variable {w : Nat → Window} {i : Nat} {s s' : Threads}

structure Client (w : Nat → Window) (i : Nat) (s : Threads) : Prop where
  sound : Sound (w i) (s.station i)
  quiet : Quiet (s.station i)
  client : (s.chan i).preAlloc = false
  own : (s.chan i).offloadCh = false
  kept : Kept (w i) (s.chan i) (s.filled i)

theorem Client.empty (at_ : Client w i s) (busy : s.op i ≠ .idle) (ready : s.op i ≠ .unfilled)
    (still : draining (s.op i) = false) : (s.chan i).treRing.rp = (s.chan i).treRing.wp :=
  at_.quiet (at_.sound.off busy ready) still

theorem Client.deinit (at_ : Client w i s) (busy : s.op i ≠ .idle) (ready : s.op i ≠ .unfilled)
    (still : draining (s.op i) = false) {ch : Chan} (alike : Alike (s.chan i) ch) :
    Kept (w i) (deinitOwned ch) (s.filled i) := by
  have kept : Kept (w i) ch (s.filled i) := at_.kept.alike alike
  obtain ⟨db,tre⟩ := alike.tre
  have own : ch.offloadCh = false := alike.offloadCh.trans at_.own
  simp only [deinitOwned,own]
  exact kept.release (by rw [tre]; exact at_.empty busy ready still)

theorem prepareBeginKept {vz h err} (at_ : Client w i s)
    (block : ∀ base, vz = some base → Allocated base (sizeofMhiBufInfo * (s.chan i).bufRing.elements))
    (free : s.op i = .idle) (ran : prepareBegin s.host i vz = (h,err)) : Kept (w i) (h.chans i) (s.filled i) := by
  unfold prepareBegin at ran
  dsimp only at ran
  split at ran
  · cases ran
    exact at_.kept
  rename_i masked
  split at ran
  · cases ran
    exact at_.kept
  rename_i off
  have own : (s.host.chans i).offloadCh = false := at_.own
  have off : (s.chan i).chState ≠ .enabled := by
    intro on
    simp [show (s.host.chans i).chState = .enabled from on] at off
  have empty : (s.chan i).treRing.rp = (s.chan i).treRing.wp :=
    at_.quiet off (by rw [show (s.station i).op = s.op i from rfl, free]; rfl)
  have named : (s.chan i).eeMask ≠ 0 := by
    intro none
    simp [show (s.host.chans i).eeMask = 0 from none] at masked
  simp only [own] at ran
  cases vz with
  | none =>
    simp only [mhiInitChanCtxt] at ran
    cases ran
    rw [setChanSelf]
    have back := at_.kept.returned empty
    exact .inl ⟨rfl,back.empty,back.wide,back.bus,back.all⟩
  | some base =>
    have fresh := at_.kept.init empty (at_.sound.laid named at_.own).2 (block base rfl)
    simp only [mhiInitChanCtxt] at ran
    cases ran
    rw [setChanSelf]
    exact fresh.alike (.reinit _)

theorem prepareSendKept {h err} (at_ : Client w i s) (stands : s.op i = .preparing)
    (ran : prepareSend s.host i = (h,err)) : Kept (w i) (h.chans i) (s.filled i) := by
  have drops : Kept (w i) (deinitOwned (s.chan i)) (s.filled i) :=
    at_.deinit (by simp [stands]) (by simp [stands]) (by rw [stands]; rfl) (.refl _)
  unfold prepareSend at ran
  split at ran
  · cases ran
    rw [setChanSelf]
    exact drops
  · split at ran
    · rename_i mid e sent
      cases ran
      rw [setChanSelf, (sendCmdView sent).2.1]
      exact drops
    · rename_i mid sent
      cases ran
      rw [(sendCmdView sent).2.1]
      exact at_.kept

theorem prepareFinishKept {inTime : Bool} {reply h err} (at_ : Client w i s) (stands : s.op i = .starting)
    (ran : prepareFinish (s.host.setChan i (waitForCompletion (s.chan i) inTime).1) i
      (waitForCompletion (s.chan i) inTime).2 reply = (h,err)) : Kept (w i) (h.chans i) (s.filled i) := by
  have waited := Alike.wait (s.chan i) inTime
  have client := waited.preAlloc.trans at_.client
  unfold prepareFinish at ran
  simp only [setChanSelf] at ran
  split at ran
  · cases ran
    rw [setChanSelf]
    exact at_.deinit (by simp [stands]) (by simp [stands]) (by rw [stands]; rfl) waited
  · simp only [preAllocate,client,Bool.false_eq_true,if_false] at ran
    cases ran
    rw [setPortSelf]
    have on := waited.trans (.state _ .enabled)
    rw [client] at on
    exact at_.kept.alike on

theorem unprepareBeginAlike {h out} (ran : unprepareBegin s.host i = (h,out)) : Alike (s.chan i) (h.chans i) := by
  have off : Alike (s.chan i) (reinitCompletion {s.chan i with chState := .disabled}) :=
    (Alike.state _ _).trans (.reinit _)
  unfold unprepareBegin unprepareOff at ran
  by_cases on : (s.host.chans i).chState = .enabled
  · simp only [on,ne_eq,not_true_eq_false,if_false] at ran
    rw [(unprepareSendView ran).2.1, setChanSelf]
    exact off
  · simp only [ne_eq,on,not_false_eq_true,if_true] at ran
    cases ran
    exact .refl _

theorem removeDeinitKept {found : ChState} (at_ : Client w i s) (stands : s.op i = .emptied (.remove found)) :
    Kept (w i) ((removeDeinit s.host i found).chans i) (s.filled i) := by
  unfold removeDeinit
  rw [setChanSelf]
  dsimp only
  split
  · exact (at_.deinit (by simp [stands]) (by simp [stands]) (by rw [stands]; rfl) (.refl _)).alike (.state _ _)
  · exact at_.kept.alike (.state _ _)

theorem takeKept {t : Turn} (at_ : Client w i s) (busy : s.turn i = some t) (more : (s.chan i).treRing.rp ≠ t.devRp) :
    Kept (w i) (retire (s.port i) (xferResult (s.port i) t.ev t.evTre)).chan (s.filled i) := by
  have here : s.station i = ⟨(s.chan i).core,s.op i,some t,s.filled i⟩ := by rw [Threads.station, busy]
  have sound := here ▸ at_.sound
  have loaded := (levelTake t sound.busy more rfl).2
  obtain ⟨wb,h,n,placed,carried⟩ := at_.kept.carried (.inl loaded)
  exact carried.retire (p := s.port i) loaded rfl

theorem resetTurnKept (at_ : Client w i s) (more : (s.chan i).treRing.rp ≠ (s.chan i).treRing.wp) :
    Kept (w i) (resetOne [] (s.port i)).chan (s.filled i) := by
  have client : (s.port i).chan.preAlloc = false := at_.client
  obtain ⟨wb,h,n,placed,carried⟩ := at_.kept.carried (.inl more)
  simp only [resetOne,client]
  exact carried.retire (p := {s.port i with cntrl := _}) more rfl

theorem quietKept (step : QuietStep w InUse i s s') (at_ : Client w i s) : Kept (w i) (s'.chan i) (s'.filled i) := by
  cases step with
  | fill buf len flags reply allowed ran =>
    obtain ⟨wb,h,n,placed,carried⟩ := at_.kept.carried (.inr allowed.1)
    have filled := carried.fill (p := s.port i) ran
    simpa [Threads.chan,Threads.setPort,Threads.setFilled] using filled
  | event ev unlocked code named => exact at_.kept
  | take t busy called more =>
    have taken := takeKept at_ busy more
    simpa [Threads.chan,Threads.setPort,Threads.setTurn] using taken
  | leave t busy called done => exact at_.kept
  | prepareSend stands ran => exact prepareSendKept (s := s) at_ stands ran
  | unprepareBegin free unlocked ran => exact at_.kept.alike (unprepareBeginAlike (s := s) ran)
  | @unprepareReset h o waits inTime stands ran =>
    have waited : Alike (s.chan i) ((stopWaiting s.host i waits inTime).chans i) := by
      unfold stopWaiting
      split
      · rw [setChanSelf]
        exact .wait _ _
      · exact .refl _
    have same : h.chans i = (stopWaiting s.host i waits inTime).chans i := congrFun (enterResetView ran).2.1 i
    show Kept (w i) (h.chans i) (s.filled i)
    rw [same]
    exact at_.kept.alike waited
  | resetTurn r stands more =>
    rw [Threads.chan, Threads.setPort, setPortSelf]
    exact resetTurnKept at_ more
  | resetEnd r stands done => exact at_.kept
  | unprepareDeinit stands =>
    show Kept (w i) ((s.host.setChan i (mhiDeinitChanCtxt (s.chan i))).chans i) (s.filled i)
    rw [setChanSelf]
    exact at_.kept.release (at_.empty (by simp [stands]) (by simp [stands]) (by rw [stands]; rfl))
  | removeWake =>
    show Kept (w i) ((removeWake s.host i).chans i) (s.filled i)
    rw [removeWake, setChanSelf]
    exact at_.kept.alike ⟨⟨(s.chan i).treRing.ctxtWp,rfl⟩,rfl,rfl,rfl,rfl,rfl,rfl,rfl⟩
  | @removeBegin h o free unlocked ran =>
    have same : h.chans i = (removeSuspend s.host i).chans i := congrFun (enterResetView ran).2.1 i
    show Kept (w i) (h.chans i) (s.filled i)
    rw [same, removeSuspend, setChanSelf]
    exact at_.kept.alike (.state _ _)
  | removeDeinit found stands => exact removeDeinitKept (s := s) at_ stands

theorem chanKept (step : ChanStep w InUse i s s') (at_ : Client w i s) : Kept (w i) (s'.chan i) (s'.filled i) := by
  cases step with
  | quiet step => exact quietKept step at_
  | queue q allowed locked =>
    obtain ⟨wb,h,n,placed,carried⟩ := at_.kept.carried (.inr allowed.1)
    rw [Threads.chan, Threads.setPort, setPortSelf]
    exact carried.queue (p := s.port i) q
  | finish buf part =>
    have done := Kept.finish (p := s.port i) at_.kept part
    simpa [Threads.chan,Threads.setPort,Threads.setFilled] using done
  | doorbell ev unlocked code ran =>
    rw [Threads.chan, Threads.setPort, setPortSelf]
    unfold parseXferEvent at ran
    split at ran
    · cases ran
      exact at_.kept
    · simp only [dbCodeOnly code] at ran
      cases ran
      exact at_.kept.alike (.dbMode (s.port i))
  | settle b t reply busy called =>
    have client : (s.port i).chan.preAlloc = false := at_.client
    simp only [recycleBuf,client,Threads.chan,Threads.setPort,Threads.setTurn]
    rw [if_neg (by simp), setPortSelf]
    exact at_.kept
  | prepareBegin vz free block ran => exact prepareBeginKept (s := s) at_ block free ran
  | prepareFinish inTime reply stands ran => exact prepareFinishKept (s := s) at_ stands ran

theorem stepAlike (step : Step w InUse s s') (away : ∀ j, ChanStep w InUse j s s' → j ≠ i) :
    Alike (s.chan i) (s'.chan i) ∧ s'.filled i = s.filled i := by
  have same : ∀ h : Host, h.chans = s.host.chans → Alike (s.chan i) ((s.withHost h).chan i) := by
    intro h chans
    have chan : (s.withHost h).chan i = s.chan i := congrFun chans i
    rw [chan]
    exact .refl _
  cases step with
  | chan j known step =>
    have beside := chanBeside step
    have other : i ≠ j := (away j step).symm
    refine ⟨?_,beside.filled i other⟩
    rw [Threads.chan, Threads.chan, beside.host.others i other]
    exact .refl _
  | m0 => exact ⟨.m0 s.host i,rfl⟩
  | host step =>
    cases step with
    | cmdCompletion ev => exact ⟨.completion s.host ev i,rfl⟩
    | m1 => exact ⟨same _ (m1View s.host).2.1,rfl⟩
    | suspendBegin => exact ⟨same _ (suspendBeginView s.host).2.1,rfl⟩
    | @suspendEnter h err ran => exact ⟨same h (suspendEnterView ran).2.1,rfl⟩
    | resume => exact ⟨same _ (resumeBeginView s.host).2.1,rfl⟩
    | _ => exact ⟨same _ rfl,rfl⟩

structure Watched (w : Nat → Window) (n i : Nat) (s : Threads) : Prop where
  maxChan : s.host.maxChan = n
  sound : AllSound w n s.view
  client : Client w i s

end Steps

section Runs
variable {w : Nat → Window} {n i : Nat} {v v' : View} {s s' : Threads}

theorem moveQuiet (known : i < n) (moved : Move w InUse n v v') (sound : AllSound w n v) (quiet : Quiet (v.station i)) :
    Quiet (v'.station i) ∧ (v'.station i).core.preAlloc = (v.station i).core.preAlloc ∧
      (v'.station i).core.offloadCh = (v.station i).core.offloadCh := by
  cases moved with
  | @here st b' st' j inside stands moved =>
    by_cases same : i = j
    · subst j stands
      simp only [Function.update_self]
      exact ⟨quietLocal (fun _ allowed => allowed.2) moved (sound i known) quiet,(localFixed moved).2⟩
    · have other : Function.update v.station j st' i = v.station i := Function.update_of_ne same _ _
      dsimp only
      rw [other]
      exact ⟨quiet,rfl,rfl⟩
  | m0 reached =>
    obtain ⟨rp,wp⟩ := onM0Pointers (v.station i).core
    have kin := Kin.onM0 (w := w i) (v.station i).core
    simp only [known,if_true]
    exact ⟨quietSame (w := w i) quiet kin rfl rp wp,kin.preAlloc,kin.offloadCh⟩
  | drift moved => cases moved <;> exact ⟨quiet,rfl,rfl⟩

theorem stepKept (step : Step w InUse s s') (at_ : Client w i s) : Kept (w i) (s'.chan i) (s'.filled i) := by
  by_cases here : ∃ j, ChanStep w InUse j s s' ∧ j = i
  · obtain ⟨j,step,rfl⟩ := here
    exact chanKept step at_
  · obtain ⟨alike,filled⟩ := stepAlike (i := i) step (fun j step same => here ⟨j,step,same⟩)
    rw [filled]
    exact at_.kept.alike alike

theorem stepWatched (known : i < n) (step : Step w InUse s s') (watched : Watched w n i s) : Watched w n i s' := by
  obtain ⟨maxChan,sound,at_⟩ := watched
  have kept := stepKept step at_
  obtain ⟨same,view | moved⟩ := stepMoves step
  · have station : s'.station i = s.station i := congrFun (congrArg View.station view) i
    have core : (s'.chan i).core = (s.chan i).core := congrArg Station.core station
    exact ⟨same.trans maxChan,view ▸ sound,station ▸ at_.sound,station ▸ at_.quiet,
      (congrArg Core.preAlloc core).trans at_.client,(congrArg Core.offloadCh core).trans at_.own,kept⟩
  · rw [maxChan] at moved
    obtain ⟨quiet,alloc,offload⟩ := moveQuiet known moved sound at_.quiet
    have sound := soundMove (fun _ _ allowed _ => allowed.1) moved sound
    exact ⟨same.trans maxChan,sound,sound i known,quiet,alloc.trans at_.client,offload.trans at_.own,kept⟩

theorem startKept {h : Host} (lay : Layout) (parsed : Parsed h) (inside : i < h.maxChan)
    (wide : (h.chans i).treRing.elements ≤ (h.chans i).bufRing.elements) :
    Kept (w i) (initChan lay i (h.chans i)) [] := by
  obtain ⟨_,base,rp,wp,_⟩ := initCore lay parsed inside
  have rest : (h.chans i).bufRing.iommuBase = 0 ∧ (h.chans i).xferLog = [] ∧ (h.chans i).accepted = [] := by
    rcases parsed i inside with zero | ⟨cfg,_,ok,_⟩
    · rw [zero]
      exact ⟨rfl,rfl,rfl⟩
    · rw [(configuredChan ok).1]
      exact ⟨rfl,rfl,rfl⟩
  obtain ⟨noBus,log,accepted⟩ := rest
  have same : (initChan lay i (h.chans i)).treRing.elements = (h.chans i).treRing.elements ∧
      (initChan lay i (h.chans i)).bufRing = (h.chans i).bufRing ∧
      (initChan lay i (h.chans i)).xferLog = (h.chans i).xferLog ∧
      (initChan lay i (h.chans i)).accepted = (h.chans i).accepted := by
    unfold initChan
    split
    · exact ⟨rfl,rfl,rfl,rfl⟩
    · dsimp only
      split <;> exact ⟨rfl,rfl,rfl,rfl⟩
  obtain ⟨elements,bufRing,log',accepted'⟩ := same
  refine .inl ⟨base,rp.trans wp.symm,?_,?_,?_⟩
  · rw [elements, bufRing]
    exact wide
  · intro block fits
    have bound := fits.2
    rw [bufRing] at bound ⊢
    omega
  · simp [handed,log',log,accepted',accepted]

theorem startWatched {h : Host} {lay : Layout} (parsed : Parsed h) (laid : Laid w h lay) (inside : i < h.maxChan)
    (client : (h.chans i).preAlloc = false) (own : (h.chans i).offloadCh = false)
    (wide : (h.chans i).treRing.elements ≤ (h.chans i).bufRing.elements) :
    Watched w h.maxChan i (Threads.start (mhiInitDevCtxt h lay)) := by
  have sound := startSound parsed laid
  have chan : (Threads.start (mhiInitDevCtxt h lay)).chan i = initChan lay i (h.chans i) := if_pos inside
  have fixed : (initChan lay i (h.chans i)).preAlloc = (h.chans i).preAlloc ∧
      (initChan lay i (h.chans i)).offloadCh = (h.chans i).offloadCh := by
    unfold initChan
    split <;> exact ⟨rfl,rfl⟩
  refine ⟨rfl,sound,sound i inside,fun _ _ => startIdle lay parsed inside,?_,?_,?_⟩
  · rw [chan, fixed.1]
    exact client
  · rw [chan, fixed.2]
    exact own
  · rw [chan]
    exact startKept lay parsed inside wide

end Runs

def releases : ChanOp → Bool
  | .emptied .unprepare => true
  | .emptied (.remove found) => decide (found = .enabled)
  | _ => false

/- Whenever a context is about to be released, its ring is empty and each buffer has been
handed back as often as queue calls were granted for it, calls between their two locked
parts included. -/
def NothingLost (w : Nat → Window) (Q : Station → Prop) (h : Host) (lay : Layout) : Prop :=
  ∀ s, Relation.ReflTransGen (Step w Q) (Threads.start (mhiInitDevCtxt h lay)) s → ∀ i < h.maxChan,
    (h.chans i).preAlloc = false → (h.chans i).offloadCh = false →
    (h.chans i).treRing.elements ≤ (h.chans i).bufRing.elements → releases (s.op i) = true →
    (s.chan i).treRing.rp = (s.chan i).treRing.wp ∧
      (handed (s.chan i)).Perm ((s.chan i).accepted ++ s.filled i)

theorem noBufferLost {w : Nat → Window} {h : Host} {lay : Layout} (parsed : Parsed h) (laid : Laid w h lay) :
    NothingLost w InUse h lay := by
  intro s run i inside client own wide torn
  have watched := Runs.keeps (I := Watched w h.maxChan i) (fun _ _ => stepWatched inside) run
    (startWatched parsed laid inside client own wide)
  have at_ := watched.client
  have stands : s.op i ≠ .idle ∧ s.op i ≠ .unfilled ∧ draining (s.op i) = false := by
    revert torn
    cases s.op i <;> simp [releases,draining]
  have empty := at_.empty stands.1 stands.2.1 stands.2.2
  exact ⟨empty,(at_.kept.returned empty).all⟩

def sampleReq : QueueReq := ⟨.skb 0x20,0x10,100,MhiFlags.eot,⟨0x9000,0,true⟩⟩
def sampleQueued : Threads := Sample.opened.setPort 0 (mhiQueue (Sample.opened.port 0) sampleReq).1

def suspended (s : Threads) : Threads :=
  (s.withHost ((resetBegin (removeSuspend s.host 0) 0).getD s.host)).setOp 0 (.resetting (.remove .enabled))
def drained (s : Threads) : Threads := s.setPort 0 (resetOne [] (s.port 0))
def emptied (s : Threads) : Threads := s.setOp 0 (.emptied (.remove .enabled))

theorem sampleRun : Relation.ReflTransGen (Step Sample.window InUse) (Threads.start Sample.ready)
    (emptied (drained (suspended sampleQueued))) := by
  have queue : Step Sample.window InUse Sample.opened sampleQueued :=
    .chan 0 (by decide) (.queue sampleReq ⟨show (0x4000 : Nat) ≠ 0 by decide,.inl rfl⟩ (by decide))
  have remove : Step Sample.window InUse sampleQueued (suspended sampleQueued) :=
    .chan 0 (by decide) (.quiet (.removeBegin (.inl rfl) rfl rfl))
  have turn : Step Sample.window InUse (suspended sampleQueued) (drained (suspended sampleQueued)) :=
    .chan 0 (by decide) (.quiet (.resetTurn (.remove .enabled) rfl (by decide)))
  have done : Step Sample.window InUse (drained (suspended sampleQueued)) (emptied (drained (suspended sampleQueued))) :=
    .chan 0 (by decide) (.quiet (.resetEnd (.remove .enabled) rfl (by decide)))
  exact ((((Sample.opens InUse).tail queue).tail remove).tail turn).tail done

theorem noBufferLostSample : (handed ((emptied (drained (suspended sampleQueued))).chan 0)).Perm [0x10] :=
  (noBufferLost Sample.parsed Sample.laid _ sampleRun 0 (by decide) rfl rfl (by decide) rfl).2

def HasContext (st : Station) : Prop := st.core.bufBase ≠ 0
def lostQueued : Threads :=
  (emptied (suspended Sample.opened)).setPort 0 (mhiQueue ((emptied (suspended Sample.opened)).port 0) sampleReq).1

theorem bufferLostAfterReset : ¬NothingLost Sample.window HasContext Sample.host Sample.layout := by
  intro nothing
  have remove : Step Sample.window HasContext Sample.opened (suspended Sample.opened) :=
    .chan 0 (by decide) (.quiet (.removeBegin (.inl rfl) rfl rfl))
  have done : Step Sample.window HasContext (suspended Sample.opened) (emptied (suspended Sample.opened)) :=
    .chan 0 (by decide) (.quiet (.resetEnd (.remove .enabled) rfl (by decide)))
  have queue : Step Sample.window HasContext (emptied (suspended Sample.opened)) lostQueued :=
    .chan 0 (by decide) (.queue sampleReq (show (0x4000 : Nat) ≠ 0 by decide) (by decide))
  have run := (((Sample.opens HasContext).tail remove).tail done).tail queue
  have empty := (nothing lostQueued run 0 (by decide) rfl rfl (by decide) rfl).1
  exact absurd empty (by decide)

end MhiHost.Teardown
