import MhiHost.Threads

/-! The interleaved system on its view: every step of `Threads` either leaves the
book and all stations alone or is one move below. The moves say once what a step can
do to a ring, a count, a doorbell or a phase; the invariants are proved over them. -/
namespace MhiHost
open Cyclic (Window)

structure View where
  book : Book
  entered : Nat
  station : Nat → Station

def Threads.view (s : Threads) : View := ⟨s.host.cntrl.book,s.entered,s.station⟩

/- Moves of the mutex holder that touch neither ring nor doorbell. -/
inductive Phase (t : Option Turn) : Core → ChanOp → Core → ChanOp → Prop where
  | offload {k} (alien : k.offloadCh = true) (off : k.chState = .disabled) : Phase t k .idle k .preparing
  | noMemory {k} (own : k.offloadCh = false) (off : k.chState = .disabled) : Phase t k .idle {k with bufBase := 0} .idle
  | sent {k} : Phase t k .preparing k .starting
  | abandoned {k o} (stands : o = .preparing ∨ o = .starting) : Phase t k o k.released .idle
  | stop {k o x} (free : o = .idle ∨ o = .unfilled) (on : k.chState = .enabled) (unlocked : t = none) :
      Phase t k o {k with chState := .disabled} (.stopping x)
  | reset {k x} (own : k.offloadCh = false) : Phase t k (.stopping x) k (.resetting .unprepare)
  | skip {k x} (alien : k.offloadCh = true) : Phase t k (.stopping x) k .idle
  | emptied {k r} (done : k.tre.rp = k.tre.wp) : Phase t k (.resetting r) k (.emptied r)
  | deinit {k} : Phase t k (.emptied .unprepare) {k with bufBase := 0} .idle
  | suspend {k o} (free : o = .idle ∨ o = .unfilled) (unlocked : t = none) (own : k.offloadCh = false) :
      Phase t k o {k with chState := .suspended} (.resetting (.remove k.chState))
  | detach {k o} (free : o = .idle ∨ o = .unfilled) (unlocked : t = none) (alien : k.offloadCh = true) :
      Phase t k o {k with chState := .suspended} (.emptied (.remove k.chState))
  | removed {k found} :
      Phase t k (.emptied (.remove found)) {(if found = .enabled then k.released else k) with chState := .disabled} .idle

theorem Phase.still {t k o k' o'} (moved : Phase t k o k' o') : k'.tre = k.tre ∧ k'.dbCfg = k.dbCfg ∧
    k'.dir = k.dir ∧ k'.preAlloc = k.preAlloc ∧ k'.offloadCh = k.offloadCh := by
  cases moved with
  | abandoned stands => simp
  | removed =>
    dsimp only
    split
    · simp
    · exact ⟨rfl,rfl,rfl,rfl,rfl⟩
  | _ => exact ⟨rfl,rfl,rfl,rfl,rfl⟩

def Core.enable (k : Core) : Core := {k with chState := .enabled}

inductive Calm (w : Window) (Q : Station → Prop) (b : Book) : Station → Book → Station → Prop where
  | fill {k o t f} (buf : Nat) (allowed : Q ⟨k,o,t,f⟩) (free : mhiIsRingFull k.tre = false) :
      Calm w Q b ⟨k,o,t,f⟩ b ⟨k.push,o,t,buf :: f⟩
  | event {k o f} (u : Turn) (on : k.chState = .enabled) (loaded : k.tre.rp ≠ k.tre.wp) (uncalled : u.called = none)
      (goal : w.size = sizeofMhiTre → ∀ h n, k.tre.Holds w h n → ∃ d, h ≤ d ∧ d ≤ n ∧ u.devRp = w.slot d) :
      Calm w Q b ⟨k,o,none,f⟩ b ⟨k,o,some u,f⟩
  | take {k o f} (u : Turn) (cell : Nat) (uncalled : u.called = none) (more : k.tre.rp ≠ u.devRp) :
      Calm w Q b ⟨k,o,some u,f⟩ b ⟨k.pop,o,some {u with called := some cell},f⟩
  | leave {k o f} (u : Turn) (uncalled : u.called = none) : Calm w Q b ⟨k,o,some u,f⟩ b ⟨k,o,none,f⟩
  | resetTurn {k r t f} (more : k.tre.rp ≠ k.tre.wp) :
      Calm w Q b ⟨k,.resetting r,t,f⟩ (b.count k.dir (-1)) ⟨k.pop,.resetting r,t,f⟩
  | phase {k o t f k' o'} (moved : Phase t k o k' o') : Calm w Q b ⟨k,o,t,f⟩ b ⟨k',o',t,f⟩

inductive Local (w : Window) (Q : Station → Prop) (b : Book) : Station → Book → Station → Prop where
  | calm {st b' st'} (moved : Calm w Q b st b' st') : Local w Q b st b' st'
  | queue {k o t f err b' k'} (allowed : Q ⟨k,o,t,f⟩) (queued : Queued b k err b' k') :
      Local w Q b ⟨k,o,t,f⟩ b' ⟨k',o,t,f⟩
  | finish {k o t f} (buf : Nat) (part : buf ∈ f) :
      Local w Q b ⟨k,o,t,f⟩ (b.resume.count k.dir 1) ⟨k.bellIf b,o,t,f.erase buf⟩
  | doorbell {k o f} (on : k.chState = .enabled) : Local w Q b ⟨k,o,none,f⟩ b ⟨k.dbMode b,o,none,f⟩
  | settle {k o f} (u : Turn) (cell : Nat) (called : u.called = some cell) :
      Local w Q b ⟨k,o,some u,f⟩ (b.count k.dir (-1)) ⟨k,o,some {u with called := none},f⟩
  | recycle {k o f err b' k'} (u : Turn) (cell : Nat) (called : u.called = some cell) (core : k.preAlloc = true)
      (queued : Queued (b.count k.dir (-1)) k err b' k') :
      Local w Q b ⟨k,o,some u,f⟩ b' ⟨k',o,some {u with called := none},f⟩
  | init {k t f} (base : Nat) (block : 0 < base) (own : k.offloadCh = false) (off : k.chState = .disabled)
      (masked : k.eeMask ≠ 0) : Local w Q b ⟨k,.idle,t,f⟩ b ⟨k.fresh base,.preparing,t,f⟩
  | enable {k t f} (client : k.preAlloc = false) : Local w Q b ⟨k,.starting,t,f⟩ b ⟨k.enable,.idle,t,f⟩
  | prefill {k t f} (n : Nat) (few : n ≤ (getNrAvailRingElements k.tre).toNat) (core : k.preAlloc = true) :
      Local w Q b ⟨k,.starting,t,f⟩ b ⟨(k.enable.pushes n).bellIf b,.idle,t,f⟩
  | runOut {k t f} (n : Nat) (few : n ≤ (getNrAvailRingElements k.tre).toNat) (core : k.preAlloc = true) :
      Local w Q b ⟨k,.starting,t,f⟩ b ⟨k.enable.pushes n,.unfilled,t,f⟩

inductive Drift : View → View → Prop where
  | goes {v} (pm : PmState) (reached : mhiTrysetPmState v.book.pm pm = pm)
      (target : pm = .m2 ∨ pm = .m3 ∨ pm = .m3Exit ∨ mhiPmInErrorState pm = true) :
      Drift v {v with book := {v.book with pm := pm}}
  | enter {v} (reached : mhiTrysetPmState v.book.pm .m3Enter = .m3Enter) (quiet : v.book.pending = 0) :
      Drift v {v with book := {v.book with pm := .m3Enter}, entered := v.book.resumes}

inductive Move (w : Nat → Window) (Q : Station → Prop) (n : Nat) : View → View → Prop where
  | here {v st b' st'} (i : Nat) (known : i < n) (stands : v.station i = st) (moved : Local (w i) Q v.book st b' st') :
      Move w Q n v {v with book := b', station := Function.update v.station i st'}
  | m0 {v} (reached : mhiTrysetPmState v.book.pm .m0 = .m0) :
      Move w Q n v {v with
        book := {v.book with pm := .m0}
        station := fun i => if i < n then {v.station i with core := (v.station i).core.onM0} else v.station i}
  | drift {v v'} (moved : Drift v v') : Move w Q n v v'

structure Touches (i : Nat) (h h' : Host) : Prop where
  maxChan : h'.maxChan = h.maxChan
  others : ∀ j, j ≠ i → h'.chans j = h.chans j

namespace Touches
theorem refl (i : Nat) (h : Host) : Touches i h h := ⟨rfl,fun _ _ => rfl⟩
theorem trans {i : Nat} {h mid h' : Host} (first : Touches i h mid) (second : Touches i mid h') : Touches i h h' :=
  ⟨second.maxChan.trans first.maxChan,fun j other => (second.others j other).trans (first.others j other)⟩
theorem setChan (i : Nat) (h : Host) (ch : Chan) : Touches i h (h.setChan i ch) :=
  ⟨rfl,fun _ other => Function.update_of_ne other _ _⟩
theorem setPort (i : Nat) (h : Host) (p : Port) : Touches i h (h.setPort i p) :=
  ⟨rfl,fun _ other => Function.update_of_ne other _ _⟩
end Touches

@[simp] theorem setChanSelf (h : Host) (i : Nat) (ch : Chan) : (h.setChan i ch).chans i = ch :=
  Function.update_self _ _ _
@[simp] theorem setPortSelf (h : Host) (i : Nat) (p : Port) : (h.setPort i p).chans i = p.chan :=
  Function.update_self _ _ _
@[simp] theorem setChanCntrl (h : Host) (i : Nat) (ch : Chan) : (h.setChan i ch).cntrl = h.cntrl := rfl
@[simp] theorem setPortCntrl (h : Host) (i : Nat) (p : Port) : (h.setPort i p).cntrl = p.cntrl := rfl

theorem sendCmdView {h h' : Host} {chan cmd err} (ran : mhiSendCmd h chan cmd = (h',err)) :
    h'.maxChan = h.maxChan ∧ h'.chans = h.chans ∧ h'.cntrl.book = h.cntrl.book := by
  unfold mhiSendCmd at ran
  split at ran
  · cases ran
    exact ⟨rfl,rfl,rfl⟩
  · dsimp only at ran
    split at ran <;> cases ran <;> exact ⟨rfl,rfl,rfl⟩

theorem deinitOwnedCore (ch : Chan) : (deinitOwned ch).core = ch.core.released := by
  unfold deinitOwned Core.released mhiDeinitChanCtxt
  cases owned : ch.offloadCh with
  | true => simp [Chan.core,owned]
  | false => simp [Chan.core,owned]

theorem prepareBeginView {h h' : Host} {i vz err} (ran : prepareBegin h i vz = (h',err)) :
    Touches i h h' ∧ h'.cntrl = h.cntrl ∧
    ((∃ e, err = some e) ∧ (h'.chans i).core = (h.chans i).core ∨
      (h.chans i).chState = .disabled ∧
        (err.isSome ∧ (h.chans i).offloadCh = false ∧ (h'.chans i).core = {(h.chans i).core with bufBase := 0} ∨
          err = none ∧ (h.chans i).offloadCh = true ∧ (h'.chans i).core = (h.chans i).core ∨
          err = none ∧ (h.chans i).offloadCh = false ∧ (h.chans i).eeMask ≠ 0 ∧
            ∃ base, vz = some base ∧ (h'.chans i).core = (h.chans i).core.fresh base)) := by
  unfold prepareBegin at ran
  dsimp only at ran
  split at ran
  · cases ran
    exact ⟨.refl i h,rfl,.inl ⟨⟨_,rfl⟩,rfl⟩⟩
  rename_i masked
  split at ran
  · cases ran
    exact ⟨.refl i h,rfl,.inl ⟨⟨_,rfl⟩,rfl⟩⟩
  rename_i off
  have off : (h.chans i).chState = .disabled := by simpa using off
  split at ran
  · rename_i alien
    cases ran
    exact ⟨.setChan i h _,rfl,.inr ⟨off,.inr (.inl ⟨rfl,alien,by simp [reinitCompletion,Chan.core]⟩)⟩⟩
  rename_i own
  have own : (h.chans i).offloadCh = false := eq_false_of_ne_true own
  cases vz with
  | none =>
    simp only [mhiInitChanCtxt] at ran
    cases ran
    exact ⟨.setChan i h _,rfl,.inr ⟨off,.inl ⟨rfl,own,by simp [Chan.core]⟩⟩⟩
  | some base =>
    simp only [mhiInitChanCtxt] at ran
    cases ran
    have named : (h.chans i).eeMask ≠ 0 := by
      intro none
      simp [none] at masked
    exact ⟨.setChan i h _,rfl,.inr ⟨off,.inr (.inr ⟨rfl,own,named,base,rfl,
      by simp [reinitCompletion,Chan.core,Core.fresh,Core.rearm]⟩)⟩⟩

theorem prepareSendView {h h' : Host} {i err} (ran : prepareSend h i = (h',err)) :
    Touches i h h' ∧ h'.cntrl.book = h.cntrl.book ∧
    (err = none ∧ (h'.chans i).core = (h.chans i).core ∨
      err.isSome ∧ (h'.chans i).core = (h.chans i).core.released) := by
  unfold prepareSend at ran
  split at ran
  · cases ran
    exact ⟨.setChan i h _,rfl,.inr ⟨rfl,by simp [deinitOwnedCore]⟩⟩
  · split at ran
    · rename_i mid e sent
      obtain ⟨maxChan,chans,book⟩ := sendCmdView sent
      cases ran
      have touched : Touches i h mid := ⟨maxChan,fun j _ => congrFun chans j⟩
      exact ⟨touched.trans (.setChan i mid _),by simpa using book,.inr ⟨rfl,by simp [deinitOwnedCore,chans]⟩⟩
    · rename_i mid sent
      obtain ⟨maxChan,chans,book⟩ := sendCmdView sent
      cases ran
      exact ⟨⟨maxChan,fun j _ => congrFun chans j⟩,by simpa using book,.inl ⟨rfl,by rw [chans]⟩⟩

theorem waitCore (ch : Chan) (inTime : Bool) : (waitForCompletion ch inTime).1.core = ch.core := by
  unfold waitForCompletion
  split
  · unfold takeCompletion
    dsimp only
    split <;> rfl
  · rfl

theorem prepareFinishView {h h' : Host} {i answered reply err} (ran : prepareFinish h i answered reply = (h',err)) :
    Touches i h h' ∧ h'.cntrl.book = h.cntrl.book ∧
    ((!answered || decide ((h.chans i).ccs ≠ EvCc.success)) = true ∧ err.isSome ∧
        (h'.chans i).core = (h.chans i).core.released ∨
      (!answered || decide ((h.chans i).ccs ≠ EvCc.success)) = false ∧
      ((h.chans i).preAlloc = false ∧ err = none ∧ (h'.chans i).core = (h.chans i).core.enable ∨
      (h.chans i).preAlloc = true ∧ ∃ n ≤ (getNrAvailRingElements (h.chans i).treRing).toNat,
        (err = none ∧ (h'.chans i).core = ((h.chans i).core.enable.pushes n).bellIf h.cntrl.book ∨
          err.isSome ∧ (h'.chans i).core = (h.chans i).core.enable.pushes n))) := by
  unfold prepareFinish at ran
  dsimp only at ran
  split at ran
  · rename_i unanswered
    cases ran
    exact ⟨.setChan i h _,rfl,.inl ⟨unanswered,rfl,by simp [deinitOwnedCore]⟩⟩
  · rename_i answered
    cases filled : preAllocate ⟨h.cntrl,{h.chans i with chState := .enabled}⟩ reply with
    | mk out e =>
      rw [filled] at ran
      cases ran
      obtain ⟨book,rest⟩ := preAllocateView filled
      refine ⟨.setPort i h _,by simpa using book,.inr ⟨eq_false_of_ne_true answered,?_⟩⟩
      simp only [setPortSelf]
      rcases rest with ⟨client,none,core⟩ | ⟨alloc,n,few,⟨none,core⟩ | ⟨⟨e,some⟩,core⟩⟩
      · exact .inl ⟨client,none,core⟩
      · exact .inr ⟨alloc,n,few,.inl ⟨none,core⟩⟩
      · exact .inr ⟨alloc,n,few,.inr ⟨by simp [some],core⟩⟩

theorem unprepareSendView {h h' : Host} {i out} (ran : unprepareSend h i = (h',out)) :
    h'.maxChan = h.maxChan ∧ h'.chans = h.chans ∧ h'.cntrl.book = h.cntrl.book ∧ out ≠ .refused := by
  unfold unprepareSend at ran
  split at ran
  · cases ran
    exact ⟨rfl,rfl,rfl,by simp⟩
  · split at ran
    all_goals
      rename_i mid sent
      obtain ⟨maxChan,chans,book⟩ := sendCmdView sent
      cases ran
      exact ⟨maxChan,chans,by simpa using book,by simp⟩

theorem unprepareBeginView {h h' : Host} {i out} (ran : unprepareBegin h i = (h',out)) :
    Touches i h h' ∧ h'.cntrl.book = h.cntrl.book ∧
    (out = .refused ∧ (h'.chans i).core = (h.chans i).core ∨
      out ≠ .refused ∧ (h.chans i).chState = .enabled ∧
        (h'.chans i).core = {(h.chans i).core with chState := .disabled}) := by
  unfold unprepareBegin unprepareOff at ran
  by_cases on : (h.chans i).chState = .enabled
  · simp only [on,ne_eq,not_true_eq_false,if_false] at ran
    obtain ⟨maxChan,chans,book,going⟩ := unprepareSendView ran
    refine ⟨⟨maxChan,fun j other => ?_⟩,book,.inr ⟨going,on,?_⟩⟩
    · rw [chans]
      exact Function.update_of_ne other _ _
    · rw [chans]
      simp [reinitCompletion,Chan.core]
  · simp only [ne_eq,on,not_false_eq_true,if_true] at ran
    cases ran
    exact ⟨.refl i h,rfl,.inl ⟨rfl,rfl⟩⟩

theorem enterResetView {h h' : Host} {i r o} (ran : enterReset h i r = some (h',o)) :
    h'.maxChan = h.maxChan ∧ h'.chans = h.chans ∧ h'.cntrl = h.cntrl ∧
    ((h.chans i).offloadCh = true ∧ o = (if r = .unprepare then .idle else .emptied r) ∨
      (h.chans i).offloadCh = false ∧ o = .resetting r) := by
  unfold enterReset at ran
  split at ran
  · rename_i alien
    cases ran
    exact ⟨rfl,rfl,rfl,.inl ⟨alien,rfl⟩⟩
  · rename_i own
    obtain ⟨mid,begun,same⟩ := Option.map_eq_some_iff.mp ran
    cases same
    unfold resetBegin at begun
    split at begun
    · contradiction
    · obtain ⟨e,_,last⟩ := Option.bind_eq_some_iff.mp begun
      cases Option.some.inj last
      exact ⟨rfl,rfl,rfl,.inr ⟨eq_false_of_ne_true own,rfl⟩⟩

theorem forEventsBook {act : Cntrl → MhiEvent → Cntrl × MhiEvent} (kept : ∀ c e, (act c e).1.book = c.book)
    (c : Cntrl) (es : List MhiEvent) : (forEvents act c es).1.book = c.book := by
  induction es generalizing c with
  | nil => rfl
  | cons e rest ih => exact (ih (act c e).1).trans (kept c e)

theorem m0EventBook (c : Cntrl) (e : MhiEvent) : (m0Event c e).1.book = c.book := by
  unfold m0Event
  split
  · rfl
  · exact processDbBook _ _ _ _

theorem readyEventBook (c : Cntrl) (e : MhiEvent) : (readyEvent c e).1.book = c.book := by
  unfold readyEvent
  split
  · rfl
  · exact processDbBook _ _ _ _

theorem resetEventBook (c : Cntrl) (e : MhiEvent) : (resetEvent c e).1.book = c.book := by
  unfold resetEvent
  split <;> rfl

theorem m0MissionView (h : Host) : (m0Mission h).maxChan = h.maxChan ∧ (m0Mission h).chans = h.chans ∧
    (m0Mission h).cntrl.book = h.cntrl.book := by
  have book := forEventsBook m0EventBook h.cntrl h.events
  unfold m0Mission
  dsimp only
  split
  · exact ⟨rfl,rfl,book⟩
  · exact ⟨rfl,rfl,book⟩

theorem m0ChanView (h : Host) (i : Nat) : Touches i h (m0Chan h i) ∧ (m0Chan h i).cntrl.book = h.cntrl.book ∧
    ((m0Chan h i).chans i).core = (h.chans i).core.onM0 := by
  have rearmed : Chan.core (if (h.chans i).dbCfg.resetReq then {h.chans i with
      dbCfg := {(h.chans i).dbCfg with dbMode := true}} else h.chans i) = (h.chans i).core.armed := by
    show _ = if (h.chans i).dbCfg.resetReq then _ else _
    split <;> rfl
  unfold m0Chan Core.onM0
  dsimp only
  rw [← rearmed]
  generalize (if (h.chans i).dbCfg.resetReq then {h.chans i with
      dbCfg := {(h.chans i).dbCfg with dbMode := true}} else h.chans i) = ch
  have tre : ch.core.tre = ch.treRing := rfl
  rw [tre]
  split
  · obtain ⟨book,core⟩ := ringChanDbView ⟨h.cntrl,ch⟩
    exact ⟨.setPort i h _,book,by simpa using core⟩
  · exact ⟨.setChan i h _,rfl,by simp⟩

theorem m0FoldView (l : List Nat) (h : Host) (once : l.Nodup) :
    (l.foldl m0Chan h).maxChan = h.maxChan ∧ (l.foldl m0Chan h).cntrl.book = h.cntrl.book ∧
    ∀ j, ((l.foldl m0Chan h).chans j).core = if j ∈ l then (h.chans j).core.onM0 else (h.chans j).core := by
  induction l generalizing h with
  | nil => exact ⟨rfl,rfl,fun j => by simp⟩
  | cons i rest ih =>
    obtain ⟨fresh,once⟩ := List.nodup_cons.mp once
    obtain ⟨touched,book,core⟩ := m0ChanView h i
    obtain ⟨maxChan',book',core'⟩ := ih (m0Chan h i) once
    refine ⟨maxChan'.trans touched.maxChan,book'.trans book,fun j => ?_⟩
    rw [List.foldl_cons, core' j]
    by_cases same : j = i
    · subst j
      simp [fresh,core]
    · simp [same,touched.others j same]

theorem m0View (h : Host) : (mhiPmM0Transition h).1.maxChan = h.maxChan ∧
    (mhiTrysetPmState h.cntrl.pmState .m0 = .m0 ∧
        (mhiPmM0Transition h).1.cntrl.book = {h.cntrl.book with pm := .m0} ∧
        (∀ j, ((mhiPmM0Transition h).1.chans j).core =
          if j < h.maxChan then (h.chans j).core.onM0 else (h.chans j).core) ∨
      (mhiPmM0Transition h).1.cntrl.book = h.cntrl.book ∧ (mhiPmM0Transition h).1.chans = h.chans) := by
  unfold mhiPmM0Transition
  dsimp only
  split
  · rename_i stuck
    have same := (trysetCases h.cntrl.pmState .m0).resolve_left stuck
    exact ⟨rfl,.inr ⟨by simp [Cntrl.book,same],rfl⟩⟩
  · rename_i reached
    have reached : mhiTrysetPmState h.cntrl.pmState .m0 = .m0 := by simpa using reached
    set awake : Host := {h with cntrl := mhiAssertDevWake {h.cntrl with
      devState := .m0, pmState := mhiTrysetPmState h.cntrl.pmState .m0} true} with awakeDef
    have awakeBook : awake.cntrl.book = {h.cntrl.book with pm := .m0} := by
      rw [awakeDef, assertBook, reached]
      rfl
    have rung : ∃ mid : Host, (if mhiInMissionMode awake.cntrl.ee then m0Mission awake else awake) = mid ∧
        mid.maxChan = h.maxChan ∧ mid.chans = h.chans ∧ mid.cntrl.book = awake.cntrl.book := by
      refine ⟨_,rfl,?_⟩
      split
      · exact m0MissionView awake
      · exact ⟨rfl,rfl,rfl⟩
    obtain ⟨mid,same,maxChan,chans,book⟩ := rung
    rw [same]
    obtain ⟨maxChan',book',core⟩ := m0FoldView (List.range mid.maxChan) mid List.nodup_range
    refine ⟨maxChan'.trans maxChan,.inl ⟨reached,?_,fun j => ?_⟩⟩
    · rw [deassertBook]
      exact (book'.trans book).trans awakeBook
    · rw [show (m0Chans mid).chans j = ((List.range mid.maxChan).foldl m0Chan mid).chans j from rfl, core j]
      simp [chans,maxChan]

theorem m1View (h : Host) : (mhiPmM1Transition h).maxChan = h.maxChan ∧ (mhiPmM1Transition h).chans = h.chans ∧
    (mhiPmM1Transition h).cntrl.book = {h.cntrl.book with pm := mhiTrysetPmState h.cntrl.pmState .m2} := by
  unfold mhiPmM1Transition
  dsimp only
  split
  · exact ⟨rfl,rfl,rfl⟩
  · rename_i reached
    have reached : mhiTrysetPmState h.cntrl.pmState .m2 = .m2 := by simpa using reached
    rw [reached]
    split
    · refine ⟨rfl,rfl,?_⟩
      rw [deassertBook, assertBook]
      rfl
    · exact ⟨rfl,rfl,rfl⟩

theorem mmioView (h : Host) (reply : ReadyReply) : ∃ cntrl chans events db, cntrl.book = h.cntrl.book ∧
    (events = h.events ∨ ∃ val, events = eventDbs h.regs val h.events) ∧
    (mhiInitMmio h reply).1 = {h with
      cntrl := cntrl, chans := chans, events := events, cmdRing := {h.cmdRing with dbAddr := db}} := by
  unfold mhiInitMmio
  split
  · exact ⟨h.cntrl,h.chans,h.events,h.cmdRing.dbAddr,rfl,.inl rfl,rfl⟩
  · dsimp only
    split
    · refine ⟨_,_,h.events,h.cmdRing.dbAddr,?_,.inl rfl,rfl⟩
      rfl
    · refine ⟨_,_,_,_,?_,.inr ⟨_,rfl⟩,rfl⟩
      rfl

def readyHost (h : Host) : Host :=
  {h with cntrl := {h.cntrl with devState := .ready, pmState := mhiTrysetPmState h.cntrl.pmState .por}}

inductive ReadyEnds (h : Host) (reply : ReadyReply) : Host × Option Errno → Prop where
  | refused (e : Errno) : ReadyEnds h reply (h,some e)
  | moved : ReadyEnds h reply (readyHost h,some .eio)
  | unmapped : ReadyEnds h reply ((mhiInitMmio (readyHost h) reply).1,some .eio)
  | done (alive : mhiPmInFatalState h.cntrl.pmState = false) (reached : mhiTrysetPmState h.cntrl.pmState .por = .por) :
      ReadyEnds h reply (((mhiInitMmio (readyHost h) reply).1.passEvents readyEvent).mhiSetMhiState .m0,none)

theorem readyEnds (h : Host) (reply : ReadyReply) : ReadyEnds h reply (mhiReadyStateTransition h reply) := by
  unfold mhiReadyStateTransition
  split
  · exact .refused .eio
  rename_i alive
  split
  · exact .refused .etimedout
  dsimp only
  split
  · exact .moved
  rename_i reached
  split
  · exact .moved
  split
  · rename_i out _ failed
    have same : out = (mhiInitMmio (readyHost h) reply).1 := (congrArg Prod.fst failed).symm
    subst same
    exact .unmapped
  · rename_i out ok
    have same : out = (mhiInitMmio (readyHost h) reply).1 := (congrArg Prod.fst ok).symm
    subst same
    exact .done (eq_false_of_ne_true alive) (not_not.mp reached)

theorem suspendEnterView {h h' : Host} {err} (ran : suspendEnter h = (h',err)) :
    h'.maxChan = h.maxChan ∧ h'.chans = h.chans ∧
    (h'.cntrl.book = h.cntrl.book ∧ err.isSome ∨
      err = none ∧ h.cntrl.pendingPkts = 0 ∧ mhiTrysetPmState h.cntrl.pmState .m3Enter = .m3Enter ∧
        h'.cntrl.book = {h.cntrl.book with pm := .m3Enter}) := by
  unfold suspendEnter at ran
  split at ran
  · cases ran
    exact ⟨rfl,rfl,.inl ⟨rfl,rfl⟩⟩
  rename_i quiet
  dsimp only at ran
  split at ran
  · rename_i stuck
    cases ran
    have same := (trysetCases h.cntrl.pmState .m3Enter).resolve_left stuck
    exact ⟨rfl,rfl,.inl ⟨by simp [Host.setPm,Cntrl.book,same],rfl⟩⟩
  · rename_i reached
    cases ran
    have reached : mhiTrysetPmState h.cntrl.pmState .m3Enter = .m3Enter := by simpa using reached
    have quiet : h.cntrl.pendingPkts = 0 := by
      simp only [not_or,not_not] at quiet
      exact quiet.2
    exact ⟨rfl,rfl,.inr ⟨rfl,quiet,reached,by simp [Host.mhiSetMhiState,Host.setPm,Cntrl.book,reached]⟩⟩

theorem resumeBeginView (h : Host) : (resumeBegin h).1.maxChan = h.maxChan ∧ (resumeBegin h).1.chans = h.chans ∧
    ((resumeBegin h).1.cntrl.book = h.cntrl.book ∨
      (resumeBegin h).1.cntrl.book = {h.cntrl.book with pm := mhiTrysetPmState h.cntrl.pmState .m3Exit}) := by
  unfold resumeBegin
  split
  · exact ⟨rfl,rfl,.inl rfl⟩
  split
  · exact ⟨rfl,rfl,.inl rfl⟩
  dsimp only
  split
  · exact ⟨rfl,rfl,.inr rfl⟩
  · exact ⟨rfl,rfl,.inr rfl⟩

theorem suspendBeginView (h : Host) : (suspendBegin h).1.maxChan = h.maxChan ∧ (suspendBegin h).1.chans = h.chans ∧
    (suspendBegin h).1.cntrl.book = h.cntrl.book := by
  unfold suspendBegin
  split
  · exact ⟨rfl,rfl,rfl⟩
  split
  · exact ⟨rfl,rfl,rfl⟩
  split
  · exact ⟨rfl,rfl,rfl⟩
  · exact ⟨rfl,rfl,assertBook _ _⟩

theorem completionCore (h : Host) (ev : MhiTre) (j : Nat) :
    ((mhiProcessCmdCompletion h ev).chans j).core = (h.chans j).core := by
  unfold mhiProcessCmdCompletion
  dsimp only
  by_cases same : j = (h.cmdMem (mhiToVirtual h.cmdRing ev.getEvPtr)).getCmdChid
  · rw [← same, setChanSelf]
    unfold complete
    split <;> rfl
  · rw [(Touches.setChan _ h _).others j same]

theorem removeWakeCore (h : Host) (i j : Nat) : ((removeWake h i).chans j).core = (h.chans j).core := by
  by_cases same : j = i
  · subst j
    simp [removeWake,completeAll,Chan.core]
  · rw [removeWake, (Touches.setChan _ h _).others j same]

section StationSet
variable (s : Threads) (i : Nat)
@[simp] theorem stationSetPort (p : Port) :
    (s.setPort i p).station i = {s.station i with core := p.chan.core} := by
  simp [Threads.station,Threads.chan,Threads.setPort]
@[simp] theorem stationWithHost (h : Host) :
    (s.withHost h).station i = {s.station i with core := (h.chans i).core} := rfl
@[simp] theorem stationSetOp (o : ChanOp) : (s.setOp i o).station i = {s.station i with op := o} := by
  simp [Threads.station,Threads.chan,Threads.setOp]
@[simp] theorem stationSetTurn (t : Option Turn) : (s.setTurn i t).station i = {s.station i with turn := t} := by
  simp [Threads.station,Threads.chan,Threads.setTurn]
@[simp] theorem stationSetFilled (f : List Nat) : (s.setFilled i f).station i = {s.station i with filled := f} := by
  simp [Threads.station,Threads.chan,Threads.setFilled]
end StationSet

structure Beside (i : Nat) (s s' : Threads) : Prop where
  host : Touches i s.host s'.host
  op : ∀ j, j ≠ i → s'.op j = s.op j
  turn : ∀ j, j ≠ i → s'.turn j = s.turn j
  filled : ∀ j, j ≠ i → s'.filled j = s.filled j
  entered : s'.entered = s.entered

namespace Beside
variable {i : Nat} {s : Threads}

theorem withHost {h : Host} (touched : Touches i s.host h) : Beside i s (s.withHost h) :=
  ⟨touched,fun _ _ => rfl,fun _ _ => rfl,fun _ _ => rfl,rfl⟩
theorem setPort (p : Port) : Beside i s (s.setPort i p) :=
  ⟨.setPort i s.host p,fun _ _ => rfl,fun _ _ => rfl,fun _ _ => rfl,rfl⟩
theorem setOp {s' : Threads} (o : ChanOp) (beside : Beside i s s') : Beside i s (s'.setOp i o) :=
  ⟨beside.host,fun j other => (Function.update_of_ne other _ _).trans (beside.op j other),
    beside.turn,beside.filled,beside.entered⟩
theorem setTurn {s' : Threads} (t : Option Turn) (beside : Beside i s s') : Beside i s (s'.setTurn i t) :=
  ⟨beside.host,beside.op,fun j other => (Function.update_of_ne other _ _).trans (beside.turn j other),
    beside.filled,beside.entered⟩
theorem setFilled {s' : Threads} (f : List Nat) (beside : Beside i s s') : Beside i s (s'.setFilled i f) :=
  ⟨beside.host,beside.op,beside.turn,
    fun j other => (Function.update_of_ne other _ _).trans (beside.filled j other),beside.entered⟩
theorem refl (i : Nat) (s : Threads) : Beside i s s :=
  ⟨.refl i s.host,fun _ _ => rfl,fun _ _ => rfl,fun _ _ => rfl,rfl⟩

theorem view {s' : Threads} (beside : Beside i s s') : s'.view = {s.view with
    book := s'.host.cntrl.book, station := Function.update s.view.station i (s'.station i)} := by
  simp only [Threads.view,beside.entered,View.mk.injEq,true_and]
  funext j
  by_cases same : j = i
  · subst j
    simp
  · rw [Function.update_of_ne same]
    simp only [Threads.station,Threads.chan,beside.host.others j same,beside.op j same,beside.turn j same,
      beside.filled j same]
end Beside

theorem hostSilent {s : Threads} {h : Host} (book : h.cntrl.book = s.host.cntrl.book)
    (cores : ∀ j, (h.chans j).core = (s.host.chans j).core) : (s.withHost h).view = s.view := by
  simp only [Threads.view,Threads.withHost,book,View.mk.injEq,true_and]
  funext j
  simp only [Threads.station,Threads.chan,cores j]

theorem hostDrift {s : Threads} {h : Host} (pm : PmState)
    (book : h.cntrl.book = {s.host.cntrl.book with pm := mhiTrysetPmState s.host.cntrl.pmState pm})
    (chans : h.chans = s.host.chans) (target : pm = .m2 ∨ pm = .m3 ∨ pm = .m3Exit ∨ mhiPmInErrorState pm = true) :
    (s.withHost h).view = s.view ∨ Drift s.view (s.withHost h).view := by
  rcases trysetCases s.host.cntrl.pmState pm with reached | stuck
  · right
    have view : (s.withHost h).view = {s.view with book := {s.view.book with pm := pm}} := by
      rw [reached] at book
      simp only [Threads.view,Threads.withHost,book]
      congr 1
      funext j
      simp only [Threads.station,Threads.chan,chans]
    rw [view]
    exact .goes pm reached target
  · left
    rw [stuck] at book
    exact hostSilent book (fun j => by rw [chans])

theorem namesLoaded {w : Window} {ch : Chan} {ev : MhiTre} (named : NamesOutstanding w ch ev) :
    ch.treRing.rp ≠ ch.treRing.wp := by
  intro same
  obtain ⟨cell,member,_⟩ := named
  have none : w.used ch.treRing.rp ch.treRing.wp = 0 := by
    rw [← same]
    simp [Window.used]
  simp [Ring.outstanding,none,Window.cells] at member

theorem beginTurnGoal {w : Window} {ch : Chan} {ev : MhiTre} {h n : Nat} (tres : w.size = sizeofMhiTre)
    (named : NamesOutstanding w ch ev) (held : ch.treRing.Holds w h n) :
    ∃ d, h ≤ d ∧ d ≤ n ∧ xferGoal ch.treRing (mhiToVirtual ch.treRing ev.getEvPtr) = w.slot d := by
  obtain ⟨j,low,high,cell⟩ := namedCell held named
  exact ⟨j + 1,by omega,high,by rw [cell, afterCell held.spans tres]⟩

theorem dbCodeOnly {code : Nat} (db : isDbCode code = true) : isXferCode code = false := by
  simp only [isDbCode,decide_eq_true_iff] at db
  rcases db with rfl | rfl <;> rfl

theorem stopWaitingView (h : Host) (i : Nat) (waits inTime : Bool) :
    Touches i h (stopWaiting h i waits inTime) ∧ (stopWaiting h i waits inTime).cntrl = h.cntrl ∧
    ((stopWaiting h i waits inTime).chans i).core = (h.chans i).core := by
  unfold stopWaiting
  split
  · exact ⟨.setChan i h _,rfl,by rw [setChanSelf, waitCore]⟩
  · exact ⟨.refl i h,rfl,rfl⟩

/- What a step at one channel shows: nothing, or a move. -/
def Shows (Moves : Book → Station → Book → Station → Prop) (i : Nat) (s s' : Threads) : Prop :=
  s'.host.cntrl.book = s.host.cntrl.book ∧ s'.station i = s.station i ∨
    Moves s.host.cntrl.book (s.station i) s'.host.cntrl.book (s'.station i)

section Simulation
variable {w : Window} {Q : Station → Prop} {i : Nat} {s s' : Threads}

theorem shows {Moves : Book → Station → Book → Station → Prop} {st b' st'} (here : s.station i = st)
    (book : s'.host.cntrl.book = b') (there : s'.station i = st') (moved : Moves s.host.cntrl.book st b' st') :
    Shows Moves i s s' := by
  subst here book there
  exact .inr moved

theorem fillShows {buf len flags : Nat} {reply p err} (allowed : Q (s.station i))
    (ran : mhiQueueBufFill (s.port i) buf len flags reply = (p,err)) :
    Shows (Calm w Q) i s ((s.setPort i p).setFilled i (if err.isNone then buf :: s.filled i else s.filled i)) := by
  have view := queueBufFillView (s.port i) buf len flags reply
  rw [ran] at view
  obtain ⟨cntrl,⟨fits,free,core⟩ | ⟨⟨e,failed⟩,core⟩⟩ := view
  · dsimp only at cntrl core fits
    refine shows rfl (congrArg Cntrl.book cntrl) ?_ (.fill buf allowed free)
    rw [stationSetFilled, stationSetPort, core, fits]
    rfl
  · dsimp only at cntrl core failed
    refine .inl ⟨congrArg Cntrl.book cntrl,?_⟩
    rw [stationSetFilled, stationSetPort, core, failed]
    rfl

theorem finishShows {buf : Nat} (part : buf ∈ s.filled i) :
    Shows (Local w Q) i s ((s.setPort i (mhiQueueBufFinish (s.port i) buf)).setFilled i ((s.filled i).erase buf)) := by
  obtain ⟨book,core⟩ := queueBufFinishView (s.port i) buf
  refine shows rfl book ?_ (.finish buf part)
  rw [stationSetFilled, stationSetPort, core]
  rfl

theorem eventShows {ev : MhiTre} (unlocked : s.turn i = none)
    (named : (s.chan i).chState = .enabled → NamesOutstanding w (s.chan i) ev) :
    Shows (Calm w Q) i s (s.setTurn i (beginTurn (s.chan i) ev)) := by
  by_cases on : (s.chan i).chState = .enabled
  · have begun : beginTurn (s.chan i) ev = some ⟨ev,mhiToVirtual (s.chan i).treRing ev.getEvPtr,
        xferGoal (s.chan i).treRing (mhiToVirtual (s.chan i).treRing ev.getEvPtr),none⟩ := by simp [beginTurn,on]
    have here : s.station i = ⟨(s.chan i).core,s.op i,none,s.filled i⟩ := by rw [Threads.station, unlocked]
    rw [begun]
    refine shows here rfl (stationSetTurn _ _ _) ?_
    exact .event _ on (namesLoaded (named on)) rfl (fun tres h n held => beginTurnGoal tres (named on) held)
  · have ignored : beginTurn (s.chan i) ev = s.turn i := by simp [beginTurn,on,unlocked]
    refine .inl ⟨rfl,?_⟩
    rw [stationSetTurn, ignored]
    rfl

theorem doorbellShows {ev : MhiTre} {script p} (unlocked : s.turn i = none) (code : isDbCode ev.getEvCode = true)
    (ran : parseXferEvent ev script (s.port i) = some p) : Shows (Local w Q) i s (s.setPort i p) := by
  have other := dbCodeOnly code
  have chan : (s.port i).chan = s.chan i := rfl
  unfold parseXferEvent at ran
  rw [chan] at ran
  by_cases on : (s.chan i).chState = .enabled
  · simp only [on,other,code,ne_eq,not_true,if_false,if_true,Bool.false_eq_true] at ran
    cases ran
    obtain ⟨book,core⟩ := dbModeView (s.port i)
    have here : s.station i = ⟨(s.chan i).core,s.op i,none,s.filled i⟩ := by rw [Threads.station, unlocked]
    refine shows here book ?_ (.doorbell on)
    rw [stationSetPort, core, here]
    rfl
  · rw [if_pos on] at ran
    cases ran
    exact .inl ⟨rfl,stationSetPort s i _⟩

theorem settleShows {b : Nat} {t : Turn} {reply : DmaReply} (busy : s.turn i = some t) (called : t.called = some b) :
    Shows (Local w Q) i s ((s.setPort i (recycleBuf {s.port i with
      cntrl := countUplink (s.chan i).dir (-1) s.host.cntrl} b reply)).setTurn i (some {t with called := none})) := by
  have here : s.station i = ⟨(s.chan i).core,s.op i,some t,s.filled i⟩ := by rw [Threads.station, busy]
  rcases settleView (s.port i) b reply with ⟨book,core⟩ | ⟨alloc,err,queued⟩
  · refine shows here book ?_ (.settle t b called)
    rw [stationSetTurn, stationSetPort, here]
    exact congrArg (fun k => Station.mk k (s.op i) (some {t with called := none}) (s.filled i)) core
  · refine shows here rfl ?_ (.recycle t b called alloc queued)
    rw [stationSetTurn, stationSetPort, here]
    rfl

theorem prepareBeginShows {vz : Option Nat} {h err} (free : s.op i = .idle)
    (block : ∀ base, vz = some base → 0 < base) (ran : prepareBegin s.host i vz = (h,err)) :
    Shows (Local w Q) i s ((s.withHost h).setOp i (if err.isNone then .preparing else .idle)) := by
  obtain ⟨_,cntrl,view⟩ := prepareBeginView ran
  have here : s.station i = ⟨(s.chan i).core,.idle,s.turn i,s.filled i⟩ := by rw [Threads.station, free]
  have book := congrArg Cntrl.book cntrl
  rcases view with ⟨⟨e,rfl⟩,core⟩ | ⟨off,⟨failed,own,core⟩ | ⟨rfl,alien,core⟩ | ⟨rfl,own,masked,base,rfl,core⟩⟩
  · refine .inl ⟨book,?_⟩
    rw [stationSetOp, stationWithHost, here, core]
    rfl
  · refine shows here book ?_ (.calm (.phase (.noMemory own off)))
    rw [stationSetOp, stationWithHost, here, core, Option.isNone_eq_false_iff.mpr failed]
    rfl
  · refine shows here book ?_ (.calm (.phase (.offload alien off)))
    rw [stationSetOp, stationWithHost, here, core]
    rfl
  · refine shows here book ?_ (.init base (block base rfl) own off masked)
    rw [stationSetOp, stationWithHost, here, core]
    rfl

theorem prepareSendShows {h err} (stands : s.op i = .preparing) (ran : prepareSend s.host i = (h,err)) :
    Shows (Calm w Q) i s ((s.withHost h).setOp i (if err.isNone then .starting else .idle)) := by
  have here : s.station i = ⟨(s.chan i).core,.preparing,s.turn i,s.filled i⟩ := by rw [Threads.station, stands]
  obtain ⟨_,book,⟨rfl,core⟩ | ⟨failed,core⟩⟩ := prepareSendView ran
  · refine shows here book ?_ (.phase .sent)
    rw [stationSetOp, stationWithHost, here, core]
    rfl
  · refine shows here book ?_ (.phase (.abandoned (.inl rfl)))
    rw [stationSetOp, stationWithHost, here, core, Option.isNone_eq_false_iff.mpr failed]
    rfl

theorem prepareFinishShows {inTime : Bool} {reply h err} (stands : s.op i = .starting)
    (ran : prepareFinish (s.host.setChan i (waitForCompletion (s.chan i) inTime).1) i
      (waitForCompletion (s.chan i) inTime).2 reply = (h,err)) :
    Shows (Local w Q) i s ((s.withHost h).setOp i (prepareOutcome (waitForCompletion (s.chan i) inTime) err)) := by
  have here : s.station i = ⟨(s.chan i).core,.starting,s.turn i,s.filled i⟩ := by rw [Threads.station, stands]
  have waited := waitCore (s.chan i) inTime
  have tre : (waitForCompletion (s.chan i) inTime).1.treRing = (s.chan i).core.tre := congrArg Core.tre waited
  have alloc : (waitForCompletion (s.chan i) inTime).1.preAlloc = (s.chan i).core.preAlloc :=
    congrArg Core.preAlloc waited
  obtain ⟨_,book,view⟩ := prepareFinishView ran
  rw [setChanSelf, waited, tre, alloc] at view
  rcases view with ⟨silent,failed,core⟩ | ⟨answered,⟨client,rfl,core⟩ | ⟨filled,n,few,⟨rfl,core⟩ | ⟨failed,core⟩⟩⟩
  · refine shows here book ?_ (.calm (.phase (.abandoned (.inr rfl))))
    rw [stationSetOp, stationWithHost, here, core, prepareOutcome, if_pos silent]
  · refine shows here book ?_ (.enable client)
    rw [stationSetOp, stationWithHost, here, core, prepareOutcome, answered]
    rfl
  · refine shows here book ?_ (.prefill n few filled)
    rw [stationSetOp, stationWithHost, here, core, prepareOutcome, answered]
    rfl
  · refine shows here book ?_ (.runOut n few filled)
    rw [stationSetOp, stationWithHost, here, core, prepareOutcome, answered, failed]
    rfl

theorem unprepareBeginShows {h out} (free : s.op i = .idle ∨ s.op i = .unfilled) (unlocked : s.turn i = none)
    (ran : unprepareBegin s.host i = (h,out)) :
    Shows (Calm w Q) i s ((s.withHost h).setOp i (unprepareOutcome (s.op i) out)) := by
  have here : s.station i = ⟨(s.chan i).core,s.op i,none,s.filled i⟩ := by rw [Threads.station, unlocked]
  obtain ⟨_,book,⟨rfl,core⟩ | ⟨going,on,core⟩⟩ := unprepareBeginView ran
  · refine .inl ⟨book,?_⟩
    rw [stationSetOp, stationWithHost, here, core]
    rfl
  · have stopping : ∃ x, unprepareOutcome (s.op i) out = .stopping x := by
      cases out with
      | refused => exact absurd rfl going
      | failed => exact ⟨false,rfl⟩
      | waiting => exact ⟨true,rfl⟩
    obtain ⟨x,outcome⟩ := stopping
    refine shows here book ?_ (.phase (.stop (x := x) free on rfl))
    rw [stationSetOp, stationWithHost, here, core, outcome]
    rfl

theorem unprepareResetShows {waits inTime : Bool} {h o} (stands : s.op i = .stopping waits)
    (ran : enterReset (stopWaiting s.host i waits inTime) i .unprepare = some (h,o)) :
    Shows (Calm w Q) i s ((s.withHost h).setOp i o) := by
  have here : s.station i = ⟨(s.chan i).core,.stopping waits,s.turn i,s.filled i⟩ := by rw [Threads.station, stands]
  obtain ⟨_,cntrl,core⟩ := stopWaitingView s.host i waits inTime
  obtain ⟨_,chans,cntrl',outcome⟩ := enterResetView ran
  have book : h.cntrl.book = s.host.cntrl.book := by rw [cntrl', cntrl]
  have offload : ((stopWaiting s.host i waits inTime).chans i).offloadCh = (s.chan i).core.offloadCh :=
    congrArg Core.offloadCh core
  rw [offload] at outcome
  rcases outcome with ⟨alien,rfl⟩ | ⟨own,rfl⟩
  · refine shows here book ?_ (.phase (.skip alien))
    rw [stationSetOp, stationWithHost, here, chans, core]
    rfl
  · refine shows here book ?_ (.phase (.reset own))
    rw [stationSetOp, stationWithHost, here, chans, core]
    rfl

theorem removeBeginShows {h o} (free : s.op i = .idle ∨ s.op i = .unfilled) (unlocked : s.turn i = none)
    (ran : enterReset (removeSuspend s.host i) i (.remove (s.chan i).chState) = some (h,o)) :
    Shows (Calm w Q) i s ((s.withHost h).setOp i o) := by
  have here : s.station i = ⟨(s.chan i).core,s.op i,none,s.filled i⟩ := by rw [Threads.station, unlocked]
  obtain ⟨_,chans,cntrl,outcome⟩ := enterResetView ran
  have core : (h.chans i).core = {(s.chan i).core with chState := .suspended} := by
    rw [chans, removeSuspend, setChanSelf]
    rfl
  have offload : ((removeSuspend s.host i).chans i).offloadCh = (s.chan i).core.offloadCh := by
    rw [removeSuspend, setChanSelf]
    rfl
  rw [offload] at outcome
  rcases outcome with ⟨alien,rfl⟩ | ⟨own,rfl⟩
  · refine shows here (congrArg Cntrl.book cntrl) ?_ (.phase (.detach free rfl alien))
    rw [stationSetOp, stationWithHost, here, core]
    rfl
  · refine shows here (congrArg Cntrl.book cntrl) ?_ (.phase (.suspend free rfl own))
    rw [stationSetOp, stationWithHost, here, core]
    rfl

theorem removeDeinitShows {found : ChState} (stands : s.op i = .emptied (.remove found)) :
    Shows (Calm w Q) i s ((s.withHost (removeDeinit s.host i found)).setOp i .idle) := by
  have here : s.station i = ⟨(s.chan i).core,.emptied (.remove found),s.turn i,s.filled i⟩ := by
    rw [Threads.station, stands]
  have core : ((removeDeinit s.host i found).chans i).core =
      {(if found = .enabled then (s.chan i).core.released else (s.chan i).core) with chState := .disabled} := by
    rw [removeDeinit, setChanSelf]
    split
    · rw [← deinitOwnedCore]
      rfl
    · rfl
  refine shows here rfl ?_ (.phase .removed)
  rw [stationSetOp, stationWithHost, here, core]

end Simulation

section Moves
variable {w : Nat → Window} {Q : Station → Prop} {i : Nat} {s s' : Threads}

theorem quietShows (step : QuietStep w Q i s s') : Shows (Calm (w i) Q) i s s' := by
  cases step with
  | fill buf len flags reply allowed ran => exact fillShows allowed ran
  | event ev unlocked code named => exact eventShows unlocked named
  | take t busy called more =>
    have here : s.station i = ⟨(s.chan i).core,s.op i,some t,s.filled i⟩ := by rw [Threads.station, busy]
    refine shows here rfl ?_ (.take t (s.chan i).bufRing.rp called more)
    rw [stationSetTurn, stationSetPort, here]
    rfl
  | leave t busy called done =>
    have here : s.station i = ⟨(s.chan i).core,s.op i,some t,s.filled i⟩ := by rw [Threads.station, busy]
    refine shows here rfl ?_ (.leave t called)
    rw [stationSetTurn, here]
  | prepareSend stands ran => exact prepareSendShows stands ran
  | unprepareBegin free unlocked ran => exact unprepareBeginShows free unlocked ran
  | unprepareReset waits inTime stands ran => exact unprepareResetShows stands ran
  | resetTurn r stands more =>
    have here : s.station i = ⟨(s.chan i).core,.resetting r,s.turn i,s.filled i⟩ := by rw [Threads.station, stands]
    obtain ⟨book,core⟩ := resetOneView (s.port i)
    refine shows here book ?_ (.resetTurn more)
    rw [stationSetPort, here, core]
    rfl
  | resetEnd r stands done =>
    have here : s.station i = ⟨(s.chan i).core,.resetting r,s.turn i,s.filled i⟩ := by rw [Threads.station, stands]
    refine shows here rfl ?_ (.phase (.emptied done))
    rw [stationSetOp, here]
  | unprepareDeinit stands =>
    have here : s.station i = ⟨(s.chan i).core,.emptied .unprepare,s.turn i,s.filled i⟩ := by
      rw [Threads.station, stands]
    refine shows here rfl ?_ (.phase .deinit)
    rw [stationSetOp, stationWithHost, here, setChanSelf]
    rfl
  | removeWake =>
    refine .inl ⟨rfl,?_⟩
    rw [stationWithHost, removeWakeCore]
    rfl
  | removeBegin free unlocked ran => exact removeBeginShows free unlocked ran
  | removeDeinit found stands => exact removeDeinitShows stands

theorem chanShows (step : ChanStep w Q i s s') : Shows (Local (w i) Q) i s s' := by
  cases step with
  | quiet step => exact (quietShows step).imp_right .calm
  | queue q allowed locked => exact shows rfl rfl (stationSetPort _ _ _) (.queue allowed (queueView (s.port i) q))
  | finish buf part => exact finishShows part
  | doorbell ev unlocked code ran => exact doorbellShows unlocked code ran
  | settle b t reply busy called => exact settleShows busy called
  | prepareBegin vz free block ran => exact prepareBeginShows free (fun base same => (block base same).1) ran
  | prepareFinish inTime reply stands ran => exact prepareFinishShows stands ran

theorem quietBeside (step : QuietStep w Q i s s') : Beside i s s' := by
  cases step with
  | fill buf len flags reply allowed ran => exact (Beside.setPort _).setFilled _
  | event ev unlocked code named => exact (Beside.refl i s).setTurn _
  | take t busy called more => exact (Beside.setPort _).setTurn _
  | leave t busy called done => exact (Beside.refl i s).setTurn _
  | prepareSend stands ran => exact (Beside.withHost (prepareSendView ran).1).setOp _
  | unprepareBegin free unlocked ran => exact (Beside.withHost (unprepareBeginView ran).1).setOp _
  | unprepareReset waits inTime stands ran =>
    obtain ⟨maxChan,chans,_⟩ := enterResetView ran
    have touched := (stopWaitingView s.host i waits inTime).1
    exact (Beside.withHost (touched.trans ⟨maxChan,fun j _ => congrFun chans j⟩)).setOp _
  | resetTurn r stands more => exact .setPort _
  | resetEnd r stands done => exact (Beside.refl i s).setOp _
  | unprepareDeinit stands => exact (Beside.withHost (.setChan i s.host _)).setOp _
  | removeWake => exact .withHost (.setChan i s.host _)
  | removeBegin free unlocked ran =>
    obtain ⟨maxChan,chans,_⟩ := enterResetView ran
    have touched : Touches i s.host (removeSuspend s.host i) := .setChan i s.host _
    exact (Beside.withHost (touched.trans ⟨maxChan,fun j _ => congrFun chans j⟩)).setOp _
  | removeDeinit found stands => exact (Beside.withHost (.setChan i s.host _)).setOp _

theorem chanBeside (step : ChanStep w Q i s s') : Beside i s s' := by
  cases step with
  | quiet step => exact quietBeside step
  | queue q allowed locked => exact .setPort _
  | finish buf part => exact (Beside.setPort _).setFilled _
  | doorbell ev unlocked code ran => exact .setPort _
  | settle b t reply busy called => exact (Beside.setPort _).setTurn _
  | prepareBegin vz free block ran => exact (Beside.withHost (prepareBeginView ran).1).setOp _
  | prepareFinish inTime reply stands ran =>
    exact (Beside.withHost ((Touches.setChan i s.host _).trans (prepareFinishView ran).1)).setOp _

theorem chanMoves (known : i < s.host.maxChan) (step : ChanStep w Q i s s') :
    s'.view = s.view ∨ Move w Q s.host.maxChan s.view s'.view := by
  have view := (chanBeside step).view
  rcases chanShows step with ⟨book,station⟩ | moved
  · left
    rw [view, book, station]
    simp [Threads.view]
  · right
    rw [view]
    exact .here i known rfl moved

theorem m0Moves : (s.withHost (mhiPmM0Transition s.host).1).view = s.view ∨
    Move w Q s.host.maxChan s.view (s.withHost (mhiPmM0Transition s.host).1).view := by
  obtain ⟨_,⟨reached,book,cores⟩ | ⟨book,chans⟩⟩ := m0View s.host
  · right
    have view : (s.withHost (mhiPmM0Transition s.host).1).view = {s.view with
        book := {s.view.book with pm := .m0}
        station := fun i => if i < s.host.maxChan then
          {s.view.station i with core := (s.view.station i).core.onM0} else s.view.station i} := by
      simp only [Threads.view,Threads.withHost,book]
      congr 1
      funext j
      simp only [Threads.station,Threads.chan,cores j]
      split <;> rfl
    rw [view]
    exact .m0 reached
  · exact .inl (hostSilent book (fun j => by rw [chans]))

theorem suspendEnterMoves {h err} (ran : suspendEnter s.host = (h,err)) :
    Threads.view {s with host := h, entered := if err.isNone then h.cntrl.resumes else s.entered} = s.view ∨
      Drift s.view (Threads.view {s with host := h, entered := if err.isNone then h.cntrl.resumes else s.entered}) := by
  obtain ⟨_,chans,⟨book,failed⟩ | ⟨rfl,quiet,reached,book⟩⟩ := suspendEnterView ran
  · left
    rw [Option.isNone_eq_false_iff.mpr failed]
    exact hostSilent book (fun j => by rw [chans])
  · right
    have resumes : h.cntrl.resumes = s.host.cntrl.book.resumes := congrArg Book.resumes book
    have view : Threads.view {s with host := h, entered := if Option.isNone (none : Option Errno) then
        h.cntrl.resumes else s.entered} =
        {s.view with book := {s.view.book with pm := .m3Enter}, entered := s.view.book.resumes} := by
      simp only [Threads.view,book,resumes,Option.isNone_none,if_true]
      congr 1
      funext j
      simp only [Threads.station,Threads.chan,chans]
    rw [view]
    exact .enter reached quiet

theorem hostMoves (step : HostStep s s') :
    s'.host.maxChan = s.host.maxChan ∧ (s'.view = s.view ∨ Drift s.view s'.view) := by
  cases step with
  | cmdCompletion ev => exact ⟨rfl,.inl (hostSilent rfl (completionCore s.host ev))⟩
  | m1 =>
    obtain ⟨maxChan,chans,book⟩ := m1View s.host
    exact ⟨maxChan,hostDrift .m2 book chans (.inl rfl)⟩
  | m3 => exact ⟨rfl,hostDrift .m3 rfl rfl (.inr (.inl rfl))⟩
  | suspendBegin =>
    obtain ⟨maxChan,chans,book⟩ := suspendBeginView s.host
    exact ⟨maxChan,.inl (hostSilent book (fun j => by rw [chans]))⟩
  | suspendAwake inTime => exact ⟨rfl,.inl (hostSilent (deassertBook _ _) (fun _ => rfl))⟩
  | suspendEnter ran => exact ⟨(suspendEnterView ran).1,suspendEnterMoves ran⟩
  | resume =>
    obtain ⟨maxChan,chans,book | book⟩ := resumeBeginView s.host
    · exact ⟨maxChan,.inl (hostSilent book (fun j => by rw [chans]))⟩
    · exact ⟨maxChan,hostDrift .m3Exit book chans (.inr (.inr (.inl rfl)))⟩
  | trouble state bad => exact ⟨rfl,hostDrift state rfl rfl (.inr (.inr (.inr bad)))⟩
  | wake force => exact ⟨rfl,.inl (hostSilent (assertBook _ _) (fun _ => rfl))⟩
  | release override => exact ⟨rfl,.inl (hostSilent (deassertBook _ _) (fun _ => rfl))⟩
  | execEnv ee => exact ⟨rfl,.inl (hostSilent rfl (fun _ => rfl))⟩
  | eventRings events => exact ⟨rfl,.inl (hostSilent rfl (fun _ => rfl))⟩

theorem stepMoves (step : Step w Q s s') :
    s'.host.maxChan = s.host.maxChan ∧ (s'.view = s.view ∨ Move w Q s.host.maxChan s.view s'.view) := by
  cases step with
  | chan i known step => exact ⟨(chanBeside step).host.maxChan,chanMoves known step⟩
  | m0 => exact ⟨(m0View s.host).1,m0Moves⟩
  | host step => exact ⟨(hostMoves step).1,(hostMoves step).2.imp_right .drift⟩
end Moves

end MhiHost
