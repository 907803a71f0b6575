import MhiHost.Stations
import MhiHost.Runs

/-! What holds of every channel at any point of any interleaving: its transfer ring
is a window between two counters as soon as its context exists, a running completion
ends between them, and the phases of the mutex holder agree with the channel state. -/
namespace MhiHost
open Cyclic (Window)

def Level (w : Window) (k : Core) (t : Option Turn) : Prop :=
  w.size = sizeofMhiTre ∧ k.offloadCh = false ∧ ∃ h n, k.tre.Holds w h n ∧ ∀ u, t = some u → ∃ d, h ≤ d ∧ d ≤ n ∧
    u.devRp = w.slot d

structure Sound (w : Window) (st : Station) : Prop where
  config : st.core.preAlloc = true → st.core.dir ≠ .toDevice ∧ st.core.offloadCh = false
  laid : st.core.eeMask ≠ 0 → st.core.offloadCh = false → w.size = sizeofMhiTre ∧ st.core.tre.Over w
  level : (st.core.bufBase = 0 ∧ st.core.tre.rp = st.core.tre.wp ∧ st.turn = none) ∨ Level w st.core st.turn
  live : st.core.offloadCh = false → st.core.chState = .enabled ∨ st.op = .preparing ∨ st.op = .starting →
    st.core.bufBase ≠ 0
  off : st.op ≠ .idle → st.op ≠ .unfilled → st.core.chState ≠ .enabled
  locked : st.turn ≠ none → st.core.chState = .enabled

structure Kin (w : Window) (k k' : Core) : Prop where
  bufBase : k'.bufBase = k.bufBase
  dir : k'.dir = k.dir
  eeMask : k'.eeMask = k.eeMask
  preAlloc : k'.preAlloc = k.preAlloc
  offloadCh : k'.offloadCh = k.offloadCh
  chState : k'.chState = k.chState
  spans : k.tre.Over w → k'.tre.Over w

namespace Kin
variable {w : Window}

theorem refl (k : Core) : Kin w k k := ⟨rfl,rfl,rfl,rfl,rfl,rfl,id⟩
theorem trans {k mid k' : Core} (first : Kin w k mid) (second : Kin w mid k') : Kin w k k' :=
  ⟨second.bufBase.trans first.bufBase,second.dir.trans first.dir,second.eeMask.trans first.eeMask,
    second.preAlloc.trans first.preAlloc,second.offloadCh.trans first.offloadCh,second.chState.trans first.chState,
    fun spans => second.spans (first.spans spans)⟩
theorem push (k : Core) : Kin w k k.push :=
  ⟨rfl,rfl,rfl,rfl,rfl,rfl,fun spans => spans.moved k.tre.rp _ k.tre.ctxtWp k.tre.dbAddr⟩
theorem pop (k : Core) : Kin w k k.pop := ⟨rfl,rfl,rfl,rfl,rfl,rfl,fun spans => spans.moved _ k.tre.wp k.tre.ctxtWp k.tre.dbAddr⟩
theorem rearm (k : Core) : Kin w k k.rearm := ⟨rfl,rfl,rfl,rfl,rfl,rfl,id⟩
theorem bell (k : Core) : Kin w k k.bell := ⟨rfl,rfl,rfl,rfl,rfl,rfl,fun spans => spans.moved k.tre.rp k.tre.wp _ k.tre.dbAddr⟩
theorem bellIf (b : Book) (k : Core) : Kin w k (k.bellIf b) := by
  unfold Core.bellIf
  split
  · exact bell k
  · exact refl k
theorem pushes (n : Nat) (k : Core) : Kin w k (k.pushes n) := by
  induction n generalizing k with
  | zero => exact refl k
  | succ n ih => exact (push k).trans (ih k.push)
theorem dbMode (b : Book) (k : Core) : Kin w k (k.dbMode b) := by
  unfold Core.dbMode
  split
  · exact (rearm k).trans (bellIf b k.rearm)
  · exact rearm k
theorem armed (k : Core) : Kin w k k.armed := by
  unfold Core.armed
  split
  · exact rearm k
  · exact refl k
theorem onM0 (k : Core) : Kin w k k.onM0 := by
  unfold Core.onM0
  split
  · exact (armed k).trans (bell k.armed)
  · exact armed k
theorem queued {b err b' k k'} (queued : Queued b k err b' k') : Kin w k k' := by
  cases queued with
  | refused => exact refl k
  | unmapped => exact refl k
  | placed free => exact (push k).trans (bellIf b k.push)
end Kin

section Levels
variable {w : Window} {k : Core} {t : Option Turn}

theorem levelOf {k' : Core} {t' : Option Turn} (level : Level w k t) (tre : k'.tre = k.tre)
    (same : k'.offloadCh = k.offloadCh)
    (turn : ∀ u', t' = some u' → ∃ u, t = some u ∧ u.devRp = u'.devRp) : Level w k' t' := by
  obtain ⟨tres,own,h,n,held,goal⟩ := level
  refine ⟨tres,same.trans own,h,n,tre ▸ held,fun u' some => ?_⟩
  obtain ⟨u,same,devRp⟩ := turn u' some
  rw [← devRp]
  exact goal u same

theorem levelBell {b : Book} (level : Level w k t) : Level w (k.bellIf b) t := by
  obtain ⟨tres,own,h,n,held,goal⟩ := level
  obtain ⟨db,tre⟩ := k.bellIfTre b
  exact ⟨tres,by simpa using own,h,n,by rw [tre]; exact held.rung db,goal⟩

theorem levelPush (level : Level w k t) (free : mhiIsRingFull k.tre = false) : Level w k.push t := by
  obtain ⟨tres,own,h,n,held,goal⟩ := level
  refine ⟨tres,own,h,n + 1,Ring.addHolds held (Ring.spaceOf held free),fun u some => ?_⟩
  obtain ⟨d,low,high,same⟩ := goal u some
  exact ⟨d,low,by omega,same⟩

theorem levelPushes {m : Nat} (level : Level w k t) (few : m ≤ (getNrAvailRingElements k.tre).toNat) :
    Level w (k.pushes m) t := by
  obtain ⟨tres,own,h,n,held,goal⟩ := level
  rw [Ring.availOf held, Int.toNat_natCast] at few
  have pushed : ∀ (m : Nat) (k : Core) (n : Nat), k.tre.Holds w h n → n + m < h + w.count →
      (k.pushes m).tre.Holds w h (n + m) := by
    intro m
    induction m with
    | zero => exact fun _ _ held _ => held
    | succ m ih =>
      intro k n held space
      have next := ih k.push (n + 1) (Ring.addHolds held (by omega)) (by omega)
      rwa [Nat.add_right_comm] at next
  have room := held.room
  refine ⟨tres,(Kin.pushes (w := w) m k).offloadCh.trans own,h,n + m,pushed m k n held (by omega),fun u some => ?_⟩
  obtain ⟨d,low,high,same⟩ := goal u some
  exact ⟨d,low,by omega,same⟩

theorem levelTake {u : Turn} (u' : Turn) (level : Level w k (some u)) (more : k.tre.rp ≠ u.devRp)
    (same : u'.devRp = u.devRp) : Level w k.pop (some u') ∧ k.tre.rp ≠ k.tre.wp := by
  obtain ⟨tres,own,h,n,held,goal⟩ := level
  obtain ⟨d,low,high,devRp⟩ := goal u rfl
  have behind : h ≠ d := by
    intro equal
    rw [held.rp, devRp, equal] at more
    exact more rfl
  refine ⟨⟨tres,own,h + 1,n,Ring.delHolds held (by omega),fun v some => ?_⟩,fun empty => ?_⟩
  · cases some
    exact ⟨d,by omega,high,same.trans devRp⟩
  · have := (Ring.emptyIff held).mp empty
    omega

theorem levelDrain (level : Level w k none) (more : k.tre.rp ≠ k.tre.wp) : Level w k.pop none := by
  obtain ⟨tres,own,h,n,held,_⟩ := level
  have ordered := held.ordered
  have filled : h ≠ n := fun same => more ((Ring.emptyIff held).mpr same)
  exact ⟨tres,own,h + 1,n,Ring.delHolds held (by omega),fun _ some => nomatch some⟩

theorem levelFresh {base : Nat} (tres : w.size = sizeofMhiTre) (own : k.offloadCh = false) (spans : k.tre.Over w) :
    Level w (k.fresh base) none := by
  have counted := w.counted
  have start : k.tre.base = w.slot 0 := by simp [Window.slot,spans.base]
  refine ⟨tres,own,0,0,⟨spans.moved _ _ _ _,start,start,Nat.le_refl 0,by omega⟩,?_⟩
  intro _ some
  cases some

theorem levelRearm (level : Level w k t) : Level w k.rearm t := levelOf level rfl rfl (fun u some => ⟨u,some,rfl⟩)

end Levels

theorem levelQueued {w b err b' k k' t} (level : Level w k t) (queued : Queued b k err b' k') : Level w k' t := by
  cases queued with
  | refused => exact level
  | unmapped => exact level
  | placed free => exact levelBell (levelPush level free)

theorem levelDbMode {w k t} (b : Book) (level : Level w k t) : Level w (k.dbMode b) t := by
  unfold Core.dbMode
  split
  · exact levelBell (levelRearm level)
  · exact levelRearm level

theorem levelOnM0 {w k t} (level : Level w k t) : Level w k.onM0 t := by
  have armed : Level w k.armed t := by
    unfold Core.armed
    split
    · exact levelRearm level
    · exact level
  unfold Core.onM0
  split
  · obtain ⟨tres,own,h,n,held,goal⟩ := armed
    exact ⟨tres,own,h,n,held.rung _,goal⟩
  · exact armed

theorem dbModePointers (b : Book) (k : Core) : (k.dbMode b).tre.rp = k.tre.rp ∧ (k.dbMode b).tre.wp = k.tre.wp := by
  unfold Core.dbMode
  split
  · simp [Core.rearm]
  · exact ⟨rfl,rfl⟩

theorem onM0Pointers (k : Core) : k.onM0.tre.rp = k.tre.rp ∧ k.onM0.tre.wp = k.tre.wp := by
  have armed : k.armed.tre = k.tre := by unfold Core.armed; split <;> rfl
  unfold Core.onM0
  split
  · exact ⟨(congrArg Ring.rp armed : k.armed.tre.rp = _),(congrArg Ring.wp armed : k.armed.tre.wp = _)⟩
  · exact ⟨congrArg Ring.rp armed,congrArg Ring.wp armed⟩

namespace Sound
variable {w : Window} {k : Core} {o : ChanOp} {t : Option Turn} {f : List Nat}

theorem reshape {k' t' f'} (sound : Sound w ⟨k,o,t,f⟩) (kin : Kin w k k')
    (level : (k'.bufBase = 0 ∧ k'.tre.rp = k'.tre.wp ∧ t' = none) ∨ Level w k' t')
    (turn : t' ≠ none → k.chState = .enabled) : Sound w ⟨k',o,t',f'⟩ where
  config := by
    simp only [kin.preAlloc,kin.dir,kin.offloadCh]
    exact sound.config
  laid := by
    simp only [kin.eeMask,kin.offloadCh]
    intro masked own
    exact ⟨(sound.laid masked own).1,kin.spans (sound.laid masked own).2⟩
  level := level
  live := by
    simp only [kin.offloadCh,kin.chState,kin.bufBase]
    exact sound.live
  off := by
    simp only [kin.chState]
    exact sound.off
  locked := fun busy => kin.chState.trans (turn busy)

theorem held (sound : Sound w ⟨k,o,t,f⟩) (live : k.bufBase ≠ 0) : Level w k t :=
  sound.level.resolve_left (fun idle => live idle.1)

theorem loaded (sound : Sound w ⟨k,o,t,f⟩) (more : k.tre.rp ≠ k.tre.wp) : Level w k t :=
  sound.level.resolve_left (fun idle => more idle.2.1)

theorem busy {u : Turn} (sound : Sound w ⟨k,o,some u,f⟩) : Level w k (some u) :=
  sound.level.resolve_left (fun idle => nomatch idle.2.2)

theorem alien (sound : Sound w ⟨k,o,t,f⟩) (alien : k.offloadCh = true) :
    k.bufBase = 0 ∧ k.tre.rp = k.tre.wp ∧ t = none := by
  refine sound.level.resolve_right fun level => ?_
  have own : k.offloadCh = false := level.2.1
  rw [own] at alien
  cases alien

theorem unlocked (sound : Sound w ⟨k,o,t,f⟩) (off : k.chState ≠ .enabled) : t = none := by
  cases t with
  | none => rfl
  | some u => exact absurd (sound.locked (by simp)) off

end Sound

namespace Sound
variable {w : Window} {k : Core} {o : ChanOp} {t : Option Turn} {f : List Nat}

theorem shift (sound : Sound w ⟨k,o,t,f⟩) (off : k.chState ≠ .enabled) (o' : ChanOp)
    (owned : k.offloadCh = false → o' = .preparing ∨ o' = .starting → o = .preparing ∨ o = .starting) :
    Sound w ⟨k,o',t,f⟩ where
  config := sound.config
  laid := sound.laid
  level := sound.level
  live := fun own stands => sound.live own (by
    rcases stands with on | stands
    · exact .inl on
    · exact .inr (owned own stands))
  off := fun _ _ => off
  locked := sound.locked

theorem freed (sound : Sound w ⟨k,o,t,f⟩) (off : k.chState ≠ .enabled) : Sound w ⟨{k with bufBase := 0},.idle,t,f⟩ where
  config := sound.config
  laid := sound.laid
  level := by
    rcases sound.level with rest | level
    · exact .inl ⟨rfl,rest.2⟩
    · exact .inr (levelOf level rfl rfl (fun u some => ⟨u,some,rfl⟩))
  live := fun _ stands => by
    rcases stands with on | idle | idle
    · exact absurd on off
    · cases idle
    · cases idle
  off := fun _ _ => off
  locked := sound.locked

theorem released (sound : Sound w ⟨k,o,t,f⟩) (off : k.chState ≠ .enabled) : Sound w ⟨k.released,.idle,t,f⟩ := by
  unfold Core.released
  split
  · exact sound.shift off .idle (by simp)
  · exact sound.freed off

theorem restate (sound : Sound w ⟨k,o,t,f⟩) (unlocked : t = none) {state : ChState} (off : state ≠ .enabled) :
    Sound w ⟨{k with chState := state},o,t,f⟩ where
  config := sound.config
  laid := sound.laid
  level := by
    rcases sound.level with rest | level
    · exact .inl rest
    · exact .inr (levelOf level rfl rfl (fun u some => ⟨u,some,rfl⟩))
  live := fun own stands => by
    rcases stands with on | stands
    · exact absurd on off
    · exact sound.live own (.inr stands)
  off := fun _ _ => off
  locked := fun busy => absurd unlocked busy

theorem enable (sound : Sound w ⟨k,.starting,t,f⟩) {o' : ChanOp} (free : o' = .idle ∨ o' = .unfilled) :
    Sound w ⟨k.enable,o',t,f⟩ where
  config := sound.config
  laid := sound.laid
  level := by
    rcases sound.level with rest | level
    · exact .inl rest
    · exact .inr (levelOf level rfl rfl (fun u some => ⟨u,some,rfl⟩))
  live := fun own _ => sound.live own (.inr (.inr rfl))
  off := fun busy stuck => by
    rcases free with rfl | rfl
    · exact absurd rfl busy
    · exact absurd rfl stuck
  locked := fun _ => rfl

end Sound

section Preservation
variable {w : Window} {Q : Station → Prop} {b b' : Book} {st st' : Station}

theorem soundPhase {t f k o k' o'} (moved : Phase t k o k' o') (sound : Sound w ⟨k,o,t,f⟩) :
    Sound w ⟨k',o',t,f⟩ := by
  cases moved with
  | offload alien idle => exact sound.shift (by simp [idle]) _ (by simp [alien])
  | noMemory own idle => exact sound.freed (by simp [idle])
  | sent => exact sound.shift (sound.off (by simp) (by simp)) _ (fun _ _ => .inl rfl)
  | abandoned stands =>
    have off : k.chState ≠ .enabled := by
      rcases stands with rfl | rfl <;> exact sound.off (by simp) (by simp)
    exact sound.released off
  | stop free on unlocked => exact (sound.restate unlocked (by simp)).shift (by simp) _ (by simp)
  | reset own => exact sound.shift (sound.off (by simp) (by simp)) _ (by simp)
  | skip alien => exact sound.shift (sound.off (by simp) (by simp)) _ (by simp)
  | emptied done => exact sound.shift (sound.off (by simp) (by simp)) _ (by simp)
  | deinit => exact sound.freed (sound.off (by simp) (by simp))
  | suspend free unlocked own => exact (sound.restate unlocked (by simp)).shift (by simp) _ (by simp)
  | detach free unlocked alien => exact (sound.restate unlocked (by simp)).shift (by simp) _ (by simp)
  | removed =>
    have off : k.chState ≠ .enabled := sound.off (by simp) (by simp)
    split
    · exact (sound.released off).restate (sound.unlocked off) (by simp)
    · exact (sound.shift off .idle (by simp)).restate (sound.unlocked off) (by simp)

theorem soundPrefill {k t f n o} (free : o = .idle ∨ o = .unfilled)
    (few : n ≤ (getNrAvailRingElements k.tre).toNat) (core : k.preAlloc = true) (sound : Sound w ⟨k,.starting,t,f⟩) :
    Level w (k.enable.pushes n) t ∧ Sound w ⟨k.enable.pushes n,o,t,f⟩ := by
  have on : Sound w ⟨k.enable,o,t,f⟩ := sound.enable free
  have level := on.held (on.live (sound.config core).2 (.inl rfl))
  have pushed : Level w (k.enable.pushes n) t := levelPushes level few
  exact ⟨pushed,on.reshape (.pushes n _) (.inr pushed) on.locked⟩

/- `Q` permits queue calls only where the channel's context exists. -/
theorem soundCalm (permits : ∀ st, Q st → Sound w st → st.core.bufBase ≠ 0) (moved : Calm w Q b st b' st')
    (sound : Sound w st) : Sound w st' := by
  cases moved with
  | fill buf allowed free =>
    have level := sound.held (permits _ allowed sound)
    exact sound.reshape (.push _) (.inr (levelPush level free)) sound.locked
  | event u on loaded uncalled goal =>
    obtain ⟨tres,own,h,n,held,_⟩ := sound.loaded loaded
    refine sound.reshape (.refl _) (.inr ⟨tres,own,h,n,held,fun v some => ?_⟩) (fun _ => on)
    cases some
    exact goal tres h n held
  | take u cell uncalled more =>
    exact sound.reshape (.pop _) (.inr (levelTake {u with called := some cell} sound.busy more rfl).1)
      (fun _ => sound.locked (by simp))
  | leave u uncalled =>
    refine sound.reshape (.refl _) (.inr ?_) (fun busy => absurd rfl busy)
    exact levelOf sound.busy rfl rfl (fun v some => nomatch some)
  | @resetTurn k r t f more =>
    have off : k.chState ≠ .enabled := sound.off (by simp) (by simp)
    have unlocked := sound.unlocked off
    subst unlocked
    exact sound.reshape (.pop _) (.inr (levelDrain (sound.loaded more) more)) sound.locked
  | phase moved => exact soundPhase moved sound

theorem soundLocal (permits : ∀ st, Q st → Sound w st → st.core.bufBase ≠ 0) (moved : Local w Q b st b' st')
    (sound : Sound w st) : Sound w st' := by
  cases moved with
  | calm moved => exact soundCalm permits moved sound
  | queue allowed queued =>
    have level := sound.held (permits _ allowed sound)
    exact sound.reshape (.queued queued) (.inr (levelQueued level queued)) sound.locked
  | @finish k o t f buf part =>
    refine sound.reshape (.bellIf b k) ?_ sound.locked
    rcases sound.level with rest | level
    · exact .inl (by simpa using rest)
    · exact .inr (levelBell level)
  | @doorbell k o f on =>
    obtain ⟨rp,wp⟩ := dbModePointers b k
    have kin := Kin.dbMode (w := w) b k
    refine sound.reshape kin ?_ sound.locked
    rcases sound.level with rest | level
    · exact .inl ⟨kin.bufBase.trans rest.1,(rp.trans rest.2.1).trans wp.symm,rfl⟩
    · exact .inr (levelDbMode b level)
  | settle u cell called =>
    refine sound.reshape (.refl _) (.inr ?_) (fun _ => sound.locked (by simp))
    exact levelOf sound.busy rfl rfl (fun v some => ⟨u,rfl,by cases some; rfl⟩)
  | recycle u cell called core queued =>
    refine sound.reshape (.queued queued) (.inr ?_) (fun _ => sound.locked (by simp))
    exact levelQueued (levelOf sound.busy rfl rfl (fun v some => ⟨u,rfl,by cases some; rfl⟩)) queued
  | @init k t f base block own off masked =>
    obtain ⟨tres,spans⟩ := sound.laid masked own
    have unlocked := sound.unlocked (f := f) (by simp [off])
    subst unlocked
    refine ⟨sound.config,fun _ _ => ⟨tres,spans.moved _ _ _ _⟩,.inr (levelFresh tres own spans),fun _ _ => ?_,fun _ _ => ?_,
      fun busy => absurd rfl busy⟩
    · exact Nat.pos_iff_ne_zero.mp block
    · simp [Core.fresh,Core.rearm,off]
  | enable client => exact sound.enable (.inl rfl)
  | @prefill k t f n few core =>
    obtain ⟨pushed,on⟩ := soundPrefill (.inl rfl) few core sound
    exact on.reshape (.bellIf b _) (.inr (levelBell pushed)) on.locked
  | runOut n few core => exact (soundPrefill (.inr rfl) few core sound).2

def draining : ChanOp → Bool
  | .stopping _ => true
  | .resetting _ => true
  | _ => false

def Quiet (st : Station) : Prop :=
  st.core.chState ≠ .enabled → draining st.op = false → st.core.tre.rp = st.core.tre.wp

theorem quietPhase {t f k o k' o'} (moved : Phase t k o k' o') (sound : Sound w ⟨k,o,t,f⟩) (quiet : Quiet ⟨k,o,t,f⟩) :
    Quiet ⟨k',o',t,f⟩ := by
  unfold Quiet at *
  rw [moved.still.1]
  cases moved with
  | offload alien off => exact fun _ _ => (sound.alien alien).2.1
  | noMemory own off => exact fun off _ => quiet off rfl
  | sent => exact fun off _ => quiet off rfl
  | abandoned stands => rcases stands with rfl | rfl <;> exact fun off _ => quiet (by simpa using off) rfl
  | stop free on unlocked => exact fun _ busy => nomatch busy
  | reset own => exact fun _ busy => nomatch busy
  | skip alien => exact fun _ _ => (sound.alien alien).2.1
  | emptied done => exact fun _ _ => done
  | deinit => exact fun off _ => quiet off rfl
  | suspend free unlocked own => exact fun _ busy => nomatch busy
  | detach free unlocked alien => exact fun _ _ => (sound.alien alien).2.1
  | removed => exact fun _ _ => quiet (sound.off (by simp) (by simp)) rfl

theorem quietOn (on : st.core.chState = .enabled) : Quiet st := fun off => absurd on off

theorem quietSame (quiet : Quiet st) (kin : Kin w st.core st'.core) (op : st'.op = st.op)
    (rp : st'.core.tre.rp = st.core.tre.rp) (wp : st'.core.tre.wp = st.core.tre.wp) : Quiet st' := by
  unfold Quiet
  rw [rp, wp, op, kin.chState]
  exact quiet

theorem quietCalm (permits : ∀ st, Q st → st.core.chState = .enabled ∨ draining st.op = true)
    (moved : Calm w Q b st b' st') (sound : Sound w st) (quiet : Quiet st) : Quiet st' := by
  cases moved with
  | fill buf allowed free =>
    rcases permits _ allowed with on | busy
    · exact quietOn on
    · exact fun _ idle => nomatch idle.symm.trans busy
  | event u on loaded uncalled goal => exact quietOn on
  | @take k o f u cell uncalled more =>
    have on : k.chState = .enabled := sound.locked (by simp)
    exact quietOn on
  | leave u uncalled => exact quietSame (w := w) quiet (.refl _) rfl rfl rfl
  | resetTurn more => exact fun _ busy => nomatch busy
  | phase moved => exact quietPhase moved sound quiet

theorem quietLocal (permits : ∀ st, Q st → st.core.chState = .enabled ∨ draining st.op = true)
    (moved : Local w Q b st b' st') (sound : Sound w st) (quiet : Quiet st) : Quiet st' := by
  cases moved with
  | calm moved => exact quietCalm permits moved sound quiet
  | queue allowed queued =>
    rcases permits _ allowed with on | busy
    · exact quietOn ((Kin.queued (w := w) queued).chState.trans on)
    · exact fun _ idle => nomatch idle.symm.trans busy
  | finish buf part => exact quietSame (w := w) quiet (.bellIf b _) rfl (by simp) (by simp)
  | @doorbell k o f on => exact quietOn ((Kin.dbMode (w := w) b k).chState.trans on)
  | settle u cell called => exact quietSame (w := w) quiet (.refl _) rfl rfl rfl
  | @recycle k o f err b' k' u cell called core queued =>
    have on : k.chState = .enabled := sound.locked (by simp)
    exact quietOn ((Kin.queued (w := w) queued).chState.trans on)
  | init base block own off masked => exact fun _ _ => rfl
  | enable client => exact quietOn rfl
  | @prefill k t f n few core => exact quietOn ((Kin.pushes (w := w) n k.enable).trans (.bellIf b _)).chState
  | @runOut k t f n few core => exact quietOn (Kin.pushes (w := w) n k.enable).chState

theorem localFixed (moved : Local w Q b st b' st') : st'.core.dir = st.core.dir ∧
    st'.core.preAlloc = st.core.preAlloc ∧ st'.core.offloadCh = st.core.offloadCh := by
  have kin : ∀ {k k' : Core}, Kin w k k' → k'.dir = k.dir ∧ k'.preAlloc = k.preAlloc ∧ k'.offloadCh = k.offloadCh :=
    fun kin => ⟨kin.dir,kin.preAlloc,kin.offloadCh⟩
  cases moved with
  | queue allowed queued => exact kin (.queued queued)
  | finish buf part => exact kin (.bellIf b _)
  | doorbell on => exact kin (.dbMode b _)
  | recycle u cell called core queued => exact kin (.queued queued)
  | @prefill k t f n few core => exact kin (k := k.enable) ((Kin.pushes n k.enable).trans (.bellIf b _))
  | @runOut k t f n few core => exact kin (k := k.enable) (Kin.pushes n k.enable)
  | calm moved =>
    cases moved with
    | phase moved => exact moved.still.2.2
    | _ => exact ⟨rfl,rfl,rfl⟩
  | _ => exact ⟨rfl,rfl,rfl⟩

end Preservation

section Runs
variable {w : Nat → Window} {Q : Station → Prop}

def AllSound (w : Nat → Window) (n : Nat) (v : View) : Prop := ∀ i < n, Sound (w i) (v.station i)

theorem soundMove {n v v'} (permits : ∀ i st, Q st → Sound (w i) st → st.core.bufBase ≠ 0)
    (moved : Move w Q n v v') (sound : AllSound w n v) : AllSound w n v' := by
  cases moved with
  | @here st b' st' i known stands moved =>
    intro j inside
    by_cases same : j = i
    · subst j
      simp only [Function.update_self]
      exact soundLocal (permits i) moved (stands ▸ sound i known)
    · simp only [Function.update_of_ne same]
      exact sound j inside
  | m0 reached =>
    intro j inside
    simp only [inside,if_true]
    obtain ⟨rp,wp⟩ := onM0Pointers (v.station j).core
    have kin := Kin.onM0 (w := w j) (v.station j).core
    refine (sound j inside).reshape kin ?_ (sound j inside).locked
    rcases (sound j inside).level with rest | level
    · exact .inl ⟨kin.bufBase.trans rest.1,(rp.trans rest.2.1).trans wp.symm,rest.2.2⟩
    · exact .inr (levelOnM0 level)
  | drift moved => cases moved <;> exact sound

theorem initCore {h : Host} {i : Nat} (lay : Layout) (parsed : Parsed h) (inside : i < h.maxChan) :
    let k := (initChan lay i (h.chans i)).core
    (k.preAlloc = true → k.dir ≠ .toDevice ∧ k.offloadCh = false) ∧ k.bufBase = 0 ∧ k.tre.rp = 0 ∧ k.tre.wp = 0 ∧
      k.chState = .disabled ∧ (k.eeMask ≠ 0 → (h.chans i).configured = true) ∧ k.offloadCh = (h.chans i).offloadCh ∧
      ((h.chans i).configured = true → (h.chans i).offloadCh = false →
        k.tre = {layRing (h.chans i).treRing (lay.chan i).host (lay.chan i).bus with dbAddr := lay.chanWp i}) := by
  rcases parsed i inside with zero | ⟨cfg,_,ok,once⟩
  · rw [zero]
    simp [initChan,Chan.zero,Chan.core,Ring.zero]
  · obtain ⟨chan,_,inbound⟩ := configuredChan ok
    rw [chan]
    cases alien : cfg.offloadChannel with
    | true => simp_all [initChan,chanOf,Chan.zero,Chan.core,Ring.zero]
    | false =>
      simp only [initChan,chanOf,Chan.zero,Chan.core,Ring.zero,alien,layRing]
      refine ⟨fun core => ⟨?_,rfl⟩,rfl,rfl,rfl,rfl,by simp,by simp,by simp⟩
      rw [inbound core]
      simp

theorem startIdle {h : Host} {i : Nat} (lay : Layout) (parsed : Parsed h) (inside : i < h.maxChan) :
    ((mhiInitDevCtxt h lay).chans i).treRing.rp = ((mhiInitDevCtxt h lay).chans i).treRing.wp := by
  have chan : (mhiInitDevCtxt h lay).chans i = initChan lay i (h.chans i) := if_pos inside
  obtain ⟨_,_,rp,wp,_⟩ := initCore lay parsed inside
  rw [chan]
  exact rp.trans wp.symm

theorem startSound {h : Host} {lay : Layout} (parsed : Parsed h) (laid : Laid w h lay) :
    AllSound w h.maxChan (Threads.start (mhiInitDevCtxt h lay)).view := by
  intro i inside
  have chan : (mhiInitDevCtxt h lay).chans i = initChan lay i (h.chans i) := if_pos inside
  have here : (Threads.start (mhiInitDevCtxt h lay)).view.station i =
      ⟨(initChan lay i (h.chans i)).core,.idle,none,[]⟩ := by
    rw [← chan]
    rfl
  rw [here]
  obtain ⟨config,bufBase,rp,wp,state,configured,offload,tre⟩ := initCore lay parsed inside
  refine ⟨config,fun masked own => ?_,.inl ⟨bufBase,rp.trans wp.symm,rfl⟩,fun _ stands => ?_,fun no => absurd rfl no,
    fun busy => absurd rfl busy⟩
  · obtain ⟨tres,spans⟩ := laid i inside (configured masked) (offload ▸ own)
    refine ⟨tres,?_⟩
    rw [tre (configured masked) (offload ▸ own)]
    exact spans.moved _ _ _ _
  · simp [state] at stands

end Runs

end MhiHost
