import MhiHost.Occupancy
import Mathlib.Algebra.BigOperators.Group.Finset.Piecewise
import Mathlib.Algebra.Order.BigOperators.Group.Finset

/-! `pending_pkts` mirrors the uplink rings. Between the ring and the count stand a
queue call that has filled its TRE and a completion whose callback runs; with these
two corrections the balance holds after every single step, for any number of
channels, and the sum changes at one channel at a time. -/
namespace MhiHost.Pending
open Cyclic (Window)

def load (w : Window) (k : Core) : Int := (Ring.outstanding w k.tre).length

def owed : Option Turn → Int
  | some u => if u.called.isSome then 1 else 0
  | none => 0

theorem owedNonneg (t : Option Turn) : 0 ≤ owed t := by
  unfold owed
  split
  · split <;> simp
  · simp

def excess (w : Window) (st : Station) : Int :=
  if st.core.dir = .toDevice then load w st.core - st.filled.length + owed st.turn else 0

section Load
variable {w : Window} {k k' : Core} {t : Option Turn}

theorem loadSame (rp : k'.tre.rp = k.tre.rp) (wp : k'.tre.wp = k.tre.wp) : load w k' = load w k := by
  simp only [load,Ring.outstanding,rp,wp]

theorem loadEmpty (empty : k.tre.rp = k.tre.wp) : load w k = 0 := by
  simp [load,Ring.outstanding,empty,Window.used,Window.cells]

theorem loadHeld {h n : Nat} (held : k.tre.Holds w h n) : load w k = (n : Int) - h := by
  have ordered := held.ordered
  rw [load, Ring.outstandingLength held]
  omega

theorem loadPush (level : Level w k t) (free : mhiIsRingFull k.tre = false) : load w k.push = load w k + 1 := by
  obtain ⟨_,_,h,n,held,_⟩ := level
  have pushed : k.push.tre.Holds w h (n + 1) := Ring.addHolds held (Ring.spaceOf held free)
  rw [loadHeld pushed, loadHeld held]
  omega

theorem loadPop (level : Level w k t) (more : k.tre.rp ≠ k.tre.wp) : load w k.pop = load w k - 1 := by
  obtain ⟨_,_,h,n,held,_⟩ := level
  have ordered := held.ordered
  have filled : h ≠ n := fun same => more ((Ring.emptyIff held).mpr same)
  have popped : k.pop.tre.Holds w (h + 1) n := Ring.delHolds held (by omega)
  rw [loadHeld popped, loadHeld held]
  omega

theorem loadQueued {b err b'} (level : Level w k t) (queued : Queued b k err b' k') :
    (k.dir = .toDevice → b'.pending - b.pending = load w k' - load w k) ∧
    (k.dir ≠ .toDevice → b'.pending = b.pending) := by
  cases queued with
  | refused => exact ⟨fun _ => by omega,fun _ => rfl⟩
  | unmapped => exact ⟨fun _ => by simp,fun _ => by simp⟩
  | placed free =>
    have pushed : load w (k.push.bellIf b) = load w k + 1 := by
      rw [loadSame (k := k.push) (by simp) (by simp), loadPush level free]
    refine ⟨fun up => ?_,fun down => ?_⟩
    · simp only [Book.count,up,if_true,Book.resumePending,pushed]
      omega
    · simp [Book.count,down]

end Load

def Enabled (st : Station) : Prop := st.core.chState = .enabled ∧ st.core.offloadCh = false

theorem enabledPermits (w : Window) (st : Station) (allowed : Enabled st) (sound : Sound w st) :
    st.core.bufBase ≠ 0 := sound.live allowed.2 (.inl allowed.1)

section Steps
variable {w : Window} {b b' : Book} {st st' : Station}

theorem balanceCalm (moved : Calm w Enabled b st b' st') (sound : Sound w st) (up : st.core.dir = .toDevice) :
    b'.pending - b.pending =
    (load w st'.core - st'.filled.length + owed st'.turn) - (load w st.core - st.filled.length + owed st.turn) := by
  cases moved with
  | fill buf allowed free =>
    have level := sound.held (enabledPermits w _ allowed sound)
    simp only [loadPush level free,List.length_cons]
    omega
  | event u on loaded uncalled goal => simp [owed,uncalled]
  | take u cell uncalled more =>
    obtain ⟨_,loaded⟩ := levelTake u sound.busy more rfl
    simp only [loadPop sound.busy loaded,owed,uncalled,Option.isSome_some,Option.isSome_none,if_true,
      Bool.false_eq_true,if_false]
    omega
  | leave u uncalled => simp [owed,uncalled]
  | @resetTurn k r t f more =>
    have up : k.dir = .toDevice := up
    simp only [loadPop (sound.loaded more) more,Book.count,up,if_true]
    omega
  | @phase k o t f k' o' moved =>
    have same : load w k' = load w k := by simp only [load,moved.still.1]
    simp only [same]
    omega

theorem balanceUp (moved : Local w Enabled b st b' st') (sound : Sound w st) (quiet : Quiet st)
    (up : st.core.dir = .toDevice) : b'.pending - b.pending =
      (load w st'.core - st'.filled.length + owed st'.turn) - (load w st.core - st.filled.length + owed st.turn) := by
  cases moved with
  | calm moved => exact balanceCalm moved sound up
  | queue allowed queued =>
    have level := sound.held (enabledPermits w _ allowed sound)
    have moved := (loadQueued level queued).1 up
    dsimp only
    omega
  | @finish k o t f buf part =>
    have same : load w (k.bellIf b) = load w k := loadSame (by simp) (by simp)
    have erased := List.length_erase_of_mem part
    have some := List.length_pos_of_mem part
    have up : k.dir = .toDevice := up
    simp only [same,erased,Book.count,up,if_true,Book.resumePending]
    omega
  | @doorbell k o f on =>
    obtain ⟨rp,wp⟩ := dbModePointers b k
    simp only [loadSame (w := w) rp wp]
    omega
  | @settle k o f u cell called =>
    have up : k.dir = .toDevice := up
    simp [owed,called,Book.count,up]
  | recycle u cell called core queued => exact absurd up (sound.config core).1
  | @init k t f base block own off masked =>
    have before : load w k = 0 := loadEmpty (quiet (by simp [off]) rfl)
    have after : load w (k.fresh base) = 0 := loadEmpty rfl
    simp only [before,after]
    omega
  | @enable k t f client =>
    have same : load w k.enable = load w k := rfl
    simp only [same]
    omega
  | prefill n few core => exact absurd up (sound.config core).1
  | runOut n few core => exact absurd up (sound.config core).1

theorem balanceDown (moved : Local w Enabled b st b' st') (sound : Sound w st) (down : st.core.dir ≠ .toDevice) :
    b'.pending = b.pending := by
  cases moved with
  | queue allowed queued => exact (loadQueued (sound.held (enabledPermits w _ allowed sound)) queued).2 down
  | @finish k o t f buf part =>
    have down : k.dir ≠ .toDevice := down
    simp [Book.count,down]
  | @settle k o f u cell called =>
    have down : k.dir ≠ .toDevice := down
    simp [Book.count,down]
  | @recycle k o f err b' k' u cell called core queued =>
    have down : k.dir ≠ .toDevice := down
    have moved := (loadQueued sound.busy queued).2 down
    simpa [Book.count,down] using moved
  | calm moved =>
    cases moved with
    | @resetTurn k r t f more =>
      have down : k.dir ≠ .toDevice := down
      simp [Book.count,down]
    | _ => rfl
  | _ => rfl

theorem balanceLocal (moved : Local w Enabled b st b' st') (sound : Sound w st) (quiet : Quiet st) :
    b'.pending - b.pending = excess w st' - excess w st := by
  unfold excess
  rw [(localFixed moved).1]
  split
  · rename_i up
    exact balanceUp moved sound quiet up
  · rename_i down
    rw [balanceDown moved sound down]
    omega

end Steps

theorem sumShift {n i : Nat} {f g : Nat → Int} (known : i < n) (others : ∀ j, j ≠ i → g j = f j) :
    ∑ j ∈ Finset.range n, g j = ∑ j ∈ Finset.range n, f j + (g i - f i) := by
  have member : i ∈ Finset.range n := Finset.mem_range.mpr known
  have changed : g = Function.update f i (g i) := by
    funext j
    by_cases same : j = i
    · rw [same, Function.update_self]
    · rw [Function.update_of_ne same, others j same]
  have rest := Finset.add_sum_erase (Finset.range n) f member
  rw [changed, Finset.sum_update_of_mem member, Finset.sdiff_singleton_eq_erase, Function.update_self]
  omega

structure Balanced (w : Nat → Window) (n : Nat) (v : View) : Prop where
  sound : AllSound w n v
  quiet : ∀ i < n, Quiet (v.station i)
  total : v.book.pending = ∑ i ∈ Finset.range n, excess (w i) (v.station i)

section Runs
variable {w : Nat → Window} {n : Nat} {v v' : View}

theorem moveBalanced (moved : Move w Enabled n v v') (balanced : Balanced w n v) : Balanced w n v' := by
  have sound := soundMove (fun i => enabledPermits (w i)) moved balanced.sound
  cases moved with
  | @here st b' st' i known stands moved =>
    subst stands
    refine ⟨sound,fun j inside => ?_,?_⟩
    · by_cases same : j = i
      · subst j
        simp only [Function.update_self]
        exact quietLocal (fun _ allowed => .inl allowed.1) moved (balanced.sound i known) (balanced.quiet i known)
      · simp only [Function.update_of_ne same]
        exact balanced.quiet j inside
    · have local_ := balanceLocal moved (balanced.sound i known) (balanced.quiet i known)
      have shifted := sumShift (f := fun j => excess (w j) (v.station j))
        (g := fun j => excess (w j) (Function.update v.station i st' j)) known
        (fun j other => by simp only [Function.update_of_ne other])
      simp only [Function.update_self] at shifted
      have total := balanced.total
      dsimp only
      omega
  | m0 reached =>
    refine ⟨sound,fun j inside => ?_,?_⟩
    · obtain ⟨rp,wp⟩ := onM0Pointers (v.station j).core
      simp only [inside,if_true]
      exact quietSame (w := w j) (balanced.quiet j inside) (.onM0 _) rfl rp wp
    · refine balanced.total.trans (Finset.sum_congr rfl fun j member => ?_)
      obtain ⟨rp,wp⟩ := onM0Pointers (v.station j).core
      simp only [Finset.mem_range.mp member,if_true,excess,(Kin.onM0 (w := w j) (v.station j).core).dir,
        loadSame (w := w j) rp wp]
  | drift moved => cases moved <;> exact ⟨sound,balanced.quiet,balanced.total⟩

theorem stepBalanced {s s' : Threads} (step : Step w Enabled s s')
    (balanced : s.host.maxChan = n ∧ Balanced w n s.view) : s'.host.maxChan = n ∧ Balanced w n s'.view := by
  obtain ⟨maxChan,balanced⟩ := balanced
  obtain ⟨same,view | moved⟩ := stepMoves step
  · exact ⟨same.trans maxChan,view ▸ balanced⟩
  · exact ⟨same.trans maxChan,moveBalanced (maxChan ▸ moved) balanced⟩

theorem startBalanced {h : Host} {lay : Layout} (parsed : Parsed h) (laid : Laid w h lay) :
    Balanced w h.maxChan (Threads.start (mhiInitDevCtxt h lay)).view := by
  refine ⟨startSound parsed laid,fun i inside _ _ => startIdle lay parsed inside,?_⟩
  refine (Finset.sum_eq_zero fun i member => ?_).symm
  have none := loadEmpty (w := w i) (k := ((mhiInitDevCtxt h lay).chans i).core)
    (startIdle lay parsed (Finset.mem_range.mp member))
  show (if _ then load (w i) ((mhiInitDevCtxt h lay).chans i).core - _ + _ else 0) = 0
  rw [none]
  split <;> simp [owed,Threads.start,Threads.view,Threads.station]

theorem runBalanced {h : Host} {lay : Layout} {s : Threads} (parsed : Parsed h) (laid : Laid w h lay)
    (run : Relation.ReflTransGen (Step w Enabled) (Threads.start (mhiInitDevCtxt h lay)) s) :
    s.host.maxChan = h.maxChan ∧ Balanced w h.maxChan s.view :=
  Runs.keeps (I := fun s => s.host.maxChan = h.maxChan ∧ Balanced w h.maxChan s.view)
    (fun _ _ => stepBalanced) run ⟨rfl,startBalanced parsed laid⟩

end Runs

def Settled (s : Threads) : Prop := ∀ i < s.host.maxChan, s.op i = .idle ∧ s.turn i = none ∧ s.filled i = []

def uplinkLoad (w : Nat → Window) (s : Threads) : Int :=
  ∑ i ∈ Finset.range s.host.maxChan, if (s.chan i).dir = .toDevice then
    ((Ring.outstanding (w i) (s.chan i).treRing).length : Int) else 0

theorem settledTotal {w : Nat → Window} {s : Threads} (balanced : Balanced w s.host.maxChan s.view)
    (settled : ∀ i < s.host.maxChan, s.turn i = none ∧ s.filled i = []) :
    s.host.cntrl.pendingPkts = uplinkLoad w s := by
  refine balanced.total.trans (Finset.sum_congr rfl fun i member => ?_)
  obtain ⟨turn,filled⟩ := settled i (Finset.mem_range.mp member)
  have here : s.view.station i = ⟨(s.chan i).core,s.op i,none,[]⟩ := by
    show s.station i = _
    rw [Threads.station, turn, filled]
  rw [here, excess]
  simp only [owed,List.length_nil,load]
  split
  · rename_i up
    rw [if_pos (show (s.chan i).dir = .toDevice from up)]
    simp [Chan.core]
  · rename_i down
    rw [if_neg (show ¬(s.chan i).dir = .toDevice from down)]

theorem pendingPktsAccounting {w : Nat → Window} {h : Host} {lay : Layout} {s : Threads} (parsed : Parsed h)
    (laid : Laid w h lay) (run : Relation.ReflTransGen (Step w Enabled) (Threads.start (mhiInitDevCtxt h lay)) s)
    (settled : Settled s) :
    s.host.cntrl.pendingPkts = uplinkLoad w s ∧ 0 ≤ s.host.cntrl.pendingPkts ∧
    ((∀ i < s.host.maxChan, (s.chan i).dir = .toDevice → (s.chan i).chState = .disabled) →
      s.host.cntrl.pendingPkts = 0) := by
  obtain ⟨maxChan,balanced⟩ := runBalanced parsed laid run
  rw [← maxChan] at balanced
  have total := settledTotal balanced (fun i inside => (settled i inside).2)
  refine ⟨total,?_,fun unprepared => ?_⟩
  · rw [total]
    exact Finset.sum_nonneg fun i _ => by split <;> simp
  · rw [total]
    refine Finset.sum_eq_zero fun i member => ?_
    have inside := Finset.mem_range.mp member
    split
    · rename_i up
      have idle : draining (s.view.station i).op = false := by
        rw [show (s.view.station i).op = s.op i from rfl, (settled i inside).1]
        rfl
      have off : (s.view.station i).core.chState ≠ .enabled := by
        rw [show (s.view.station i).core.chState = (s.chan i).chState from rfl, unprepared i inside up]
        simp
      exact loadEmpty (k := (s.chan i).core) (balanced.quiet i inside off idle)
    · rfl

def sampleReq : QueueReq := ⟨.skb 0x20,0x10,100,MhiFlags.eot,⟨0x9000,0,true⟩⟩
def sampleQueued : Threads := Sample.opened.setPort 0 (mhiQueue (Sample.opened.port 0) sampleReq).1

theorem sampleRun : Relation.ReflTransGen (Step Sample.window Enabled) (Threads.start Sample.ready) sampleQueued :=
  (Sample.opens Enabled).tail (.chan 0 (by decide) (.queue sampleReq ⟨rfl,rfl⟩ (by decide)))

theorem sampleSettled : Settled sampleQueued := by
  intro i inside
  have zero : i = 0 := Nat.lt_one_iff.mp inside
  subst zero
  exact ⟨rfl,rfl,rfl⟩

theorem pendingPktsAccountingSample : sampleQueued.host.cntrl.pendingPkts = 1 ∧ uplinkLoad Sample.window sampleQueued = 1 := by
  obtain ⟨total,_,_⟩ := pendingPktsAccounting Sample.parsed Sample.laid sampleRun sampleSettled
  have counted : sampleQueued.host.cntrl.pendingPkts = 1 := rfl
  exact ⟨counted,total ▸ counted⟩

end MhiHost.Pending
