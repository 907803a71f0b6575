import MhiHost.Pending

/-! Suspend against the queue calls. `mhi_pm_suspend` enters M3_ENTER only with a zero
count, under the write lock; a queue call that finds a suspended state asks for a
resume before it counts. So as long as nobody has asked, the count stays at or below
zero, and by the balance no uplink ring holds anything. -/
namespace MhiHost.Suspend
open Cyclic (Window)
open Pending (Enabled Balanced)

def Watched (b : Book) (entered : Nat) : Prop :=
  entered ≤ b.resumes ∧ (mhiPmInSuspendState b.pm = true → b.resumes = entered → b.pending ≤ 0)

theorem watchedResume {b : Book} {entered : Nat} (watched : Watched b entered) (dir : DmaDir) (d : Int) :
    Watched (b.resume.count dir d) entered := by
  have mono := b.resumesMono
  obtain ⟨le,_⟩ := watched
  refine ⟨by simp only [Book.countResumes]; omega,fun asleep same => ?_⟩
  simp only [Book.countPm,Book.resumePm,Book.countResumes] at asleep same
  simp only [Book.resume,asleep,if_true] at same
  omega

theorem watchedLower {b : Book} {entered : Nat} (watched : Watched b entered) (dir : DmaDir) :
    Watched (b.count dir (-1)) entered := by
  obtain ⟨le,quiet⟩ := watched
  refine ⟨by simpa using le,fun asleep same => ?_⟩
  have before := quiet (by simpa using asleep) (by simpa using same)
  unfold Book.count
  split
  · dsimp only
    omega
  · exact before

theorem watchedQueued {b err b' k k'} {entered : Nat} (queued : Queued b k err b' k') (watched : Watched b entered) :
    Watched b' entered := by
  cases queued with
  | refused => exact watched
  | unmapped =>
    have resumed := watchedResume watched .none 0
    simpa [Book.count] using resumed
  | placed free => exact watchedResume watched k.dir 1

theorem watchedLocal {w Q b st b' st'} {entered : Nat} (moved : Local w Q b st b' st') (watched : Watched b entered) :
    Watched b' entered := by
  cases moved with
  | queue allowed queued => exact watchedQueued queued watched
  | finish buf part => exact watchedResume watched _ 1
  | settle u cell called => exact watchedLower watched _
  | recycle u cell called core queued => exact watchedQueued queued (watchedLower watched _)
  | calm moved =>
    cases moved with
    | resetTurn more => exact watchedLower watched _
    | _ => exact watched
  | _ => exact watched

theorem toM3 {pm : PmState} (reached : mhiTrysetPmState pm .m3 = .m3) : mhiPmInSuspendState pm = true := by
  cases pm <;> first | rfl | cases reached

theorem awake {pm : PmState} (target : pm = .m2 ∨ pm = .m3Exit ∨ mhiPmInErrorState pm = true) :
    mhiPmInSuspendState pm = false := by
  rcases target with rfl | rfl | bad
  · rfl
  · rfl
  · cases pm <;> first | rfl | cases bad

theorem watchedMove {w Q n v v'} (moved : Move w Q n v v') (watched : Watched v.book v.entered) :
    Watched v'.book v'.entered := by
  cases moved with
  | here i known stands moved => exact watchedLocal moved watched
  | m0 reached => exact ⟨watched.1,fun asleep => absurd (show mhiPmInSuspendState .m0 = true from asleep) (by decide)⟩
  | drift moved =>
    cases moved with
    | goes pm reached target =>
      rcases target with target | rfl | target
      · exact ⟨watched.1,fun asleep => by simp [awake (.inl target)] at asleep⟩
      · exact ⟨watched.1,fun _ => watched.2 (toM3 reached)⟩
      · exact ⟨watched.1,fun asleep => by simp [awake (.inr target)] at asleep⟩
    | enter reached quiet => exact ⟨Nat.le_refl _,fun _ _ => le_of_eq quiet⟩

section Runs
variable {w : Nat → Window}

theorem stepWatched {s s' : Threads} (step : Step w Enabled s s') (watched : Watched s.view.book s.view.entered) :
    Watched s'.view.book s'.view.entered := by
  obtain ⟨_,view | moved⟩ := stepMoves step
  · rw [view]
    exact watched
  · exact watchedMove moved watched

theorem loadLow {n i : Nat} {v : View} (balanced : Balanced w n v) (unqueued : ∀ i < n, (v.station i).filled = [])
    (known : i < n) (up : (v.station i).core.dir = .toDevice) :
    Pending.load (w i) (v.station i).core ≤ v.book.pending := by
  have low : ∀ j ∈ Finset.range n, 0 ≤ Pending.excess (w j) (v.station j) := by
    intro j member
    have owed := Pending.owedNonneg (v.station j).turn
    unfold Pending.excess Pending.load
    rw [unqueued j (Finset.mem_range.mp member)]
    split
    · simp only [List.length_nil]
      omega
    · exact Int.le_refl 0
  have one := Finset.single_le_sum low (Finset.mem_range.mpr known)
  have total := balanced.total
  have owed := Pending.owedNonneg (v.station i).turn
  have here : Pending.excess (w i) (v.station i) =
      Pending.load (w i) (v.station i).core + Pending.owed (v.station i).turn := by
    simp [Pending.excess,up,unqueued i known]
  rw [here] at one
  omega

theorem noUplinkStranded {h : Host} {lay : Layout} {s : Threads} (parsed : Parsed h) (laid : Laid w h lay)
    (run : Relation.ReflTransGen (Step w Enabled) (Threads.start (mhiInitDevCtxt h lay)) s)
    (unqueued : ∀ i < s.host.maxChan, s.filled i = [])
    (suspended : s.host.cntrl.pmState = .m3Enter ∨ s.host.cntrl.pmState = .m3) {i : Nat} (known : i < s.host.maxChan)
    (up : (s.chan i).dir = .toDevice) (stranded : Ring.outstanding (w i) (s.chan i).treRing ≠ []) :
    s.entered < s.host.cntrl.resumes := by
  obtain ⟨maxChan,balanced⟩ := Pending.runBalanced parsed laid run
  rw [← maxChan] at balanced
  have start : Watched (Threads.start (mhiInitDevCtxt h lay)).view.book (Threads.start (mhiInitDevCtxt h lay)).view.entered :=
    ⟨Nat.le_refl _,fun _ _ => Int.le_refl 0⟩
  have watched := Runs.keeps (I := fun s => Watched s.view.book s.view.entered) (fun _ _ => stepWatched) run start
  have asleep : mhiPmInSuspendState s.view.book.pm = true := by
    rcases suspended with pm | pm <;> exact (congrArg mhiPmInSuspendState pm).trans rfl
  have low := loadLow balanced unqueued known up
  have filled : 0 < Pending.load (w i) (s.view.station i).core := by
    have length := List.length_pos_iff.mpr stranded
    exact Int.natCast_pos.mpr length
  rcases Nat.eq_or_lt_of_le watched.1 with same | asked
  · have none := watched.2 asleep same.symm
    omega
  · exact asked

end Runs

def sampleFilled : Threads :=
  (Sample.opened.setPort 0 (mhiQueueBufFill (Sample.opened.port 0) 0x10 100 0 ⟨0x9000,0,true⟩).1).setFilled 0 [0x10]
def sampleAsleep : Threads := {sampleFilled with host := (suspendEnter sampleFilled.host).1, entered := 0}
def sampleAsked : Threads := (sampleAsleep.setPort 0 (mhiQueueBufFinish (sampleAsleep.port 0) 0x10)).setFilled 0 []

theorem sampleRun : Relation.ReflTransGen (Step Sample.window Enabled) (Threads.start Sample.ready) sampleAsked := by
  have fill : Step Sample.window Enabled Sample.opened sampleFilled :=
    .chan 0 (by decide) (.quiet (@QuietStep.fill _ _ 0 Sample.opened _ none 0x10 100 0 ⟨0x9000,0,true⟩ ⟨rfl,rfl⟩ rfl))
  have enter : Step Sample.window Enabled sampleFilled sampleAsleep :=
    .host (@HostStep.suspendEnter sampleFilled _ none rfl)
  have finish : Step Sample.window Enabled sampleAsleep sampleAsked :=
    .chan 0 (by decide) (.finish 0x10 (by decide))
  exact (((Sample.opens Enabled).tail fill).tail enter).tail finish

theorem noUplinkStrandedSample : sampleAsked.host.cntrl.pmState = .m3Enter ∧
    Ring.outstanding (Sample.window 0) (sampleAsked.chan 0).treRing = [0x1000] ∧
    sampleAsked.entered < sampleAsked.host.cntrl.resumes := by
  refine ⟨rfl,by decide,noUplinkStranded Sample.parsed Sample.laid sampleRun (fun i inside => ?_) (.inl rfl)
    (i := 0) (by decide) rfl (by decide)⟩
  have zero : i = 0 := Nat.lt_one_iff.mp inside
  subst zero
  rfl

end MhiHost.Suspend
