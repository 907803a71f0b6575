import MhiHost.Lifecycle

/-! What the accounting and doorbell laws see: of the controller its power state,
doorbell mask, packet count and resume requests; of a channel its transfer ring,
doorbell configuration and state. Each function of the channel is restated once on
that view; everything above speaks of the view only. -/
namespace MhiHost

structure Book where
  pm : PmState
  dbAccess : Nat
  pending : Int
  resumes : Nat
  deriving DecidableEq, Repr

def Cntrl.book (c : Cntrl) : Book := ⟨c.pmState,c.dbAccess,c.pendingPkts,c.resumes⟩

namespace Book
def opened (b : Book) : Bool := b.pm.within b.dbAccess
def count (b : Book) (dir : DmaDir) (d : Int) : Book :=
  if dir = .toDevice then {b with pending := b.pending + d} else b
def resume (b : Book) : Book := if mhiPmInSuspendState b.pm then {b with resumes := b.resumes + 1} else b

@[simp] theorem countPm (b : Book) (dir : DmaDir) (d : Int) : (b.count dir d).pm = b.pm := by
  unfold count; split <;> rfl
@[simp] theorem countDbAccess (b : Book) (dir : DmaDir) (d : Int) : (b.count dir d).dbAccess = b.dbAccess := by
  unfold count; split <;> rfl
@[simp] theorem countResumes (b : Book) (dir : DmaDir) (d : Int) : (b.count dir d).resumes = b.resumes := by
  unfold count; split <;> rfl
@[simp] theorem resumePm (b : Book) : b.resume.pm = b.pm := by unfold resume; split <;> rfl
@[simp] theorem resumeDbAccess (b : Book) : b.resume.dbAccess = b.dbAccess := by unfold resume; split <;> rfl
@[simp] theorem resumePending (b : Book) : b.resume.pending = b.pending := by unfold resume; split <;> rfl
@[simp] theorem countOpened (b : Book) (dir : DmaDir) (d : Int) : (b.count dir d).opened = b.opened := by
  simp [opened]
@[simp] theorem resumeOpened (b : Book) : b.resume.opened = b.opened := by simp [opened]

theorem resumesMono (b : Book) : b.resumes ≤ b.resume.resumes := by
  unfold resume
  split
  · exact Nat.le_succ _
  · exact Nat.le_refl _
end Book

@[simp] theorem writeDbBook (c : Cntrl) (a v : Nat) : (mhiWriteDb c a v).book = c.book := rfl

@[simp] theorem assertBook (c : Cntrl) (force : Bool) : (mhiAssertDevWake c force).book = c.book := by
  unfold mhiAssertDevWake
  split
  · dsimp only; split <;> rfl
  · split
    · rfl
    · dsimp only; split <;> rfl

@[simp] theorem assertEe (c : Cntrl) (force : Bool) : (mhiAssertDevWake c force).ee = c.ee := by
  unfold mhiAssertDevWake
  split
  · dsimp only; split <;> rfl
  · split
    · rfl
    · dsimp only; split <;> rfl

@[simp] theorem deassertBook (c : Cntrl) (override : Bool) : (mhiDeassertDevWake c override).book = c.book := by
  unfold mhiDeassertDevWake
  split
  · rfl
  · dsimp only; split <;> rfl

@[simp] theorem wakeToggleBook (c : Cntrl) : (wakeToggle c).book = c.book := by
  unfold wakeToggle
  split
  · rfl
  · simp [mhiToggleDevWake]

@[simp] theorem resumeBook (c : Cntrl) : (resumeIfSuspended c).book = c.book.resume := by
  unfold resumeIfSuspended Book.resume Cntrl.book
  split <;> rfl

@[simp] theorem countBook (dir : DmaDir) (d : Int) (c : Cntrl) : (countUplink dir d c).book = c.book.count dir d := by
  unfold countUplink Book.count Cntrl.book
  split <;> rfl

@[simp] theorem processDbBook (c : Cntrl) (cfg : DbCfg) (a v : Nat) : (processDb c cfg a v).1.book = c.book := by
  unfold processDb mhiDbBrstmode mhiDbBrstmodeDisable
  split
  · split <;> rfl
  · rfl

structure Core where
  tre : Ring
  bufBase : Nat
  dir : DmaDir
  eeMask : Nat
  preAlloc : Bool
  offloadCh : Bool
  chState : ChState
  dbCfg : DbCfg
  deriving DecidableEq, Repr

def Chan.core (ch : Chan) : Core :=
  ⟨ch.treRing,ch.bufRing.base,ch.dir,ch.eeMask,ch.preAlloc,ch.offloadCh,ch.chState,ch.dbCfg⟩

def rungCfg (cfg : DbCfg) (db : Nat) : DbCfg :=
  match cfg.brstmode with
  | .enable => if cfg.dbMode then {cfg with dbVal := db, dbMode := false} else cfg
  | .disable => {cfg with dbVal := db}

theorem processDbCfg (c : Cntrl) (cfg : DbCfg) (a v : Nat) : (processDb c cfg a v).2 = rungCfg cfg v := by
  unfold processDb rungCfg mhiDbBrstmode mhiDbBrstmodeDisable
  cases cfg.brstmode with
  | enable => dsimp only; split <;> rfl
  | disable => rfl

namespace Core
def push (k : Core) : Core := {k with tre := mhiAddRingElement k.tre}
def pop (k : Core) : Core := {k with tre := mhiDelRingElement k.tre}
def bell (k : Core) : Core := {k with tre := {k.tre with ctxtWp := k.tre.db}, dbCfg := rungCfg k.dbCfg k.tre.db}
def bellIf (b : Book) (k : Core) : Core := if b.opened then k.bell else k
def rearm (k : Core) : Core := {k with dbCfg := {k.dbCfg with dbMode := true}}
def pushes : Nat → Core → Core
  | 0, k => k
  | n+1, k => pushes n k.push
def fresh (k : Core) (base : Nat) : Core :=
  {k.rearm with bufBase := base, tre := {k.tre with ctxtWp := k.tre.iommuBase, rp := k.tre.base, wp := k.tre.base}}
def released (k : Core) : Core := if k.offloadCh then k else {k with bufBase := 0}
def dbMode (b : Book) (k : Core) : Core := if k.tre.wp ≠ k.tre.rp then k.rearm.bellIf b else k.rearm
def armed (k : Core) : Core := if k.dbCfg.resetReq then k.rearm else k
def onM0 (k : Core) : Core :=
  if k.armed.tre.base ≠ 0 ∧ k.armed.tre.wp ≠ k.armed.tre.rp then k.armed.bell else k.armed

@[simp] theorem releasedTre (k : Core) : k.released.tre = k.tre := by unfold released; split <;> rfl
@[simp] theorem releasedDir (k : Core) : k.released.dir = k.dir := by unfold released; split <;> rfl
@[simp] theorem releasedOffload (k : Core) : k.released.offloadCh = k.offloadCh := by unfold released; split <;> rfl
@[simp] theorem releasedAlloc (k : Core) : k.released.preAlloc = k.preAlloc := by unfold released; split <;> rfl
@[simp] theorem releasedCfg (k : Core) : k.released.dbCfg = k.dbCfg := by unfold released; split <;> rfl
@[simp] theorem releasedState (k : Core) : k.released.chState = k.chState := by unfold released; split <;> rfl

theorem bellIfTre (b : Book) (k : Core) : ∃ db, (k.bellIf b).tre = {k.tre with ctxtWp := db} := by
  unfold bellIf
  split
  · exact ⟨_,rfl⟩
  · exact ⟨k.tre.ctxtWp,rfl⟩

@[simp] theorem bellIfRp (b : Book) (k : Core) : (k.bellIf b).tre.rp = k.tre.rp := by unfold bellIf; split <;> rfl
@[simp] theorem bellIfWp (b : Book) (k : Core) : (k.bellIf b).tre.wp = k.tre.wp := by unfold bellIf; split <;> rfl
@[simp] theorem bellIfState (b : Book) (k : Core) : (k.bellIf b).chState = k.chState := by unfold bellIf; split <;> rfl
@[simp] theorem bellIfDir (b : Book) (k : Core) : (k.bellIf b).dir = k.dir := by unfold bellIf; split <;> rfl
@[simp] theorem bellIfAlloc (b : Book) (k : Core) : (k.bellIf b).preAlloc = k.preAlloc := by
  unfold bellIf; split <;> rfl
@[simp] theorem bellIfOffload (b : Book) (k : Core) : (k.bellIf b).offloadCh = k.offloadCh := by
  unfold bellIf; split <;> rfl
@[simp] theorem bellIfBase (b : Book) (k : Core) : (k.bellIf b).bufBase = k.bufBase := by unfold bellIf; split <;> rfl
end Core

theorem ringChanDbView (p : Port) :
    (mhiRingChanDb p).cntrl.book = p.cntrl.book ∧ (mhiRingChanDb p).chan.core = p.chan.core.bell := by
  refine ⟨by simp [mhiRingChanDb],?_⟩
  simp only [mhiRingChanDb,Chan.core,Core.bell,processDbCfg]

theorem ringIfView (p : Port) : (ringIfAccessible p).cntrl.book = p.cntrl.book ∧
    (ringIfAccessible p).chan.core = p.chan.core.bellIf p.cntrl.book := by
  have opened : mhiDbAccessValid p.cntrl = p.cntrl.book.opened := rfl
  unfold ringIfAccessible Core.bellIf
  rw [opened]
  split
  · exact ringChanDbView p
  · exact ⟨rfl,rfl⟩

theorem genTreView {p info flags reply out err} (ran : mhiGenTre p info flags reply = (out,err)) :
    out.cntrl = p.cntrl ∧ out.chan.core = if err.isNone then p.chan.core.push else p.chan.core := by
  unfold mhiGenTre at ran
  cases mapped : (fillBufInfo p info reply).2 with
  | some e =>
    simp only [mapped,Prod.mk.injEq] at ran
    obtain ⟨rfl,rfl⟩ := ran
    exact ⟨rfl,rfl⟩
  | none =>
    simp only [mapped,Prod.mk.injEq] at ran
    obtain ⟨rfl,rfl⟩ := ran
    exact ⟨rfl,rfl⟩

/- What a queue call may do: be refused, perhaps after asking for a resume, or push
one element, count it and ring if the doorbell is open. -/
inductive Queued (b : Book) (k : Core) : Option Errno → Book → Core → Prop where
  | refused {e} : Queued b k (some e) b k
  | unmapped {e} : Queued b k (some e) b.resume k
  | placed (free : mhiIsRingFull k.tre = false) :
      Queued b k none (b.resume.count k.dir 1) (k.push.bellIf b)

theorem bellIfSame {b b' : Book} (k : Core) (same : b'.opened = b.opened) : k.bellIf b' = k.bellIf b := by
  unfold Core.bellIf
  rw [same]

theorem acceptCntrl (p : Port) (cb : Nat) : (accept p cb).cntrl = p.cntrl := rfl
theorem acceptCore (p : Port) (cb : Nat) : (accept p cb).chan.core = p.chan.core := rfl

theorem queueLockedView (p : Port) (info : BufInfo) (flags : Nat) (reply : DmaReply) :
    Queued p.cntrl.book p.chan.core (queueLocked p info flags reply).2
      (queueLocked p info flags reply).1.cntrl.book (queueLocked p info flags reply).1.chan.core := by
  unfold queueLocked
  split
  · exact .refused
  split
  · exact .refused
  rename_i free
  split
  · exact .refused
  dsimp only
  split
  · rename_i out e ran
    obtain ⟨cntrl,core⟩ := genTreView ran
    simp only [cntrl,core,wakeToggleBook,resumeBook,Option.isNone_some]
    exact .unmapped
  · rename_i out ran
    obtain ⟨cntrl,core⟩ := genTreView ran
    have dir : out.chan.dir = p.chan.core.dir := congrArg Core.dir core
    obtain ⟨book,rung⟩ := ringIfView {out with cntrl := countUplink out.chan.dir 1 out.cntrl}
    have counted : (countUplink out.chan.dir 1 out.cntrl).book = p.cntrl.book.resume.count p.chan.core.dir 1 := by
      rw [countBook, cntrl, wakeToggleBook, resumeBook, dir]
    rw [counted] at book rung
    rw [bellIfSame (b := p.cntrl.book) _ (by simp)] at rung
    rw [acceptCntrl, acceptCore, book, rung, core]
    exact .placed (eq_false_of_ne_true free)

theorem queueBufFillView (p : Port) (buf len flags : Nat) (reply : DmaReply) :
    (mhiQueueBufFill p buf len flags reply).1.cntrl = p.cntrl ∧
    ((mhiQueueBufFill p buf len flags reply).2 = none ∧ mhiIsRingFull p.chan.treRing = false ∧
        (mhiQueueBufFill p buf len flags reply).1.chan.core = p.chan.core.push ∨
      (∃ e, (mhiQueueBufFill p buf len flags reply).2 = some e) ∧
        (mhiQueueBufFill p buf len flags reply).1.chan.core = p.chan.core) := by
  unfold mhiQueueBufFill
  split
  · exact ⟨rfl,.inr ⟨⟨_,rfl⟩,rfl⟩⟩
  split
  · exact ⟨rfl,.inr ⟨⟨_,rfl⟩,rfl⟩⟩
  rename_i free
  cases ran : mhiGenTre p {BufInfo.zero with vAddr := buf, cbBuf := buf, len := len} flags reply with
  | mk out err =>
    obtain ⟨cntrl,core⟩ := genTreView ran
    refine ⟨cntrl,?_⟩
    cases err with
    | none => exact .inl ⟨rfl,eq_false_of_ne_true free,core⟩
    | some e => exact .inr ⟨⟨e,rfl⟩,core⟩

theorem queueBufFinishView (p : Port) (buf : Nat) :
    (mhiQueueBufFinish p buf).cntrl.book = p.cntrl.book.resume.count p.chan.dir 1 ∧
    (mhiQueueBufFinish p buf).chan.core = p.chan.core.bellIf p.cntrl.book := by
  obtain ⟨book,rung⟩ := ringIfView
    {p with cntrl := countUplink p.chan.dir 1 (wakeToggle (resumeIfSuspended p.cntrl))}
  simp only [countBook,wakeToggleBook,resumeBook] at book rung
  rw [bellIfSame (b := p.cntrl.book) _ (by simp)] at rung
  exact ⟨book,rung⟩

theorem queueBufView (p : Port) (buf len flags : Nat) (reply : DmaReply) :
    Queued p.cntrl.book p.chan.core (mhiQueueBuf p buf len flags reply).2
      (mhiQueueBuf p buf len flags reply).1.cntrl.book (mhiQueueBuf p buf len flags reply).1.chan.core := by
  obtain ⟨cntrl,cases⟩ := queueBufFillView p buf len flags reply
  unfold mhiQueueBuf
  cases ran : mhiQueueBufFill p buf len flags reply with
  | mk out err =>
    rw [ran] at cntrl cases
    rcases cases with ⟨rfl,free,core⟩ | ⟨⟨e,rfl⟩,core⟩
    · obtain ⟨book,rung⟩ := queueBufFinishView out buf
      have dir : out.chan.dir = p.chan.core.dir := congrArg Core.dir core
      dsimp only at cntrl core ⊢
      rw [book, rung, cntrl, core, dir]
      exact .placed free
    · dsimp only at cntrl core ⊢
      rw [cntrl, core]
      exact .refused

theorem queueView (p : Port) (q : QueueReq) :
    Queued p.cntrl.book p.chan.core (mhiQueue p q).2 (mhiQueue p q).1.cntrl.book (mhiQueue p q).1.chan.core := by
  unfold mhiQueue
  split
  · exact queueBufView p _ _ _ _
  · exact queueLockedView p _ _ _
  · exact queueLockedView p _ _ _

theorem dbModeView (p : Port) : (dbModeEvent p).cntrl.book = p.cntrl.book ∧
    (dbModeEvent p).chan.core = p.chan.core.dbMode p.cntrl.book := by
  have tre : p.chan.core.tre = p.chan.treRing := rfl
  unfold dbModeEvent Core.dbMode
  rw [tre]
  dsimp only
  split
  · exact ringIfView {p with chan := {p.chan with dbCfg := {p.chan.dbCfg with dbMode := true}}}
  · exact ⟨rfl,rfl⟩

theorem settleView (p : Port) (b : Nat) (reply : DmaReply) :
    let counted := p.cntrl.book.count p.chan.dir (-1)
    let out := recycleBuf {p with cntrl := countUplink p.chan.dir (-1) p.cntrl} b reply
    (out.cntrl.book = counted ∧ out.chan.core = p.chan.core) ∨
      (p.chan.preAlloc = true ∧ ∃ err, Queued counted p.chan.core err out.cntrl.book out.chan.core) := by
  intro counted out
  have book : (countUplink p.chan.dir (-1) p.cntrl).book = counted := countBook _ _ _
  cases recycled : p.chan.preAlloc with
  | false =>
    left
    have same : out = {p with cntrl := countUplink p.chan.dir (-1) p.cntrl} := by simp [out,recycleBuf,recycled]
    rw [same]
    exact ⟨book,rfl⟩
  | true =>
    refine .inr ⟨rfl,?_⟩
    have view := queueBufView {p with cntrl := countUplink p.chan.dir (-1) p.cntrl} (p.chan.bufMem b).cbBuf
      (p.chan.bufMem b).len MhiFlags.eot reply
    rw [book] at view
    simp only [out,recycleBuf,recycled,if_true]
    split
    · rename_i ran
      rw [ran] at view
      exact ⟨_,view⟩
    · rename_i ran
      rw [ran] at view
      exact ⟨_,view⟩

theorem resetOneView (p : Port) : (resetOne [] p).cntrl.book = p.cntrl.book.count p.chan.dir (-1) ∧
    (resetOne [] p).chan.core = p.chan.core.pop := by
  unfold resetOne
  dsimp only
  split
  · exact ⟨countBook _ _ _,rfl⟩
  · exact ⟨countBook _ _ _,rfl⟩

theorem preAllocLoopView {reply left i p out err} (ran : preAllocLoop reply left i p = (out,err)) :
    out.cntrl = p.cntrl ∧ ∃ n ≤ left, out.chan.core = p.chan.core.pushes n := by
  induction left generalizing i p with
  | zero =>
    cases ran
    exact ⟨rfl,0,Nat.le_refl 0,rfl⟩
  | succ left ih =>
    unfold preAllocLoop at ran
    split at ran
    · cases ran
      exact ⟨rfl,0,Nat.zero_le _,rfl⟩
    · split at ran
      · rename_i gen
        cases ran
        obtain ⟨cntrl,core⟩ := genTreView gen
        exact ⟨cntrl,0,Nat.zero_le _,core⟩
      · rename_i gen
        obtain ⟨cntrl,core⟩ := genTreView gen
        obtain ⟨cntrl',n,few,core'⟩ := ih ran
        exact ⟨cntrl'.trans cntrl,n + 1,Nat.succ_le_succ few,by rw [core', core]; rfl⟩

/- Pre-allocation fills the free part of the ring and rings once; where it fails
half-way the elements stay and the doorbell is not rung. -/
theorem preAllocateView {p reply out err} (ran : preAllocate p reply = (out,err)) :
    out.cntrl.book = p.cntrl.book ∧
    (p.chan.preAlloc = false ∧ err = none ∧ out.chan.core = p.chan.core ∨
      p.chan.preAlloc = true ∧ ∃ n ≤ (getNrAvailRingElements p.chan.treRing).toNat,
        (err = none ∧ out.chan.core = (p.chan.core.pushes n).bellIf p.cntrl.book ∨
          (∃ e, err = some e) ∧ out.chan.core = p.chan.core.pushes n)) := by
  unfold preAllocate at ran
  split at ran
  · rename_i core
    split at ran
    · rename_i mid e loop
      cases ran
      obtain ⟨cntrl,n,few,filled⟩ := preAllocLoopView loop
      exact ⟨by rw [cntrl],.inr ⟨core,n,few,.inr ⟨⟨e,rfl⟩,filled⟩⟩⟩
    · rename_i mid loop
      cases ran
      obtain ⟨cntrl,n,few,filled⟩ := preAllocLoopView loop
      obtain ⟨book,rung⟩ := ringIfView mid
      refine ⟨by rw [book, cntrl],.inr ⟨core,n,few,.inl ⟨rfl,?_⟩⟩⟩
      rw [rung, filled, cntrl]
  · rename_i client
    cases ran
    exact ⟨rfl,.inl ⟨eq_false_of_ne_true client,rfl,rfl⟩⟩

end MhiHost
