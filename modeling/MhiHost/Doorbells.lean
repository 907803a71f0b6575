import MhiHost.Ringing

/-! Transfer doorbells. Whoever queues while the doorbell is open rings it; whoever
queues while it is closed relies on the M0 handler, which rings every ring that is
not empty, because M0 is the only way from a closed state into an open one. Two rings
of one channel at a time undo each other: the one that has read the older `wp` may
store it last. -/
namespace MhiHost.Doorbells
open Cyclic (Window)
open Ringing

section Writes
variable {mmio more : List (Nat × Nat)} {since a v : Nat}

def Misses (a : Nat) (writes : List (Nat × Nat)) : Prop := ∀ write ∈ writes, write.1 ≠ a ∧ write.1 ≠ a+4

def Begun (mmio : List (Nat × Nat)) (since a v : Nat) : Prop :=
  ∃ x y, mmio = x ++ (a+4,v / 2^32) :: y ∧ since ≤ x.length ∧ Misses a y

/- Both words have, and nothing after them. -/
def Tells (mmio : List (Nat × Nat)) (since a v : Nat) : Prop :=
  ∃ x y z, mmio = x ++ (a+4,v / 2^32) :: (y ++ (a,v % 2^32) :: z) ∧ since ≤ x.length ∧ Misses a y ∧ Misses a z

theorem Misses.append {x y : List (Nat × Nat)} (first : Misses a x) (second : Misses a y) : Misses a (x ++ y) :=
  fun write inside => (List.mem_append.mp inside).elim (first write) (second write)

theorem Begun.add (begun : Begun mmio since a v) (misses : Misses a more) : Begun (mmio ++ more) since a v := by
  obtain ⟨x,y,rfl,late,clear⟩ := begun
  exact ⟨x,y ++ more,by simp,late,clear.append misses⟩

theorem Tells.add (told : Tells mmio since a v) (misses : Misses a more) : Tells (mmio ++ more) since a v := by
  obtain ⟨x,y,z,rfl,late,clear,last⟩ := told
  exact ⟨x,y,z ++ more,by simp,late,clear,last.append misses⟩

theorem begin (late : since ≤ mmio.length) : Begun (mmio ++ [(a+4,v / 2^32)]) since a v :=
  ⟨mmio,[],rfl,late,nofun⟩

theorem Begun.tells (begun : Begun mmio since a v) : Tells (mmio ++ [(a,v % 2^32)]) since a v := by
  obtain ⟨x,y,rfl,late,clear⟩ := begun
  exact ⟨x,y,[],by simp,late,clear,nofun⟩

end Writes

def abandoning : ChanOp → Bool
  | .unfilled => true
  | .stopping _ => true
  | .resetting _ => true
  | _ => false

/- Where a thread still has to begin a ring of channel `i`. -/
def owes (i : Nat) : Pc → Prop
  | .idle => False
  | .moved => True
  | .filled j => j = i
  | .arming j | .testing j => j ≤ i
  | .ringing j .entered loop => j = i ∨ loop = true ∧ j < i
  | .ringing j _ loop => loop = true ∧ j < i

section
variable {τ : Type}

def mmio (s : Scene τ) : List (Nat × Nat) := s.threads.host.cntrl.mmio

structure Needed (s : Scene τ) (i : Nat) : Prop where
  opened : mhiDbAccessValid s.threads.host.cntrl = true
  unqueued : s.threads.filled i = []
  running : abandoning (s.threads.op i) = false
  loaded : (s.chan i).treRing.rp ≠ (s.chan i).treRing.wp

def Owed (s : Scene τ) (i : Nat) : Prop := ∃ t, owes i (s.pc t)
def Inside (s : Scene τ) (i : Nat) : Prop := ∃ t, (s.pc t).inside i = true

def Told (own : Nat → Prop) (s : Scene τ) (i : Nat) : Prop :=
  own i → Tells (mmio s) (s.armedAt i) (s.chan i).treRing.dbAddr (s.chan i).dbCfg.dbVal

structure Announced (own : Nat → Prop) (s : Scene τ) (i : Nat) : Prop where
  context : (s.chan i).treRing.ctxtWp = (s.chan i).treRing.db
  mode : (s.chan i).dbCfg.brstmode = .disable ∧ (s.chan i).dbCfg.dbVal = (s.chan i).treRing.ctxtWp ∨
    (s.chan i).dbCfg.brstmode = .enable ∧ (s.chan i).dbCfg.dbMode = false
  told : Told own s i

/- `db` is the end of the ring, or somebody will ring again. -/
def Fresh (s : Scene τ) (i db : Nat) : Prop := Needed s i → ¬Owed s i → db = (s.chan i).treRing.db

def Due (cfg : DbCfg) : Prop := cfg.brstmode = .disable ∨ cfg.dbMode = true

/- What a ring has done so far. -/
def Carries (own : Nat → Prop) (s : Scene τ) (i : Nat) : Stage → Prop
  | .entered => True
  | .loaded db => Fresh s i db
  | .stored db => (s.chan i).treRing.ctxtWp = db ∧ Fresh s i db
  | .chosen db => (s.chan i).treRing.ctxtWp = db ∧ (s.chan i).dbCfg.dbVal = db ∧ Fresh s i db ∧ Due (s.chan i).dbCfg
  | .upper db => (s.chan i).treRing.ctxtWp = db ∧ (s.chan i).dbCfg.dbVal = db ∧ Fresh s i db ∧ Due (s.chan i).dbCfg ∧
      (own i → Begun (mmio s) (s.armedAt i) (s.chan i).treRing.dbAddr db)
  | .lower => (s.chan i).treRing.ctxtWp = (s.chan i).dbCfg.dbVal ∧ Fresh s i (s.chan i).dbCfg.dbVal ∧ Told own s i

structure ChanInv (own : Nat → Prop) (door : Nat) (s : Scene τ) (i : Nat) : Prop where
  door : (s.chan i).treRing.dbAddr = door
  armed : own i → s.armedAt i ≤ (mmio s).length
  alone : ∀ t u, (s.pc t).inside i = true → (s.pc u).inside i = true → t = u
  carries : ∀ t stage loop, s.pc t = .ringing i stage loop → Carries own s i stage
  settled : (s.chan i).dbCfg.brstmode = .enable → (s.chan i).dbCfg.dbMode = false →
    (s.chan i).bufRing.base ≠ 0 ∨ (s.chan i).treRing.rp ≠ (s.chan i).treRing.wp → Told own s i
  rung : Needed s i → Owed s i ∨ Inside s i ∨ Announced own s i

/- A step that leaves the doorbell of channel `i` alone. -/
structure Still (own : Nat → Prop) (i : Nat) (s s' : Scene τ) : Prop where
  armedAt : s'.armedAt i = s.armedAt i
  spares : own i → Spares i s.threads s'.threads
  cfg : (s'.chan i).dbCfg = (s.chan i).dbCfg
  ring : ∃ rp wp, (s'.chan i).treRing = {(s.chan i).treRing with rp := rp, wp := wp}
  context : (s'.chan i).bufRing.base ≠ 0 ∨ (s'.chan i).treRing.rp ≠ (s'.chan i).treRing.wp →
    (s.chan i).bufRing.base ≠ 0 ∨ (s.chan i).treRing.rp ≠ (s.chan i).treRing.wp
  inside : ∀ t, (s'.pc t).inside i = (s.pc t).inside i
  stages : ∀ t stage loop, s'.pc t = .ringing i stage loop → stage = .entered ∨ ∃ loop', s.pc t = .ringing i stage loop'
  need : Needed s' i → Owed s' i ∨ Needed s i ∧ ¬Owed s i ∧ (s'.chan i).treRing.wp = (s.chan i).treRing.wp

namespace Still
variable {own : Nat → Prop} {i db : Nat} {s s' : Scene τ}

theorem told (still : Still own i s s') (told : Told own s i) : Told own s' i := by
  intro ours
  obtain ⟨more,grown,misses⟩ := still.spares ours
  obtain ⟨rp,wp,ring⟩ := still.ring
  unfold mmio
  rw [still.armedAt,still.cfg,grown,ring]
  exact (told ours).add misses

theorem dbSame (still : Still own i s s') (same : (s'.chan i).treRing.wp = (s.chan i).treRing.wp) :
    (s'.chan i).treRing.db = (s.chan i).treRing.db := by
  obtain ⟨rp,wp,ring⟩ := still.ring
  rw [ring] at same ⊢
  obtain rfl : wp = (s.chan i).treRing.wp := same
  rfl

theorem ctxt (still : Still own i s s') : (s'.chan i).treRing.ctxtWp = (s.chan i).treRing.ctxtWp := by
  obtain ⟨rp,wp,ring⟩ := still.ring
  rw [ring]

theorem fresh (still : Still own i s s') (fresh : Fresh s i db) : Fresh s' i db := by
  intro need unowed
  rcases still.need need with owed | ⟨before,without,same⟩
  · exact absurd owed unowed
  · rw [still.dbSame same]
    exact fresh before without

theorem carries (still : Still own i s s') {stage : Stage} (before : Carries own s i stage) : Carries own s' i stage := by
  cases stage with
  | entered => trivial
  | loaded db => exact still.fresh before
  | stored db => exact ⟨still.ctxt.trans before.1,still.fresh before.2⟩
  | chosen db =>
    obtain ⟨context,value,fresh,due⟩ := before
    exact ⟨still.ctxt.trans context,by rw [still.cfg]; exact value,still.fresh fresh,by rw [still.cfg]; exact due⟩
  | upper db =>
    obtain ⟨context,value,fresh,due,begun⟩ := before
    refine ⟨still.ctxt.trans context,by rw [still.cfg]; exact value,still.fresh fresh,by rw [still.cfg]; exact due,fun ours => ?_⟩
    obtain ⟨more,grown,misses⟩ := still.spares ours
    obtain ⟨rp,wp,ring⟩ := still.ring
    unfold mmio
    rw [still.armedAt,grown,ring]
    exact (begun ours).add misses
  | lower =>
    obtain ⟨context,fresh,told⟩ := before
    exact ⟨by rw [still.ctxt,still.cfg]; exact context,by rw [still.cfg]; exact still.fresh fresh,still.told told⟩

theorem announced (still : Still own i s s') (same : (s'.chan i).treRing.wp = (s.chan i).treRing.wp)
    (before : Announced own s i) : Announced own s' i := by
  refine ⟨?_,?_,still.told before.told⟩
  · rw [still.ctxt,still.dbSame same]
    exact before.context
  · rw [still.ctxt,still.cfg]
    exact before.mode

theorem inv {door : Nat} (still : Still own i s s') (inv : ChanInv own door s i) : ChanInv own door s' i := by
  refine ⟨?_,fun ours => ?_,fun t u first second => ?_,fun t stage loop here => ?_,fun burst off live => ?_,fun need => ?_⟩
  · obtain ⟨rp,wp,ring⟩ := still.ring
    rw [ring]
    exact inv.door
  · obtain ⟨more,grown,-⟩ := still.spares ours
    have before := inv.armed ours
    unfold mmio at before ⊢
    rw [still.armedAt,grown,List.length_append]
    omega
  · exact inv.alone t u (still.inside t ▸ first) (still.inside u ▸ second)
  · rcases still.stages t stage loop here with rfl | ⟨loop',before⟩
    · trivial
    · exact still.carries (inv.carries t stage loop' before)
  · rw [still.cfg] at burst off
    exact still.told (inv.settled burst off (still.context live))
  · rcases still.need need with owed | ⟨before,without,same⟩
    · exact .inl owed
    · rcases inv.rung before with owed | ⟨t,here⟩ | announced
      · exact absurd owed without
      · exact .inr (.inl ⟨t,(still.inside t).trans here⟩)
      · exact .inr (.inr (still.announced same announced))

theorem goes {threads : Threads} (spares : own i → Spares i s.threads threads) (cfg : (threads.chan i).dbCfg = (s.chan i).dbCfg)
    (ring : ∃ rp wp, (threads.chan i).treRing = {(s.chan i).treRing with rp := rp, wp := wp})
    (context : (threads.chan i).bufRing.base ≠ 0 ∨ (threads.chan i).treRing.rp ≠ (threads.chan i).treRing.wp →
      (s.chan i).bufRing.base ≠ 0 ∨ (s.chan i).treRing.rp ≠ (s.chan i).treRing.wp)
    (calm : Needed (s.goes threads) i → Needed s i ∧ (threads.chan i).treRing.wp = (s.chan i).treRing.wp) :
    Still own i s (s.goes threads) := by
  refine ⟨rfl,spares,cfg,ring,context,fun _ => rfl,fun t stage loop here => .inr ⟨loop,here⟩,fun need => ?_⟩
  by_cases owed : Owed s i
  · exact .inl owed
  · exact .inr ⟨(calm need).1,owed,(calm need).2⟩

theorem turn [DecidableEq τ] (still : Still own i s s') {t : τ} {pc : Pc} (inside : pc.inside i = (s'.pc t).inside i)
    (entered : ∀ stage loop, pc = .ringing i stage loop → stage = .entered ∨ ∃ loop', s'.pc t = .ringing i stage loop')
    (keeps : Needed (s'.turn t pc) i → owes i (s'.pc t) → owes i pc) : Still own i s (s'.turn t pc) := by
  refine ⟨still.armedAt,still.spares,still.cfg,still.ring,still.context,fun u => ?_,fun u stage loop here => ?_,fun need => ?_⟩
  · by_cases same : u = t
    · subst u
      show (Function.update s'.pc t pc t).inside i = _
      rw [Function.update_self,inside,still.inside]
    · show (Function.update s'.pc t pc u).inside i = _
      rw [Function.update_of_ne same,still.inside]
  · have here : Function.update s'.pc t pc u = .ringing i stage loop := here
    by_cases same : u = t
    · subst u
      rw [Function.update_self] at here
      rcases entered stage loop here with first | ⟨loop',before⟩
      · exact .inl first
      · exact still.stages t stage loop' before
    · rw [Function.update_of_ne same] at here
      exact still.stages u stage loop here
  · have need' : Needed s' i := ⟨need.opened,need.unqueued,need.running,need.loaded⟩
    rcases still.need need' with ⟨u,owing⟩ | calm
    · by_cases same : u = t
      · subst u
        exact .inl ⟨t,by show owes i (Function.update s'.pc t pc t); rw [Function.update_self]; exact keeps need owing⟩
      · exact .inl ⟨u,by show owes i (Function.update s'.pc t pc u); rw [Function.update_of_ne same]; exact owing⟩
    · by_cases now : owes i pc
      · exact .inl ⟨t,by show owes i (Function.update s'.pc t pc t); rw [Function.update_self]; exact now⟩
      · exact .inr calm

end Still

end

section Moves
variable {w : Window} {b b' : Book} {st st' : Station}

theorem phaseContext {t f k o k' o'} (moved : Phase t k o k' o') (sound : Sound w ⟨k,o,t,f⟩) :
    (k'.bufBase ≠ 0 → k.bufBase ≠ 0) ∧ (abandoning o' = false → k.tre.rp ≠ k.tre.wp → abandoning o = false) := by
  cases moved with
  | abandoned stands =>
    refine ⟨fun some => ?_,fun _ _ => by rcases stands with rfl | rfl <;> rfl⟩
    unfold Core.released at some
    split at some
    · exact some
    · exact absurd rfl some
  | removed =>
    refine ⟨fun some => ?_,fun _ _ => rfl⟩
    dsimp only at some
    split at some
    · unfold Core.released at some
      split at some
      · exact some
      · exact absurd rfl some
    · exact some
  | noMemory own off => exact ⟨fun some => absurd rfl some,fun _ _ => rfl⟩
  | deinit => exact ⟨fun some => absurd rfl some,fun _ _ => rfl⟩
  | offload alien off => exact ⟨id,fun _ _ => rfl⟩
  | sent => exact ⟨id,fun _ _ => rfl⟩
  | stop free on unlocked => exact ⟨id,fun stopped => nomatch stopped⟩
  | reset own => exact ⟨id,fun stopped => nomatch stopped⟩
  | suspend free unlocked own => exact ⟨id,fun stopped => nomatch stopped⟩
  | skip alien => exact ⟨id,fun _ more => absurd (sound.alien alien).2.1 more⟩
  | detach free unlocked alien => exact ⟨id,fun _ more => absurd (sound.alien alien).2.1 more⟩
  | emptied done => exact ⟨id,fun _ more => absurd done more⟩

structure Leaves (b : Book) (st : Station) (b' : Book) (st' : Station) : Prop where
  opened : b'.opened = true → b.opened = true
  cfg : st'.core.dbCfg = st.core.dbCfg
  ring : ∃ rp wp, st'.core.tre = {st.core.tre with rp := rp, wp := wp}
  context : st'.core.bufBase ≠ 0 ∨ st'.core.tre.rp ≠ st'.core.tre.wp → st.core.bufBase ≠ 0 ∨ st.core.tre.rp ≠ st.core.tre.wp
  calm : st'.filled = [] → abandoning st'.op = false → st'.core.tre.rp ≠ st'.core.tre.wp →
    st.filled = [] ∧ abandoning st.op = false ∧ st.core.tre.rp ≠ st.core.tre.wp ∧ st'.core.tre.wp = st.core.tre.wp

theorem leavesSame (opened : b'.opened = true → b.opened = true) (core : st'.core = st.core) (filled : st'.filled = st.filled)
    (op : st'.op = st.op) : Leaves b st b' st' := by
  refine ⟨opened,by rw [core],⟨st.core.tre.rp,st.core.tre.wp,by rw [core]⟩,by rw [core]; exact id,?_⟩
  rw [core,filled,op]
  exact fun unqueued running loaded => ⟨unqueued,running,loaded,rfl⟩

theorem calmLeaves (moved : Calm w Live b st b' st') (sound : Sound w st) : Leaves b st b' st' := by
  cases moved with
  | fill buf allowed free =>
    exact ⟨id,rfl,⟨_,_,rfl⟩,fun _ => .inl allowed,fun none => nomatch none⟩
  | event u on loaded uncalled goal => exact leavesSame id rfl rfl rfl
  | take u cell uncalled more =>
    have loaded := (levelTake u sound.busy more rfl).2
    exact ⟨id,rfl,⟨_,_,rfl⟩,fun _ => .inr loaded,fun none running _ => ⟨none,running,loaded,rfl⟩⟩
  | leave u uncalled => exact leavesSame id rfl rfl rfl
  | resetTurn more => exact ⟨by simp,rfl,⟨_,_,rfl⟩,fun _ => .inr more,fun _ running => nomatch running⟩
  | @phase k o t f k' o' moved =>
    obtain ⟨tre,cfg,-⟩ := moved.still
    obtain ⟨context,running⟩ := phaseContext moved sound
    refine ⟨id,cfg,⟨k.tre.rp,k.tre.wp,tre⟩,?_,fun none stands more => ?_⟩
    · dsimp only
      rw [tre]
      exact Or.imp_left context
    · dsimp only at none stands more ⊢
      rw [tre] at more ⊢
      exact ⟨none,running stands more,more,rfl⟩

end Moves

section Steps
variable {τ : Type} {own : Nat → Prop} {w : Nat → Window} {n i j : Nat} {m2NoDb : Bool} {s s' : Scene τ} {threads : Threads}

theorem leavesStill (spares : own j → Spares j s.threads threads)
    (leaves : Leaves s.threads.host.cntrl.book (s.threads.station j) threads.host.cntrl.book (threads.station j)) :
    Still own j s (s.goes threads) := by
  refine .goes spares leaves.cfg leaves.ring leaves.context fun need => ?_
  obtain ⟨unqueued,running,loaded,wp⟩ := leaves.calm need.unqueued need.running need.loaded
  exact ⟨⟨leaves.opened need.opened,unqueued,running,loaded⟩,wp⟩

theorem besideStill (beside : Beside i s.threads threads) (other : j ≠ i)
    (opened : threads.host.cntrl.book.opened = true → s.threads.host.cntrl.book.opened = true)
    (spares : own j → Spares j s.threads threads) : Still own j s (s.goes threads) := by
  have chan : threads.chan j = s.threads.chan j := beside.host.others j other
  exact leavesStill spares (leavesSame opened (congrArg Chan.core chan) (beside.filled j other) (beside.op j other))

theorem quietStill (step : QuietStep w Live i s.threads threads) (sound : Sound (w i) (s.threads.station i))
    (spares : ∀ j, own j → Spares j s.threads threads) (j : Nat) : Still own j s (s.goes threads) := by
  have leaves : Leaves s.threads.host.cntrl.book (s.threads.station i) threads.host.cntrl.book (threads.station i) := by
    rcases quietShows step with ⟨book,station⟩ | moved
    · rw [book,station]
      exact leavesSame id rfl rfl rfl
    · exact calmLeaves moved sound
  by_cases same : j = i
  · subst j
    exact leavesStill (spares i) leaves
  · exact besideStill (quietBeside step) same leaves.opened (spares j)

theorem hostStill (step : HostStep s.threads threads) (access : s.threads.host.cntrl.dbAccess = dbAccessOf m2NoDb)
    (spares : ∀ j, own j → Spares j s.threads threads) (j : Nat) : Still own j s (s.goes threads) := by
  have station : threads.station j = s.threads.station j := by
    rcases (hostMoves step).2 with view | moved
    · exact congrFun (congrArg View.station view) j
    · generalize after : threads.view = v at moved
      have stations := congrFun (congrArg View.station after) j
      cases moved <;> exact stations
  have opened : threads.host.cntrl.book.opened = true → s.threads.host.cntrl.book.opened = true := by
    rcases (hostMoves step).2 with view | moved
    · rw [show threads.host.cntrl.book = s.threads.host.cntrl.book from congrArg View.book view]
      exact id
    · generalize after : threads.view = v at moved
      have book : threads.host.cntrl.book = v.book := congrArg View.book after
      have shut {pm : PmState} (reached : mhiTrysetPmState s.threads.host.cntrl.pmState pm = pm) (other : pm ≠ .m0)
          (open_ : pm.within s.threads.host.cntrl.dbAccess = true) : s.threads.host.cntrl.book.opened = true := by
        rw [access,← reached] at open_
        show s.threads.host.cntrl.pmState.within s.threads.host.cntrl.dbAccess = true
        rw [access]
        exact driftOpened other open_
      rw [book]
      cases moved with
      | goes pm reached target =>
        refine shut reached ?_
        rintro rfl
        simp [mhiPmInErrorState,PmState.bit,PmState.index] at target
      | enter reached quiet => exact shut reached nofun
  exact leavesStill (spares j) (leavesSame opened (congrArg Station.core station) (congrArg Station.filled station) (congrArg Station.op station))

end Steps

section Pcs
variable {i j : Nat} {loop : Bool} {stage : Stage}

theorem insideOf (begun : stage ≠ .entered) : (Pc.ringing i stage loop).inside i = true := by
  cases stage with
  | entered => exact absurd rfl begun
  | _ => exact decide_eq_true rfl

theorem insideElse (other : j ≠ i) : (Pc.ringing i stage loop).inside j = false := by
  cases stage with
  | entered => rfl
  | _ => exact decide_eq_false other.symm

theorem owesElse (other : j ≠ i) : owes j (.ringing i stage loop) ↔ loop = true ∧ i < j := by
  cases stage with
  | entered => exact or_iff_right other.symm
  | _ => exact Iff.rfl

theorem owesInside (begun : stage ≠ .entered) : ¬owes i (.ringing i stage loop) := by
  cases stage with
  | entered => exact absurd rfl begun
  | _ => exact fun owing => Nat.lt_irrefl i owing.2

theorem insideAfter : (Pc.after i loop).inside j = false := by cases loop <;> rfl

theorem owesAfter : owes j (.after i loop) ↔ loop = true ∧ i < j := by
  cases loop with
  | false => exact iff_of_false id fun both => Bool.false_ne_true both.1
  | true => exact (and_iff_right rfl).symm

theorem afterElse {stage : Stage} {loop' : Bool} (same : Pc.after i loop = .ringing j stage loop') : False := by
  cases loop <;> cases same

end Pcs

section Rings
variable {τ : Type} {own : Nat → Prop} {i j t' : Nat} {door : Nat} {s s' : Scene τ}

theorem rings {t : τ} {stage : Stage} {loop : Bool} (here : s.pc t = .ringing i stage loop) (begun : stage ≠ .entered) :
    (s.pc t).inside i = true ∧ ¬owes i (s.pc t) := by
  rw [here]
  exact ⟨insideOf begun,owesInside begun⟩

theorem unattended (free : Free i s) (addr : (s.chan i).treRing.dbAddr = door) (armed : own i → s.armedAt i ≤ (mmio s).length)
    (settled : (s.chan i).dbCfg.brstmode = .enable → (s.chan i).dbCfg.dbMode = false →
      (s.chan i).bufRing.base ≠ 0 ∨ (s.chan i).treRing.rp ≠ (s.chan i).treRing.wp → Told own s i)
    (rung : Needed s i → Owed s i ∨ Announced own s i) : ChanInv own door s i where
  door := addr
  armed := armed
  alone t u first := absurd first (by simp [free t])
  carries t stage loop here := by
    by_cases begun : stage = .entered
    · rw [begun]
      trivial
    · have inside : (s.pc t).inside i = true := by rw [here]; exact insideOf begun
      exact absurd inside (by simp [free t])
  settled := settled
  rung need := (rung need).imp_right .inr

theorem attended {t : τ} {stage : Stage} {loop : Bool} (here : s.pc t = .ringing i stage loop) (begun : stage ≠ .entered)
    (only : ∀ u, (s.pc u).inside i = true → u = t) (addr : (s.chan i).treRing.dbAddr = door)
    (armed : own i → s.armedAt i ≤ (mmio s).length) (carries : Carries own s i stage)
    (settled : (s.chan i).dbCfg.brstmode = .enable → (s.chan i).dbCfg.dbMode = false →
      (s.chan i).bufRing.base ≠ 0 ∨ (s.chan i).treRing.rp ≠ (s.chan i).treRing.wp → Told own s i) : ChanInv own door s i where
  door := addr
  armed := armed
  alone u v first second := (only u first).trans (only v second).symm
  carries u stage' loop' there := by
    by_cases entered : stage' = .entered
    · rw [entered]
      trivial
    · obtain rfl := only u (by rw [there]; exact insideOf entered)
      rw [here] at there
      cases there
      exact carries
  settled := settled
  rung _ := .inr (.inl ⟨t,by rw [here]; exact insideOf begun⟩)

variable [DecidableEq τ] {t : τ} {pc : Pc}

theorem turnSelf : (s.turn t pc).pc t = pc := Function.update_self _ _ _
theorem turnElse {u : τ} (other : u ≠ t) : (s.turn t pc).pc u = s.pc u := Function.update_of_ne other _ _

theorem freeAfter (inv : ChanInv own door s i) (inside : (s.pc t).inside i = true) (same : s'.pc = s.pc)
    (outside : pc.inside i = false) :
    Free i (s'.turn t pc) := by
  intro u
  by_cases self : u = t
  · rw [self,turnSelf]
    exact outside
  · rw [turnElse self,same]
    exact eq_false_of_ne_true fun other => self (inv.alone u t other inside)

theorem onlyAfter (inv : ChanInv own door s i) (inside : (s.pc t).inside i = true) (same : s'.pc = s.pc) :
    ∀ u, ((s'.turn t pc).pc u).inside i = true → u = t := by
  intro u other
  by_cases self : u = t
  · exact self
  · rw [turnElse self,same] at other
    exact inv.alone u t other inside

theorem owedAfter (same : s'.pc = s.pc) (keeps : owes i (s.pc t) → owes i pc) (owed : Owed s i) : Owed (s'.turn t pc) i := by
  obtain ⟨u,owing⟩ := owed
  by_cases self : u = t
  · rw [self] at owing
    exact ⟨t,by rw [turnSelf]; exact keeps owing⟩
  · exact ⟨u,by rw [turnElse self,same]; exact owing⟩

theorem freshAfter {db : Nat} (same : s'.pc = s.pc) (keeps : owes i (s.pc t) → owes i pc)
    (need : Needed (s'.turn t pc) i → Needed s i)
    (ring : (s'.chan i).treRing.db = (s.chan i).treRing.db) (fresh : Fresh s i db) : Fresh (s'.turn t pc) i db := by
  intro need' unowed
  have db' : db = (s.chan i).treRing.db := fresh (need need') fun owed => unowed (owedAfter same keeps owed)
  exact db'.trans ring.symm

theorem besideRing (still : Still own j s s') (same : s'.pc = s.pc) {stage : Stage} {loop : Bool}
    (here : s.pc t = .ringing i stage loop)
    (other : j ≠ i) (goes : (∃ next, pc = .ringing i next loop) ∨ pc = .after i loop) : Still own j s (s'.turn t pc) := by
  have before : (s'.pc t).inside j = false := by rw [same,here]; exact insideElse other
  have owing : owes j (s'.pc t) ↔ loop = true ∧ i < j := by rw [same,here]; exact owesElse other
  rcases goes with ⟨next,rfl⟩ | rfl
  · refine still.turn ((insideElse other).trans before.symm) (fun stage' loop' there => ?_) fun _ owed =>
      (owesElse other).mpr (owing.mp owed)
    cases there
    exact absurd rfl other
  · exact still.turn (insideAfter.trans before.symm) (fun stage' loop' there => (afterElse there).elim)
      fun _ owed => owesAfter.mpr (owing.mp owed)

theorem Due.unsettled {cfg : DbCfg} (due : Due cfg) (burst : cfg.brstmode = .enable) (off : cfg.dbMode = false) : False := by
  rcases due with disabled | on
  · rw [disabled] at burst
    cases burst
  · rw [on] at off
    cases off

structure Retouched (ch ch' : Chan) : Prop where
  ring : ∃ ctxtWp, ch'.treRing = {ch.treRing with ctxtWp := ctxtWp}
  base : ch'.bufRing.base = ch.bufRing.base

section Retouched
variable {ch : Chan}

theorem chanSet : ((s.setChan i ch).turn t pc).chan i = ch := Function.update_self _ _ _

theorem retouchedNeed (touched : Retouched (s.chan i) ch) (need : Needed ((s.setChan i ch).turn t pc) i) : Needed s i := by
  refine ⟨need.opened,need.unqueued,need.running,?_⟩
  obtain ⟨ctxtWp,ring⟩ := touched.ring
  have loaded := need.loaded
  rw [chanSet,ring] at loaded
  exact loaded

theorem retouchedFresh {db : Nat} (touched : Retouched (s.chan i) ch) (keeps : ¬owes i (s.pc t)) (fresh : Fresh s i db) :
    Fresh ((s.setChan i ch).turn t pc) i db := by
  refine freshAfter (s := s) rfl (fun owing => absurd owing keeps) (retouchedNeed touched) ?_ fresh
  obtain ⟨ctxtWp,ring⟩ := touched.ring
  rw [show (s.setChan i ch).chan i = ch from Function.update_self _ _ _,ring]
  rfl

theorem retouchedDoor (touched : Retouched (s.chan i) ch) (addr : (s.chan i).treRing.dbAddr = door) :
    (((s.setChan i ch).turn t pc).chan i).treRing.dbAddr = door := by
  obtain ⟨ctxtWp,ring⟩ := touched.ring
  rw [chanSet,ring]
  exact addr

end Retouched

section Stages
variable {loop : Bool} {db : Nat}

theorem writtenFresh {offset val : Nat} (unowing : ¬owes i (s.pc t)) (fresh : Fresh s i db) :
    Fresh ((s.write i offset val).turn t pc) i db :=
  freshAfter (s := s) rfl (fun owing => absurd owing unowing)
    (fun need => ⟨need.opened,need.unqueued,need.running,need.loaded⟩) rfl fresh

theorem writtenArmed {offset val : Nat} (armed : own i → s.armedAt i ≤ (mmio s).length) (ours : own i) :
    s.armedAt i ≤ (mmio ((s.write i offset val).turn t pc)).length :=
  (armed ours).trans (List.length_append ▸ Nat.le_add_right _ _)

theorem loadInv (free : Free i s) (inv : ChanInv own door s i) :
    ChanInv own door (s.turn t (.ringing i (.loaded (s.chan i).treRing.db) loop)) i := by
  refine attended turnSelf Stage.noConfusion (fun u inside => ?_) inv.door inv.armed (fun _ _ => rfl) inv.settled
  by_contra other
  rw [turnElse other,free u] at inside
  cases inside

theorem storeInv (here : s.pc t = .ringing i (.loaded db) loop) (inv : ChanInv own door s i) :
    ChanInv own door ((s.setChan i {s.chan i with treRing := {(s.chan i).treRing with ctxtWp := db}}).turn t
      (.ringing i (.stored db) loop)) i := by
  obtain ⟨inside,unowing⟩ := rings here Stage.noConfusion
  have touched : Retouched (s.chan i) {s.chan i with treRing := {(s.chan i).treRing with ctxtWp := db}} := ⟨⟨db,rfl⟩,rfl⟩
  refine attended turnSelf Stage.noConfusion (onlyAfter inv inside rfl) (retouchedDoor touched inv.door) inv.armed
    ⟨?_,retouchedFresh touched unowing (inv.carries t _ loop here)⟩ ?_
  · rw [chanSet]
  · rw [Told,chanSet]
    exact inv.settled

theorem unarmedInv (here : s.pc t = .ringing i (.stored db) loop) (burst : (s.chan i).dbCfg.brstmode = .enable)
    (off : (s.chan i).dbCfg.dbMode = false) (inv : ChanInv own door s i) : ChanInv own door (s.turn t (.after i loop)) i := by
  obtain ⟨inside,unowing⟩ := rings here Stage.noConfusion
  obtain ⟨context,fresh⟩ := inv.carries t _ loop here
  refine unattended (freeAfter inv inside rfl insideAfter) inv.door inv.armed inv.settled fun need => ?_
  have need' : Needed s i := ⟨need.opened,need.unqueued,need.running,need.loaded⟩
  by_cases owed : Owed s i
  · exact .inl (owedAfter rfl (fun owing => absurd owing unowing) owed)
  · exact .inr ⟨context.trans (fresh need' owed),.inr ⟨burst,off⟩,inv.settled burst off (.inr need.loaded)⟩

theorem chooseInv (here : s.pc t = .ringing i (.stored db) loop) (due : Due (s.chan i).dbCfg) (inv : ChanInv own door s i) :
    ChanInv own door ((s.setChan i {s.chan i with dbCfg := {(s.chan i).dbCfg with dbVal := db}}).turn t (.ringing i (.chosen db) loop)) i := by
  obtain ⟨inside,unowing⟩ := rings here Stage.noConfusion
  have touched : Retouched (s.chan i) {s.chan i with dbCfg := {(s.chan i).dbCfg with dbVal := db}} := ⟨⟨_,rfl⟩,rfl⟩
  obtain ⟨context,fresh⟩ := inv.carries t _ loop here
  refine attended turnSelf Stage.noConfusion (onlyAfter inv inside rfl) (retouchedDoor touched inv.door) inv.armed
    ⟨?_,?_,retouchedFresh touched unowing fresh,?_⟩ ?_
  · rw [chanSet]
    exact context
  · rw [chanSet]
  · rw [chanSet]
    exact due
  · rw [chanSet]
    exact fun burst off => (due.unsettled burst off).elim

theorem upperInv (here : s.pc t = .ringing i (.chosen db) loop) (inv : ChanInv own door s i) :
    ChanInv own door ((s.write i 4 (db / 2^32)).turn t (.ringing i (.upper db) loop)) i := by
  obtain ⟨inside,unowing⟩ := rings here Stage.noConfusion
  obtain ⟨context,value,fresh,due⟩ := inv.carries t _ loop here
  exact attended turnSelf Stage.noConfusion (onlyAfter inv inside rfl) inv.door (writtenArmed inv.armed)
    ⟨context,value,writtenFresh unowing fresh,due,fun ours => begin (inv.armed ours)⟩ fun burst off =>
      (due.unsettled burst off).elim

theorem lowerInv (here : s.pc t = .ringing i (.upper db) loop) (inv : ChanInv own door s i) :
    ChanInv own door ((s.write i 0 (db % 2^32)).turn t (.ringing i .lower loop)) i := by
  obtain ⟨inside,unowing⟩ := rings here Stage.noConfusion
  obtain ⟨context,value,fresh,due,begun⟩ := inv.carries t _ loop here
  refine attended turnSelf Stage.noConfusion (onlyAfter inv inside rfl) inv.door (writtenArmed inv.armed)
    ⟨context.trans value.symm,?_,fun ours => ?_⟩ fun burst off => (due.unsettled burst off).elim
  · show Fresh _ i (s.chan i).dbCfg.dbVal
    rw [value]
    exact writtenFresh unowing fresh
  · show Tells (mmio s ++ [((s.chan i).treRing.dbAddr,db % 2^32)]) (s.armedAt i) (s.chan i).treRing.dbAddr (s.chan i).dbCfg.dbVal
    rw [value]
    exact (begun ours).tells

theorem clearInv (here : s.pc t = .ringing i .lower loop) (inv : ChanInv own door s i) :
    ChanInv own door ((s.setChan i {s.chan i with dbCfg := {(s.chan i).dbCfg with
      dbMode := (s.chan i).dbCfg.brstmode != .enable && (s.chan i).dbCfg.dbMode}}).turn t (.after i loop)) i := by
  obtain ⟨inside,unowing⟩ := rings here Stage.noConfusion
  have touched : Retouched (s.chan i) {s.chan i with dbCfg := {(s.chan i).dbCfg with
    dbMode := (s.chan i).dbCfg.brstmode != .enable && (s.chan i).dbCfg.dbMode}} := ⟨⟨_,rfl⟩,rfl⟩
  obtain ⟨context,fresh,told⟩ := inv.carries t _ loop here
  refine unattended (freeAfter inv inside rfl insideAfter) (retouchedDoor touched inv.door) inv.armed ?_ fun need => ?_
  · rw [Told,chanSet]
    exact fun _ _ _ => told
  by_cases owed : Owed s i
  · exact .inl (owedAfter rfl (fun owing => absurd owing unowing) owed)
  right
  have db := fresh (retouchedNeed touched need) owed
  refine ⟨?_,?_,?_⟩
  · rw [chanSet]
    exact context.trans db
  · rw [chanSet]
    cases mode : (s.chan i).dbCfg.brstmode with
    | disable => exact .inl ⟨rfl,context.symm⟩
    | enable => exact .inr ⟨rfl,rfl⟩
  · rw [Told,chanSet]
    exact told

end Stages

end Rings

section Heads
variable {τ : Type} {own : Nat → Prop} {w : Nat → Window} {n i j door : Nat} {m2NoDb : Bool} {s : Scene τ} {t : τ} {pc : Pc}
  {threads : Threads}

theorem sparesSame (mmio : threads.host.cntrl.mmio = s.threads.host.cntrl.mmio) : Spares j s.threads threads :=
  ⟨[],by rw [mmio,List.append_nil],fun write none => absurd none List.not_mem_nil⟩

theorem stillSame : Still own j s s := by
  show Still own j s (s.goes s.threads)
  exact leavesStill (fun _ => sparesSame rfl) (leavesSame id rfl rfl rfl)

theorem armElse (still : Still own j s (s.goes threads)) (other : j ≠ i) : Still own j s ((s.arm i).goes threads) :=
  ⟨Function.update_of_ne other _ _,still.spares,still.cfg,still.ring,still.context,still.inside,still.stages,
    fun need => still.need ⟨need.opened,need.unqueued,need.running,need.loaded⟩⟩

theorem armedElse {c : Bool} (still : Still own j s (s.goes threads)) (other : j ≠ i) :
    Still own j s ((if c then s.arm i else s).goes threads) := by
  cases c with
  | false => exact still
  | true => exact armElse still other

variable [DecidableEq τ]

theorem headStill (here : (s.pc t).inside i = false) (spares : own i → Spares i s.threads threads)
    (cfg : (threads.chan i).dbCfg = (s.chan i).dbCfg)
    (ring : ∃ rp wp, (threads.chan i).treRing = {(s.chan i).treRing with rp := rp, wp := wp})
    (context : (threads.chan i).bufRing.base ≠ 0 ∨ (threads.chan i).treRing.rp ≠ (threads.chan i).treRing.wp →
      (s.chan i).bufRing.base ≠ 0 ∨ (s.chan i).treRing.rp ≠ (s.chan i).treRing.wp)
    (outside : pc.inside i = false) (entered : ∀ stage loop, pc = .ringing i stage loop → stage = .entered)
    (owing : Needed ((s.goes threads).turn t pc) i → owes i pc) : Still own i s ((s.goes threads).turn t pc) where
  armedAt := rfl
  spares := spares
  cfg := cfg
  ring := ring
  context := context
  inside u := by
    by_cases self : u = t
    · rw [self,turnSelf,outside,here]
    · rw [turnElse self]
      rfl
  stages u stage loop there := by
    by_cases self : u = t
    · rw [self,turnSelf] at there
      exact .inl (entered stage loop there)
    · rw [turnElse self] at there
      exact .inr ⟨loop,there⟩
  need need := .inl ⟨t,by rw [turnSelf]; exact owing need⟩

section Entering
variable {due : Bool}

theorem enteringOutside : (if due then Pc.ringing i .entered false else .idle).inside j = false := by cases due <;> rfl

theorem enteringFirst {stage : Stage} {loop : Bool}
    (here : (if due then Pc.ringing i .entered false else .idle) = .ringing j stage loop) :
    stage = .entered := by
  cases due <;> cases here
  rfl

end Entering

theorem ringsSelf (here : (s.pc t).inside i = false) (spares : own i → Spares i s.threads threads)
    (cfg : (threads.chan i).dbCfg = (s.chan i).dbCfg)
    (ring : ∃ rp wp, (threads.chan i).treRing = {(s.chan i).treRing with rp := rp, wp := wp})
    (context : (threads.chan i).bufRing.base ≠ 0 ∨ (threads.chan i).treRing.rp ≠ (threads.chan i).treRing.wp →
      (s.chan i).bufRing.base ≠ 0 ∨ (s.chan i).treRing.rp ≠ (s.chan i).treRing.wp) :
    Still own i s ((s.goes threads).rings t i true) := by
  refine headStill here spares cfg ring context enteringOutside (fun _ _ => enteringFirst) fun need => ?_
  rw [if_pos (show (true && mhiDbAccessValid (s.goes threads).threads.host.cntrl) = true from need.opened)]
  exact .inl rfl

theorem ringsElse (still : Still own j s (s.goes threads)) (here : (s.pc t).inside j = false) (unowing : ¬owes j (s.pc t))
    (due : Bool) :
    Still own j s ((s.goes threads).rings t i due) :=
  still.turn (enteringOutside.trans here.symm) (fun _ _ there => .inl (enteringFirst there)) fun _ owing => absurd owing unowing

theorem queueStill {p : Port} {q : QueueReq} {err : Option Errno} (here : s.pc t = .idle) (allowed : Live (s.threads.station i))
    (ran : Ringing.mhiQueue (s.threads.port i) q = (p,err))
    (apart : ∀ j, own j → Spares j s.threads (s.threads.setPort i p)) (j : Nat) :
    Still own j s ((s.goes (s.threads.setPort i p)).rings t i err.isNone) := by
  obtain ⟨⟨pm,access⟩,pushed⟩ := queueHead ran
  have opened : p.cntrl.book.opened = s.threads.host.cntrl.book.opened := by
    unfold Book.opened
    rw [pm,access]
    rfl
  have idle : (s.pc t).inside j = false := by rw [here]; rfl
  have unowing : ¬owes j (s.pc t) := by rw [here]; exact id
  by_cases same : j = i
  · subst j
    have chan : (s.threads.setPort i p).chan i = p.chan := setPortSelf _ _ _
    rcases pushed with ⟨rfl,-,core⟩ | ⟨failed,core⟩
    · refine ringsSelf idle (apart i) ?_ ?_ fun _ => .inl allowed
      · rw [chan]
        exact congrArg Core.dbCfg core
      · rw [chan]
        exact ⟨_,_,congrArg Core.tre core⟩
    · refine ringsElse (leavesStill (apart i) (leavesSame ?_ ?_ rfl rfl)) idle unowing _
      · exact fun open_ => opened ▸ open_
      · rw [stationSetPort,core]
        rfl
  · exact ringsElse (besideStill (.setPort p) same (fun open_ => opened ▸ open_) (apart j)) idle unowing _

theorem finishStill {buf : Nat} (here : s.pc t = .idle)
    (apart : ∀ j, own j → Spares j s.threads (s.threads.setPort i (Ringing.mhiQueueBufFinish (s.threads.port i) buf))) (j : Nat) :
    Still own j s ((s.goes ((s.threads.setPort i (Ringing.mhiQueueBufFinish (s.threads.port i) buf)).setFilled i
      ((s.threads.filled i).erase buf))).rings t i true) := by
  obtain ⟨⟨pm,access⟩,core⟩ := finishHead (s.threads.port i) buf
  have opened : (Ringing.mhiQueueBufFinish (s.threads.port i) buf).cntrl.book.opened = s.threads.host.cntrl.book.opened := by
    unfold Book.opened
    rw [pm,access]
    rfl
  have idle : (s.pc t).inside j = false := by rw [here]; rfl
  have unowing : ¬owes j (s.pc t) := by rw [here]; exact id
  by_cases same : j = i
  · subst j
    have chan : ((s.threads.setPort i (Ringing.mhiQueueBufFinish (s.threads.port i) buf)).setFilled i ((s.threads.filled i).erase buf)).chan i =
        (Ringing.mhiQueueBufFinish (s.threads.port i) buf).chan := setPortSelf _ _ _
    refine ringsSelf idle (apart i) ?_ ?_ ?_
    · rw [chan]
      rfl
    · rw [chan]
      exact ⟨_,_,rfl⟩
    · rw [chan]
      exact id
  · exact ringsElse (besideStill ((Beside.setPort _).setFilled _) same (fun open_ => opened ▸ open_) (apart j)) idle unowing _

theorem filledStill (here : s.pc t = .filled i) (j : Nat) : Still own j s (s.rings t i true) := by
  have outside : (s.pc t).inside j = false := by rw [here]; rfl
  by_cases same : j = i
  · subst j
    show Still own i s ((s.goes s.threads).rings t i true)
    exact ringsSelf outside (fun _ => sparesSame rfl) rfl ⟨_,_,rfl⟩ id
  · have unowing : ¬owes j (s.pc t) := by rw [here]; exact Ne.symm same
    exact ringsElse stillSame outside unowing _

theorem pushesTre (m : Nat) (k : Core) : (k.pushes m).dbCfg = k.dbCfg ∧
    ∃ rp wp, (k.pushes m).tre = {k.tre with rp := rp, wp := wp} := by
  induction m generalizing k with
  | zero => exact ⟨rfl,k.tre.rp,k.tre.wp,rfl⟩
  | succ m ih =>
    obtain ⟨cfg,rp,wp,tre⟩ := ih k.push
    exact ⟨cfg,rp,wp,tre⟩

omit [DecidableEq τ] in
theorem settleStill {p : Port} {filled : Option Nat} {b : Nat} {u : Turn} {reply : DmaReply} (busy : s.threads.turn i = some u)
    (ran : Ringing.recycleBuf {s.threads.port i with cntrl := countUplink (s.chan i).dir (-1) s.threads.host.cntrl} b reply = (p,filled))
    (sound : Sound (w i) (s.threads.station i)) (j : Nat) : Still own j s (s.goes (((s.threads.setPort i p).setTurn i
      (some {u with called := none})).setFilled i (filled.toList ++ s.threads.filled i))) := by
  obtain ⟨cntrl,core⟩ := recycleHead ran
  obtain ⟨steady,silent⟩ := countKeeps (s.chan i).dir (-1) s.threads.host.cntrl
  have mmio : p.cntrl.mmio = s.threads.host.cntrl.mmio := by rw [cntrl]; exact silent
  have opened : p.cntrl.book.opened = s.threads.host.cntrl.book.opened := by
    unfold Book.opened
    rw [cntrl,steady.1,steady.2]
  by_cases same : j = i
  · subst j
    refine leavesStill (fun _ => sparesSame mmio) ?_
    have here : (((s.threads.setPort i p).setTurn i (some {u with called := none})).setFilled i
        (filled.toList ++ s.threads.filled i)).station i =
        ⟨p.chan.core,s.threads.op i,some {u with called := none},filled.toList ++ s.threads.filled i⟩ := by
      rw [stationSetFilled,stationSetTurn,stationSetPort]
      rfl
    rw [here]
    rcases core with ⟨rfl,core⟩ | ⟨alloc,some,-,core⟩
    · exact leavesSame (fun open_ => opened ▸ open_) core rfl rfl
    · obtain ⟨cb,rfl⟩ := Option.isSome_iff_exists.mp some
      have on : (s.chan i).core.chState = .enabled := sound.locked (by rw [show (s.threads.station i).turn = _ from busy]; simp)
      have live : (s.chan i).core.bufBase ≠ 0 := sound.live (sound.config alloc).2 (.inl on)
      rw [core]
      exact ⟨fun open_ => opened ▸ open_,rfl,⟨_,_,rfl⟩,fun _ => .inl live,fun none => absurd none (List.cons_ne_nil _ _)⟩
  · exact besideStill (((Beside.setPort p).setTurn _).setFilled _) same (fun open_ => opened ▸ open_) fun _ => sparesSame mmio

theorem prepareFinishStill {h : Host} {err : Option Errno} {inTime : Bool} {reply : Nat → Option Nat × DmaReply}
    (here : s.pc t = .idle)
    (stands : s.threads.op i = .starting)
    (ran : Ringing.prepareFinish (s.threads.host.setChan i (waitForCompletion (s.chan i) inTime).1) i
      (waitForCompletion (s.chan i) inTime).2 reply = (h,err)) (sound : Sound (w i) (s.threads.station i)) (j : Nat) :
    Still own j s ((s.goes ((s.threads.withHost h).setOp i (prepareOutcome (waitForCompletion (s.chan i) inTime) err))).turn t
      (if err.isNone && (s.chan i).preAlloc then .filled i else .idle)) := by
  obtain ⟨touched,cntrl,outcome⟩ := prepareFinishHead ran
  have mmio : h.cntrl.mmio = s.threads.host.cntrl.mmio := by rw [cntrl]; rfl
  have book : h.cntrl.book = s.threads.host.cntrl.book := by rw [cntrl]; rfl
  have idle : (s.pc t).inside j = false := by rw [here]; rfl
  have unowing : ¬owes j (s.pc t) := by rw [here]; exact id
  have outside : (if err.isNone && (s.chan i).preAlloc then Pc.filled i else .idle).inside j = false := by split <;> rfl
  have unringing (stage : Stage) (loop : Bool) (there : (if err.isNone && (s.chan i).preAlloc then Pc.filled i else .idle) =
      .ringing j stage loop) : stage = .entered := by split at there <;> cases there
  have moves (still : Still own j s (s.goes ((s.threads.withHost h).setOp i (prepareOutcome (waitForCompletion (s.chan i) inTime) err)))) :
      Still own j s ((s.goes ((s.threads.withHost h).setOp i (prepareOutcome (waitForCompletion (s.chan i) inTime) err))).turn t
        (if err.isNone && (s.chan i).preAlloc then .filled i else .idle)) :=
    still.turn (outside.trans idle.symm) (fun stage loop there => .inl (unringing stage loop there)) fun _ owing =>
      absurd owing unowing
  by_cases same : j = i
  · subst j
    have waited := waitCore (s.chan i) inTime
    have tre : (waitForCompletion (s.chan i) inTime).1.treRing = (s.chan i).core.tre := congrArg Core.tre waited
    have alloc : (waitForCompletion (s.chan i) inTime).1.preAlloc = (s.chan i).core.preAlloc := congrArg Core.preAlloc waited
    have before : s.threads.station i = ⟨(s.chan i).core,.starting,s.threads.turn i,s.threads.filled i⟩ := by
      rw [Threads.station,stands]
      rfl
    have after (o : ChanOp) : ((s.threads.withHost h).setOp i o).station i =
        ⟨(h.chans i).core,o,s.threads.turn i,s.threads.filled i⟩ := by
      rw [stationSetOp,stationWithHost]
      rfl
    have leaves (o : ChanOp) (leaves : Leaves s.threads.host.cntrl.book ⟨(s.chan i).core,.starting,s.threads.turn i,s.threads.filled i⟩
        s.threads.host.cntrl.book ⟨(h.chans i).core,o,s.threads.turn i,s.threads.filled i⟩) :
        Still own i s (s.goes ((s.threads.withHost h).setOp i o)) := by
      refine leavesStill (fun _ => sparesSame mmio) ?_
      rw [before,after]
      show Leaves _ _ h.cntrl.book _
      rw [book]
      exact leaves
    rw [setChanSelf,waited,tre,alloc] at outcome
    rcases outcome with ⟨silent,failed,core⟩ | ⟨answered,⟨client,rfl,core⟩ | ⟨filled,m,few,core⟩⟩
    · refine moves (leaves _ ?_)
      rw [before] at sound
      rw [core,prepareOutcome,if_pos silent]
      exact calmLeaves (w := w i) (.phase (.abandoned (.inr rfl))) sound
    · refine moves (leaves _ ?_)
      rw [core,prepareOutcome,answered]
      exact ⟨id,rfl,⟨_,_,rfl⟩,id,fun none _ more => ⟨none,rfl,more,rfl⟩⟩
    · obtain ⟨cfg,rp,wp,ring⟩ := pushesTre m (s.chan i).core.enable
      have live : (s.chan i).core.bufBase ≠ 0 := sound.live (sound.config filled).2 (.inr (.inr stands))
      refine headStill idle (fun _ => sparesSame mmio) ((congrArg Core.dbCfg core).trans cfg)
        ⟨rp,wp,(congrArg Core.tre core).trans ring⟩
        (fun _ => .inl live) outside unringing fun need => ?_
      have running : abandoning (Function.update s.threads.op i (prepareOutcome (waitForCompletion (s.chan i) inTime) err) i) = false :=
        need.running
      rw [Function.update_self,prepareOutcome,answered] at running
      cases err with
      | none =>
        rw [show (s.chan i).preAlloc = true from filled]
        exact rfl
      | some e => cases running
  · refine moves (besideStill ((Beside.withHost ((Touches.setChan i _ _).trans touched)).setOp _) same ?_ fun _ => sparesSame mmio)
    show h.cntrl.book.opened = true → _
    rw [book]
    exact id

omit [DecidableEq τ] in
theorem hostSameStill {h : Host} (chans : h.chans = s.threads.host.chans)
    (opened : h.cntrl.book.opened = true → s.threads.host.cntrl.book.opened = true)
    (spares : own j → Spares j s.threads (s.threads.withHost h)) :
    Still own j s (s.goes (s.threads.withHost h)) := by
  refine leavesStill spares (leavesSame opened ?_ rfl rfl)
  rw [stationWithHost,chans]
  rfl

theorem m0EnterStill (here : s.pc t = .idle) (j : Nat) :
    Still own j s ((s.goes (s.threads.withHost (m0Enter s.threads.host))).turn t
    (if (m0Enter s.threads.host).cntrl.pmState = .m0 then .moved else .idle)) := by
  have idle : (s.pc t).inside j = false := by rw [here]; rfl
  by_cases reached : (m0Enter s.threads.host).cntrl.pmState = .m0
  · rw [if_pos reached]
    exact headStill idle (fun _ => sparesSame rfl) rfl ⟨_,_,rfl⟩ id rfl (fun _ _ there => Pc.noConfusion there) fun _ => trivial
  · rw [if_neg reached]
    have stuck := (m0EnterHead s.threads.host).2.2.2.2.resolve_left reached
    have unowing : ¬owes j (s.pc t) := by rw [here]; exact id
    have opened : (m0Enter s.threads.host).cntrl.book.opened = true → s.threads.host.cntrl.book.opened = true := by
      unfold Book.opened
      rw [show (m0Enter s.threads.host).cntrl.book.pm = s.threads.host.cntrl.book.pm from stuck]
      exact id
    have still : Still own j s (s.goes (s.threads.withHost (m0Enter s.threads.host))) :=
      hostSameStill rfl opened fun _ => sparesSame rfl
    exact still.turn idle.symm (fun _ _ there => Pc.noConfusion there) fun _ owing => absurd owing unowing

theorem m0StartStill (here : s.pc t = .moved)
    (apart : ∀ j, own j → Spares j s.threads (s.threads.withHost (m0Start s.threads.host))) (j : Nat) :
    Still own j s ((s.goes (s.threads.withHost (m0Start s.threads.host))).turn t (.arming 0)) := by
  obtain ⟨-,chans,book⟩ := m0StartHead s.threads.host
  have outside : (s.pc t).inside j = false := by rw [here]; rfl
  exact (hostSameStill chans (by rw [book]; exact id) (apart j)).turn outside.symm (fun _ _ there => Pc.noConfusion there)
    fun _ _ => Nat.zero_le j

theorem m0EndStill (here : s.pc t = .arming i) (done : j < i)
    (apart : ∀ j, own j → Spares j s.threads (s.threads.withHost (m0End s.threads.host))) :
    Still own j s ((s.goes (s.threads.withHost (m0End s.threads.host))).turn t .idle) := by
  have outside : (s.pc t).inside j = false := by rw [here]; rfl
  have book : (m0End s.threads.host).cntrl.book = s.threads.host.cntrl.book := deassertBook _ _
  have still : Still own j s (s.goes (s.threads.withHost (m0End s.threads.host))) :=
    hostSameStill rfl (by rw [book]; exact id) (apart j)
  refine still.turn outside.symm (fun _ _ there => Pc.noConfusion there) fun _ owing => ?_
  rw [show (s.goes (s.threads.withHost (m0End s.threads.host))).pc t = .arming i from here] at owing
  exact absurd done (Nat.not_lt.mpr owing)

theorem loopStill (outside : (s.pc t).inside j = false) (outside' : pc.inside j = false)
    (entered : ∀ stage loop, pc = .ringing j stage loop → stage = .entered) (keeps : Needed s j → owes j (s.pc t) → owes j pc) :
    Still own j s (s.turn t pc) :=
  stillSame.turn (outside'.trans outside.symm) (fun stage loop there => .inl (entered stage loop there))
    fun need => keeps ⟨need.opened,need.unqueued,need.running,need.loaded⟩

end Heads

section Arms
variable {τ : Type} [DecidableEq τ] {own : Nat → Prop} {w : Nat → Window} {n i j door : Nat} {m2NoDb : Bool} {s : Scene τ} {t : τ}
  {pc : Pc} {threads : Threads}

theorem armStill (here : s.pc t = .arming i) (other : j ≠ i) : Still own j s (((s.arm i).setChan i
    {s.chan i with dbCfg := {(s.chan i).dbCfg with dbMode := true}}).turn t (.testing i)) := by
  have outside : (s.pc t).inside j = false := by rw [here]; rfl
  have beside : Still own j s ((s.arm i).goes (s.threads.withHost (s.threads.host.setChan i
      {s.chan i with dbCfg := {(s.chan i).dbCfg with dbMode := true}}))) :=
    armElse (besideStill (.withHost (.setChan i _ _)) other id fun _ => sparesSame rfl) other
  refine beside.turn outside.symm (fun _ _ there => Pc.noConfusion there) fun _ owing => ?_
  rw [show ((s.arm i).goes _).pc t = .arming i from here] at owing
  exact owing

theorem armInv (free : Free i s) (inv : ChanInv own door s i) :
    ChanInv own door (((s.arm i).setChan i {s.chan i with dbCfg := {(s.chan i).dbCfg with dbMode := true}}).turn t (.testing i)) i := by
  have touched : Retouched ((s.arm i).chan i) {s.chan i with dbCfg := {(s.chan i).dbCfg with dbMode := true}} := ⟨⟨_,rfl⟩,rfl⟩
  refine unattended (fun u => ?_) (retouchedDoor touched inv.door) (fun _ => ?_) ?_ fun _ => .inl ⟨t,?_⟩
  · by_cases self : u = t
    · rw [self,turnSelf]
      rfl
    · rw [turnElse self]
      exact free u
  · exact le_of_eq (Function.update_self _ _ _)
  · rw [chanSet]
    exact fun _ off => Bool.noConfusion off
  · rw [turnSelf]
    exact Nat.le_refl i

end Arms

section Setups
variable {τ : Type} {own : Nat → Prop} {w : Nat → Window} {i j door : Nat} {s : Scene τ} {threads : Threads}

theorem setupStill {h : Host} {vz : Option Nat} {err : Option Errno} (ran : prepareBegin s.threads.host i vz = (h,err))
    (other : j ≠ i) :
    Still own j s ((if err.isNone then s.arm i else s).goes ((s.threads.withHost h).setOp i (if err.isNone then .preparing else .idle))) := by
  obtain ⟨touched,cntrl,-⟩ := prepareBeginView ran
  have book : h.cntrl.book = s.threads.host.cntrl.book := congrArg Cntrl.book cntrl
  refine armedElse (besideStill ((Beside.withHost touched).setOp _) other ?_ fun _ => sparesSame (congrArg Cntrl.mmio cntrl)) other
  show h.cntrl.book.opened = true → _
  rw [book]
  exact id

theorem freshInv (alone : Free i s) (mmio : threads.host.cntrl.mmio = s.threads.host.cntrl.mmio)
    (addr : (threads.chan i).treRing.dbAddr = door)
    (idle : (threads.chan i).treRing.rp = (threads.chan i).treRing.wp)
    (unused : (threads.chan i).dbCfg.dbMode = true ∨ (threads.chan i).bufRing.base = 0) :
    ChanInv own door ((s.arm i).goes threads) i := by
  refine unattended alone addr (fun _ => ?_) (fun _ off live => ?_) fun need => absurd idle need.loaded
  · show Function.update s.armedAt i s.threads.host.cntrl.mmio.length i ≤ threads.host.cntrl.mmio.length
    rw [Function.update_self,mmio]
  · rcases unused with on | none
    · rw [show (threads.chan i).dbCfg.dbMode = false from off] at on
      cases on
    · exact absurd (live.resolve_right fun more => more idle) fun some => some none

theorem setupInv {h : Host} {vz : Option Nat} {err : Option Errno} (free : s.threads.op i = .idle)
    (ran : prepareBegin s.threads.host i vz = (h,err)) (alone : Free i s) (sound : Sound (w i) (s.threads.station i))
    (inv : ChanInv own door s i) : ChanInv own door ((if err.isNone then s.arm i else s).goes
      ((s.threads.withHost h).setOp i (if err.isNone then .preparing else .idle))) i := by
  obtain ⟨touched,cntrl,view⟩ := prepareBeginView ran
  have mmio : h.cntrl.mmio = s.threads.host.cntrl.mmio := congrArg Cntrl.mmio cntrl
  have book : h.cntrl.book = s.threads.host.cntrl.book := congrArg Cntrl.book cntrl
  have before : s.threads.station i = ⟨(s.chan i).core,.idle,s.threads.turn i,s.threads.filled i⟩ := by
    rw [Threads.station,free]
    rfl
  have leaves (leaves : Leaves s.threads.host.cntrl.book ⟨(s.chan i).core,.idle,s.threads.turn i,s.threads.filled i⟩
      s.threads.host.cntrl.book ⟨(h.chans i).core,.idle,s.threads.turn i,s.threads.filled i⟩) :
      ChanInv own door (s.goes ((s.threads.withHost h).setOp i .idle)) i := by
    refine (leavesStill (fun _ => sparesSame mmio) ?_).inv inv
    rw [before,stationSetOp,stationWithHost]
    show Leaves _ _ h.cntrl.book ⟨(h.chans i).core,.idle,s.threads.turn i,s.threads.filled i⟩
    rw [book]
    exact leaves
  rcases view with ⟨⟨e,rfl⟩,core⟩ | ⟨off,⟨failed,mine,core⟩ | ⟨rfl,alien,core⟩ | ⟨rfl,mine,masked,base,rfl,core⟩⟩
  · refine leaves ?_
    rw [core]
    exact leavesSame id rfl rfl rfl
  · obtain ⟨e,rfl⟩ := Option.isSome_iff_exists.mp failed
    refine leaves ?_
    rw [before] at sound
    rw [core]
    exact calmLeaves (w := w i) (.phase (.noMemory mine off)) sound
  · obtain ⟨unused,idle,-⟩ := sound.alien alien
    exact freshInv alone mmio ((congrArg (fun k => k.tre.dbAddr) core).trans inv.door)
      ((congrArg (fun k => k.tre.rp) core).trans (idle.trans (congrArg (fun k => k.tre.wp) core).symm))
        (.inr ((congrArg Core.bufBase core).trans unused))
  · exact freshInv alone mmio ((congrArg (fun k => k.tre.dbAddr) core).trans inv.door)
      ((congrArg (fun k => k.tre.rp) core).trans (congrArg (fun k => k.tre.wp) core).symm)
      (.inl (congrArg (fun k => k.dbCfg.dbMode) core))

theorem doorbellStill {p : Port} {ev : MhiTre} (code : isDbCode ev.getEvCode = true)
    (ran : parseXferEvent ev (fun _ => ⟨[],⟨0,0,false⟩⟩) (s.threads.port i) = some p) (other : j ≠ i)
    (apart : own j → Spares j s.threads (s.threads.setPort i p)) :
    Still own j s ((if (s.chan i).chState = .enabled then s.arm i else s).goes (s.threads.setPort i p)) := by
  have book : p.cntrl.book = s.threads.host.cntrl.book := by
    rcases doorbellRan code ran with ⟨-,rfl⟩ | ⟨-,rfl⟩
    · rfl
    · exact (dbModeView (s.threads.port i)).1
  have still : Still own j s (s.goes (s.threads.setPort i p)) := by
    refine besideStill (.setPort p) other ?_ apart
    show p.cntrl.book.opened = true → _
    rw [book]
    exact id
  split
  · exact armElse still other
  · exact still

theorem armedWrites {p : Port} (on : p.chan.dbCfg.dbMode = true) : (mhiRingChanDb p).cntrl.mmio = p.cntrl.mmio ++
    [(p.chan.treRing.dbAddr + 4,p.chan.treRing.db / 2^32)] ++ [(p.chan.treRing.dbAddr,p.chan.treRing.db % 2^32)] := by
  unfold mhiRingChanDb processDb mhiDbBrstmode mhiDbBrstmodeDisable
  dsimp only
  split
  · rw [if_pos on]
    rfl
  · rfl

theorem rungOn {cfg : DbCfg} (on : cfg.dbMode = true) (db : Nat) : (rungCfg cfg db).dbVal = db ∧
    ((rungCfg cfg db).brstmode = .disable ∨ (rungCfg cfg db).brstmode = .enable ∧ (rungCfg cfg db).dbMode = false) := by
  unfold rungCfg
  cases cfg.brstmode with
  | disable => exact ⟨rfl,.inl rfl⟩
  | enable =>
    dsimp only
    rw [if_pos on]
    exact ⟨rfl,.inr ⟨rfl,rfl⟩⟩

/- The event rings the doorbell it has just armed. -/
theorem doorbellRang {armed : Port}
    (rearms : armed = {s.threads.port i with chan := {s.chan i with dbCfg := {(s.chan i).dbCfg with dbMode := true}}})
    (alone : Free i s) (inv : ChanInv own door s i) :
    ChanInv own door ((s.arm i).goes (s.threads.setPort i (mhiRingChanDb armed))) i := by
  subst armed
  generalize out : mhiRingChanDb _ = p
  have chan : ((s.arm i).goes (s.threads.setPort i p)).chan i = p.chan := setPortSelf _ _ _
  have core : p.chan.core = (s.chan i).core.rearm.bell := by rw [← out]; exact (ringChanDbView _).2
  have tre : p.chan.treRing = {(s.chan i).treRing with ctxtWp := (s.chan i).treRing.db} := congrArg Core.tre core
  have writes : p.cntrl.mmio = mmio s ++ [((s.chan i).treRing.dbAddr + 4,(s.chan i).treRing.db / 2^32)] ++
      [((s.chan i).treRing.dbAddr,(s.chan i).treRing.db % 2^32)] := by
    rw [← out]
    exact armedWrites rfl
  have cfg : p.chan.dbCfg.dbVal = (s.chan i).treRing.db ∧
      (p.chan.dbCfg.brstmode = .disable ∨ p.chan.dbCfg.brstmode = .enable ∧ p.chan.dbCfg.dbMode = false) := by
    rw [show p.chan.dbCfg = (s.chan i).core.rearm.bell.dbCfg from congrArg Core.dbCfg core]
    exact rungOn rfl _
  have told : Told own ((s.arm i).goes (s.threads.setPort i p)) i := by
    intro _
    rw [chan,tre,cfg.1]
    show Tells p.cntrl.mmio (Function.update s.armedAt i (mmio s).length i) _ _
    rw [Function.update_self,writes]
    exact (begin (Nat.le_refl _)).tells
  refine unattended alone ?_ (fun _ => ?_) (fun _ _ _ => told) fun _ => .inr ⟨?_,?_,told⟩
  · rw [chan,tre]
    exact inv.door
  · show Function.update s.armedAt i (mmio s).length i ≤ p.cntrl.mmio.length
    rw [Function.update_self,writes]
    simp
  · rw [chan,tre]
    rfl
  · rw [chan,tre]
    exact cfg.2.imp_left fun mode => ⟨mode,cfg.1⟩

/- It finds nothing to ring for, or the doorbell closed. -/
theorem doorbellArmed {armed : Port}
    (rearms : armed = {s.threads.port i with chan := {s.chan i with dbCfg := {(s.chan i).dbCfg with dbMode := true}}})
    (silent : ¬((s.chan i).treRing.wp ≠ (s.chan i).treRing.rp ∧ mhiDbAccessValid s.threads.host.cntrl = true))
    (alone : Free i s) (inv : ChanInv own door s i) : ChanInv own door ((s.arm i).goes (s.threads.setPort i armed)) i := by
  have chan : ((s.arm i).goes (s.threads.setPort i armed)).chan i = armed.chan := setPortSelf _ _ _
  subst armed
  refine unattended alone ?_ (fun _ => ?_) (fun _ off => ?_) fun need => ?_
  · rw [chan]
    exact inv.door
  · exact le_of_eq (Function.update_self _ _ _)
  · rw [chan] at off
    cases off
  · have loaded := need.loaded
    rw [chan] at loaded
    exact absurd ⟨loaded.symm,need.opened⟩ silent

theorem doorbellInv {p : Port} {ev : MhiTre} (code : isDbCode ev.getEvCode = true)
    (ran : parseXferEvent ev (fun _ => ⟨[],⟨0,0,false⟩⟩) (s.threads.port i) = some p) (alone : Free i s)
    (inv : ChanInv own door s i) :
    ChanInv own door ((if (s.chan i).chState = .enabled then s.arm i else s).goes (s.threads.setPort i p)) i := by
  rcases doorbellRan code ran with ⟨off,rfl⟩ | ⟨on,rfl⟩
  · rw [if_neg (show (s.chan i).chState ≠ .enabled from off)]
    refine Still.inv (leavesStill (fun _ => sparesSame rfl) (leavesSame id ?_ rfl rfl)) inv
    rw [stationSetPort]
    rfl
  rw [if_pos (show (s.chan i).chState = .enabled from on)]
  unfold dbModeEvent ringIfAccessible
  dsimp only
  by_cases loaded : (s.chan i).treRing.wp ≠ (s.chan i).treRing.rp
  · rw [if_pos (show (s.threads.port i).chan.treRing.wp ≠ (s.threads.port i).chan.treRing.rp from loaded)]
    by_cases opened : mhiDbAccessValid s.threads.host.cntrl = true
    · rw [if_pos (show mhiDbAccessValid (s.threads.port i).cntrl = true from opened)]
      exact doorbellRang rfl alone inv
    · rw [if_neg (show ¬mhiDbAccessValid (s.threads.port i).cntrl = true from opened)]
      exact doorbellArmed rfl (fun both => opened both.2) alone inv
  · rw [if_neg (show ¬(s.threads.port i).chan.treRing.wp ≠ (s.threads.port i).chan.treRing.rp from loaded)]
    exact doorbellArmed rfl (fun both => loaded both.1) alone inv

end Setups

section Runs
variable {τ : Type} [DecidableEq τ] {own : Nat → Prop} {w : Nat → Window} {n i j door val : Nat} {m2NoDb : Bool} {s s' : Scene τ}

omit [DecidableEq τ] in
theorem writeStill {offset val : Nat} (spares : own j → Spares j s.threads (s.write i offset val).threads) :
    Still own j s (s.write i offset val) := hostSameStill (h := {s.threads.host with
      cntrl := mhiWriteReg s.threads.host.cntrl (s.chan i).treRing.dbAddr offset val}) rfl id spares

theorem skipStill {t : τ} (here : s.pc t = .testing i)
    (empty : ¬((s.chan i).treRing.base ≠ 0 ∧ (s.chan i).treRing.wp ≠ (s.chan i).treRing.rp))
    (sound : Sound (w j) (s.threads.station j)) : Still own j s (s.turn t (.arming (i+1))) := by
  refine loopStill (by rw [here]; rfl) rfl (fun _ _ there => Pc.noConfusion there) fun need owing => ?_
  rw [here] at owing
  rcases Nat.eq_or_lt_of_le (show i ≤ j from owing) with rfl | beyond
  · obtain ⟨_,_,h,m,held,_⟩ := sound.loaded need.loaded
    exact absurd ⟨Nat.pos_iff_ne_zero.mp held.spans.placed,need.loaded.symm⟩ empty
  · exact beyond

theorem stepInv (step : Ringing.Step own w Free s s') (plain : Plain w n m2NoDb s.threads) (inside : j < n)
    (inv : ChanInv own door s j) :
    ChanInv own door s' j := by
  have sound (i : Nat) (known : i < s.threads.host.maxChan) : Sound (w i) (s.threads.station i) :=
    plain.sound i (plain.maxChan ▸ known)
  cases step with
  | quiet i known step apart => exact (quietStill step (sound i known) apart j).inv inv
  | host step locked apart => exact (hostStill step plain.access apart j).inv inv
  | setup i known vz free block ran allowed =>
    by_cases same : j = i
    · subst j
      exact setupInv free ran allowed (sound i known) inv
    · exact (setupStill ran same).inv inv
  | doorbell i known ev unlocked locked code ran apart =>
    by_cases same : j = i
    · subst j
      exact doorbellInv code ran locked inv
    · exact (doorbellStill code ran same fun ours => apart j ours same).inv inv
  | queue t i known here q allowed locked ran apart => exact (queueStill here allowed ran apart j).inv inv
  | finish t i known here buf part apart => exact (finishStill here apart j).inv inv
  | settle i known b u reply busy called ran => exact (settleStill busy ran (sound i known) j).inv inv
  | prepareFinish t i known here inTime reply stands ran => exact (prepareFinishStill here stands ran (sound i known) j).inv inv
  | filled t i here => exact (filledStill here j).inv inv
  | m0Enter t here locked => exact (m0EnterStill here j).inv inv
  | m0Start t here apart => exact (m0StartStill here apart j).inv inv
  | arm t i known here asked unlocked locked =>
    by_cases same : j = i
    · subst j
      exact armInv locked inv
    · exact (armStill here same).inv inv
  | pass t i known here unasked =>
    refine (loopStill (by rw [here]; rfl) rfl (fun _ _ there => Pc.noConfusion there) fun _ owing => ?_).inv inv
    rw [here] at owing
    exact owing
  | ring t i here based loaded =>
    refine (loopStill (by rw [here]; rfl) rfl (fun stage loop there => by cases there; rfl) fun _ owing => ?_).inv inv
    rw [here] at owing
    exact (Nat.eq_or_lt_of_le (show i ≤ j from owing)).imp id fun beyond => ⟨rfl,beyond⟩
  | skip t i here empty => exact (skipStill here empty (sound j (plain.maxChan.symm ▸ inside))).inv inv
  | m0End t i here done apart =>
    exact (m0EndStill here (Nat.lt_of_lt_of_le inside (plain.maxChan ▸ done)) apart).inv inv
  | load t i loop here allowed =>
    by_cases same : j = i
    · subst j
      exact loadInv allowed inv
    · exact (besideRing stillSame rfl here same (.inl ⟨_,rfl⟩)).inv inv
  | store t i db loop here =>
    by_cases same : j = i
    · subst j
      exact storeInv here inv
    · exact (besideRing (besideStill (.withHost (.setChan i _ _)) same id fun _ => sparesSame rfl) rfl here same (.inl ⟨_,rfl⟩)).inv inv
  | unarmed t i db loop here burst off =>
    by_cases same : j = i
    · subst j
      exact unarmedInv here burst off inv
    · exact (besideRing stillSame rfl here same (.inr rfl)).inv inv
  | choose t i db loop here due =>
    by_cases same : j = i
    · subst j
      exact chooseInv here due inv
    · exact (besideRing (besideStill (.withHost (.setChan i _ _)) same id fun _ => sparesSame rfl) rfl here same (.inl ⟨_,rfl⟩)).inv inv
  | upper t i db loop here apart =>
    by_cases same : j = i
    · subst j
      exact upperInv here inv
    · exact (besideRing (writeStill fun ours => apart j ours same) rfl here same (.inl ⟨_,rfl⟩)).inv inv
  | lower t i db loop here apart =>
    by_cases same : j = i
    · subst j
      exact lowerInv here inv
    · exact (besideRing (writeStill fun ours => apart j ours same) rfl here same (.inl ⟨_,rfl⟩)).inv inv
  | clear t i loop here =>
    by_cases same : j = i
    · subst j
      exact clearInv here inv
    · exact (besideRing (besideStill (.withHost (.setChan i _ _)) same id fun _ => sparesSame rfl) rfl here same (.inr rfl)).inv inv

omit [DecidableEq τ] in
theorem soundDoor {w : Window} {k : Core} {o : ChanOp} {t : Option Turn} {f : List Nat} (dbAddr : Nat)
    (sound : Sound w ⟨k,o,t,f⟩) :
    Sound w ⟨{k with tre := {k.tre with dbAddr := dbAddr}},o,t,f⟩ := by
  refine sound.reshape ⟨rfl,rfl,rfl,rfl,rfl,rfl,fun spans => spans.moved k.tre.rp k.tre.wp k.tre.ctxtWp dbAddr⟩ ?_ sound.locked
  rcases sound.level with rest | ⟨tres,mine,h,n,held,goal⟩
  · exact .inl rest
  · exact .inr ⟨tres,mine,h,n,⟨held.spans.moved _ _ _ _,held.rp,held.wp,held.ordered,held.room⟩,goal⟩

theorem mmioChan {h : Host} {reply : ReadyReply} (doors : reply.chdbOff = some val) :
    (mhiInitMmio h reply).1.maxChan = h.maxChan ∧ (mhiInitMmio h reply).1.cntrl.dbAccess = h.cntrl.dbAccess ∧
    ∀ i < h.maxChan, (mhiInitMmio h reply).1.chans i =
      {h.chans i with treRing := {(h.chans i).treRing with dbAddr := h.regs + val + 8 * i}} := by
  unfold mhiInitMmio
  rw [doors]
  dsimp only
  split
  · exact ⟨rfl,rfl,fun i inside => if_pos inside⟩
  · exact ⟨rfl,rfl,fun i inside => if_pos inside⟩

variable {h : Host} {lay : Layout} {reply : ReadyReply}

theorem startPlain (parsed : Parsed h) (laid : Laid w h lay) (access : h.cntrl.dbAccess = dbAccessOf m2NoDb)
    (doors : reply.chdbOff = some val) : Plain w h.maxChan m2NoDb (Threads.start (mhiInitMmio (mhiInitDevCtxt h lay) reply).1) := by
  obtain ⟨maxChan,access',chan⟩ := mmioChan (h := mhiInitDevCtxt h lay) doors
  refine ⟨maxChan,access'.trans access,fun i inside => ?_⟩
  show Sound (w i) ⟨((mhiInitMmio (mhiInitDevCtxt h lay) reply).1.chans i).core,.idle,none,[]⟩
  rw [chan i inside]
  exact soundDoor _ (startSound parsed laid i inside)

omit [DecidableEq τ] in
theorem startInv (parsed : Parsed h) (doors : reply.chdbOff = some val) (inside : i < h.maxChan) :
    ChanInv own (h.regs + val + 8 * i) (Scene.start (mhiInitMmio (mhiInitDevCtxt h lay) reply).1 : Scene τ) i := by
  have chan : (Scene.start (mhiInitMmio (mhiInitDevCtxt h lay) reply).1 : Scene τ).chan i = _ :=
    (mmioChan (h := mhiInitDevCtxt h lay) doors).2.2 i inside
  have before : (mhiInitDevCtxt h lay).chans i = initChan lay i (h.chans i) := if_pos inside
  obtain ⟨-,unused,-⟩ := initCore lay parsed inside
  have idle := startIdle lay parsed inside
  refine unattended (fun _ => rfl) ?_ (fun _ => Nat.zero_le _) (fun _ _ live => ?_) fun need => ?_
  · rw [chan]
    rfl
  · rw [chan] at live
    refine absurd (live.resolve_right fun more => more idle) fun some => some ?_
    rw [before]
    exact unused
  · have loaded := need.loaded
    rw [chan] at loaded
    exact absurd idle loaded

theorem noLostTransferDoorbell (parsed : Parsed h) (laid : Laid w h lay) (access : h.cntrl.dbAccess = dbAccessOf m2NoDb)
    (doors : reply.chdbOff = some val)
    (run : Relation.ReflTransGen (Ringing.Step own w Free) (Scene.start (mhiInitMmio (mhiInitDevCtxt h lay) reply).1) s)
    (known : i < s.threads.host.maxChan) (idle : ∀ t, s.pc t = .idle) (free : s.threads.op i = .idle)
    (unqueued : s.threads.filled i = []) (opened : s.threads.host.cntrl.pmState.within s.threads.host.cntrl.dbAccess = true)
    (loaded : (s.chan i).treRing.rp ≠ (s.chan i).treRing.wp) :
    let ring := (s.chan i).treRing
    let cfg := (s.chan i).dbCfg
    ring.ctxtWp = ring.iommuBase + (ring.wp - ring.base) ∧
    (cfg.brstmode = .disable ∧ cfg.dbVal = ring.ctxtWp ∨ cfg.brstmode = .enable ∧ cfg.dbMode = false) ∧
    (own i → Tells s.threads.host.cntrl.mmio (s.armedAt i) (h.regs + val + 8 * i) cfg.dbVal) := by
  obtain ⟨plain,inv⟩ := Runs.keeps
    (I := fun s => Plain w h.maxChan m2NoDb s.threads ∧ ∀ i < h.maxChan, ChanInv own (h.regs + val + 8 * i) s i)
    (fun _ _ step kept => ⟨stepPlain step kept.1,fun i inside => stepInv step kept.1 inside (kept.2 i inside)⟩) run
    ⟨startPlain parsed laid access doors,fun i inside => startInv parsed doors inside⟩
  have inv := inv i (plain.maxChan ▸ known)
  have need : Needed s i := ⟨opened,unqueued,by rw [free]; rfl,loaded⟩
  rcases inv.rung need with ⟨t,owing⟩ | ⟨t,inside⟩ | announced
  · rw [idle t] at owing
    exact owing.elim
  · rw [idle t] at inside
    cases inside
  · refine ⟨announced.context,announced.mode,fun ours => ?_⟩
    rw [← inv.door]
    exact announced.told ours

end Runs

instance (i : Nat) (s s' : Threads) : Decidable (Spares i s s') :=
  decidable_of_iff (s'.host.cntrl.mmio = s.host.cntrl.mmio ++ s'.host.cntrl.mmio.drop s.host.cntrl.mmio.length ∧
      ∀ write ∈ s'.host.cntrl.mmio.drop s.host.cntrl.mmio.length,
        write.1 ≠ (s.chan i).treRing.dbAddr ∧ write.1 ≠ (s.chan i).treRing.dbAddr + 4) (by
    refine ⟨fun both => ⟨_,both.1,both.2⟩,fun ⟨more,grown,misses⟩ => ?_⟩
    have rest : s'.host.cntrl.mmio.drop s.host.cntrl.mmio.length = more := by rw [grown,List.drop_left]
    rw [rest]
    exact ⟨grown,misses⟩)

namespace Sample

def reply : ReadyReply := ⟨true,some 0x400,some 0x800⟩
def booted : Host := (mhiInitMmio (mhiInitDevCtxt Sample.host Sample.layout) reply).1
def start : Scene Bool := .start booted
def begun : Scene Bool := (start.arm 0).goes ((start.threads.withHost (prepareBegin booted 0 (some 0x4000)).1).setOp 0 .preparing)
def sent : Scene Bool := begun.goes ((begun.threads.withHost (prepareSend begun.threads.host 0).1).setOp 0 .starting)
def answered : Scene Bool := sent.goes (sent.threads.withHost (mhiProcessCmdCompletion sent.threads.host Sample.startDone))
def waited : Chan × Bool := waitForCompletion (answered.chan 0) true
def opened : Scene Bool := (answered.goes ((answered.threads.withHost
  (Ringing.prepareFinish (answered.threads.host.setChan 0 waited.1) 0 waited.2 Sample.noBuffers).1).setOp 0 .idle)).turn true .idle
def asleep : Scene Bool := opened.goes {opened.threads with
  host := (suspendEnter opened.threads.host).1, entered := (suspendEnter opened.threads.host).1.cntrl.resumes}
def request : QueueReq := ⟨.skb 0x20,0x10,100,MhiFlags.eot,⟨0x9000,0,true⟩⟩
def queues (s : Scene Bool) : Scene Bool :=
  (s.goes (s.threads.setPort 0 (Ringing.mhiQueue (s.threads.port 0) request).1)).rings true 0 (Ringing.mhiQueue (s.threads.port 0) request).2.isNone
def queued : Scene Bool := queues asleep
def down : Scene Bool := queued.goes (queued.threads.withHost (mhiPmM3Transition queued.threads.host).1)
def exiting : Scene Bool := down.goes (down.threads.withHost (resumeBegin down.threads.host).1)
def moved : Scene Bool := (exiting.goes (exiting.threads.withHost (m0Enter exiting.threads.host))).turn false .moved
def looping : Scene Bool := (moved.goes (moved.threads.withHost (m0Start moved.threads.host))).turn false (.arming 0)
def testing : Scene Bool := looping.turn false (.testing 0)
def entered : Scene Bool := testing.turn false (.ringing 0 .entered true)
def loaded : Scene Bool := entered.turn false (.ringing 0 (.loaded (entered.chan 0).treRing.db) true)
def rest (t loop : Bool) (db : Nat) (s : Scene Bool) : Scene Bool :=
  (s.goes (s.threads.setPort 0 (ringDb (s.threads.port 0) db))).turn t (.after 0 loop)
def ends (s : Scene Bool) : Scene Bool := (s.goes (s.threads.withHost (m0End s.threads.host))).turn false .idle
def announced : Scene Bool := ends (rest false true 0x81010 loaded)
def called : Scene Bool := queues loaded
def raced : Scene Bool := (called.goes (called.threads.setPort 0 (mhiRingChanDb (called.threads.port 0)))).turn true .idle
def stale : Scene Bool := ends (rest false true 0x81010 raced)

def Own (i : Nat) : Prop := i = 0

variable {may : Nat → Scene Bool → Prop}

theorem comesUp (allows : ∀ i s, Free i s → may i s) :
    Relation.ReflTransGen (Ringing.Step Own Sample.window may) start opened := by
  have one : Ringing.Step Own Sample.window may start begun :=
    @Ringing.Step.setup _ _ _ _ _ start _ none 0 (by decide) (some 0x4000) rfl (fun base same => by cases same; decide) rfl
      (allows 0 start fun _ => rfl)
  have two : Ringing.Step Own Sample.window may begun sent :=
    .quiet 0 (by decide) (@QuietStep.prepareSend _ _ 0 begun.threads _ none rfl rfl) (by rintro _ rfl; decide)
  have three : Ringing.Step Own Sample.window may sent answered :=
    .host (.cmdCompletion Sample.startDone) (fun other => absurd rfl other) (by rintro _ rfl; decide)
  have four : Ringing.Step Own Sample.window may answered opened :=
    @Ringing.Step.prepareFinish _ _ _ _ _ answered _ none true 0 (by decide) rfl true Sample.noBuffers rfl rfl
  exact (((Relation.ReflTransGen.single one).tail two).tail three).tail four

theorem resumes (allows : ∀ i s, Free i s → may i s) :
    Relation.ReflTransGen (Ringing.Step Own Sample.window may) start loaded := by
  have enter : Ringing.Step Own Sample.window may opened asleep :=
    .host (@HostStep.suspendEnter opened.threads _ none rfl) (fun _ t => by cases t <;> rfl) (by rintro _ rfl; decide)
  have queue : Ringing.Step Own Sample.window may asleep queued :=
    @Ringing.Step.queue _ _ _ _ _ asleep _ none true 0 (by decide) rfl request (show (0x4000 : Nat) ≠ 0 by decide) (by decide) rfl
      (by rintro _ rfl; decide)
  have asleep' : Ringing.Step Own Sample.window may queued down :=
    .host .m3 (fun _ t => by cases t <;> rfl) (by rintro _ rfl; decide)
  have leaves : Ringing.Step Own Sample.window may down exiting :=
    .host .resume (fun _ t => by cases t <;> rfl) (by rintro _ rfl; decide)
  have moves : Ringing.Step Own Sample.window may exiting moved := .m0Enter false rfl (fun u => by cases u <;> rfl)
  have begins : Ringing.Step Own Sample.window may moved looping := .m0Start false rfl (by rintro _ rfl; decide)
  have passes : Ringing.Step Own Sample.window may looping testing := .pass false 0 (by decide) rfl rfl
  have rings : Ringing.Step Own Sample.window may testing entered := .ring false 0 rfl (by decide) (by decide)
  have reads : Ringing.Step Own Sample.window may entered loaded :=
    .load false 0 true rfl (allows 0 entered fun t => by cases t <;> rfl)
  exact (((((((((comesUp allows).tail enter).tail queue).tail asleep').tail leaves).tail moves).tail begins).tail passes).tail rings).tail reads

theorem resumed : Relation.ReflTransGen (Ringing.Step Own Sample.window Free) start announced := by
  have rings := @restWhole Bool _ Own Sample.window Free loaded false 0 0x81010 true (fun _ mine => mine) rfl
  have leaves : Ringing.Step Own Sample.window Free (rest false true 0x81010 loaded) announced :=
    .m0End false 1 rfl (by decide) (by rintro _ rfl; decide)
  exact ((resumes fun _ _ => id).trans rings).tail leaves

theorem raceRun : Relation.ReflTransGen (Ringing.Step Own Sample.window fun _ _ => True) start stale := by
  have call : Ringing.Step Own Sample.window (fun _ _ => True) loaded called :=
    @Ringing.Step.queue _ _ _ _ _ loaded _ none true 0 (by decide) rfl request (show (0x4000 : Nat) ≠ 0 by decide) (by decide) rfl
      (by rintro _ rfl; decide)
  have rings := @ringWhole Bool _ Own Sample.window (fun _ _ => True) called true 0 false (fun _ mine => mine) rfl trivial
  have goesOn := @restWhole Bool _ Own Sample.window (fun _ _ => True) raced false 0 0x81010 true (fun _ mine => mine) rfl
  have leaves : Ringing.Step Own Sample.window (fun _ _ => True) (rest false true 0x81010 raced) stale :=
    .m0End false 1 rfl (by decide) (by rintro _ rfl; decide)
  exact (((((resumes fun _ _ _ => trivial).tail call).trans rings).trans goesOn).tail leaves)

end Sample

theorem noLostTransferDoorbellSample : (Sample.queued.chan 0).treRing.ctxtWp = 0x81000 ∧
    (Sample.announced.chan 0).treRing.ctxtWp = 0x81010 ∧ (Sample.announced.chan 0).dbCfg.dbVal = 0x81010 ∧
    Tells Sample.announced.threads.host.cntrl.mmio (Sample.announced.armedAt 0) 0x500 0x81010 := by
  have announced := noLostTransferDoorbell Sample.parsed Sample.laid (show _ = dbAccessOf false from rfl)
    (show Sample.reply.chdbOff = some 0x400 from rfl) Sample.resumed (i := 0) (by decide) (fun t => by cases t <;> rfl) rfl rfl
    (by decide) (by decide)
  have value : (Sample.announced.chan 0).dbCfg.dbVal = 0x81010 := by decide
  refine ⟨by decide,announced.1,value,?_⟩
  have told := announced.2.2 rfl
  rw [value] at told
  exact told

theorem staleDoorbell : ¬∀ s : Scene Bool,
    Relation.ReflTransGen (Ringing.Step Sample.Own Sample.window fun _ _ => True) Sample.start s →
    (∀ t, s.pc t = .idle) → s.threads.op 0 = .idle → s.threads.filled 0 = [] →
    s.threads.host.cntrl.pmState.within s.threads.host.cntrl.dbAccess = true → (s.chan 0).treRing.rp ≠ (s.chan 0).treRing.wp →
    (s.chan 0).treRing.ctxtWp = (s.chan 0).treRing.iommuBase + ((s.chan 0).treRing.wp - (s.chan 0).treRing.base) := by
  intro never
  have same := never Sample.stale Sample.raceRun (fun t => by cases t <;> rfl) rfl rfl (by decide) (by decide)
  exact absurd same (by decide)

end MhiHost.Doorbells
