import MhiHost.EventTables

/-! `mhi_poll` under the budget of the network stack. Every element handled is counted, and
only completions of channels the controller has are charged. -/
namespace MhiHost.PollBudget
open Cyclic (Window)
open EventLoops EventTables
open Relation (ReflTransGen)

def mhiPoll (dl budget : Nat) (scripts : Nat → Nat → CbScript) (fuel : Nat) (h : Host) : Trace Access (Host × Option Nat) :=
  match h.events[(h.chans dl).erIndex]? with
  | none => .stop
  | some er => mhiProcessEvRing er.dataType (h.chans dl).erIndex budget scripts fuel h

/- What `mhi_net_poll` makes of the answer: whether it calls `napi_complete`, and what it returns. -/
def napiAnswer (rxWork : Option Nat) (budget : Nat) : Bool × Nat :=
  match rxWork with
  | none => (true,0)
  | some n => (decide (n < budget),n)

def Pending (e : Nat) (h : Host) : Prop := ∃ er, h.events[e]? = some er ∧ readPointer er ≠ er.ring.rp

def Respects (e budget : Nat) (h : Host) (ret : Option Nat) : Prop := ∀ n, ret = some n → n ≤ budget ∧ (n < budget → ¬Pending e h)

def Answers (e budget : Nat) (run : Nat → Trace Access (Host × Option Nat)) : Prop :=
  ∃ fuel h ret, (run fuel).outcome = .went (h,ret) ∧ Respects e budget h ret

section Conditions
variable (h : Host) (er : MhiEvent) (budget : Nat)

def Charged : Prop :=
  (∃ n ≤ budget, elementAt er.ring n = readPointer er) ∨ ∀ n < budget, countsQuota h .data (er.mem (elementAt er.ring n)) = true

def Returning : Prop := ∀ n < budget, (∀ m ≤ n, elementAt er.ring m ≠ readPointer er) → TxSound h (er.mem (elementAt er.ring n))

end Conditions

theorem napiCompletes {e budget : Nat} {h : Host} {ret : Option Nat} (respects : Respects e budget h ret) :
    (napiAnswer ret budget).2 ≤ budget ∧ (ret ≠ none → (napiAnswer ret budget).1 = true → ¬Pending e h) ∧
      ((napiAnswer ret budget).1 = false → (napiAnswer ret budget).2 = budget) := by
  cases ret with
  | none => exact ⟨Nat.zero_le budget,fun some => absurd rfl some,fun goesOn => absurd goesOn.symm Bool.false_ne_true⟩
  | some n =>
    obtain ⟨within,drained⟩ := respects n rfl
    refine ⟨within,fun _ completes => drained (of_decide_eq_true completes),fun goesOn => ?_⟩
    have reached : ¬n < budget := of_decide_eq_false goesOn
    exact Nat.le_antisymm within (Nat.not_lt.mp reached)

section Spent
variable {h : Host} {er : MhiEvent} {budget n : Nat}

theorem spentLe (n : Nat) : spent .data h er n ≤ n := by
  unfold spent
  exact List.countP_le_length.trans (Nat.le_of_eq List.length_range)

theorem spentAll : spent .data h er n = n ↔ ∀ m < n, countsQuota h .data (er.mem (elementAt er.ring m)) = true := by
  have whole : spent .data h er n = (List.range n).length ↔ _ := List.countP_eq_length
  rw [List.length_range] at whole
  rw [whole]
  simp only [List.mem_range]

theorem spentMono {m : Nat} (earlier : m ≤ n) : spent .data h er m ≤ spent .data h er n := by
  induction earlier with
  | refl => exact Nat.le_refl _
  | step _ ih =>
    rw [spentNext]
    omega

theorem comesWithin (charged : Charged h er budget) (comes : ComesTo .data h er budget n) : n < budget := by
  by_contra beyond
  have beyond : budget ≤ n := Nat.not_lt.mp beyond
  rcases charged with ⟨m,within,empty⟩ | all
  · exact comes.1 m (within.trans beyond) empty
  · have left := comes.2 rfl
    have used : spent .data h er budget = budget := spentAll.mpr all
    have more : spent .data h er budget ≤ spent .data h er n := spentMono beyond
    omega

end Spent

section Polling
variable {w : Window} {e i budget n : Nat} {scripts : Nat → Nat → CbScript} {h : Host} {er : MhiEvent} {s t : Stage}

theorem dataReturns {ev : MhiTre} (laid : TresLaid h) (script : Nat → CbScript) :
    (∃ h', processEvent h .data ev script = some h') ↔ TxSound h ev := by
  by_cases tx : ev.getEvType = PktType.txEvent
  · have inside : ∀ a ∈ txUses h ev, a.InRange := by
      intro a member
      unfold txUses at member
      split at member
      · rename_i known
        cases List.mem_singleton.mp member
        exact known
      · cases member
    rw [(txProcess .data script tx).1,txSoundIff laid script tx,and_iff_right inside]
  · exact iff_of_true (otherReturns .data script tx) fun yes => absurd yes tx

theorem doorbellStands {mem : Nat → MhiTre} {devRp : Nat} (stands : Stands w mem devRp e i h) :
    Stands w mem devRp e i (ringErDb e h) := by
  obtain ⟨er,found,spans,rp,content,pointer⟩ := stands.ring
  unfold ringErDb
  rw [found]
  dsimp only
  split
  · refine ⟨⟨(mhiRingErDb h.cntrl er).2,?_,spans,rp,content,pointer⟩⟩
    exact List.getElem?_set_self (List.getElem?_eq_some_iff.mp found).choose
  · exact ⟨⟨er,found,spans,rp,content,pointer⟩⟩

theorem pendingIff {mem : Nat → MhiTre} {devRp : Nat} (stands : Stands w mem devRp e i h) : Pending e h ↔ devRp ≠ w.slot i := by
  obtain ⟨er,found,-,rp,-,pointer⟩ := stands.ring
  unfold Pending
  rw [found]
  constructor
  · rintro ⟨_,⟨rfl⟩,more⟩
    rwa [rp,pointer] at more
  · exact fun more => ⟨er,rfl,by rwa [rp,pointer]⟩

section Counted
variable (slots : ∀ m, elementAt er.ring m = w.slot (i+m))
include slots

structure Counted (w : Window) (e i budget : Nat) (h : Host) (er : MhiEvent) (n : Nat) (t : Stage) : Prop where
  turned : Turned w .data e i budget h er n t
  count : t.count = n
  came : ∀ m < n, ComesTo .data h er budget m

theorem countedComes (counted : Counted w e i budget h er n s) (more : More .data (readPointer er) (w.slot (i+n)) s.quota) :
    ComesTo .data h er budget n := by
  obtain ⟨here,left⟩ := (moreIff slots counted.turned).mp more
  refine ⟨fun m before => ?_,left⟩
  rcases Nat.lt_or_eq_of_le before with earlier | rfl
  · exact (counted.came m earlier).1 m (Nat.le_refl m)
  · exact here

theorem reachedCounted (turned : Turned w .data e i budget h er 0 s) (zero : s.count = 0)
    (way : ReflTransGen (Trace.Goes (turn .data e scripts)) s t) : ∃ n, Counted w e i budget h er n t := by
  induction way with
  | refl => exact ⟨0,turned,zero,fun m before => absurd before (Nat.not_lt_zero m)⟩
  | tail _ goes ih =>
    obtain ⟨n,counted⟩ := ih
    obtain ⟨more,h',-,rfl⟩ := (turnGoes counted.turned.kept.stands).mp goes
    refine ⟨n+1,turnedGoes slots counted.turned goes,congrArg (· + 1) counted.count,fun m before => ?_⟩
    rcases Nat.lt_succ_iff_lt_or_eq.mp before with earlier | rfl
    · exact counted.came m earlier
    · exact countedComes slots counted more

theorem countedDone (counted : Counted w e i budget h er n s) (done : ¬More .data (readPointer er) (w.slot (i+n)) s.quota) :
    elementAt er.ring n = readPointer er ∨ budget ≤ spent .data h er n := by
  by_contra neither
  obtain ⟨left,quota⟩ := not_or.mp neither
  exact done ((moreIff slots counted.turned).mpr ⟨left,fun _ => Nat.not_le.mp quota⟩)

theorem countedRespects (counted : Counted w e i budget h er n s)
    (done : elementAt er.ring n = readPointer er ∨ budget ≤ spent .data h er n) :
    Respects e budget (ringErDb e s.host) (some s.count) ↔ n ≤ budget := by
  have stands := doorbellStands counted.turned.kept.stands
  have empty := pendingIff stands
  have counts := counted.count
  constructor
  · intro respects
    exact (respects n (congrArg some counts)).1
  · rintro within m same
    have same : m = n := (Option.some.inj same).symm.trans counts
    subst same
    refine ⟨within,fun short => ?_⟩
    rw [empty,not_not,← slots]
    have used := @spentLe h er m
    exact (done.resolve_right (by omega)).symm

end Counted

theorem endedCounted {fuel : Nat} (slots : ∀ m, elementAt er.ring m = w.slot (i+m))
    (turned : Turned w .data e i budget h er 0 ⟨h,budget,0⟩)
    (ends : (Trace.loop (turn .data e scripts) fuel ⟨h,budget,0⟩).Ends) :
    ∃ n t, Counted w e i budget h er n t ∧ (elementAt er.ring n = readPointer er ∨ budget ≤ spent .data h er n) ∧
      (Trace.loop (turn .data e scripts) fuel ⟨h,budget,0⟩).outcome = .went t := by
  obtain ⟨t,way,last⟩ := Trace.loopLast ends
  obtain ⟨n,counted⟩ := reachedCounted slots turned rfl way
  have stands := counted.turned.kept.stands
  have done : ¬More .data (readPointer er) (w.slot (i+n)) t.quota := by
    intro more
    have ran := Trace.reachedEnds ends way
    obtain ⟨h',ran⟩ := (turnEnds stands more).mp ran
    have goes : Trace.Goes (turn .data e scripts) t _ := (turnGoes stands).mpr ⟨more,h',ran,rfl⟩
    rcases last with ⟨left,-⟩ | ⟨a,right,-⟩
    · exact absurd (goes.symm.trans left) (by simp)
    · exact absurd (goes.symm.trans right) (by simp)
  rw [turnDone stands done] at last
  rcases last with ⟨left,-⟩ | ⟨a,right,whole⟩
  · cases left
  · cases right
    exact ⟨n,t,counted,countedDone slots counted done,whole⟩

theorem chargedLands (spans : er.ring.Over w) (slots : ∀ m, elementAt er.ring m = w.slot (i+m)) (charged : Charged h er budget) :
    Lands .data h er budget := by
  rcases charged with ⟨n,-,empty⟩ | all
  · exact .inl ((pointerIff spans er.ctxtRp).mpr ⟨i+n,empty.symm.trans (slots n)⟩)
  · cases budget with
    | zero => exact .inr ⟨rfl,.inl rfl⟩
    | succ budget =>
      refine .inr ⟨rfl,.inr ⟨w.slot (i+0),(elementSlot spans _).mpr ⟨_,rfl⟩,?_⟩⟩
      rw [← slots]
      exact all 0 (Nat.succ_pos budget)

theorem chargedEnds (spans : er.ring.Over w) (slots : ∀ m, elementAt er.ring m = w.slot (i+m))
    (turned : Turned w .data e i budget h er 0 ⟨h,budget,0⟩) (charged : Charged h er budget) (returning : Returning h er budget) :
    ∃ fuel, (Trace.loop (turn .data e scripts) fuel ⟨h,budget,0⟩).Ends := by
  refine Trace.loopEnds (fun t way => ?_) (landsDescends spans turned.kept (chargedLands spans slots charged))
  obtain ⟨n,counted⟩ := reachedCounted slots turned rfl way
  have kept := counted.turned.kept
  by_cases more : More .data (readPointer er) (w.slot (i+n)) t.quota
  · have comes := countedComes slots counted more
    rw [turnEnds kept.stands more,dataReturns kept.laid,txSoundShifts kept.shifts,← slots]
    exact returning n (comesWithin charged comes) comes.1
  · rw [turnDone kept.stands more]
    exact Trace.pureEnds _

end Polling

section Calls
variable {w : Window} {dl budget : Nat} {scripts : Nat → Nat → CbScript} {h : Host} {er : MhiEvent}

theorem pollRuns (found : h.events[(h.chans dl).erIndex]? = some er) (data : er.dataType = .data) (fuel : Nat) :
    mhiPoll dl budget scripts fuel h = mhiProcessDataEventRing (h.chans dl).erIndex budget scripts fuel h := by
  rw [mhiPoll,found]
  dsimp only
  rw [data]
  rfl

theorem loopAnswer (valid : mhiEventAccessInvalid h.cntrl.pmState = false) (e fuel : Nat) (h' : Host) (ret : Option Nat) :
    (mhiProcessDataEventRing e budget scripts fuel h).outcome = .went (h',ret) ↔
      ∃ t, (Trace.loop (turn .data e scripts) fuel ⟨h,budget,0⟩).outcome = .went t ∧ h' = ringErDb e t.host ∧
        ret = some t.count := by
  unfold mhiProcessDataEventRing mhiProcessEvRing
  rw [valid,if_neg Bool.false_ne_true,Trace.bindWent]
  refine exists_congr fun t => and_congr_right fun _ => ?_
  constructor
  · rintro ⟨rfl⟩
    exact ⟨rfl,rfl⟩
  · rintro ⟨rfl,rfl⟩
    rfl

/- The answer can be taken if and only if the call is refused, or every pending event that
the budget reaches is one of those it is charged for and comes back from its completion loop. -/
theorem pollAnswers (found : h.events[(h.chans dl).erIndex]? = some er) (data : er.dataType = .data) (spans : er.ring.Over w)
    (rp : ∃ i, er.ring.rp = w.slot i) (laid : TresLaid h) :
    Answers (h.chans dl).erIndex budget (fun fuel => mhiPoll dl budget scripts fuel h) ↔
      mhiEventAccessInvalid h.cntrl.pmState = true ∨ Charged h er budget ∧ Returning h er budget := by
  unfold Answers
  simp only [pollRuns found data]
  generalize (h.chans dl).erIndex = e at found
  cases valid : mhiEventAccessInvalid h.cntrl.pmState with
  | true =>
    refine iff_of_true ⟨0,h,none,?_,fun n some => absurd some (by simp)⟩ (.inl rfl)
    unfold mhiProcessDataEventRing mhiProcessEvRing
    rw [valid,if_pos rfl]
    rfl
  | false =>
    rw [or_iff_right Bool.false_ne_true]
    simp only [loopAnswer valid]
    obtain ⟨i,rp⟩ := rp
    have slots := elementsSlots spans rp
    have kept : Kept w er.mem (readPointer er) e h i h := ⟨⟨er,found,spans,rp,rfl,rfl⟩,laid,allSame rfl rfl rfl rfl⟩
    have turned : Turned w .data e i budget h er 0 ⟨h,budget,0⟩ := ⟨kept,rfl⟩
    constructor
    · rintro ⟨fuel,_,_,⟨t,went,rfl,rfl⟩,respects⟩
      have ends : (Trace.loop (turn .data e scripts) fuel ⟨h,budget,0⟩).Ends := by
        rw [Trace.Ends,went]
        exact fun lost => by cases lost
      obtain ⟨n,t',counted,done,last⟩ := endedCounted slots turned ends
      cases went.symm.trans last
      have within := (countedRespects slots counted done).mp respects
      refine ⟨?_,fun m below pending => ?_⟩
      · rcases done with empty | used
        · exact .inl ⟨n,within,empty⟩
        · have most := @spentLe h er n
          have same : n = budget := by omega
          subst same
          exact .inr (spentAll.mp (Nat.le_antisymm most used))
      · have earlier : m < n := by
          by_contra later
          have drained := (respects n (congrArg some counted.count)).2 (by omega)
          rw [pendingIff (doorbellStands counted.turned.kept.stands),not_not,← slots] at drained
          exact pending n (Nat.not_lt.mp later) drained.symm
        obtain ⟨u,way,there⟩ := comesReached slots turned ends (counted.came m earlier)
        have comes := counted.came m earlier
        have more := (moreIff slots there).mpr ⟨comes.1 m (Nat.le_refl m),comes.2⟩
        have ran := (turnEnds there.kept.stands more).mp (Trace.reachedEnds ends way)
        rw [slots,← txSoundShifts there.kept.shifts]
        exact (dataReturns there.kept.laid _).mp ran
    · rintro ⟨charged,returning⟩
      obtain ⟨fuel,ends⟩ := @chargedEnds w e i budget scripts h er spans slots turned charged returning
      obtain ⟨n,t,counted,done,last⟩ := endedCounted slots turned ends
      refine ⟨fuel,_,_,⟨t,last,rfl,rfl⟩,(countedRespects slots counted done).mpr ?_⟩
      cases n with
      | zero => exact Nat.zero_le budget
      | succ n => exact comesWithin charged (counted.came n (Nat.lt_succ_self n))

end Calls

namespace Sample

def ring (t : MhiTre) : MhiEvent := {EventTables.Sample.ring 0x82020 t with dataType := .data}
def host (t : MhiTre) : Host :=
  {EventTables.Sample.host 0 ⟨0,0,0⟩ with
    events := [ring t]
    chans := fun i => {(EventTables.Sample.host 0 ⟨0,0,0⟩).chans i with chState := .enabled}}

def completion : MhiTre := ⟨0x81000,EvCc.eot <<< 24,PktType.txEvent <<< 16⟩
def stale : MhiTre := ⟨0,0,PktType.staleEvent <<< 16⟩

theorem laid (t : MhiTre) : TresLaid (host t) := by
  intro i known _
  have zero : i = 0 := Nat.lt_one_iff.mp known
  subst zero
  exact ⟨treWindow 0x1000 4 fourElements,⟨rfl,rfl,rfl,rfl,show 0 < 0x1000 by decide,show 0x1000+64 < wordSpan by decide,
    show 0x81000+64 ≤ wordSpan by decide⟩,0,rfl⟩

theorem charged : Charged (host completion) (ring completion) 1 := by
  refine .inr fun n _ => ?_
  have same : (ring completion).mem (elementAt (ring completion).ring n) = completion := rfl
  rw [same]
  decide

theorem returning : Returning (host completion) (ring completion) 1 := by
  intro n _ _
  have same : (ring completion).mem (elementAt (ring completion).ring n) = completion := rfl
  rw [same]
  exact fun _ _ _ _ => ⟨0x1010,by decide,.inl rfl⟩

end Sample

theorem completionsAnswered : Answers 0 1 (fun fuel => mhiPoll 0 1 EventTables.Sample.quiet fuel (Sample.host Sample.completion)) :=
  (@pollAnswers EventTables.Sample.window 0 1 EventTables.Sample.quiet (Sample.host Sample.completion) (Sample.ring Sample.completion)
    rfl rfl (EventTables.Sample.spans 0x82020 Sample.completion) ⟨0,rfl⟩ (Sample.laid Sample.completion)).mpr
    (.inr ⟨Sample.charged,Sample.returning⟩)

theorem staleUncharged : ¬Answers 0 1 (fun fuel => mhiPoll 0 1 EventTables.Sample.quiet fuel (Sample.host Sample.stale)) := by
  rintro ⟨fuel,h,ret,out,respects⟩
  have lost : ∀ few < 3, (mhiPoll 0 1 EventTables.Sample.quiet few (Sample.host Sample.stale)).outcome = .lost := by
    intro few low
    obtain rfl | rfl | rfl : few = 0 ∨ few = 1 ∨ few = 2 := by omega
    · rfl
    · rfl
    · rfl
  by_cases enough : fuel < 3
  · cases out.symm.trans (lost fuel enough)
  · obtain ⟨more,rfl⟩ : ∃ more, fuel = more+3 := ⟨fuel-3,by omega⟩
    have counts : ∃ last, (mhiPoll 0 1 EventTables.Sample.quiet (more+3) (Sample.host Sample.stale)).outcome =
        .went (last,some 2) :=
      ⟨_,rfl⟩
    obtain ⟨last,two⟩ := counts
    cases out.symm.trans two
    exact absurd (respects 2 rfl).1 (by decide)

end MhiHost.PollBudget
