import MhiHost.EventTables

/-! Marking the stale events of a channel against taking its completions out. What is taken
out of a ring leaves its element behind, to be given back like any other. -/
namespace MhiHost.StaleMarking
open Cyclic (Window)
open EventLoops

def completionOf (c : Nat) (ev : MhiTre) : Bool :=
  decide (ev.getEvChid = c) && (decide (ev.getEvType = PktType.txEvent) || decide (ev.getEvType = PktType.rscTxEvent))

def removed (c : Nat) (evs : List MhiTre) : List (Option MhiTre) := evs.map fun ev => if completionOf c ev then none else some ev

section Removed
variable (kind : ErDataType) (e : Nat) (scripts : Nat → Nat → CbScript)

def served : List (Option MhiTre) → Stage → Trace Access Stage
  | [],s => .pure s
  | first :: rest,s =>
    if kind = .data ∧ s.quota = 0 then .pure s
    else match first with
      | none => served rest ⟨recycleAt e s.host,s.quota,s.count+1⟩
      | some ev => (event s.host ev kind (scripts s.count)).bind fun h =>
          served rest ⟨recycleAt e h,quotaLeft s.host kind ev s.quota,s.count+1⟩

def processElements (quota : Nat) (elements : List (Option MhiTre)) (h : Host) : Trace Access (Host × Option Nat) :=
  if mhiEventAccessInvalid h.cntrl.pmState then .pure (h,none)
  else (served kind e scripts elements ⟨h,quota,0⟩).bind fun s => .pure (ringErDb e s.host,some s.count)

end Removed

/-! What the marking writes. -/
section Marking
variable {w : Window} {c i t : Nat} {er : MhiEvent}

theorem nextTreSlot (spans : er.ring.Over w) (tres : w.size = sizeofMhiTre) (i : Nat) :
    nextTre er.ring (w.slot i) = w.slot (i+1) := by
  have limit := spans.limit
  have base := spans.base
  have bound := w.slotBound i
  rw [← w.nextSlot,nextTre,Window.next,base,limit,tres]
  rw [tres] at bound
  by_cases last : w.limit ≤ w.slot i+sizeofMhiTre
  · rw [if_pos last,if_pos (by omega)]
  · rw [if_neg last,if_neg (by omega)]

structure Marked (w : Window) (c i t : Nat) (before after : Nat → MhiTre) : Prop where
  pending : w.view after i t = (w.view before i t).map (markStale c)
  others : ∀ p, (∀ j, i ≤ j → j < t → p ≠ w.slot j) → after p = before p

theorem marksNothing (c i : Nat) (mem : Nat → MhiTre) : Marked w c i i mem mem := by
  refine ⟨?_,fun _ _ => rfl⟩
  rw [w.viewEmpty]
  rfl

theorem markedPop {before after : Nat → MhiTre} (more : i < t)
    (marked : w.view after i t = (w.view before i t).map (markStale c)) :
    after (w.slot i) = markStale c (before (w.slot i)) ∧ w.view after (i+1) t = (w.view before (i+1) t).map (markStale c) := by
  rw [w.viewPop _ more,w.viewPop _ more,List.map_cons,List.cons.injEq] at marked
  exact marked

theorem staleRun {fuel : Nat} (spans : er.ring.Over w) (tres : w.size = sizeofMhiTre) (ordered : i ≤ t) (near : t < i+w.count)
    (enough : t-i ≤ fuel) :
    ∃ mem, staleLoop c (w.slot t) fuel (w.slot i) er = some {er with mem := mem} ∧ Marked w c i t er.mem mem := by
  induction fuel generalizing i er with
  | zero =>
    have same : i = t := by omega
    subst same
    exact ⟨er.mem,by rw [staleLoop,if_pos rfl],marksNothing c i er.mem⟩
  | succ fuel ih =>
    rcases Nat.eq_or_lt_of_le ordered with same | more
    · subst same
      exact ⟨er.mem,by rw [staleLoop,if_pos rfl],marksNothing c i er.mem⟩
    · have apart : ∀ j, i < j → j ≤ t → w.slot i ≠ w.slot j := fun j after before => w.slotApart after (by omega)
      have written : ∀ p, p ≠ w.slot i → Function.update er.mem (w.slot i) (markStale c (er.mem (w.slot i))) p = er.mem p :=
        fun p other => Function.update_of_ne other _ _
      obtain ⟨mem,ran,pending,others⟩ := @ih (i+1)
        {er with mem := Function.update er.mem (w.slot i) (markStale c (er.mem (w.slot i)))} spans (by omega) (by omega) (by omega)
      refine ⟨mem,?_,?_,?_⟩
      · rw [staleLoop,if_neg (apart t more (Nat.le_refl t)),nextTreSlot spans tres]
        exact ran
      · have first : mem (w.slot i) = markStale c (er.mem (w.slot i)) := by
          rw [others _ fun j after before => apart j after (Nat.le_of_lt before)]
          exact Function.update_self _ _ _
        have rest : w.view (Function.update er.mem (w.slot i) (markStale c (er.mem (w.slot i)))) (i+1) t =
            w.view er.mem (i+1) t := by
          refine List.map_congr_left fun k member => written _ ?_
          have inside := List.mem_range.mp member
          exact (apart _ (by omega) (by omega)).symm
        rw [w.viewPop _ more,w.viewPop _ more,first,pending,rest]
        rfl
      · intro p outside
        rw [others p fun j after before => outside j (by omega) before]
        exact written p (outside i (Nat.le_refl i) more)

end Marking

/-! A marked event is no event to either loop. -/
section Neutral
variable {h : Host} {kind : ErDataType} {ev : MhiTre}

structure Ignored (h : Host) (kind : ErDataType) (ev : MhiTre) : Prop where
  uses : uses h ev kind = []
  process : ∀ script, processEvent h kind ev script = some h
  quota : countsQuota h kind ev = false

theorem staleType (c : Nat) (t : MhiTre) :
    ({t with dword1 := (c <<< 24) ||| (PktType.staleEvent <<< 16)} : MhiTre).getEvType = PktType.staleEvent := by
  have low : ∀ n : Nat, n &&& 0xff = n % 256 := fun n => Nat.and_two_pow_sub_one_eq_mod n 8
  have chan : (c <<< 24) >>> 16 = c * 256 := by
    rw [Nat.shiftLeft_eq,Nat.shiftRight_eq_div_pow]
    omega
  show ((c <<< 24) ||| (PktType.staleEvent <<< 16)) >>> 16 &&& 0xff = PktType.staleEvent
  rw [Nat.shiftRight_or_distrib,Nat.and_or_distrib_right,chan,low,Nat.mul_mod_left,Nat.zero_or]
  rfl

theorem ctrlIgnores (other : ev.getEvType ∉ [PktType.bwReqEvent,PktType.stateChangeEvent,PktType.cmdCompletionEvent,PktType.eeEvent,
    PktType.txEvent]) : Ignored h .ctrl ev := by
  simp only [List.mem_cons,List.not_mem_nil,or_false,not_or] at other
  obtain ⟨bwReq,stateChange,cmdCompletion,ee,tx⟩ := other
  refine ⟨?_,fun script => ?_,?_⟩
  · unfold uses
    dsimp only
    rw [if_neg cmdCompletion,if_neg tx]
  · unfold processEvent ctrlEvent
    dsimp only
    rw [if_neg bwReq,if_neg stateChange,if_neg cmdCompletion,if_neg ee,if_neg tx]
  · unfold countsQuota
    rw [decide_eq_false tx]
    exact Bool.and_false _

theorem dataIgnores (tx : ev.getEvType ≠ PktType.txEvent)
    (rsc : ¬(ev.getEvType = PktType.rscTxEvent ∧ ev.getEvChid < h.maxChan)) :
    Ignored h .data ev := by
  refine ⟨?_,fun script => ?_,?_⟩
  · unfold uses rscUses
    dsimp only
    rw [if_neg tx]
    split
    · rename_i type
      exact if_neg fun known => rsc ⟨type,known⟩
    · rfl
  · unfold processEvent dataEvent
    dsimp only
    rw [if_neg tx,if_neg rsc]
  · unfold countsQuota
    simp only [tx,decide_false,Bool.false_or,Bool.and_eq_false_iff,decide_eq_false_iff_not,decide_true,Bool.true_and]
    exact or_iff_not_imp_left.mpr fun known type => rsc ⟨type,not_not.mp known⟩

theorem unhandled (kind : ErDataType) (other : ev.getEvType = PktType.staleEvent) : Ignored h kind ev := by
  cases kind with
  | ctrl => exact ctrlIgnores (other ▸ by decide)
  | data => exact dataIgnores (other ▸ by decide) fun both => absurd (other.symm.trans both.1) (by decide)

theorem unknownRsc (rsc : ev.getEvType = PktType.rscTxEvent) (unread : kind = .ctrl ∨ h.maxChan ≤ ev.getEvChid) :
    Ignored h kind ev := by
  cases kind with
  | ctrl => exact ctrlIgnores (rsc ▸ by decide)
  | data =>
    have outside : h.maxChan ≤ ev.getEvChid := unread.resolve_left nofun
    exact dataIgnores (rsc ▸ by decide) fun both => absurd both.2 (Nat.not_lt.mpr outside)

theorem notStale {c : Nat} (other : completionOf c ev = false) : markStale c ev = ev := by
  refine if_neg fun both => ?_
  unfold completionOf at other
  rw [both.1,both.2] at other
  simp at other

/- What the marking makes of a completion of the channel. -/
theorem completionIgnored {c : Nat} (own : completionOf c ev = true)
    (unread : kind = .ctrl ∨ h.maxChan ≤ c ∨ (ev.getEvType = PktType.rscTxEvent → ev.getEvChid ≠ c)) :
    Ignored h kind (markStale c ev) := by
  have parts : ev.getEvChid = c ∧ (ev.getEvType = PktType.txEvent ∨ ev.getEvType = PktType.rscTxEvent) := by
    simpa [completionOf] using own
  obtain ⟨chid,tx | rsc⟩ := parts
  · rw [markStale,if_pos ⟨tx,chid⟩]
    exact unhandled kind (staleType c ev)
  · have same : markStale c ev = ev := if_neg fun both => absurd (both.1.symm.trans rsc) (by decide)
    rw [same]
    refine unknownRsc rsc ?_
    rcases unread with ctrl | outside | none
    · exact .inl ctrl
    · exact .inr (chid ▸ outside)
    · exact absurd chid (none rsc)

end Neutral

/-! The loop over a marked ring. -/
section Processing
variable {w : Window} {before after : Nat → MhiTre} {c e i t quota fuel maxChan : Nat} {kind : ErDataType}
  {scripts : Nat → Nat → CbScript} {h : Host} {s : Stage}

def Unread (kind : ErDataType) (maxChan c : Nat) (evs : List MhiTre) : Prop :=
  kind = .ctrl ∨ maxChan ≤ c ∨ ∀ ev ∈ evs, ev.getEvType = PktType.rscTxEvent → ev.getEvChid ≠ c

theorem eventRan {ev : MhiTre} {script : Nat → CbScript} {h' : Host} (went : (event h ev kind script).outcome = .went h') :
    processEvent h kind ev script = some h' := by
  unfold event at went
  cases ran : processEvent h kind ev script with
  | none =>
    rw [ran] at went
    cases went
  | some _ =>
    rw [ran] at went
    cases went
    rfl

theorem servedSpent {first : Option MhiTre} {rest : List (Option MhiTre)} (spent : kind = .data ∧ s.quota = 0) :
    served kind e scripts (first :: rest) s = .pure s := by
  cases first with
  | none => rw [served,if_pos spent]
  | some ev => rw [served,if_pos spent]

theorem removedCons (c : Nat) (ev : MhiTre) (evs : List MhiTre) :
    removed c (ev :: evs) = (if completionOf c ev then none else some ev) :: removed c evs := rfl

theorem loopServed (ordered : i ≤ t) (near : t < i+w.count) (marked : w.view after i t = (w.view before i t).map (markStale c))
    (unread : Unread kind maxChan c (w.view before i t)) (known : s.host.maxChan = maxChan)
    (stands : Stands w after (w.slot t) e i s.host) (enough : t-i < fuel) :
    Trace.loop (turn kind e scripts) fuel s = served kind e scripts (removed c (w.view before i t)) s := by
  induction fuel generalizing i s with
  | zero => omega
  | succ fuel ih =>
    rw [Trace.loop,turnStands scripts stands]
    rcases Nat.eq_or_lt_of_le ordered with same | more
    · subst same
      rw [if_neg fun more => more.1 rfl,w.viewEmpty]
      rfl
    · obtain ⟨first,rest⟩ := markedPop more marked
      rw [w.viewPop _ more] at unread ⊢
      have apart : w.slot t ≠ w.slot i := (w.slotApart more near).symm
      rw [removedCons]
      by_cases spent : kind = .data ∧ s.quota = 0
      · rw [if_neg fun more => more.2 spent.1 spent.2,servedSpent spent]
        rfl
      · have turns : More kind (w.slot t) (w.slot i) s.quota := ⟨apart,fun data none => spent ⟨data,none⟩⟩
        have later : Unread kind maxChan c (w.view before (i+1) t) :=
          unread.imp_right fun or => or.imp_right fun other ev member => other ev (List.mem_cons_of_mem _ member)
        rw [if_pos turns,first]
        cases own : completionOf c (before (w.slot i)) with
        | true =>
          have here : kind = .ctrl ∨ s.host.maxChan ≤ c ∨
              ((before (w.slot i)).getEvType = PktType.rscTxEvent → (before (w.slot i)).getEvChid ≠ c) := by
            rw [known]
            exact unread.imp_right fun or => or.imp_right fun other => other _ List.mem_cons_self
          obtain ⟨uses,process,counts⟩ := completionIgnored own here
          rw [if_pos rfl,served,if_neg spent]
          have next := @ih (i+1) ⟨recycleAt e s.host,s.quota,s.count+1⟩ more (by omega) rest later known (recycleStands stands) (by omega)
          rw [← next,event,uses,process,quotaLeft,counts]
          rfl
        | false =>
          rw [notStale own,if_neg Bool.false_ne_true,served,if_neg spent]
          rw [Trace.bindAssoc]
          refine Trace.bindCongr fun h' went => ?_
          have ran := eventRan went
          rw [Trace.pureBind]
          exact ih more (by omega) rest later ((EventTables.processShifts ran).maxChan.trans known)
            (recycleStands (processStands ran stands)) (by omega)

end Processing

theorem callServed {w : Window} {before after : Nat → MhiTre} {c e i t quota fuel : Nat} {kind : ErDataType}
    {scripts : Nat → Nat → CbScript} {h : Host} (ordered : i ≤ t) (near : t < i+w.count)
    (marked : w.view after i t = (w.view before i t).map (markStale c)) (unread : Unread kind h.maxChan c (w.view before i t))
    (stands : Stands w after (w.slot t) e i h) (enough : t-i < fuel) :
    mhiProcessEvRing kind e quota scripts fuel h = processElements kind e scripts quota (removed c (w.view before i t)) h := by
  rw [mhiProcessEvRing,processElements]
  split
  · rfl
  · rw [@loopServed w before after c e i t fuel h.maxChan kind scripts ⟨h,quota,0⟩ ordered near marked unread rfl stands enough]

/-! A completion that stays in a data ring reaches the channel once it is prepared again. -/
section Unmarked
variable {c e : Nat} {h : Host} {s : Stage} {ev : MhiTre} {scripts : Nat → Nat → CbScript}

def Solo (c : Nat) (h : Host) : Prop := ∀ j, (h.chans j).chState = .enabled ↔ j = c

theorem soloIdle (solo : Solo c h) (other : completionOf c ev = false) (script : Nat → CbScript) :
    ∃ h', processEvent h .data ev script = some h' ∧ h'.chans = h.chans ∧ h'.maxChan = h.maxChan := by
  have off : ev.getEvType = PktType.txEvent ∨ ev.getEvType = PktType.rscTxEvent → (h.chans ev.getEvChid).chState ≠ .enabled := by
    intro transfer enabled
    have own := (solo ev.getEvChid).mp enabled
    rcases transfer with tx | rsc
    · simp [completionOf,own,tx] at other
    · simp [completionOf,own,rsc] at other
  have still : (h.setPort ev.getEvChid (h.port ev.getEvChid)).chans = h.chans := Function.update_eq_self _ _
  unfold processEvent dataEvent
  dsimp only
  by_cases tx : ev.getEvType = PktType.txEvent
  · rw [if_pos tx,txEvent]
    split
    · have parsed : parseXferEvent ev script (h.port ev.getEvChid) = some (h.port ev.getEvChid) := if_pos (off (.inl tx))
      rw [parsed]
      exact ⟨_,rfl,still,rfl⟩
    · exact ⟨h,rfl,rfl,rfl⟩
  · rw [if_neg tx]
    split
    · rename_i rsc
      have parsed : parseRscEvent ev (script 0) (h.port ev.getEvChid) = h.port ev.getEvChid := if_pos (off (.inr rsc.1))
      rw [parsed]
      exact ⟨_,rfl,still,rfl⟩
    · exact ⟨h,rfl,rfl,rfl⟩

theorem soloRsc (solo : Solo c h) (known : c < h.maxChan) (rsc : ev.getEvType = PktType.rscTxEvent) (own : ev.getEvChid = c)
    {script : Nat → CbScript} (quiet : (script 0).calls = []) :
    ∃ h', processEvent h .data ev script = some h' ∧ Solo c h' ∧ (h'.chans c).xferLog ≠ [] ∧ h'.maxChan = h.maxChan := by
  have both : ev.getEvType = PktType.rscTxEvent ∧ ev.getEvChid < h.maxChan := ⟨rsc,own ▸ known⟩
  have other : ev.getEvType ≠ PktType.txEvent := fun tx => absurd (rsc.symm.trans tx) (by decide)
  have ran : processEvent h .data ev script =
      some (h.setPort ev.getEvChid (parseRscEvent ev (script 0) (h.port ev.getEvChid))) := by
    unfold processEvent dataEvent
    dsimp only
    rw [if_neg other,if_pos both]
  refine ⟨_,ran,fun j => ?_,?_,rfl⟩
  · have shifts := (EventTables.processShifts ran).chans
    have same : ((h.setPort ev.getEvChid (parseRscEvent ev (script 0) (h.port ev.getEvChid))).chans j).chState =
        (h.chans j).chState :=
      (shifts j).chState
    rw [same]
    exact solo j
  · have enabled : ¬(h.port c).chan.chState ≠ .enabled := not_not.mpr ((solo c).mpr rfl)
    rw [own,setPortSelf,parseRscEvent,if_neg enabled,quiet]
    exact List.append_ne_nil_of_right_ne_nil _ (List.cons_ne_nil _ _)

theorem markedOther (other : ¬(ev.getEvType = PktType.rscTxEvent ∧ ev.getEvChid = c)) :
    completionOf c (markStale c ev) = false := by
  cases own : completionOf c ev with
  | false => rw [notStale own,own]
  | true =>
    obtain ⟨chid,tx | rsc⟩ : ev.getEvChid = c ∧ (ev.getEvType = PktType.txEvent ∨ ev.getEvType = PktType.rscTxEvent) := by
      simpa [completionOf] using own
    · rw [markStale,if_pos ⟨tx,chid⟩,completionOf,staleType]
      exact Bool.and_false _
    · exact absurd ⟨rsc,chid⟩ other

theorem soloTurn (solo : Solo c h) (known : c < h.maxChan) (ev : MhiTre) {script : Nat → CbScript}
    (quiet : (script 0).calls = []) :
    ∃ h', processEvent h .data (markStale c ev) script = some h' ∧ Solo c h' ∧ h'.maxChan = h.maxChan ∧
      ((ev.getEvType = PktType.rscTxEvent ∧ ev.getEvChid = c) ∨ (h.chans c).xferLog ≠ [] → (h'.chans c).xferLog ≠ []) := by
  by_cases rsc : ev.getEvType = PktType.rscTxEvent ∧ ev.getEvChid = c
  · have same : markStale c ev = ev := if_neg fun both => absurd (both.1.symm.trans rsc.1) (by decide)
    rw [same]
    obtain ⟨h',ran,solo',logged,maxChan⟩ := soloRsc solo known rsc.1 rsc.2 quiet
    exact ⟨h',ran,solo',maxChan,fun _ => logged⟩
  · obtain ⟨h',ran,chans,maxChan⟩ := soloIdle solo (markedOther rsc) script
    refine ⟨h',ran,fun j => ?_,maxChan,fun either => ?_⟩
    · rw [chans]
      exact solo j
    · rw [chans]
      exact either.resolve_left rsc

theorem soloLogs {w : Window} {before after : Nat → MhiTre} {i t fuel : Nat} (quiet : ∀ n, (scripts n 0).calls = [])
    (ordered : i ≤ t) (near : t < i+w.count) (marked : w.view after i t = (w.view before i t).map (markStale c))
    (solo : Solo c s.host) (known : c < s.host.maxChan) (stands : Stands w after (w.slot t) e i s.host) (quota : t-i ≤ s.quota)
    (pending : (∃ ev ∈ w.view before i t, ev.getEvType = PktType.rscTxEvent ∧ ev.getEvChid = c) ∨ (s.host.chans c).xferLog ≠ [])
    {last : Stage} (ran : (Trace.loop (turn .data e scripts) fuel s).outcome = .went last) :
    (last.host.chans c).xferLog ≠ [] := by
  induction fuel generalizing i s with
  | zero => cases ran
  | succ fuel ih =>
    obtain ⟨next,out,rest⟩ := Trace.bindWent.mp ran
    rcases Nat.eq_or_lt_of_le ordered with same | more
    · subst same
      rw [turnStands scripts stands,if_neg fun more => more.1 rfl] at out
      cases out
      cases rest
      refine pending.resolve_left ?_
      rw [w.viewEmpty]
      rintro ⟨_,none,-⟩
      exact List.not_mem_nil none
    · obtain ⟨first,later⟩ := markedPop more marked
      rw [w.viewPop _ more] at pending
      have apart : w.slot t ≠ w.slot i := (w.slotApart more near).symm
      have left : 0 < s.quota := Nat.lt_of_lt_of_le (Nat.sub_pos_of_lt more) quota
      obtain ⟨h',process,solo',maxChan,logs⟩ := soloTurn solo known (before (w.slot i)) (quiet s.count)
      rw [← first] at process
      have goes := (turnGoes stands).mpr ⟨⟨apart,fun _ => Nat.pos_iff_ne_zero.mp left⟩,h',process,rfl⟩
      cases out.symm.trans goes
      refine ih more (by omega) later solo' (maxChan ▸ known) (goesStands stands goes) ?_ ?_ rest
      · have one : t-(i+1) ≤ s.quota-1 := Nat.sub_le_sub_right quota 1
        show t-(i+1) ≤ quotaLeft _ _ _ _
        unfold quotaLeft
        split
        · exact one
        · exact one.trans (Nat.sub_le _ _)
      · rcases pending with ⟨ev,member,rsc⟩ | logged
        · rcases List.mem_cons.mp member with here | there
          · exact .inr (logs (.inl (here ▸ rsc)))
          · exact .inl ⟨ev,there,rsc⟩
        · exact .inr (logs (.inr logged))

theorem soloServed (evs : List MhiTre) (solo : Solo c s.host) :
    ∃ last, (served .data e scripts (removed c evs) s).outcome = .went last ∧ last.host.chans = s.host.chans := by
  induction evs generalizing s with
  | nil => exact ⟨s,rfl,rfl⟩
  | cons ev evs ih =>
    rw [removedCons]
    by_cases spent : ErDataType.data = .data ∧ s.quota = 0
    · rw [servedSpent spent]
      exact ⟨s,rfl,rfl⟩
    · cases own : completionOf c ev with
      | true =>
        rw [if_pos rfl,served,if_neg spent]
        exact @ih ⟨recycleAt e s.host,s.quota,s.count+1⟩ solo
      | false =>
        rw [if_neg Bool.false_ne_true,served,if_neg spent]
        obtain ⟨h',ran,chans,-⟩ := soloIdle solo own (scripts s.count)
        have solo' : Solo c h' := fun j => by rw [chans]; exact solo j
        obtain ⟨last,went,same⟩ := @ih ⟨recycleAt e h',quotaLeft s.host .data ev s.quota,s.count+1⟩ solo'
        refine ⟨last,Trace.bindWent.mpr ⟨h',?_,went⟩,same.trans chans⟩
        rw [event,ran]

theorem bellChans (e : Nat) (h : Host) : (ringErDb e h).chans = h.chans := by
  unfold ringErDb
  split
  · rfl
  · split <;> rfl

def preparedAgain (er : MhiEvent) (maxChan c : Nat) : Host :=
  {MhiHost.Sample.ready with
    maxChan := maxChan
    events := [er]
    chans := fun j => if j = c then {Chan.zero with chState := .enabled} else Chan.zero}

theorem preparedSolo (er : MhiEvent) (maxChan c : Nat) : Solo c (preparedAgain er maxChan c) := by
  intro j
  by_cases own : j = c
  · have enabled : ((preparedAgain er maxChan c).chans j).chState = .enabled := congrArg Chan.chState (if_pos own)
    exact iff_of_true enabled own
  · have off : ((preparedAgain er maxChan c).chans j).chState = .disabled := congrArg Chan.chState (if_neg own)
    rw [off]
    exact iff_of_false nofun own

theorem preparedLog (er : MhiEvent) (maxChan c : Nat) : ((preparedAgain er maxChan c).chans c).xferLog = [] :=
  congrArg Chan.xferLog (if_pos rfl)

theorem completionTold {w : Window} {er : MhiEvent} {before : Nat → MhiTre} {i t maxChan : Nat} (ordered : i ≤ t)
    (near : t < i+w.count)
    (marked : w.view er.mem i t = (w.view before i t).map (markStale c)) (known : c < maxChan)
    (pending : ∃ ev ∈ w.view before i t, ev.getEvType = PktType.rscTxEvent ∧ ev.getEvChid = c)
    (quiet : ∀ n, (scripts n 0).calls = []) (stands : Stands w er.mem (w.slot t) 0 i (preparedAgain er maxChan c)) (fuel : Nat) :
    (mhiProcessEvRing .data 0 (t-i) scripts fuel (preparedAgain er maxChan c)).outcome ≠
      (processElements .data 0 scripts (t-i) (removed c (w.view before i t)) (preparedAgain er maxChan c)).outcome := by
  intro same
  have valid : mhiEventAccessInvalid (preparedAgain er maxChan c).cntrl.pmState = false := by
    show mhiEventAccessInvalid MhiHost.Sample.ready.cntrl.pmState = false
    decide
  obtain ⟨last,went,chans⟩ := @soloServed c 0 ⟨preparedAgain er maxChan c,t-i,0⟩ scripts (w.view before i t) (preparedSolo er maxChan c)
  have ended : (processElements .data 0 scripts (t-i) (removed c (w.view before i t)) (preparedAgain er maxChan c)).outcome =
      .went (ringErDb 0 last.host,some last.count) := by
    rw [processElements,valid,if_neg Bool.false_ne_true]
    exact Trace.bindWent.mpr ⟨last,went,rfl⟩
  rw [ended,mhiProcessEvRing,valid,if_neg Bool.false_ne_true] at same
  obtain ⟨reached,ran,rang⟩ := Trace.bindWent.mp same
  have logged := soloLogs quiet ordered near marked (preparedSolo er maxChan c) known stands (Nat.le_refl _) (.inl pending) ran
  have hosts : ringErDb 0 reached.host = ringErDb 0 last.host := (Prod.mk.inj (Outcome.went.inj rang)).1
  rw [← bellChans 0,hosts,bellChans,chans] at logged
  exact logged (preparedLog er maxChan c)

end Unmarked

/- Marking succeeds and writes over the channel's own events only. It is as good as taking
its completions out if and only if no out-of-order one is among them that a data ring hands on. -/
theorem staleDeleted {w : Window} {er : MhiEvent} {i t : Nat} (spans : er.ring.Over w) (tres : w.size = sizeofMhiTre)
    (rp : er.ring.rp = w.slot i) (devRp : readPointer er = w.slot t) (ordered : i ≤ t) (near : t < i+w.count)
    (kind : ErDataType) (maxChan c : Nat) :
    ∃ er', mhiMarkStaleEvents er c = some er' ∧ Marked w c i t er.mem er'.mem ∧
      ((∀ h e quota scripts fuel, h.maxChan = maxChan → Stands w er'.mem (w.slot t) e i h → t-i < fuel →
        (mhiProcessEvRing kind e quota scripts fuel h).outcome =
          (processElements kind e scripts quota (removed c (w.view er.mem i t)) h).outcome) ↔
      Unread kind maxChan c (w.view er.mem i t)) := by
  have enough : t-i ≤ er.ring.elements := by
    rw [spans.elements]
    omega
  obtain ⟨mem,ran,marked⟩ := staleRun (c := c) spans tres ordered near enough
  refine ⟨{er with mem := mem},?_,marked,?_,?_⟩
  · have pointer : mhiToVirtual er.ring er.ctxtRp = w.slot t := devRp
    rw [mhiMarkStaleEvents,pointer,rp]
    exact ran
  · intro same
    by_contra read
    obtain ⟨data,read⟩ := not_or.mp read
    obtain ⟨known,read⟩ := not_or.mp read
    have pending : ∃ ev ∈ w.view er.mem i t, ev.getEvType = PktType.rscTxEvent ∧ ev.getEvChid = c := by
      by_contra none
      exact read fun ev member rsc chid => none ⟨ev,member,rsc,chid⟩
    have kind' : kind = .data := by
      cases kind with
      | ctrl => exact absurd rfl data
      | data => rfl
    subst kind'
    have stands : Stands w mem (w.slot t) 0 i (preparedAgain {er with mem := mem} maxChan c) := ⟨_,rfl,spans,rp,rfl,devRp⟩
    exact completionTold ordered near marked.pending (Nat.lt_of_not_le known) pending (fun _ => rfl) stands (t-i+1)
      (same _ 0 (t-i) EventTables.Sample.quiet (t-i+1) rfl stands (Nat.lt_succ_self _))
  · intro unread h e quota scripts fuel known stands enough
    rw [← known] at unread
    rw [callServed ordered near marked.pending unread stands enough]

namespace Sample

def ring (t : MhiTre) : MhiEvent := {EventTables.Sample.ring 0x82010 t with dataType := .data}
def started (er : MhiEvent) : Host :=
  {EventTables.Sample.host 0 ⟨0,0,0⟩ with
    events := [er]
    chans := fun i => {(EventTables.Sample.host 0 ⟨0,0,0⟩).chans i with chState := .enabled}}

def inOrder (ptr : Nat) : MhiTre := ⟨ptr,EvCc.eot <<< 24,PktType.txEvent <<< 16⟩

end Sample

theorem orderedDeleted : ∃ er', mhiMarkStaleEvents (Sample.ring (Sample.inOrder 0x84000)) 0 = some er' ∧
    Marked EventTables.Sample.window 0 0 1 (Sample.ring (Sample.inOrder 0x84000)).mem er'.mem ∧
    ((∀ h e quota scripts fuel, h.maxChan = 1 → Stands EventTables.Sample.window er'.mem 0x2010 e 0 h → 1 < fuel →
      (mhiProcessDataEventRing e quota scripts fuel h).outcome =
        (processElements .data e scripts quota (removed 0 [Sample.inOrder 0x84000]) h).outcome) ↔
    Unread .data 1 0 [Sample.inOrder 0x84000]) :=
  @staleDeleted EventTables.Sample.window (Sample.ring (Sample.inOrder 0x84000)) 0 1
    (EventTables.Sample.spans 0x82010 (Sample.inOrder 0x84000)) rfl rfl rfl (Nat.zero_le 1) (by decide) .data 1 0

theorem outOfOrderKept : ∃ er', mhiMarkStaleEvents (Sample.ring (EventTables.Sample.outOfOrder 0)) 0 = some er' ∧
    (∃ last, (mhiProcessDataEventRing 0 5 EventTables.Sample.quiet 2 (Sample.started er')).outcome = .went (last,some 1) ∧
      (last.chans 0).xferLog = [⟨0,some .toDevice,0,none⟩]) ∧
    ∃ last, (processElements .data 0 EventTables.Sample.quiet 5 (removed 0 [EventTables.Sample.outOfOrder 0]) (Sample.started er')).outcome =
      .went (last,some 1) ∧ (last.chans 0).xferLog = [] :=
  ⟨_,rfl,⟨_,rfl,rfl⟩,_,rfl,rfl⟩

end MhiHost.StaleMarking
