import MhiHost.Setup
import MhiHost.Stations
import MhiHost.Runs

/-! Commands and their answers. A completion names a ring element only; the channel it
names keeps one code and one completion for whichever command is outstanding. Every
command has a number, its position among all commands queued; the device reports codes
in that order. A call that waits should see the report on its own number. -/
namespace MhiHost.CommandMatching
open Cyclic (Window)

inductive Kind where
  | start | reset
  deriving DecidableEq, Repr

def Kind.cmd : Kind → CmdType
  | start => .startChan
  | reset => .resetChan

inductive Call where
  | idle
  | begun (kind : Kind)
  | waiting (kind : Kind) (number : Nat)
  | woken (kind : Kind) (number : Nat) (answered : Bool)
  | clearing
  deriving DecidableEq, Repr

structure Exchange where
  host : Host
  call : Nat → Call
  sent : List (Nat × Kind)
  reports : List Nat

namespace Exchange
def start (h : Host) : Exchange := ⟨h,fun _ => .idle,[],[]⟩
def setCall (s : Exchange) (i : Nat) (c : Call) : Exchange := {s with call := Function.update s.call i c}
def withHost (s : Exchange) (h : Host) : Exchange := {s with host := h}
def send (s : Exchange) (i : Nat) (kind : Kind) : Exchange :=
  {s with sent := s.sent ++ [(i,kind)], call := Function.update s.call i (.waiting kind s.sent.length)}
end Exchange

def Flying (sent : List (Nat × Kind)) (done i k : Nat) : Prop := done ≤ k ∧ ∃ kind, sent[k]? = some (i,kind)

/- `G` says when a call may go on to reinitialise its channel's completion. -/
inductive Step (w : Window) (G : Exchange → Nat → Prop) : Exchange → Exchange → Prop where
  | prepareBegin {s h err} (i : Nat) (vz : Option Nat) (known : i < s.host.maxChan) (free : s.call i = .idle)
      (may : err = none → G s i) (ran : prepareBegin s.host i vz = (h,err)) :
      Step w G s ((s.withHost h).setCall i (if err.isNone then .begun .start else .idle))
  | prepareSent {s h} (i : Nat) (known : i < s.host.maxChan) (stands : s.call i = .begun .start)
      (ran : prepareSend s.host i = (h,none)) : Step w G s ((s.withHost h).send i .start)
  | prepareUnsent {s h e} (i : Nat) (known : i < s.host.maxChan) (stands : s.call i = .begun .start)
      (ran : prepareSend s.host i = (h,some e)) : Step w G s ((s.withHost h).setCall i .idle)
  | unprepareOff {s h going} (i : Nat) (known : i < s.host.maxChan) (free : s.call i = .idle) (may : going = true → G s i)
      (ran : unprepareOff s.host i = (h,going)) :
      Step w G s ((s.withHost h).setCall i (if going then .begun .reset else .idle))
  | unprepareSent {s h} (i : Nat) (known : i < s.host.maxChan) (stands : s.call i = .begun .reset)
      (ran : unprepareSend s.host i = (h,.waiting)) : Step w G s ((s.withHost h).send i .reset)
  | unprepareUnsent {s h} (i : Nat) (known : i < s.host.maxChan) (stands : s.call i = .begun .reset)
      (ran : unprepareSend s.host i = (h,.failed)) : Step w G s ((s.withHost h).setCall i .clearing)
  | wake {s} (i k : Nat) (kind : Kind) (inTime : Bool) (known : i < s.host.maxChan)
      (stands : s.call i = .waiting kind k) :
      Step w G s ((s.withHost (s.host.setChan i (waitForCompletion (s.host.chans i) inTime).1)).setCall i
        (.woken kind k (waitForCompletion (s.host.chans i) inTime).2))
  | prepareFinish {s h err} (i k : Nat) (answered : Bool) (reply : Nat → Option Nat × DmaReply)
      (known : i < s.host.maxChan) (stands : s.call i = .woken .start k answered)
      (ran : prepareFinish s.host i answered reply = (h,err)) : Step w G s ((s.withHost h).setCall i .idle)
  | unprepareWoken {s} (i k : Nat) (answered : Bool) (known : i < s.host.maxChan)
      (stands : s.call i = .woken .reset k answered) : Step w G s (s.setCall i .clearing)
  | unprepareFinish {s h} (i : Nat) (script : Nat → List QueueReq) (known : i < s.host.maxChan)
      (stands : s.call i = .clearing) (ran : unprepareFinish s.host i script = some h) :
      Step w G s ((s.withHost h).setCall i .idle)
  | completion {s} (ev : MhiTre) (more : s.reports.length < s.sent.length)
      (named : ev.getEvPtr = s.host.cmdRing.iommuBase + (w.slot s.reports.length - s.host.cmdRing.base)) :
      Step w G s {s with host := mhiProcessCmdCompletion s.host ev, reports := s.reports ++ [ev.getEvCode]}
  | controller {s} (c : Cntrl) : Step w G s (s.withHost {s.host with cntrl := c})

structure Slip where
  ccs : Nat
  completion : Nat
  chan : Nat
  eeMask : Nat
  chState : ChState
  deriving DecidableEq, Repr

def slip (ch : Chan) : Slip := ⟨ch.ccs,ch.completion,ch.chan,ch.eeMask,ch.chState⟩

section Slips
variable {p out : Port} {err : Option Errno}

theorem ringIfSlip (p : Port) : slip (ringIfAccessible p).chan = slip p.chan := by
  unfold ringIfAccessible
  split <;> rfl

theorem genTreSlip {info flags reply} (ran : mhiGenTre p info flags reply = (out,err)) : slip out.chan = slip p.chan := by
  unfold mhiGenTre at ran
  cases mapped : (fillBufInfo p info reply).2 with
  | some e =>
    simp only [mapped] at ran
    cases ran
    rfl
  | none =>
    simp only [mapped] at ran
    cases ran
    rfl

theorem queueLockedSlip (p : Port) (info : BufInfo) (flags : Nat) (reply : DmaReply) :
    slip (queueLocked p info flags reply).1.chan = slip p.chan := by
  unfold queueLocked
  split
  · rfl
  split
  · rfl
  split
  · rfl
  dsimp only
  split
  · rename_i ran
    have same := genTreSlip ran
    exact same
  · rename_i ran
    have same := genTreSlip ran
    exact (ringIfSlip _).trans same

theorem queueBufSlip (p : Port) (buf len flags : Nat) (reply : DmaReply) :
    slip (mhiQueueBuf p buf len flags reply).1.chan = slip p.chan := by
  unfold mhiQueueBuf mhiQueueBufFill
  by_cases failing : mhiPmInErrorState p.cntrl.pmState = true
  · simp only [failing]
    rfl
  by_cases full : mhiIsRingFull p.chan.treRing = true
  · simp only [failing,full]
    rfl
  simp only [failing,full,Bool.false_eq_true,if_false]
  split
  · rename_i ran
    have same := genTreSlip ran
    exact same
  · rename_i ran
    have same := genTreSlip ran
    exact (ringIfSlip _).trans same

theorem queueAllSlip (qs : List QueueReq) (p : Port) : slip (queueAll p qs).chan = slip p.chan := by
  induction qs generalizing p with
  | nil => rfl
  | cons q rest ih =>
    refine (ih (mhiQueue p q).1).trans ?_
    unfold mhiQueue
    split
    · exact queueBufSlip p _ _ _ _
    · exact queueLockedSlip p _ _ _
    · exact queueLockedSlip p _ _ _

theorem resetOneSlip (calls : List QueueReq) (p : Port) : slip (resetOne calls p).chan = slip p.chan := by
  unfold resetOne
  dsimp only
  split
  · rfl
  · exact queueAllSlip calls _

theorem resetLoopSlip {script fuel i} (ran : resetLoop script fuel i p = some out) : slip out.chan = slip p.chan := by
  induction fuel generalizing i p with
  | zero =>
    unfold resetLoop at ran
    split at ran
    · cases ran
      rfl
    · cases ran
  | succ fuel ih =>
    unfold resetLoop at ran
    split at ran
    · cases ran
      rfl
    · exact (ih ran).trans (resetOneSlip _ p)

theorem preAllocLoopSlip {reply left i} (ran : preAllocLoop reply left i p = (out,err)) : slip out.chan = slip p.chan := by
  induction left generalizing i p with
  | zero =>
    cases ran
    rfl
  | succ left ih =>
    unfold preAllocLoop at ran
    split at ran
    · cases ran
      rfl
    · split at ran
      · rename_i gen
        have same := genTreSlip gen
        cases ran
        exact same
      · rename_i gen
        exact (ih ran).trans (genTreSlip gen)

theorem preAllocateSlip (p : Port) (reply : Nat → Option Nat × DmaReply) :
    slip (preAllocate p reply).1.chan = slip p.chan := by
  unfold preAllocate
  split
  · split
    · rename_i ran
      exact preAllocLoopSlip ran
    · rename_i ran
      exact (ringIfSlip _).trans (preAllocLoopSlip ran)
  · rfl

end Slips

theorem deinitOwnedSlip (ch : Chan) : slip (deinitOwned ch) = slip ch := by
  unfold deinitOwned
  split <;> rfl

structure Apart (i : Nat) (h h' : Host) : Prop where
  touches : Touches i h h'
  ring : h'.cmdRing = h.cmdRing
  mem : h'.cmdMem = h.cmdMem

theorem Apart.setChan (i : Nat) (h : Host) (ch : Chan) : Apart i h (h.setChan i ch) := ⟨.setChan i h ch,rfl,rfl⟩

theorem prepareBeginSlip {h h' : Host} {i vz err} (ran : prepareBegin h i vz = (h',err)) : Apart i h h' ∧
    (slip (h'.chans i) = slip (h.chans i) ∨
      slip (h'.chans i) = {slip (h.chans i) with completion := 0} ∧ (h.chans i).eeMask ≠ 0) ∧
    (err = none → (h'.chans i).completion = 0 ∧ (h.chans i).eeMask ≠ 0) := by
  unfold prepareBegin at ran
  dsimp only at ran
  split at ran
  · cases ran
    exact ⟨⟨.refl i h,rfl,rfl⟩,.inl rfl,fun no => nomatch no⟩
  rename_i masked
  have named : (h.chans i).eeMask ≠ 0 := by
    intro none
    simp [none] at masked
  split at ran
  · cases ran
    exact ⟨⟨.refl i h,rfl,rfl⟩,.inl rfl,fun no => nomatch no⟩
  split at ran
  · cases ran
    rw [setChanSelf]
    exact ⟨.setChan i h _,.inr ⟨rfl,named⟩,fun _ => ⟨rfl,named⟩⟩
  cases vz with
  | none =>
    cases ran
    rw [setChanSelf]
    exact ⟨.setChan i h _,.inl rfl,fun no => nomatch no⟩
  | some base =>
    cases ran
    rw [setChanSelf]
    exact ⟨.setChan i h _,.inr ⟨rfl,named⟩,fun _ => ⟨rfl,named⟩⟩

theorem prepareFinishSlip {h h' : Host} {i answered reply err} (ran : prepareFinish h i answered reply = (h',err)) :
    Apart i h h' ∧ (slip (h'.chans i) = slip (h.chans i) ∨
      answered = true ∧ (h.chans i).ccs = EvCc.success ∧
        slip (h'.chans i) = {slip (h.chans i) with chState := .enabled}) := by
  unfold prepareFinish at ran
  dsimp only at ran
  split at ran
  · cases ran
    rw [setChanSelf]
    exact ⟨.setChan i h _,.inl (deinitOwnedSlip _)⟩
  · rename_i told
    cases ran
    rw [setPortSelf]
    refine ⟨⟨.setPort i h _,rfl,rfl⟩,.inr ?_⟩
    simp only [Bool.or_eq_true,Bool.not_eq_true',decide_eq_true_iff,ne_eq,not_or,Bool.not_eq_false,not_not] at told
    exact ⟨told.1,told.2,preAllocateSlip _ reply⟩

theorem resetChanSlip {h h' : Host} {i script} (ran : mhiResetChan h i script = some h') :
    Apart i h h' ∧ slip (h'.chans i) = slip (h.chans i) := by
  unfold mhiResetChan at ran
  split at ran
  · cases ran
    exact ⟨⟨.refl i h,rfl,rfl⟩,rfl⟩
  · obtain ⟨mid,begun,ran⟩ := Option.bind_eq_some_iff.mp ran
    obtain ⟨out,drained,last⟩ := Option.bind_eq_some_iff.mp ran
    cases Option.some.inj last
    unfold resetBegin at begun
    split at begun
    · contradiction
    · obtain ⟨e,_,marked⟩ := Option.bind_eq_some_iff.mp begun
      cases Option.some.inj marked
      refine ⟨⟨⟨rfl,fun j other => Function.update_of_ne other _ _⟩,rfl,rfl⟩,?_⟩
      rw [setPortSelf]
      exact resetLoopSlip drained

theorem unprepareFinishSlip {h h' : Host} {i script} (ran : unprepareFinish h i script = some h') :
    Apart i h h' ∧ slip (h'.chans i) = slip (h.chans i) := by
  unfold unprepareFinish at ran
  split at ran
  · cases ran
    exact ⟨⟨.refl i h,rfl,rfl⟩,rfl⟩
  · obtain ⟨mid,reset,last⟩ := Option.bind_eq_some_iff.mp ran
    cases Option.some.inj last
    obtain ⟨apart,same⟩ := resetChanSlip reset
    rw [setChanSelf]
    exact ⟨⟨apart.touches.trans (.setChan i mid _),apart.ring,apart.mem⟩,same⟩

section Sending
variable {h h' : Host} {w : Window} {a b : Nat}

structure Sent (w : Window) (a b chan : Nat) (cmd : CmdType) (h h' : Host) : Prop where
  maxChan : h'.maxChan = h.maxChan
  chans : h'.chans = h.chans
  ring : h'.cmdRing.Holds w a (b + 1)
  bus : h'.cmdRing.iommuBase = h.cmdRing.iommuBase
  mem : h'.cmdMem = Function.update h.cmdMem (w.slot b) (cmdTre (h.cmdMem (w.slot b)) chan cmd)
  room : b + 1 < a + w.count

theorem sendCmdSent {chan cmd} (held : h.cmdRing.Holds w a b) (ran : mhiSendCmd h chan cmd = (h',none)) :
    Sent w a b chan cmd h h' := by
  unfold mhiSendCmd at ran
  split at ran
  · cases ran
  · rename_i avail
    have room : b + 1 < a + w.count := by
      rw [Ring.availOf held] at avail
      omega
    have added := Ring.addHolds held room
    dsimp only at ran
    split at ran
    · cases ran
      exact ⟨rfl,rfl,added.rung _,rfl,by rw [← held.wp]; rfl,room⟩
    · cases ran
      exact ⟨rfl,rfl,added,rfl,by rw [held.wp],room⟩

theorem sendCmdFull {chan cmd e} (ran : mhiSendCmd h chan cmd = (h',some e)) : h' = h := by
  unfold mhiSendCmd at ran
  split at ran
  · cases ran
    rfl
  · cases ran

theorem prepareSent {i} (held : h.cmdRing.Holds w a b) (ran : prepareSend h i = (h',none)) :
    Sent w a b (h.chans i).chan .startChan h h' := by
  unfold prepareSend at ran
  split at ran
  · cases ran
  · split at ran
    · cases ran
    · rename_i sent
      cases ran
      have sent := sendCmdSent (h := {h with cntrl := wakeToggle h.cntrl}) held sent
      exact ⟨sent.maxChan,sent.chans,sent.ring,sent.bus,sent.mem,sent.room⟩

theorem prepareUnsent {i e} (ran : prepareSend h i = (h',some e)) : Apart i h h' ∧ slip (h'.chans i) = slip (h.chans i) := by
  unfold prepareSend at ran
  split at ran
  · cases ran
    rw [setChanSelf]
    exact ⟨.setChan i h _,deinitOwnedSlip _⟩
  · split at ran
    · rename_i full
      cases sendCmdFull full
      cases ran
      rw [setChanSelf]
      exact ⟨⟨⟨rfl,fun j other => Function.update_of_ne other _ _⟩,rfl,rfl⟩,deinitOwnedSlip _⟩
    · cases ran

theorem unprepareSent {i} (held : h.cmdRing.Holds w a b) (ran : unprepareSend h i = (h',.waiting)) :
    Sent w a b (h.chans i).chan .resetChan h h' := by
  unfold unprepareSend at ran
  split at ran
  · cases ran
  · split at ran
    · cases ran
    · rename_i sent
      cases ran
      have sent := sendCmdSent (h := {h with cntrl := wakeToggle h.cntrl}) held sent
      exact ⟨sent.maxChan,sent.chans,sent.ring,sent.bus,sent.mem,sent.room⟩

theorem unprepareUnsent {i} (ran : unprepareSend h i = (h',.failed)) : Apart i h h' ∧ slip (h'.chans i) = slip (h.chans i) := by
  unfold unprepareSend at ran
  split at ran
  · cases ran
    exact ⟨⟨.refl i h,rfl,rfl⟩,rfl⟩
  · split at ran
    · rename_i full
      cases sendCmdFull full
      cases ran
      exact ⟨⟨⟨rfl,fun _ _ => rfl⟩,rfl,rfl⟩,rfl⟩
    · cases ran

end Sending

theorem cmdChid {chan : Nat} (kind : Kind) (small : chan < 256) (old : MhiTre) :
    (cmdTre old chan kind.cmd).getCmdChid = chan := by
  have word : ∀ code, code <<< 16 < 2 ^ 24 → (((chan <<< 24) ||| (code <<< 16)) >>> 24) &&& 0xff = chan := by
    intro code low
    rw [← Nat.shiftLeft_add_eq_or_of_lt low, Nat.shiftRight_eq_div_pow, Nat.shiftLeft_eq, Nat.mul_comm,
      Nat.mul_add_div (by decide), Nat.div_eq_of_lt low, Nat.add_zero]
    exact (Nat.and_two_pow_sub_one_eq_mod chan 8).trans (Nat.mod_eq_of_lt small)
  cases kind with
  | start => exact word 18 (by decide)
  | reset => exact word 16 (by decide)

inductive Stands (sent : List (Nat × Kind)) (reports : List Nat) (i : Nat) : Call → Slip → Prop where
  | idle {sl} : Stands sent reports i .idle sl
  | clearing {sl} : Stands sent reports i .clearing sl
  | begun {sl} (kind : Kind) (fresh : sl.completion = 0) (none : ∀ k, ¬Flying sent reports.length i k) :
      Stands sent reports i (.begun kind) sl
  | waiting {sl kind k} (own : sent[k]? = some (i,kind)) (only : ∀ l, Flying sent reports.length i l → l = k)
      (silent : reports[k]? = none → sl.completion = 0) (told : ∀ code, reports[k]? = some code → sl.ccs = code) :
      Stands sent reports i (.waiting kind k) sl
  | woken {sl kind k answered} (own : sent[k]? = some (i,kind)) (only : ∀ l, Flying sent reports.length i l → l = k)
      (told : answered = true → ∃ code, reports[k]? = some code ∧ sl.ccs = code) :
      Stands sent reports i (.woken kind k answered) sl

section Standing
variable {sent : List (Nat × Kind)} {reports : List Nat} {i j : Nat} {c : Call} {sl : Slip}

theorem keepsSent {k : Nat} {e : Nat × Kind} (new : Nat × Kind) (own : sent[k]? = some e) : (sent ++ [new])[k]? = some e := by
  obtain ⟨inside,_⟩ := List.getElem?_eq_some_iff.mp own
  rw [List.getElem?_append_left inside]
  exact own

theorem flyingSent {k done : Nat} {kind : Kind} (flies : Flying (sent ++ [(j,kind)]) done i k) :
    Flying sent done i k ∨ i = j ∧ k = sent.length := by
  obtain ⟨late,other,found⟩ := flies
  rcases Nat.lt_trichotomy k sent.length with inside | last | beyond
  · rw [List.getElem?_append_left inside] at found
    exact .inl ⟨late,other,found⟩
  · subst last
    simp at found
    exact .inr ⟨found.1.symm,rfl⟩
  · rw [List.getElem?_eq_none (by simp; omega)] at found
    cases found

theorem Stands.sendOther (kind : Kind) (other : i ≠ j) (stands : Stands sent reports i c sl) :
    Stands (sent ++ [(j,kind)]) reports i c sl := by
  have before : ∀ l, Flying (sent ++ [(j,kind)]) reports.length i l → Flying sent reports.length i l :=
    fun l flies => (flyingSent flies).resolve_right fun same => other same.1
  cases stands with
  | idle => exact .idle
  | clearing => exact .clearing
  | begun kind fresh none => exact .begun kind fresh fun k flies => none k (before k flies)
  | waiting own only silent told => exact .waiting (keepsSent _ own) (fun l flies => only l (before l flies)) silent told
  | woken own only told => exact .woken (keepsSent _ own) (fun l flies => only l (before l flies)) told

theorem flyingReport {code k : Nat} (flies : Flying sent (reports ++ [code]).length i k) : Flying sent reports.length i k := by
  obtain ⟨late,found⟩ := flies
  simp only [List.length_append,List.length_cons,List.length_nil] at late
  exact ⟨by omega,found⟩

theorem Stands.reportOther {kind : Kind} (code : Nat) (named : sent[reports.length]? = some (j,kind)) (other : i ≠ j)
    (stands : Stands sent reports i c sl) : Stands sent (reports ++ [code]) i c sl := by
  have earlier : ∀ {k : Nat} {kind' : Kind}, sent[k]? = some (i,kind') → k ≠ reports.length := by
    intro k kind' own same
    rw [same, named] at own
    cases own
    exact other rfl
  have same : ∀ {k : Nat} {kind' : Kind}, sent[k]? = some (i,kind') → (reports ++ [code])[k]? = reports[k]? := by
    intro k kind' own
    rcases Nat.lt_or_gt_of_ne (earlier own) with inside | beyond
    · exact List.getElem?_append_left inside
    · rw [List.getElem?_eq_none (by simp; omega), List.getElem?_eq_none (by omega)]
  cases stands with
  | idle => exact .idle
  | clearing => exact .clearing
  | begun kind fresh none => exact .begun kind fresh fun k flies => none k (flyingReport flies)
  | waiting own only silent told =>
    exact .waiting own (fun l flies => only l (flyingReport flies)) (by rw [same own]; exact silent)
      (by rw [same own]; exact told)
  | woken own only told =>
    exact .woken own (fun l flies => only l (flyingReport flies)) (by rw [same own]; exact told)

theorem Stands.reportOwn {kind : Kind} {code : Nat} {sl' : Slip} (named : sent[reports.length]? = some (i,kind))
    (stored : sl'.ccs = code) (stands : Stands sent reports i c sl) : Stands sent (reports ++ [code]) i c sl' := by
  have flies : Flying sent reports.length i reports.length := ⟨Nat.le_refl _,kind,named⟩
  have last : (reports ++ [code])[reports.length]? = some code := by simp
  cases stands with
  | idle => exact .idle
  | clearing => exact .clearing
  | begun kind fresh none => exact absurd flies (none _)
  | waiting own only silent told =>
    cases only _ flies
    refine .waiting own (fun l flies => only l (flyingReport flies)) (fun none => ?_) (fun c found => ?_)
    · rw [last] at none
      cases none
    · rw [last] at found
      cases found
      exact stored
  | woken own only told =>
    cases only _ flies
    refine .woken own (fun l flies => only l (flyingReport flies)) (fun answered => ?_)
    obtain ⟨c,found,_⟩ := told answered
    simp at found

end Standing

def Alone (s : Exchange) (i : Nat) : Prop := ∀ k, ¬Flying s.sent s.reports.length i k

structure Orderly (w : Window) (n : Nat) (s : Exchange) : Prop where
  maxChan : s.host.maxChan = n
  ring : s.host.cmdRing.Holds w s.reports.length s.sent.length
  cells : ∀ k i kind, s.reports.length ≤ k → s.sent[k]? = some (i,kind) →
    i < n ∧ (s.host.cmdMem (w.slot k)).getCmdChid = i
  numbered : ∀ i < n, (s.host.chans i).eeMask ≠ 0 → (s.host.chans i).chan = i
  known : ∀ i < n, (s.host.chans i).chState = .enabled ∨ s.call i ≠ .idle → (s.host.chans i).eeMask ≠ 0
  stands : ∀ i < n, Stands s.sent s.reports i (s.call i) (slip (s.host.chans i))

section Steps
variable {w : Window} {n i : Nat} {s s' : Exchange}

theorem Orderly.apart {h : Host} {c : Call} (orderly : Orderly w n s) (known : i < n) (apart : Apart i s.host h)
    (masked : (h.chans i).eeMask = (s.host.chans i).eeMask) (chan : (h.chans i).chan = (s.host.chans i).chan)
    (named : (h.chans i).chState = .enabled ∨ c ≠ .idle → (h.chans i).eeMask ≠ 0)
    (stands : Stands s.sent s.reports i c (slip (h.chans i))) : Orderly w n ((s.withHost h).setCall i c) where
  maxChan := apart.touches.maxChan.trans orderly.maxChan
  ring := by
    have ring := orderly.ring
    rw [← apart.ring] at ring
    exact ring
  cells := fun k j kind late found => by
    obtain ⟨inside,cell⟩ := orderly.cells k j kind late found
    refine ⟨inside,?_⟩
    rw [← cell]
    exact congrArg (fun mem => (mem (w.slot k)).getCmdChid) apart.mem
  numbered := fun j inside => by
    by_cases same : j = i
    · subst j
      show (h.chans i).eeMask ≠ 0 → (h.chans i).chan = i
      rw [masked, chan]
      exact orderly.numbered i known
    · show (h.chans j).eeMask ≠ 0 → (h.chans j).chan = j
      rw [apart.touches.others j same]
      exact orderly.numbered j inside
  known := fun j inside => by
    by_cases same : j = i
    · subst j
      simp only [Exchange.setCall,Exchange.withHost,Function.update_self]
      exact named
    · simp only [Exchange.setCall,Exchange.withHost,Function.update_of_ne same,apart.touches.others j same]
      exact orderly.known j inside
  stands := fun j inside => by
    by_cases same : j = i
    · subst j
      simp only [Exchange.setCall,Exchange.withHost,Function.update_self]
      exact stands
    · simp only [Exchange.setCall,Exchange.withHost,Function.update_of_ne same,apart.touches.others j same]
      exact orderly.stands j inside

theorem Orderly.same {h : Host} {c : Call} (orderly : Orderly w n s) (known : i < n) (apart : Apart i s.host h)
    (same : slip (h.chans i) = slip (s.host.chans i)) (was : s.call i ≠ .idle)
    (stands : Stands s.sent s.reports i c (slip (s.host.chans i))) : Orderly w n ((s.withHost h).setCall i c) := by
  have masked : (h.chans i).eeMask = (s.host.chans i).eeMask := congrArg Slip.eeMask same
  refine orderly.apart known apart masked (congrArg Slip.chan same) (fun _ => ?_) (same ▸ stands)
  rw [masked]
  exact orderly.known i known (.inr was)

theorem Orderly.send {h : Host} (kind : Kind) (orderly : Orderly w n s) (few : n ≤ 256) (known : i < n)
    (stands : s.call i = .begun kind)
    (sent : Sent w s.reports.length s.sent.length (s.host.chans i).chan kind.cmd s.host h) :
    Orderly w n ((s.withHost h).send i kind) where
  maxChan := sent.maxChan.trans orderly.maxChan
  ring := by
    simp only [Exchange.send,Exchange.withHost,List.length_append,List.length_cons,List.length_nil]
    exact sent.ring
  cells := fun k j kind' late found => by
    simp only [Exchange.send,Exchange.withHost] at late found ⊢
    rcases Nat.lt_trichotomy k s.sent.length with inside | last | beyond
    · rw [List.getElem?_append_left inside] at found
      obtain ⟨range,cell⟩ := orderly.cells k j kind' late found
      refine ⟨range,?_⟩
      rw [sent.mem, Function.update_of_ne]
      · exact cell
      · have room := sent.room
        exact w.slotApart (by omega) (by omega)
    · subst last
      simp only [List.getElem?_concat_length,Option.some.injEq,Prod.mk.injEq] at found
      obtain ⟨rfl,rfl⟩ := found
      have masked := orderly.known i known (.inr (by simp [stands]))
      refine ⟨known,?_⟩
      rw [sent.mem, Function.update_self, orderly.numbered i known masked]
      exact cmdChid kind (by omega) _
    · rw [List.getElem?_eq_none (by simp; omega)] at found
      cases found
  numbered := by
    simp only [Exchange.send,Exchange.withHost,sent.chans]
    exact orderly.numbered
  known := fun j inside => by
    simp only [Exchange.send,Exchange.withHost,sent.chans]
    by_cases same : j = i
    · subst j
      exact fun _ => orderly.known i known (.inr (by simp [stands]))
    · rw [Function.update_of_ne same]
      exact orderly.known j inside
  stands := fun j inside => by
    simp only [Exchange.send,Exchange.withHost,sent.chans]
    by_cases same : j = i
    · subst j
      rw [Function.update_self]
      have before := orderly.stands i known
      rw [stands] at before
      have ordered := orderly.ring.ordered
      cases before with
      | begun kind fresh none =>
        refine .waiting (by simp) (fun l flies => ?_) (fun _ => fresh) (fun code found => ?_)
        · exact ((flyingSent flies).resolve_left (none l)).2
        · rw [List.getElem?_eq_none ordered] at found
          cases found
    · rw [Function.update_of_ne same]
      exact (orderly.stands j inside).sendOther kind same

theorem completeSlip (ch : Chan) (code : Nat) : ∃ count,
    slip (complete {ch with ccs := code}) = {slip ch with ccs := code, completion := count} := by
  unfold complete
  split
  · exact ⟨ch.completion,rfl⟩
  · exact ⟨ch.completion + 1,rfl⟩

theorem Orderly.report {ev : MhiTre} (orderly : Orderly w n s) (more : s.reports.length < s.sent.length)
    (named : ev.getEvPtr = s.host.cmdRing.iommuBase + (w.slot s.reports.length - s.host.cmdRing.base)) :
    Orderly w n {s with host := mhiProcessCmdCompletion s.host ev, reports := s.reports ++ [ev.getEvCode]} := by
  obtain ⟨⟨j,kind⟩,found⟩ : ∃ e, s.sent[s.reports.length]? = some e := ⟨_,List.getElem?_eq_getElem more⟩
  obtain ⟨inside,chid⟩ := orderly.cells _ j kind (Nat.le_refl _) found
  have cell : mhiToVirtual s.host.cmdRing ev.getEvPtr = w.slot s.reports.length := by
    rw [named, Ring.toVirtualSlot orderly.ring.spans]
  have host : mhiProcessCmdCompletion s.host ev = {s.host.setChan j (complete {s.host.chans j with ccs := ev.getEvCode}) with
      cmdRing := mhiDelRingElement s.host.cmdRing} := by
    unfold mhiProcessCmdCompletion
    dsimp only
    rw [cell, chid]
  obtain ⟨count,here⟩ := completeSlip (s.host.chans j) ev.getEvCode
  have here : slip ((s.host.setChan j (complete {s.host.chans j with ccs := ev.getEvCode})).chans j) =
      {slip (s.host.chans j) with ccs := ev.getEvCode, completion := count} := by
    rw [setChanSelf]
    exact here
  have others : ∀ l, l ≠ j → (s.host.setChan j (complete {s.host.chans j with ccs := ev.getEvCode})).chans l = s.host.chans l :=
    fun l other => Function.update_of_ne other _ _
  rw [host]
  refine ⟨orderly.maxChan,?_,fun k l kind' late found' => ?_,fun l range => ?_,fun l range => ?_,fun l range => ?_⟩
  · simp only [List.length_append,List.length_cons,List.length_nil]
    exact Ring.delHolds orderly.ring more
  · simp only [List.length_append,List.length_cons,List.length_nil] at late
    exact orderly.cells k l kind' (by omega) found'
  · dsimp only
    by_cases same : l = j
    · subst l
      have chan : _ = (s.host.chans j).chan := congrArg Slip.chan here
      have mask : _ = (s.host.chans j).eeMask := congrArg Slip.eeMask here
      exact fun masked => chan.trans (orderly.numbered j range (mask ▸ masked))
    · rw [others l same]
      exact orderly.numbered l range
  · dsimp only
    by_cases same : l = j
    · subst l
      have state : _ = (s.host.chans j).chState := congrArg Slip.chState here
      have mask : _ = (s.host.chans j).eeMask := congrArg Slip.eeMask here
      intro active
      have before := orderly.known j range (by rw [← state]; exact active)
      rw [← mask] at before
      exact before
    · rw [others l same]
      exact orderly.known l range
  · dsimp only
    by_cases same : l = j
    · subst l
      exact (orderly.stands j range).reportOwn found (by rw [here])
    · rw [others l same]
      exact (orderly.stands l range).reportOther _ found same

theorem wakeSlip (ch : Chan) (inTime : Bool) : ∃ count,
    slip (waitForCompletion ch inTime).1 = {slip ch with completion := count} ∧
    ((waitForCompletion ch inTime).2 = true → ch.completion ≠ 0) := by
  unfold waitForCompletion
  split
  · rename_i taken
    have some : ch.completion ≠ 0 := by
      intro none
      simp [none] at taken
    unfold takeCompletion
    dsimp only
    split
    · exact ⟨ch.completion,rfl,fun _ => some⟩
    · exact ⟨ch.completion - 1,rfl,fun _ => some⟩
  · exact ⟨ch.completion,rfl,fun no => nomatch no⟩

theorem Orderly.wake {k : Nat} {kind : Kind} (inTime : Bool) (orderly : Orderly w n s) (known : i < n)
    (stands : s.call i = .waiting kind k) :
    Orderly w n ((s.withHost (s.host.setChan i (waitForCompletion (s.host.chans i) inTime).1)).setCall i
      (.woken kind k (waitForCompletion (s.host.chans i) inTime).2)) := by
  obtain ⟨count,waited,taken⟩ := wakeSlip (s.host.chans i) inTime
  have here : slip ((s.host.setChan i (waitForCompletion (s.host.chans i) inTime).1).chans i) =
      {slip (s.host.chans i) with completion := count} := by
    rw [setChanSelf]
    exact waited
  have masked : _ = (s.host.chans i).eeMask := congrArg Slip.eeMask here
  refine orderly.apart known (.setChan i s.host _) masked (congrArg Slip.chan here) (fun _ => ?_) ?_
  · exact fun none => orderly.known i known (.inr (by simp [stands])) (masked.symm.trans none)
  · rw [here]
    have before := orderly.stands i known
    rw [stands] at before
    cases before with
    | waiting own only silent told =>
      refine .woken own only (fun answered => ?_)
      cases found : s.reports[k]? with
      | none => exact absurd (silent found) (taken answered)
      | some code => exact ⟨code,rfl,told code found⟩

theorem Orderly.begin {vz h err} (orderly : Orderly w n s) (known : i < n) (alone : err = none → Alone s i)
    (ran : prepareBegin s.host i vz = (h,err)) :
    Orderly w n ((s.withHost h).setCall i (if err.isNone then .begun .start else .idle)) := by
  obtain ⟨apart,kept,fresh⟩ := prepareBeginSlip ran
  have same : (h.chans i).eeMask = (s.host.chans i).eeMask ∧ (h.chans i).chan = (s.host.chans i).chan ∧
      (h.chans i).chState = (s.host.chans i).chState := by
    rcases kept with same | ⟨same,_⟩
    · exact ⟨congrArg Slip.eeMask same,congrArg Slip.chan same,congrArg Slip.chState same⟩
    · exact ⟨congrArg Slip.eeMask same,congrArg Slip.chan same,congrArg Slip.chState same⟩
  cases err with
  | none =>
    obtain ⟨zero,masked⟩ := fresh rfl
    exact orderly.apart known apart same.1 same.2.1 (fun _ => same.1 ▸ masked) (.begun .start zero (alone rfl))
  | some e =>
    refine orderly.apart known apart same.1 same.2.1 (fun active => ?_) .idle
    rw [same.1]
    rcases active with on | busy
    · exact orderly.known i known (.inl (same.2.2 ▸ on))
    · exact absurd rfl busy

theorem Orderly.off {h going} (orderly : Orderly w n s) (known : i < n) (alone : going = true → Alone s i)
    (ran : unprepareOff s.host i = (h,going)) :
    Orderly w n ((s.withHost h).setCall i (if going then .begun .reset else .idle)) := by
  unfold unprepareOff at ran
  split at ran
  · cases ran
    refine orderly.apart known ⟨.refl i s.host,rfl,rfl⟩ rfl rfl (fun active => ?_) .idle
    rcases active with on | busy
    · exact orderly.known i known (.inl on)
    · exact absurd rfl busy
  · rename_i on
    have on : (s.host.chans i).chState = .enabled := by simpa using on
    cases ran
    have masked := orderly.known i known (.inl on)
    refine orderly.apart known (.setChan i s.host _) ?_ ?_ (fun _ => ?_) (.begun .reset ?_ (alone rfl))
    all_goals rw [setChanSelf]
    · rfl
    · rfl
    · exact masked
    · rfl

theorem stepOrderly (few : n ≤ 256) (step : Step w Alone s s') (orderly : Orderly w n s) : Orderly w n s' := by
  cases step with
  | prepareBegin i vz known free may ran => exact orderly.begin (orderly.maxChan ▸ known) may ran
  | prepareSent i known stands ran =>
    exact orderly.send .start few (orderly.maxChan ▸ known) stands (prepareSent orderly.ring ran)
  | prepareUnsent i known stands ran =>
    obtain ⟨apart,same⟩ := prepareUnsent ran
    exact orderly.same (orderly.maxChan ▸ known) apart same (by simp [stands]) .idle
  | unprepareOff i known free may ran => exact orderly.off (orderly.maxChan ▸ known) may ran
  | unprepareSent i known stands ran =>
    exact orderly.send .reset few (orderly.maxChan ▸ known) stands (unprepareSent orderly.ring ran)
  | unprepareUnsent i known stands ran =>
    obtain ⟨apart,same⟩ := unprepareUnsent ran
    exact orderly.same (orderly.maxChan ▸ known) apart same (by simp [stands]) .clearing
  | wake i k kind inTime known stands => exact orderly.wake inTime (orderly.maxChan ▸ known) stands
  | prepareFinish i k answered reply known stands ran =>
    have known := orderly.maxChan ▸ known
    have masked := orderly.known i known (.inr (by simp [stands]))
    obtain ⟨apart,same | ⟨_,_,same⟩⟩ := prepareFinishSlip ran
    · exact orderly.same known apart same (by simp [stands]) .idle
    · have mask : _ = (s.host.chans i).eeMask := congrArg Slip.eeMask same
      exact orderly.apart known apart mask (congrArg Slip.chan same) (fun _ none => masked (mask.symm.trans none)) .idle
  | unprepareWoken i k answered known stands =>
    exact orderly.same (h := s.host) (orderly.maxChan ▸ known) ⟨.refl i s.host,rfl,rfl⟩ rfl (by simp [stands]) .clearing
  | unprepareFinish i script known stands ran =>
    obtain ⟨apart,same⟩ := unprepareFinishSlip ran
    exact orderly.same (orderly.maxChan ▸ known) apart same (by simp [stands]) .idle
  | completion ev more named => exact orderly.report more named
  | controller c =>
    exact ⟨orderly.maxChan,orderly.ring,orderly.cells,orderly.numbered,orderly.known,orderly.stands⟩

end Steps

section Enabling
variable {w : Window} {G : Exchange → Nat → Prop} {i j : Nat} {s s' : Exchange}

theorem otherState {h h' : Host} (apart : Apart j h h') (same : slip (h'.chans j) = slip (h.chans j)) :
    (h'.chans i).chState = (h.chans i).chState := by
  by_cases here : i = j
  · subst j
    exact congrArg Slip.chState same
  · rw [apart.touches.others i here]

theorem enabledBy (step : Step w G s s') (off : (s.host.chans i).chState ≠ .enabled)
    (on : (s'.host.chans i).chState = .enabled) :
    ∃ k, s.call i = .woken .start k true ∧ (s.host.chans i).ccs = EvCc.success := by
  have never : (s'.host.chans i).chState = (s.host.chans i).chState →
      ∃ k, s.call i = .woken .start k true ∧ (s.host.chans i).ccs = EvCc.success :=
    fun same => absurd (same.symm.trans on) off
  cases step with
  | prepareBegin j vz known free may ran =>
    obtain ⟨apart,kept,_⟩ := prepareBeginSlip ran
    apply never
    by_cases here : i = j
    · subst j
      rcases kept with same | ⟨same,_⟩
      · exact congrArg Slip.chState same
      · exact congrArg Slip.chState same
    · exact congrArg Chan.chState (apart.touches.others i here)
  | prepareSent j known stands ran =>
    obtain ⟨touched,_,⟨_,core⟩ | ⟨no,_⟩⟩ := prepareSendView ran
    · apply never
      by_cases here : i = j
      · subst j
        exact congrArg Core.chState core
      · exact congrArg Chan.chState (touched.others i here)
    · cases no
  | prepareUnsent j known stands ran =>
    obtain ⟨apart,same⟩ := CommandMatching.prepareUnsent ran
    exact never (otherState apart same)
  | unprepareOff j known free may ran =>
    unfold MhiHost.unprepareOff at ran
    split at ran
    · cases ran
      exact never rfl
    · cases ran
      by_cases here : i = j
      · subst j
        simp [Exchange.setCall,Exchange.withHost,reinitCompletion] at on
      · exact never (congrArg Chan.chState (Function.update_of_ne here _ _))
  | unprepareSent j known stands ran => exact never (congrArg (fun chans => (chans i).chState) (unprepareSendView ran).2.1)
  | unprepareUnsent j known stands ran => exact never (congrArg (fun chans => (chans i).chState) (unprepareSendView ran).2.1)
  | wake j k kind inTime known stands =>
    obtain ⟨count,waited,_⟩ := wakeSlip (s.host.chans j) inTime
    apply never
    by_cases here : i = j
    · subst j
      simp only [Exchange.setCall,Exchange.withHost,setChanSelf]
      exact congrArg Slip.chState waited
    · exact congrArg Chan.chState (Function.update_of_ne here _ _)
  | prepareFinish j k answered reply known stands ran =>
    obtain ⟨apart,same | ⟨rfl,success,_⟩⟩ := prepareFinishSlip ran
    · exact never (otherState apart same)
    · by_cases here : i = j
      · subst j
        exact ⟨k,stands,success⟩
      · exact never (congrArg Chan.chState (apart.touches.others i here))
  | unprepareWoken j k answered known stands => exact never rfl
  | unprepareFinish j script known stands ran =>
    obtain ⟨apart,same⟩ := unprepareFinishSlip ran
    exact never (otherState apart same)
  | completion ev more named => exact never (congrArg Core.chState (completionCore s.host ev i))
  | controller c => exact never rfl

end Enabling

/- What a woken call takes for its answer is the report on its own command, and a
channel is enabled on a success reported for the START of that very call. -/
def Matched (w : Window) (G : Exchange → Nat → Prop) (h : Host) (lay : Layout) : Prop :=
  ∀ s, Relation.ReflTransGen (Step w G) (Exchange.start (mhiInitDevCtxt h lay)) s → ∀ i < h.maxChan,
    (∀ kind k, s.call i = .woken kind k true →
      s.sent[k]? = some (i,kind) ∧ s.reports[k]? = some (s.host.chans i).ccs) ∧
    (∀ s', Step w G s s' → (s.host.chans i).chState ≠ .enabled → (s'.host.chans i).chState = .enabled →
      ∃ k, s.call i = .woken .start k true ∧ s.sent[k]? = some (i,.start) ∧ s.reports[k]? = some EvCc.success)

def LaidCmd (w : Window) (h : Host) (lay : Layout) : Prop :=
  (layRing {h.cmdRing with elements := cmdElPerRing} lay.cmd.host lay.cmd.bus).Over w

section Runs
variable {w : Window} {h : Host} {lay : Layout}

theorem startOrderly (parsed : Parsed h) (laid : LaidCmd w h lay) :
    Orderly w h.maxChan (Exchange.start (mhiInitDevCtxt h lay)) := by
  have counted := w.counted
  have chan : ∀ i < h.maxChan, (mhiInitDevCtxt h lay).chans i = initChan lay i (h.chans i) := fun i inside => if_pos inside
  have kept : ∀ i, (initChan lay i (h.chans i)).eeMask = (h.chans i).eeMask ∧
      (initChan lay i (h.chans i)).chan = (h.chans i).chan := by
    intro i
    unfold initChan
    split <;> exact ⟨rfl,rfl⟩
  refine ⟨rfl,⟨laid.moved _ _ _ _,?_,?_,Nat.le_refl 0,by simpa [Exchange.start] using counted⟩,fun k i kind _ found => ?_,
    fun i inside => ?_,
    fun i inside => ?_,fun i inside => .idle⟩
  · exact laid.base.trans (by simp [Window.slot,Exchange.start])
  · exact laid.base.trans (by simp [Window.slot,Exchange.start])
  · simp [Exchange.start] at found
  · show ((mhiInitDevCtxt h lay).chans i).eeMask ≠ 0 → ((mhiInitDevCtxt h lay).chans i).chan = i
    rw [chan i inside, (kept i).1, (kept i).2]
    rcases parsed i inside with zero | ⟨cfg,num,ok,_⟩
    · rw [zero]
      exact fun masked => absurd rfl masked
    · rw [(configuredChan ok).1]
      exact fun _ => num
  · show ((mhiInitDevCtxt h lay).chans i).chState = .enabled ∨ _ → ((mhiInitDevCtxt h lay).chans i).eeMask ≠ 0
    rw [chan i inside]
    intro active
    rcases active with on | busy
    · rcases parsed i inside with zero | ⟨cfg,_,ok,_⟩
      · rw [zero] at on
        simp [initChan,Chan.zero] at on
      · rw [(configuredChan ok).1] at on
        unfold initChan at on
        split at on
        · cases on
        · cases on
    · exact absurd rfl busy

theorem commandsMatched (parsed : Parsed h) (few : h.maxChan ≤ 256) (laid : LaidCmd w h lay) : Matched w Alone h lay := by
  intro s run i inside
  have orderly := Runs.keeps (I := Orderly w h.maxChan) (fun _ _ => stepOrderly few) run (startOrderly parsed laid)
  have answer : ∀ kind k, s.call i = .woken kind k true →
      s.sent[k]? = some (i,kind) ∧ s.reports[k]? = some (s.host.chans i).ccs := by
    intro kind k woken
    have stands := orderly.stands i inside
    rw [woken] at stands
    cases stands with
    | woken own only told =>
      obtain ⟨code,found,same⟩ := told rfl
      refine ⟨own,?_⟩
      rw [found]
      exact congrArg some same.symm
  refine ⟨answer,fun s' step off on => ?_⟩
  obtain ⟨k,woken,success⟩ := enabledBy step off on
  obtain ⟨own,found⟩ := answer .start k woken
  exact ⟨k,woken,own,by rw [found, success]⟩

end Runs

namespace Sample
variable (G : Exchange → Nat → Prop)

def window : Window := treWindow 0x3000 cmdElPerRing (by decide)
def report (cell code : Nat) : MhiTre := ⟨0x83000 + 16 * cell,code <<< 24,PktType.cmdCompletionEvent <<< 16⟩
def noBuffers : Nat → Option Nat × DmaReply := fun _ => (none,⟨0,0,false⟩)

def begin (s : Exchange) : Exchange := (s.withHost (prepareBegin s.host 0 (some 0x4000)).1).setCall 0 (.begun .start)
def send (s : Exchange) : Exchange := (s.withHost (prepareSend s.host 0).1).send 0 .start
def complete (s : Exchange) (cell : Nat) : Exchange :=
  {s with host := mhiProcessCmdCompletion s.host (report cell EvCc.success), reports := s.reports ++ [EvCc.success]}
def wake (s : Exchange) (k : Nat) (inTime : Bool) : Exchange :=
  (s.withHost (s.host.setChan 0 (waitForCompletion (s.host.chans 0) inTime).1)).setCall 0
    (.woken .start k (waitForCompletion (s.host.chans 0) inTime).2)
def finish (s : Exchange) (answered : Bool) : Exchange :=
  (s.withHost (prepareFinish s.host 0 answered noBuffers).1).setCall 0 .idle

def started : Exchange := send (begin (.start MhiHost.Sample.ready))
def answered : Exchange := wake (complete started 0) 0 true
def abandoned : Exchange := finish (wake started 0 false) false
def repeated : Exchange := send (begin abandoned)
def mistaken : Exchange := wake (complete repeated 0) 1 true

theorem laid : LaidCmd window MhiHost.Sample.host MhiHost.Sample.layout :=
  ⟨rfl,rfl,rfl,rfl,by decide,by decide,by decide⟩

theorem starts (may : G (.start MhiHost.Sample.ready) 0) :
    Relation.ReflTransGen (Step window G) (.start MhiHost.Sample.ready) started := by
  have one : Step window G (.start MhiHost.Sample.ready) (begin (.start MhiHost.Sample.ready)) :=
    @Step.prepareBegin _ _ (.start MhiHost.Sample.ready) _ none 0 (some 0x4000) (by decide) rfl (fun _ => may) rfl
  have two : Step window G (begin (.start MhiHost.Sample.ready)) started := .prepareSent 0 (by decide) rfl rfl
  exact (Relation.ReflTransGen.single one).tail two

theorem startAnswered (may : G (.start MhiHost.Sample.ready) 0) :
    Relation.ReflTransGen (Step window G) (.start MhiHost.Sample.ready) answered := by
  have three : Step window G started (complete started 0) := .completion (report 0 EvCc.success) (by decide) rfl
  have four : Step window G (complete started 0) answered := .wake 0 0 .start true (by decide) rfl
  exact ((starts G may).tail three).tail four

end Sample

theorem commandsMatchedSample : ∃ k, Sample.answered.call 0 = .woken .start k true ∧
    Sample.answered.sent[k]? = some (0,.start) ∧ Sample.answered.reports[k]? = some EvCc.success := by
  have alone : Alone (.start MhiHost.Sample.ready) 0 := fun k flies => by
    obtain ⟨_,kind,found⟩ := flies
    simp [Exchange.start] at found
  have enable : Step Sample.window Alone Sample.answered (Sample.finish Sample.answered true) :=
    .prepareFinish 0 0 true Sample.noBuffers (by decide) rfl rfl
  exact (commandsMatched MhiHost.Sample.parsed (by decide) Sample.laid _ (Sample.startAnswered Alone alone) 0 (by decide)).2 _
    enable (by decide) rfl

theorem lateAnswerMistaken : ¬Matched Sample.window (fun _ _ => True) MhiHost.Sample.host MhiHost.Sample.layout := by
  intro matched
  have late : Step Sample.window (fun _ _ => True) Sample.started (Sample.wake Sample.started 0 false) :=
    .wake 0 0 .start false (by decide) rfl
  have fail : Step Sample.window (fun _ _ => True) (Sample.wake Sample.started 0 false) Sample.abandoned :=
    .prepareFinish 0 0 false Sample.noBuffers (by decide) rfl rfl
  have again : Step Sample.window (fun _ _ => True) Sample.abandoned (Sample.begin Sample.abandoned) :=
    @Step.prepareBegin _ _ Sample.abandoned _ none 0 (some 0x4000) (by decide) rfl (fun _ => trivial) rfl
  have second : Step Sample.window (fun _ _ => True) (Sample.begin Sample.abandoned) Sample.repeated :=
    .prepareSent 0 (by decide) rfl rfl
  have report : Step Sample.window (fun _ _ => True) Sample.repeated (Sample.complete Sample.repeated 0) :=
    .completion (Sample.report 0 EvCc.success) (by decide) rfl
  have woken : Step Sample.window (fun _ _ => True) (Sample.complete Sample.repeated 0) Sample.mistaken :=
    .wake 0 1 .start true (by decide) rfl
  have enable : Step Sample.window (fun _ _ => True) Sample.mistaken (Sample.finish Sample.mistaken true) :=
    .prepareFinish 0 1 true Sample.noBuffers (by decide) rfl rfl
  have run := ((((((Sample.starts (fun _ _ => True) trivial).tail late).tail fail).tail again).tail second).tail report).tail woken
  obtain ⟨k,stands,_,told⟩ := (matched Sample.mistaken run 0 (by decide)).2 _ enable (by decide) rfl
  have own : k = 1 := by
    have same : Sample.mistaken.call 0 = .woken .start 1 true := rfl
    rw [same] at stands
    cases stands
    rfl
  subst own
  cases told

end MhiHost.CommandMatching
