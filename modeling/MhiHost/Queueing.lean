import MhiHost.Channel

/-! What one queue call does to a channel, for the three entry points at once: which
ring moves, which local element is written, and what the client is told. -/
namespace MhiHost.Queueing

def reachesGenTre (p : Port) (q : QueueReq) : Bool :=
  match q.payload with
  | .buf => !mhiPmInErrorState p.cntrl.pmState && !mhiIsRingFull p.chan.treRing
  | .skb _ | .dma _ => !p.chan.preAlloc && !mhiIsRingFull p.chan.treRing && !mhiPmInErrorState p.cntrl.pmState

structure Call (p : Port) (cb len : Nat) (reached : Bool) (p' : Port) (err : Option Errno) : Prop where
  tre : p'.chan.treRing = {(if err = none then mhiAddRingElement p.chan.treRing else p.chan.treRing) with
    ctxtWp := p'.chan.treRing.ctxtWp}
  buf : p'.chan.bufRing = if err = none then mhiAddRingElement p.chan.bufRing else p.chan.bufRing
  mem : if reached then ∃ b, b.cbBuf = cb ∧ b.len = len ∧
      p'.chan.bufMem = Function.update p.chan.bufMem p.chan.bufRing.wp b
    else p'.chan.bufMem = p.chan.bufMem
  space : reached = true → mhiIsRingFull p.chan.treRing = false
  passed : err = none → reached = true
  log : p'.chan.xferLog = p.chan.xferLog
  accepted : p'.chan.accepted = p.chan.accepted ++ if err = none then [cb] else []
  chState : p'.chan.chState = p.chan.chState
  preAlloc : p'.chan.preAlloc = p.chan.preAlloc
  dir : p'.chan.dir = p.chan.dir

section Parts
variable {p : Port}

theorem refusedCall {cb len : Nat} (e : Errno) : Call p cb len false p (some e) :=
  ⟨rfl,rfl,rfl,(fun reached => nomatch reached),(fun none => nomatch none),rfl,(List.append_nil _).symm,rfl,rfl,rfl⟩

theorem fillNames (info : BufInfo) (reply : DmaReply) :
    (fillBufInfo p info reply).1.cbBuf = info.cbBuf ∧ (fillBufInfo p info reply).1.len = info.len := by
  unfold fillBufInfo mapSingle mhiMapSingleUseBb mhiMapSingleNoBb
  split
  · exact ⟨rfl,rfl⟩
  · split
    · split <;> exact ⟨rfl,rfl⟩
    · exact ⟨rfl,rfl⟩

theorem genTreFails (info : BufInfo) (flags : Nat) (reply : DmaReply) :
    (mhiGenTre p info flags reply).2 = if info.preMapped || reply.ok then none else some .enomem := by
  have filled : (fillBufInfo p info reply).2 = if info.preMapped || reply.ok then none else some .enomem := by
    unfold fillBufInfo mapSingle mhiMapSingleUseBb mhiMapSingleNoBb
    cases info.preMapped with
    | true => rfl
    | false =>
      cases p.cntrl.bounceBuf <;> cases reply.ok <;> rfl
  rw [← filled]
  unfold mhiGenTre
  dsimp only
  split
  · rename_i failed
    exact failed.symm
  · rename_i mapped
    exact mapped.symm

/- The element is written whether or not the mapping succeeds; the rings move only if it does. -/
theorem genTreCall {c : Cntrl} {info : BufInfo} {flags : Nat} {reply : DmaReply} {out : Port} {err : Option Errno}
    (free : mhiIsRingFull p.chan.treRing = false) (ran : mhiGenTre {p with cntrl := c} info flags reply = (out,err)) :
    (err = none → ∀ c', Call p info.cbBuf info.len true (accept (ringIfAccessible {out with cntrl := c'}) info.cbBuf) none) ∧
      ∀ e, err = some e → Call p info.cbBuf info.len true out (some e) := by
  obtain ⟨cb,len⟩ := @fillNames {p with cntrl := c} info reply
  unfold mhiGenTre at ran
  cases mapped : (fillBufInfo {p with cntrl := c} info reply).2 with
  | some e =>
    simp only [mapped,Prod.mk.injEq] at ran
    obtain ⟨rfl,rfl⟩ := ran
    refine ⟨(fun none => nomatch none),?_⟩
    intro e' same
    cases same
    exact ⟨rfl,rfl,⟨_,cb,len,rfl⟩,fun _ => free,(fun none => nomatch none),rfl,(List.append_nil _).symm,rfl,rfl,rfl⟩
  | none =>
    simp only [mapped,Prod.mk.injEq] at ran
    obtain ⟨rfl,rfl⟩ := ran
    refine ⟨fun _ c' => ?_,(fun _ none => nomatch none)⟩
    unfold ringIfAccessible
    split
    · exact ⟨rfl,rfl,⟨_,cb,len,rfl⟩,fun _ => free,fun _ => rfl,rfl,rfl,rfl,rfl,rfl⟩
    · exact ⟨rfl,rfl,⟨_,cb,len,rfl⟩,fun _ => free,fun _ => rfl,rfl,rfl,rfl,rfl,rfl⟩

theorem lockedCall (info : BufInfo) (flags : Nat) (reply : DmaReply) :
    Call p info.cbBuf info.len
      (!p.chan.preAlloc && !mhiIsRingFull p.chan.treRing && !mhiPmInErrorState p.cntrl.pmState)
      (queueLocked p info flags reply).1 (queueLocked p info flags reply).2 := by
  unfold queueLocked
  cases own : p.chan.preAlloc with
  | true => exact refusedCall .einval
  | false =>
    cases full : mhiIsRingFull p.chan.treRing with
    | true => exact refusedCall .enomem
    | false =>
      cases failing : mhiPmInErrorState p.cntrl.pmState with
      | true => exact refusedCall .eio
      | false =>
        simp only [Bool.false_eq_true,if_false,Bool.not_false,Bool.and_self]
        cases ran : mhiGenTre {p with cntrl := wakeToggle (resumeIfSuspended p.cntrl)} info flags reply with
        | mk out err =>
          obtain ⟨filled,failed⟩ := genTreCall full ran
          cases err with
          | none => exact filled rfl _
          | some e => exact failed e rfl

theorem bufCall (buf len flags : Nat) (reply : DmaReply) :
    Call p buf len (!mhiPmInErrorState p.cntrl.pmState && !mhiIsRingFull p.chan.treRing)
      (mhiQueueBuf p buf len flags reply).1 (mhiQueueBuf p buf len flags reply).2 := by
  unfold mhiQueueBuf mhiQueueBufFill
  cases failing : mhiPmInErrorState p.cntrl.pmState with
  | true => exact refusedCall .eio
  | false =>
    cases full : mhiIsRingFull p.chan.treRing with
    | true => exact refusedCall .enomem
    | false =>
      simp only [Bool.false_eq_true,if_false,Bool.not_false,Bool.and_self]
      cases ran : mhiGenTre p {BufInfo.zero with vAddr := buf, cbBuf := buf, len := len} flags reply with
      | mk out err =>
        obtain ⟨filled,failed⟩ := @genTreCall p p.cntrl _ _ _ _ _ full ran
        cases err with
        | none => exact filled rfl _
        | some e => exact failed e rfl

end Parts

theorem queueCall (p : Port) (q : QueueReq) : Call p q.cb q.len (reachesGenTre p q) (mhiQueue p q).1 (mhiQueue p q).2 := by
  unfold mhiQueue reachesGenTre
  cases q.payload with
  | buf => exact bufCall q.cb q.len q.flags q.reply
  | skb data => exact lockedCall {BufInfo.zero with vAddr := data, cbBuf := q.cb, len := q.len} q.flags q.reply
  | dma dmaAddr =>
    exact lockedCall {BufInfo.zero with pAddr := dmaAddr, cbBuf := q.cb, preMapped := true, len := q.len} q.flags q.reply

end MhiHost.Queueing
