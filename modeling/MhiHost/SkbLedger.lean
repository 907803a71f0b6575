import MhiHost.MbimTrace
import MhiHost.QmapTrace

/-! Who ends up with the socket buffers of a received frame, for the three receivers and their
callers. A datagram of no known protocol leaves for the exit label with its buffer in hand. -/
namespace MhiHost.SkbLedger
open MbimDecoders (Rcvd)
open Wire (Bytes)
open Relation (ReflTransGen)

section Mbim
open Mbim MbimTrace
variable {link : Link} {alloc : Nat → Nat → Bool} {rxMax : Nat} {r : Rcvd}

/- Every datagram that a table of the chain comes to, and that passes the checks, is IPv4 or IPv6. -/
def KnownDatagrams (link : Link) (rxMax : Nat) (r : Rcvd) : Prop := ∀ o, Reached link rxMax r o → Header link r o →
  ∀ x, InTable rxMax r o x → MbimTrace.Sound rxMax r (entry o x) → Known r (entry o x)

theorem tidySilent {k k' : Nat} {es fs : List Effect}
    (silent : ∀ n, es.countP (Effect.allocs n) = 0 ∧ es.countP (Effect.queues n) = 0)
    (tidy : Tidy k fs k') : Tidy k (es ++ fs) k' := by
  refine ⟨tidy.1,fun n => ?_⟩
  rw [List.countP_append,List.countP_append,(silent n).1,(silent n).2,Nat.zero_add,Nat.zero_add]
  exact tidy.2 n

theorem readsSilent {es : List Effect} (reads : ∀ e ∈ es, ∃ o n, e = .read o n) (n : Nat) :
    es.countP (Effect.allocs n) = 0 ∧ es.countP (Effect.queues n) = 0 := by
  refine ⟨List.countP_eq_zero.mpr fun e member => ?_,List.countP_eq_zero.mpr fun e member => ?_⟩
  all_goals
    obtain ⟨o,m,rfl⟩ := reads e member
    exact Bool.false_ne_true

theorem headerSilent (o n : Nat) : (headerReads o).countP (Effect.allocs n) = 0 ∧ (headerReads o).countP (Effect.queues n) = 0 :=
  ⟨rfl,rfl⟩

theorem ndpTidy {o : Nat} (known : Header link r o → ∀ x, InTable rxMax r o x → MbimTrace.Sound rxMax r (entry o x) →
    Known r (entry o x))
    (k : Nat) : ∃ k', Tidy k (ndp link alloc rxMax r o k).effects k' ∧
      ∀ w, (ndp link alloc rxMax r o k).outcome = .went w → w = k' := by
  rcases @ndpCases link alloc rxMax r o k with ⟨_,es,same,header⟩ | ⟨header,tci,same⟩
  · have reads : ∀ e ∈ es, ∃ o n, e = .read o n := fun e now => by
      obtain ⟨a,b,read,_⟩ := headerInside (header e now).1 (header e now).2
      exact ⟨a,b,read⟩
    rw [same]
    refine ⟨k,?_,nofun⟩
    have tidy := tidySilent (readsSilent reads) (tidyNil k)
    rw [List.append_nil] at tidy
    exact tidy
  · obtain ⟨k',tidy,last⟩ := @tableTidy link alloc rxMax r tci _ _ (known header) k
    rw [same]
    exact ⟨k',tidySilent (headerSilent o) tidy,last⟩

theorem turnTidy {o : Nat}
    (known : o ≠ 0 → Header link r o → ∀ x, InTable rxMax r o x → MbimTrace.Sound rxMax r (entry o x) → Known r (entry o x))
    (k : Nat) :
    ∃ k', Tidy k (ndpTurn link alloc rxMax r (o,k)).effects k' ∧
      ∀ next, Trace.Goes (ndpTurn link alloc rxMax r) (o,k) next → next.2 = k' := by
  by_cases used : o = 0
  · subst used
    refine ⟨k,?_,fun next goes => absurd rfl (turnGoes goes).1⟩
    rw [turnZero]
    exact tidyNil k
  · obtain ⟨k',tidy,last⟩ := @ndpTidy link alloc rxMax r o (known used) k
    refine ⟨k',?_,fun next goes => last _ (turnGoes goes).2.1⟩
    rw [turnUsed used,Trace.bind]
    cases out : (ndp link alloc rxMax r o k).outcome with
    | went w =>
      have read : Tidy k' [.read (o+6) 2] k' := tidyNil k'
      exact tidy.append read
    | left => exact tidy
    | lost => exact tidy

theorem nthTidy (long : sizeofNth16+sizeofNdp16 ≤ r.len) (known : KnownDatagrams link rxMax r) (fuel : Nat) :
    Chained (nth16 link alloc rxMax r fuel).effects := by
  rcases @nthCases link alloc rxMax r long with ⟨_,es,header,same⟩ | ⟨header,same⟩
  · rw [same]
    intro n size taken
    obtain ⟨_,_,read,_⟩ := nthInside long (header _ taken)
    cases read
  · have loop := @Trace.loopKeeps _ _ _ (ndpTurn link alloc rxMax r) (r.native16 10,0) (fun s es => ∃ k', Tidy s.2 es k')
      (fun s => ⟨s.2,tidyNil s.2⟩) (fun ⟨o,k⟩ way => by
        obtain ⟨k',tidy,last⟩ := @turnTidy link alloc rxMax r o (fun used => known o (reachedBy header used way)) k
        refine ⟨⟨k',tidy⟩,fun next goes es later => ?_⟩
        obtain ⟨k'',rest⟩ := later
        rw [last next goes] at rest
        exact ⟨k'',tidy.append rest⟩) fuel
    obtain ⟨k',tidy⟩ := loop
    rw [same]
    have silent : ∀ n, nthReads.countP (Effect.allocs n) = 0 ∧ nthReads.countP (Effect.queues n) = 0 := fun _ => ⟨rfl,rfl⟩
    exact (tidySilent silent tidy).chained

theorem pathTidy {s t : Nat × Nat} {es : List Effect} (path : Trace.Path (ndpTurn link alloc rxMax r) s es t) :
    Tidy s.2 es t.2 := by
  induction path with
  | nil s => exact tidyNil s.2
  | @cons s next t es goes _ ih =>
    obtain ⟨o,k⟩ := s
    have passed := (turnGoes goes).2.2.1
    have known : o ≠ 0 → Header link r o → ∀ x, InTable rxMax r o x → MbimTrace.Sound rxMax r (entry o x) → Known r (entry o x) :=
      fun _ _ x listed sound => (passed.2 x listed).elim (absurd · sound.1) And.right
    obtain ⟨k',tidy,last⟩ := @turnTidy link alloc rxMax r o known k
    cases last next goes
    exact tidy.append ih

theorem nthLeaks (granted : ∀ m size, alloc m size = true) {o x : Nat} (reached : Reached link rxMax r o)
    (header : Header link r o)
    (listed : InTable rxMax r o x) (sound : MbimTrace.Sound rxMax r (entry o x)) (unknown : ¬Known r (entry o x)) :
    ∃ fuel, (nth16 link alloc rxMax r fuel).Ends ∧ ¬Chained (nth16 link alloc rxMax r fuel).effects := by
  obtain ⟨used,k,way⟩ := @reachedWay link alloc rxMax r o granted reached
  obtain ⟨es,path⟩ := Trace.pathOf way
  rcases @nthCases link alloc rxMax r (reachedLong reached) with ⟨refused,_⟩ | ⟨_,same⟩
  · cases reached.1.symm.trans refused
  rcases @ndpCases link alloc rxMax r o k with ⟨other,_⟩ | ⟨_,tci,one⟩
  · exact absurd header other
  obtain ⟨m,pre,k',before,table⟩ := @tableTo link alloc rxMax r tci _ _ x granted listed k
  have last : datagrams link alloc rxMax r tci (m+1) (entry o x) k' =
      .emit (looked (entry o x)) (.emit (opened link r (entry o x) k') .exit) := by
    rcases @entryCases link alloc rxMax r tci m (entry o x) k' with ⟨null,_⟩ | ⟨_,unsound,_⟩ | ⟨_,refused,_⟩ | ⟨_,_,_,same⟩ |
      ⟨_,known,_⟩
    · exact absurd null sound.1
    · exact absurd sound unsound
    · cases (granted _ _).symm.trans refused
    · exact same
    · exact absurd known unknown
  have whole : ndpTurn link alloc rxMax r (o,k) =
      ⟨headerReads o ++ (pre ++ (looked (entry o x) ++ (opened link r (entry o x) k' ++ []))),.left⟩ := by
    rw [turnUsed used,one,table]
    have last : datagrams link alloc rxMax r tci (m+1) (o+sizeofNdp16+x * sizeofDpe16) k' = _ := last
    rw [last]
    rfl
  obtain ⟨fuel,leaves⟩ := Trace.loopLeaves path (by rw [whole])
  refine ⟨fuel,?_⟩
  rw [same,leaves,whole]
  refine ⟨nofun,?_⟩
  have silent : ∀ n, nthReads.countP (Effect.allocs n) = 0 ∧ nthReads.countP (Effect.queues n) = 0 := fun _ => ⟨rfl,rfl⟩
  have tidy : Tidy 0 (nthReads ++ (es ++ (headerReads o ++ (pre ++ looked (entry o x))))) k' :=
    tidySilent silent ((pathTidy path).append (tidySilent (headerSilent o) (before.append (tidyNil k'))))
  have taken : .alloc k' (r.u16 (entry o x+2)+link.allocExtra) ∈ opened link r (entry o x) k' ++ [] := List.mem_cons_self
  have leaks := tidy.leaks taken rfl
  simp only [List.append_assoc] at leaks
  exact leaks

theorem nthLedger (long : sizeofNth16+sizeofNdp16 ≤ r.len) :
    (∀ alloc fuel, (nth16 link alloc rxMax r fuel).Ends → Chained (nth16 link alloc rxMax r fuel).effects) ↔
      KnownDatagrams link rxMax r := by
  refine ⟨fun all o reached header x listed sound => ?_,fun known alloc fuel _ => nthTidy long known fuel⟩
  by_contra unknown
  obtain ⟨fuel,ends,leaks⟩ := @nthLeaks link (fun _ _ => true) rxMax r (fun _ _ => rfl) o x reached header listed sound unknown
  exact leaks (all _ fuel ends)

end Mbim

section Qmap
open Qmap QmapTrace
variable {alloc : Nat → Nat → Bool} {devAddr : Bytes} {r : Rcvd}

def KnownFrames (r : Rcvd) : Prop := ∀ pos, Reached r pos → Fits r pos → ¬Command r pos → Known r pos

theorem frameTidy (pos k protocol : Nat) :
    Tidy k (opened r pos k ++ (copied r pos k ++ (queued devAddr r pos k protocol ++ []))) (k+1) := by
  refine ⟨Nat.le_succ k,fun n => ?_⟩
  have one : (k ≤ n ∧ n < k+1) = (k = n) := by
    apply propext
    omega
  simp only [one,opened,copied,queued]
  by_cases same : k = n
  · simp [Effect.allocs,Effect.queues,same]
  · simp [Effect.allocs,Effect.queues,same]

theorem lookedSilent (r : Rcvd) (pos n : Nat) :
    (QmapTrace.looked r pos).countP (Effect.allocs n) = 0 ∧ (QmapTrace.looked r pos).countP (Effect.queues n) = 0 := ⟨rfl,rfl⟩

theorem frameTurnTidy {pos : Nat} (known : Long r pos → Fits r pos → ¬Command r pos → QmapTrace.Known r pos) (k : Nat)
    (ends : (turn alloc devAddr r (pos,k)).Ends) : ∃ k', Tidy k (turn alloc devAddr r (pos,k)).effects k' ∧
      ∀ next, Trace.Goes (turn alloc devAddr r) (pos,k) next → next.2 = k' := by
  have looks : Tidy k (QmapTrace.looked r pos ++ []) k := tidySilent (lookedSilent r pos) (tidyNil k)
  rcases @turnCases alloc devAddr r pos k with ⟨_,same⟩ | ⟨_,_,same⟩ | ⟨_,_,_,same⟩ | ⟨_,_,_,_,same⟩ |
    ⟨long,fits,data,unknown,_⟩ | ⟨_,_,_,_,_,same⟩ | ⟨_,_,_,_,_,_,protocol,_,same⟩
  · have stays := leavesHere same nofun
    rw [same]
    exact ⟨k,tidyNil k,stays k⟩
  · have stays := leavesHere same nofun
    rw [same]
    exact ⟨k,looks,stays k⟩
  · rw [same]
    refine ⟨k,looks,fun next goes => ?_⟩
    rw [Trace.Goes,same] at goes
    cases goes
    rfl
  · have stays := leavesHere same nofun
    rw [same]
    exact ⟨k,looks,stays k⟩
  · exact absurd (known long fits data) unknown
  · rw [same] at ends
    exact absurd rfl ends
  · rw [same]
    refine ⟨k+1,tidySilent (lookedSilent r pos) (frameTidy pos k protocol),fun next goes => ?_⟩
    rw [Trace.Goes,same] at goes
    cases goes
    rfl

theorem loopChained (known : KnownFrames r) {fuel : Nat} (ends : (Trace.loop (turn alloc devAddr r) fuel (0,0)).Ends) :
    Chained (Trace.loop (turn alloc devAddr r) fuel (0,0)).effects := by
  have loop := @Trace.endedKeeps _ _ _ (turn alloc devAddr r) (0,0) (fun s es => ∃ k', Tidy s.2 es k')
    (fun ⟨pos,k⟩ way here => by
      obtain ⟨k',tidy,last⟩ := frameTurnTidy (fun long => known pos (wayReached way long)) k here
      refine ⟨⟨k',tidy⟩,fun next goes es later => ?_⟩
      obtain ⟨k'',rest⟩ := later
      rw [last next goes] at rest
      exact ⟨k'',tidy.append rest⟩) fuel ends
  obtain ⟨k',tidy⟩ := loop
  exact tidy.chained

theorem framesTidy {s t : Nat × Nat} {es : List Effect} (path : Trace.Path (turn alloc devAddr r) s es t) : Tidy s.2 es t.2 := by
  induction path with
  | nil s => exact tidyNil s.2
  | @cons s next t es goes _ ih =>
    obtain ⟨pos,k⟩ := s
    obtain ⟨_,_,passes,_⟩ := turnFollows goes
    have ends : (turn alloc devAddr r (pos,k)).Ends := fun lost => by cases goes.symm.trans lost
    obtain ⟨k',tidy,last⟩ := frameTurnTidy (fun _ _ data => (passes.resolve_left data).1) k ends
    cases last next goes
    exact tidy.append ih

theorem frameLeaks (granted : ∀ m size, alloc m size = true) {pos : Nat} (reached : QmapTrace.Reached r pos) (fits : Fits r pos)
    (data : ¬Command r pos) (unknown : ¬QmapTrace.Known r pos) : ∃ fuel, (Trace.loop (turn alloc devAddr r) fuel (0,0)).Ends ∧
      ¬Chained (Trace.loop (turn alloc devAddr r) fuel (0,0)).effects := by
  obtain ⟨k,way⟩ := @grantedWay alloc devAddr r pos granted reached.1
  obtain ⟨es,path⟩ := Trace.pathOf way
  have whole : turn alloc devAddr r (pos,k) = .emit (QmapTrace.looked r pos) (.emit (QmapTrace.opened r pos k) .exit) := by
    rcases @turnCases alloc devAddr r pos k with ⟨short,_⟩ | ⟨_,cut,_⟩ | ⟨_,_,command,_⟩ | ⟨_,_,_,refused,_⟩ |
      ⟨_,_,_,_,_,same⟩ | ⟨_,_,_,known,_⟩ | ⟨_,_,_,known,_⟩
    · exact absurd reached.2 short
    · exact absurd fits cut
    · exact absurd command data
    · cases (granted _ _).symm.trans refused
    · exact same
    · exact absurd known unknown
    · exact absurd known unknown
  obtain ⟨fuel,leaves⟩ := Trace.loopLeaves path (by rw [whole]; rfl)
  refine ⟨fuel,?_⟩
  rw [leaves,whole]
  refine ⟨nofun,?_⟩
  have tidy : Tidy 0 (es ++ QmapTrace.looked r pos) k := (framesTidy path).append (tidyNil k)
  have taken : .alloc k (skbSize (qhdr r pos)) ∈ QmapTrace.opened r pos k ++ [] := List.mem_cons_self
  have leaks := tidy.leaks taken rfl
  rw [List.append_assoc] at leaks
  exact leaks

theorem loopLedger (devAddr : Bytes) (r : Rcvd) : (∀ alloc fuel, (Trace.loop (turn alloc devAddr r) fuel (0,0)).Ends →
      Chained (Trace.loop (turn alloc devAddr r) fuel (0,0)).effects) ↔ KnownFrames r := by
  refine ⟨fun all pos reached fits data => ?_,fun known alloc fuel ends => loopChained known ends⟩
  by_contra unknown
  obtain ⟨fuel,ends,leaks⟩ := @frameLeaks (fun _ _ => true) devAddr r (fun _ _ => rfl) pos reached fits data unknown
  exact leaks (all _ fuel ends)

end Qmap

def Conserves (run : (Nat → Nat → Bool) → Nat → Trace Effect Unit) : Prop :=
  ∀ alloc fuel, (run alloc fuel).Ends → Conserved (run alloc fuel).effects

theorem conservesIff {α : Type} {t : (Nat → Nat → Bool) → Nat → Trace Effect α}
    {run : (Nat → Nat → Bool) → Nat → Trace Effect Unit}
    (inner : ∀ alloc fuel, Inner (t alloc fuel).effects) (ends : ∀ alloc fuel, (run alloc fuel).Ends ↔ (t alloc fuel).Ends)
    (done : ∀ alloc fuel, (t alloc fuel).Ends → (run alloc fuel).effects =
      (t alloc fuel).effects ++ (t alloc fuel).effects.filterMap Effect.receive ++ [.free .input]) :
    Conserves run ↔ ∀ alloc fuel, (t alloc fuel).Ends → Chained (t alloc fuel).effects := by
  refine forall_congr' fun alloc => forall_congr' fun fuel => ?_
  rw [ends]
  refine imp_congr_right fun ended => ?_
  rw [done alloc fuel ended]
  exact conservedIff (inner alloc fuel)

theorem polledLabel {α : Type} (t : Trace Effect α) : ((mhiNetPoll (some (t.finish fun es =>
        .emit (es.filterMap Effect.receive ++ [.free .input]) (.pure 0)))).Ends ↔ t.Ends) ∧
    (t.Ends → (mhiNetPoll (some (t.finish fun es => .emit (es.filterMap Effect.receive ++ [.free .input]) (.pure 0)))).effects =
      t.effects ++ t.effects.filterMap Effect.receive ++ [.free .input]) := by
  obtain ⟨effects,ends⟩ := polled (t.finish fun es => .emit (es.filterMap Effect.receive ++ [.free .input]) (.pure 0))
  refine ⟨ends.trans (Trace.finishEnds (Trace.emitEnds _ 0)),fun ended => ?_⟩
  rw [effects,Trace.finished ended,List.append_assoc]
  exact congrArg _ (List.append_nil _)

theorem calledBack {alloc : Nat → Nat → Bool} {rxMax : Nat} {r : Rcvd} {fuel : Nat} {t : Trace Effect Nat}
    (body : MbimTrace.MhiNetMbim.cdcMbimRxFixup alloc rxMax r fuel = t.finish fun es => .emit (es.filterMap Effect.receive) (.pure ())) :
    ((MbimTrace.MhiNetMbim.mhiNetDlCallback false alloc rxMax r fuel).Ends ↔ t.Ends) ∧
    (t.Ends → (MbimTrace.MhiNetMbim.mhiNetDlCallback false alloc rxMax r fuel).effects =
      t.effects ++ t.effects.filterMap Effect.receive ++ [.free .input]) := by
  have whole : MbimTrace.MhiNetMbim.mhiNetDlCallback false alloc rxMax r fuel =
      (t.finish fun es => .emit (es.filterMap Effect.receive) (.pure ())).bind fun _ => .emit [.free .input] (.pure ()) := by
    rw [← body]
    rfl
  rw [whole]
  constructor
  · rw [Trace.bindEnds,Trace.finishEnds (Trace.emitEnds _ ())]
    exact and_iff_left fun _ _ => Trace.emitEnds id () [.free .input]
  · intro ended
    rw [Trace.wentEffects (Trace.finishWent ended fun _ => rfl),Trace.finished ended]
    show t.effects ++ (t.effects.filterMap Effect.receive ++ []) ++ [.free .input] = _
    rw [List.append_nil]

theorem freedOnly : Conserved [.free .input] := by
  refine ⟨rfl,fun n size taken => ?_⟩
  cases List.mem_singleton.mp taken

theorem unreachedKnown {link : Mbim.Link} {rxMax : Nat} {r : Rcvd} (short : r.len < Mbim.sizeofNth16+Mbim.sizeofNdp16) :
    KnownDatagrams link rxMax r := fun _ reached => absurd (MbimTrace.reachedLong reached) (Nat.not_le.mpr short)

theorem callbackConserves (status : Bool) (rxMax : Nat) (r : Rcvd) :
    Conserves (MbimTrace.MhiNetMbim.mhiNetDlCallback status · rxMax r ·) ↔
      status = true ∨ KnownDatagrams Mbim.MhiNetMbim.link rxMax r := by
  cases status with
  | true => exact ⟨fun _ => .inl rfl,fun _ _ _ _ => freedOnly⟩
  | false =>
    simp only [Bool.false_eq_true,false_or]
    by_cases short : r.len < Mbim.sizeofNth16+Mbim.sizeofNdp16
    · refine ⟨fun _ => unreachedKnown short,fun _ alloc fuel _ => ?_⟩
      have whole : MbimTrace.MhiNetMbim.mhiNetDlCallback false alloc rxMax r fuel = .emit [.free .input] (.pure ()) := by
        rw [MbimTrace.MhiNetMbim.mhiNetDlCallback,MbimTrace.MhiNetMbim.cdcMbimRxFixup,if_pos short]
        rfl
      show Conserved (MbimTrace.MhiNetMbim.mhiNetDlCallback false alloc rxMax r fuel).effects
      rw [whole]
      exact freedOnly
    · have long := Nat.not_lt.mp short
      have body : ∀ alloc fuel, MbimTrace.MhiNetMbim.cdcMbimRxFixup alloc rxMax r fuel =
          (MbimTrace.nth16 Mbim.MhiNetMbim.link alloc rxMax r fuel).finish fun es => .emit (es.filterMap Effect.receive)
          (.pure ()) := by
        intro alloc fuel
        rw [MbimTrace.MhiNetMbim.cdcMbimRxFixup,if_neg short]
      rw [conservesIff (fun alloc fuel => MbimTrace.nthInner long fuel) (fun alloc fuel => (calledBack (body alloc fuel)).1)
        fun alloc fuel => (calledBack (body alloc fuel)).2]
      exact nthLedger long

theorem framedConserves (devAddr : Bytes) (rxMax : Nat) (r : Rcvd) :
    Conserves (fun alloc fuel => mhiNetPoll (some (MbimTrace.CdcMbim.cdcMbimRxFixup alloc devAddr rxMax r fuel))) ↔
      Mbim.sizeofNth16+Mbim.sizeofNdp16 ≤ r.len ∧ KnownDatagrams (Mbim.CdcMbim.link devAddr) rxMax r := by
  by_cases short : r.len < Mbim.sizeofNth16+Mbim.sizeofNdp16
  · refine ⟨fun all => ?_,fun both => absurd both.1 (Nat.not_le.mpr short)⟩
    have returned : MbimTrace.CdcMbim.cdcMbimRxFixup (fun _ _ => true) devAddr rxMax r 0 = .pure 1 := by
      rw [MbimTrace.CdcMbim.cdcMbimRxFixup,if_pos short]
    have done := all (fun _ _ => true) 0
    simp only [returned] at done
    cases (done ((polled _).2.mpr (Trace.pureEnds 1))).1
  · have long := Nat.not_lt.mp short
    have body : ∀ alloc fuel, MbimTrace.CdcMbim.cdcMbimRxFixup alloc devAddr rxMax r fuel =
        (MbimTrace.nth16 (Mbim.CdcMbim.link devAddr) alloc rxMax r fuel).finish fun es =>
          .emit (es.filterMap Effect.receive ++ [.free .input]) (.pure 0) := by
      intro alloc fuel
      rw [MbimTrace.CdcMbim.cdcMbimRxFixup,if_neg short]
    simp only [body]
    rw [conservesIff (fun alloc fuel => MbimTrace.nthInner long fuel) (fun alloc fuel => (polledLabel _).1)
      fun alloc fuel => (polledLabel _).2,nthLedger long]
    exact ⟨fun known => ⟨long,known⟩,And.right⟩

theorem qmapConserves (devAddr : Bytes) (r : Rcvd) :
    Conserves (fun alloc fuel => mhiNetPoll (some (QmapTrace.qmiWwanRxFixup alloc devAddr r fuel))) ↔ KnownFrames r := by
  refine Iff.trans ?_ (loopLedger devAddr r)
  exact conservesIff (fun alloc fuel => QmapTrace.loopInner fuel) (fun alloc fuel => (polledLabel _).1)
    fun alloc fuel => (polledLabel _).2

theorem decodersConserve (status : Bool) (devAddr : Bytes) (rxMax : Nat) (r : Rcvd) :
    (Conserves (MbimTrace.MhiNetMbim.mhiNetDlCallback status · rxMax r ·) ↔
      status = true ∨ KnownDatagrams Mbim.MhiNetMbim.link rxMax r) ∧
    (Conserves (fun alloc fuel => mhiNetPoll (some (MbimTrace.CdcMbim.cdcMbimRxFixup alloc devAddr rxMax r fuel))) ↔
      Mbim.sizeofNth16+Mbim.sizeofNdp16 ≤ r.len ∧ KnownDatagrams (Mbim.CdcMbim.link devAddr) rxMax r) ∧
    (Conserves (fun alloc fuel => mhiNetPoll (some (QmapTrace.qmiWwanRxFixup alloc devAddr r fuel))) ↔ KnownFrames r) :=
  ⟨callbackConserves status rxMax r,framedConserves devAddr rxMax r,qmapConserves devAddr r⟩

def strangeBlock : Rcvd := MbimDecoders.rcvd
  ([0x4e,0x43,0x4d,0x48,12,0,0,0,29,0,12,0] ++ [0x49,0x50,0x53,0,16,0,0,0] ++ [28,0,1,0,0,0,0,0] ++ [0x10])
def strangeFrame : Rcvd := MbimDecoders.rcvd [0,0x81,0,1,0x10]
def shortBlock : Rcvd := MbimDecoders.rcvd [0x4e,0x43,0x4d,0x48]

theorem unknownDatagramLeaks :
    ¬Conserves (MbimTrace.MhiNetMbim.mhiNetDlCallback false · (31 * 1024) strangeBlock ·) ∧
    ¬Conserves (fun alloc fuel =>
      mhiNetPoll (some (MbimTrace.CdcMbim.cdcMbimRxFixup alloc [2,0x50,0xf4,0,0,0] (31 * 1024) strangeBlock fuel))) ∧
    ¬Conserves (fun alloc fuel =>
      mhiNetPoll (some (MbimTrace.CdcMbim.cdcMbimRxFixup alloc [2,0x50,0xf4,0,0,0] (31 * 1024) shortBlock fuel))) ∧
    ¬Conserves (fun alloc fuel => mhiNetPoll (some (QmapTrace.qmiWwanRxFixup alloc [2,0x50,0xf4,0,0,0] strangeFrame fuel))) := by
  refine ⟨fun all => ?_,fun all => ?_,fun all => ?_,fun all => ?_⟩
  · have kept := (all (fun _ _ => true) 2 (by decide)).2 0 1 (by decide)
    exact absurd kept (by decide)
  · have kept := (all (fun _ _ => true) 2 (by decide)).2 0 15 (by decide)
    exact absurd kept (by decide)
  · have kept := (all (fun _ _ => true) 2 (by decide)).1
    exact absurd kept (by decide)
  · have kept := (all (fun _ _ => true) 2 (by decide)).2 0 15 (by decide)
    exact absurd kept (by decide)

end MhiHost.SkbLedger
