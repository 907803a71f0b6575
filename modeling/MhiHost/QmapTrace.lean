import MhiHost.Decoding
import MhiHost.MbimDecoders
import MhiHost.Qmap

/-! The receiver of `qmi_wwan.c` once more, with every read, every unsigned difference and every
socket buffer in the order of the code. Its first payload byte may lie behind the frame. -/
namespace MhiHost.QmapTrace
open Qmap
open MbimDecoders (Rcvd)
open Wire (Bytes)
open Relation (ReflTransGen TransGen)

section Decoder
variable (alloc : Nat → Nat → Bool) (devAddr : Bytes) (r : Rcvd)

def qhdr (pos : Nat) : QmapHdr where
  padLen := (r.mem pos).toNat % 64
  nextHdr := (r.mem pos).toNat / 64 % 2
  cdBit := (r.mem pos).toNat / 128
  muxId := (r.mem (pos+1)).toNat
  pktLen := 256 * (r.mem (pos+2)).toNat+(r.mem (pos+3)).toNat

def skbLen (q : QmapHdr) : Nat := (q.pktLen+2 ^ 32-q.padLen) % 2 ^ 32
def skbSize (q : QmapHdr) : Nat := (skbLen q+ethHlen) % 2 ^ 32

def packet (pos protocol : Nat) : Packet :=
  ⟨protocol,ethHeader devAddr protocol,if (qhdr r pos).muxId ≠ qmapDefaultMuxId then some (qhdr r pos).muxId else none,
    r.bytes (pos+hdrSize (qhdr r pos)) (skbLen (qhdr r pos))⟩

/- The copy keeps to the buffer it fills and to the received bytes; one that does not is not
followed further. -/
def CopyInside (pos : Nat) : Prop :=
  ethHlen+skbLen (qhdr r pos) ≤ skbSize (qhdr r pos) ∧ pos+hdrSize (qhdr r pos)+skbLen (qhdr r pos) ≤ r.len
instance (pos : Nat) : Decidable (CopyInside r pos) := by unfold CopyInside; infer_instance

def turn : Nat × Nat → Trace Effect ((Nat × Nat) ⊕ Nat)
  | (pos,k) =>
    if r.len-pos ≤ sizeofQmapHdr then .pure (.inr k)
    else
      let q := qhdr r pos
      let next := pos+(q.pktLen+hdrSize q)
      .emit [.read pos 1,.read (pos+2) 2,.subtract q.pktLen q.padLen] <|
        if r.len-pos < q.pktLen+hdrSize q then .exit
        else if q.cdBit = 1 then .pure (.inl (next,k))
        else if !alloc k (skbSize q) then .exit
        else .emit [.alloc k (skbSize q),.read (pos+hdrSize q) 1] <| match datagramProtocol (r.mem (pos+hdrSize q)) with
          | none => .exit
          | some protocol => .emit [.append k ethHlen,.read (pos+hdrSize q) (skbLen q),.append k (skbLen q)] <|
            if CopyInside r pos then
              .emit [.read (pos+1) 1,.queue k (packet devAddr r pos protocol)] (.pure (.inl (next,k+1)))
            else .stop

def qmiWwanRxFixup (fuel : Nat) : Trace Effect Nat :=
  (Trace.loop (turn alloc devAddr r) fuel (0,0)).finish fun es =>
    .emit (es.filterMap Effect.receive ++ [.free .input]) (.pure 0)

end Decoder

/-! What a frame is to the receiver, read off the received bytes alone. -/
section Frames
variable (r : Rcvd)

def Long (pos : Nat) : Prop := sizeofQmapHdr < r.len-pos
def Fits (pos : Nat) : Prop := (qhdr r pos).pktLen+hdrSize (qhdr r pos) ≤ r.len-pos
def Command (pos : Nat) : Prop := (qhdr r pos).cdBit = 1
def Known (pos : Nat) : Prop := (datagramProtocol (r.mem (pos+hdrSize (qhdr r pos)))).isSome = true
def behind (pos : Nat) : Nat := pos+((qhdr r pos).pktLen+hdrSize (qhdr r pos))

def Follows (pos next : Nat) : Prop :=
  Long r pos ∧ Fits r pos ∧ (Command r pos ∨ Known r pos ∧ CopyInside r pos) ∧ next = behind r pos

def Reached (pos : Nat) : Prop := ReflTransGen (Follows r) 0 pos ∧ Long r pos

end Frames

section Turns
variable {alloc : Nat → Nat → Bool} {devAddr : Bytes} {r : Rcvd}

def looked (r : Rcvd) (pos : Nat) : List Effect :=
  [.read pos 1,.read (pos+2) 2,.subtract (qhdr r pos).pktLen (qhdr r pos).padLen]
def opened (r : Rcvd) (pos k : Nat) : List Effect := [.alloc k (skbSize (qhdr r pos)),.read (pos+hdrSize (qhdr r pos)) 1]
def copied (r : Rcvd) (pos k : Nat) : List Effect :=
  [.append k ethHlen,.read (pos+hdrSize (qhdr r pos)) (skbLen (qhdr r pos)),.append k (skbLen (qhdr r pos))]
def queued (devAddr : Bytes) (r : Rcvd) (pos k protocol : Nat) : List Effect :=
  [.read (pos+1) 1,.queue k (packet devAddr r pos protocol)]

theorem turnCases (pos k : Nat) :
    (¬Long r pos ∧ turn alloc devAddr r (pos,k) = .pure (.inr k)) ∨
    (Long r pos ∧ ¬Fits r pos ∧ turn alloc devAddr r (pos,k) = .emit (looked r pos) .exit) ∨
    (Long r pos ∧ Fits r pos ∧ Command r pos ∧
      turn alloc devAddr r (pos,k) = .emit (looked r pos) (.pure (.inl (behind r pos,k)))) ∨
    (Long r pos ∧ Fits r pos ∧ ¬Command r pos ∧ alloc k (skbSize (qhdr r pos)) = false ∧
      turn alloc devAddr r (pos,k) = .emit (looked r pos) .exit) ∨
    (Long r pos ∧ Fits r pos ∧ ¬Command r pos ∧ ¬Known r pos ∧ alloc k (skbSize (qhdr r pos)) = true ∧
      turn alloc devAddr r (pos,k) = .emit (looked r pos) (.emit (opened r pos k) .exit)) ∨
    (Long r pos ∧ Fits r pos ∧ ¬Command r pos ∧ Known r pos ∧ ¬CopyInside r pos ∧
      turn alloc devAddr r (pos,k) = .emit (looked r pos) (.emit (opened r pos k) (.emit (copied r pos k) .stop))) ∨
    (Long r pos ∧ Fits r pos ∧ ¬Command r pos ∧ Known r pos ∧ CopyInside r pos ∧ alloc k (skbSize (qhdr r pos)) = true ∧
      ∃ protocol,
      datagramProtocol (r.mem (pos+hdrSize (qhdr r pos))) = some protocol ∧
      turn alloc devAddr r (pos,k) = .emit (looked r pos) (.emit (opened r pos k) (.emit (copied r pos k)
        (.emit (queued devAddr r pos k protocol) (.pure (.inl (behind r pos,k+1))))))) := by
  rw [turn]
  by_cases short : r.len-pos ≤ sizeofQmapHdr
  · rw [if_pos short]
    exact .inl ⟨Nat.not_lt.mpr short,rfl⟩
  rw [if_neg short]
  dsimp only
  have long : Long r pos := Nat.not_le.mp short
  by_cases cut : r.len-pos < (qhdr r pos).pktLen+hdrSize (qhdr r pos)
  · rw [if_pos cut]
    exact .inr (.inl ⟨long,Nat.not_le.mpr cut,rfl⟩)
  rw [if_neg cut]
  have fits : Fits r pos := Nat.not_lt.mp cut
  by_cases command : (qhdr r pos).cdBit = 1
  · rw [if_pos command]
    exact .inr (.inr (.inl ⟨long,fits,command,rfl⟩))
  rw [if_neg command]
  cases granted : alloc k (skbSize (qhdr r pos)) with
  | false => exact .inr (.inr (.inr (.inl ⟨long,fits,command,rfl,rfl⟩)))
  | true =>
    cases first : datagramProtocol (r.mem (pos+hdrSize (qhdr r pos))) with
    | none =>
      have unknown : ¬Known r pos := by
        rw [Known,first]
        exact Bool.false_ne_true
      exact .inr (.inr (.inr (.inr (.inl ⟨long,fits,command,unknown,rfl,rfl⟩))))
    | some protocol =>
      have known : Known r pos := by rw [Known,first]; rfl
      by_cases inside : CopyInside r pos
      · simp only [if_pos inside]
        exact .inr (.inr (.inr (.inr (.inr (.inr ⟨long,fits,command,known,inside,trivial,protocol,rfl,rfl⟩)))))
      · simp only [if_neg inside]
        exact .inr (.inr (.inr (.inr (.inr (.inl ⟨long,fits,command,known,inside,rfl⟩)))))

theorem turnFollows {pos next k k' : Nat} (goes : Trace.Goes (turn alloc devAddr r) (pos,k) (next,k')) : Follows r pos next := by
  rcases @turnCases alloc devAddr r pos k with ⟨_,same⟩ | ⟨_,_,same⟩ | ⟨long,fits,command,same⟩ | ⟨_,_,_,_,same⟩ |
    ⟨_,_,_,_,_,same⟩ | ⟨_,_,_,_,_,same⟩ | ⟨long,fits,_,known,inside,_,_,_,same⟩
  all_goals rw [Trace.Goes,same] at goes
  · cases goes
  · cases goes
  · cases goes
    exact ⟨long,fits,.inl command,rfl⟩
  · cases goes
  · cases goes
  · cases goes
  · cases goes
    exact ⟨long,fits,.inr ⟨known,inside⟩,rfl⟩

theorem grantedTurn {pos next : Nat} (granted : ∀ m size, alloc m size = true) (follows : Follows r pos next) (k : Nat) :
    ∃ k', Trace.Goes (turn alloc devAddr r) (pos,k) (next,k') := by
  obtain ⟨long,fits,passes,rfl⟩ := follows
  rcases @turnCases alloc devAddr r pos k with ⟨short,_⟩ | ⟨_,cut,_⟩ | ⟨_,_,_,same⟩ | ⟨_,_,_,refused,_⟩ |
    ⟨_,_,data,unknown,_⟩ | ⟨_,_,data,_,outside,_⟩ | ⟨_,_,_,_,_,_,_,_,same⟩
  · exact absurd long short
  · exact absurd fits cut
  · exact ⟨k,by rw [Trace.Goes,same]; rfl⟩
  · cases (granted _ _).symm.trans refused
  · exact absurd (passes.resolve_left data).1 unknown
  · exact absurd (passes.resolve_left data).2 outside
  · exact ⟨k+1,by rw [Trace.Goes,same]; rfl⟩

theorem followed {pos k : Nat} {last : Nat × Nat} (way : ReflTransGen (Trace.Goes (turn alloc devAddr r)) (pos,k) last) :
    ReflTransGen (Follows r) pos last.1 := by
  induction way with
  | refl => exact .refl
  | tail _ goes ih => exact ih.tail (turnFollows goes)

theorem grantedWay {pos : Nat} (granted : ∀ m size, alloc m size = true) (chain : ReflTransGen (Follows r) 0 pos) :
    ∃ k, ReflTransGen (Trace.Goes (turn alloc devAddr r)) (0,0) (pos,k) := by
  induction chain with
  | refl => exact ⟨0,.refl⟩
  | tail _ follows ih =>
    obtain ⟨k,way⟩ := ih
    obtain ⟨k',goes⟩ := grantedTurn granted follows k
    exact ⟨k',way.tail goes⟩

theorem framesDescend (pos k : Nat) : Acc (fun t s => Trace.Goes (turn alloc devAddr r) s t) (pos,k) := by
  induction left : r.len-pos using Nat.strong_induction_on generalizing pos k with
  | _ n ih =>
    refine ⟨_,fun ⟨next,k'⟩ goes => ?_⟩
    obtain ⟨long,_,_,rfl⟩ := turnFollows goes
    have header := hdrSizePos (qhdr r pos)
    have long : sizeofQmapHdr < r.len-pos := long
    exact ih _ (by unfold behind; omega) _ _ rfl

end Turns

section Safety
variable {alloc : Nat → Nat → Bool} {devAddr : Bytes} {r : Rcvd}

theorem skbLenSound {q : QmapHdr} (small : q.pktLen < 2 ^ 16) (sound : q.padLen ≤ q.pktLen) :
    skbLen q = q.pktLen-q.padLen ∧ skbSize q = q.pktLen-q.padLen+ethHlen := by
  have len : skbLen q = q.pktLen-q.padLen := by
    unfold skbLen
    omega
  refine ⟨len,?_⟩
  rw [skbSize,len]
  unfold ethHlen
  omega

theorem pktLenSmall (pos : Nat) : (qhdr r pos).pktLen < 2 ^ 16 := by
  have high := (r.mem (pos+2)).toNat_lt
  have low := (r.mem (pos+3)).toNat_lt
  simp only [qhdr]
  omega

theorem copyInside {pos : Nat} (long : Long r pos) (fits : Fits r pos) (sound : (qhdr r pos).padLen ≤ (qhdr r pos).pktLen) :
    CopyInside r pos := by
  obtain ⟨len,size⟩ := skbLenSound (pktLenSmall pos) sound
  have long : sizeofQmapHdr < r.len-pos := long
  have fits : (qhdr r pos).pktLen+hdrSize (qhdr r pos) ≤ r.len-pos := fits
  rw [CopyInside,len,size]
  omega

def FrameSound (r : Rcvd) (pos : Nat) : Prop := (qhdr r pos).padLen ≤ (qhdr r pos).pktLen ∧
  (Fits r pos → ¬Command r pos → pos+hdrSize (qhdr r pos) < r.len)

def Sound (len : Nat) : Effect → Prop
  | .read offset n => offset+n ≤ len
  | .subtract a b => b ≤ a
  | _ => True

theorem soundBoth {len : Nat} {es : List Effect} : (∀ e ∈ es, Sound len e) ↔ LengthsSound es ∧ ReadsInside len es := by
  refine ⟨fun all => ⟨fun a b now => all _ now,fun o n now => all _ now⟩,?_⟩
  rintro ⟨lengths,reads⟩ e now
  cases e with
  | read o n => exact reads o n now
  | subtract a b => exact lengths a b now
  | _ => trivial

theorem lookedSound {pos : Nat} (long : Long r pos) (sound : FrameSound r pos) : ∀ e ∈ looked r pos, Sound r.len e := by
  have long : 4 < r.len-pos := long
  simp only [looked,List.forall_mem_cons,Sound]
  exact ⟨by omega,by omega,sound.1,fun _ none => absurd none List.not_mem_nil⟩

theorem openedSound {pos : Nat} (received : pos+hdrSize (qhdr r pos) < r.len) (k : Nat) :
    ∀ e ∈ opened r pos k, Sound r.len e := by
  simp only [opened,List.forall_mem_cons,Sound]
  exact ⟨trivial,received,fun _ none => absurd none List.not_mem_nil⟩

theorem copiedSound {pos : Nat} (inside : CopyInside r pos) (k : Nat) : ∀ e ∈ copied r pos k, Sound r.len e := by
  simp only [copied,List.forall_mem_cons,Sound]
  exact ⟨trivial,inside.2,trivial,fun _ none => absurd none List.not_mem_nil⟩

theorem queuedSound {pos : Nat} (long : Long r pos) (k protocol : Nat) :
    ∀ e ∈ queued devAddr r pos k protocol, Sound r.len e := by
  have long : 4 < r.len-pos := long
  simp only [queued,List.forall_mem_cons,Sound]
  exact ⟨by omega,trivial,fun _ none => absurd none List.not_mem_nil⟩

theorem roomyLooked (r : Rcvd) (pos k : Nat) : Roomy k (looked r pos) k := by
  refine ⟨Nat.le_refl k,fun n => ⟨fun _ => ⟨rfl,fun size taken => ?_⟩,fun size taken => ?_⟩⟩
  all_goals simp [looked] at taken

theorem leavesHere {pos k : Nat} {t : Trace Effect ((Nat × Nat) ⊕ Nat)} (same : turn alloc devAddr r (pos,k) = t)
    (leaves : ∀ next, t.outcome ≠ .went (.inl next)) (k' : Nat) :
    ∀ next, Trace.Goes (turn alloc devAddr r) (pos,k) next → next.2 = k' := by
  intro next goes
  rw [Trace.Goes,same] at goes
  exact absurd goes (leaves next)

theorem turnSound {pos : Nat} (sound : Long r pos → FrameSound r pos) (k : Nat) :
    (turn alloc devAddr r (pos,k)).Ends ∧ (∀ e ∈ (turn alloc devAddr r (pos,k)).effects, Sound r.len e) ∧
      ∃ k', Roomy k (turn alloc devAddr r (pos,k)).effects k' ∧
        ∀ next, Trace.Goes (turn alloc devAddr r) (pos,k) next → next.2 = k' := by
  have none : ∀ e ∈ ([] : List Effect), Sound r.len e := fun _ member => absurd member List.not_mem_nil
  rcases @turnCases alloc devAddr r pos k with ⟨_,same⟩ | ⟨long,_,same⟩ | ⟨long,_,_,same⟩ | ⟨long,_,_,_,same⟩ |
    ⟨long,fits,data,_,_,same⟩ | ⟨long,fits,_,_,outside,_⟩ | ⟨long,fits,data,_,inside,_,protocol,_,same⟩
  · have stays := leavesHere same nofun
    rw [same]
    exact ⟨nofun,none,k,roomyNil k,stays k⟩
  · have looks := lookedSound long (sound long)
    have stays := leavesHere same nofun
    rw [same]
    exact ⟨nofun,List.forall_mem_append.mpr ⟨looks,none⟩,k,(roomyLooked r pos k).append (roomyNil k),stays k⟩
  · have looks := lookedSound long (sound long)
    rw [same]
    refine ⟨nofun,List.forall_mem_append.mpr ⟨looks,none⟩,k,(roomyLooked r pos k).append (roomyNil k),fun next goes => ?_⟩
    rw [Trace.Goes,same] at goes
    cases goes
    rfl
  · have looks := lookedSound long (sound long)
    have stays := leavesHere same nofun
    rw [same]
    exact ⟨nofun,List.forall_mem_append.mpr ⟨looks,none⟩,k,(roomyLooked r pos k).append (roomyNil k),stays k⟩
  · have looks := lookedSound long (sound long)
    have opens := openedSound ((sound long).2 fits data) k
    have stays := leavesHere same nofun
    rw [same]
    refine ⟨nofun,List.forall_mem_append.mpr ⟨looks,List.forall_mem_append.mpr ⟨opens,none⟩⟩,k+1,?_,stays (k+1)⟩
    exact (roomyLooked r pos k).append ((roomyOpened k _ _).append (roomyNil (k+1)))
  · exact absurd (copyInside long fits (sound long).1) outside
  · have looks := lookedSound long (sound long)
    have opens := openedSound ((sound long).2 fits data) k
    have copies := copiedSound inside k
    have queues := @queuedSound devAddr r pos long k protocol
    rw [same]
    refine ⟨nofun,?_,k+1,?_,fun next goes => ?_⟩
    · exact List.forall_mem_append.mpr ⟨looks,List.forall_mem_append.mpr ⟨opens,List.forall_mem_append.mpr ⟨copies,
        List.forall_mem_append.mpr ⟨queues,none⟩⟩⟩⟩
    · have silent : ∀ n, appended (queued devAddr r pos k protocol ++ []) n = 0 ∧
          ∀ size, .alloc n size ∉ queued devAddr r pos k protocol ++ [] :=
        fun n => ⟨rfl,fun size taken => by simp [queued] at taken⟩
      exact (roomyLooked r pos k).append (roomyFilled (pos+hdrSize (qhdr r pos)) inside.1 silent)
    · rw [Trace.Goes,same] at goes
      cases goes
      rfl

def Safe (devAddr : Bytes) (r : Rcvd) : Prop := ∀ alloc, (∃ fuel, (qmiWwanRxFixup alloc devAddr r fuel).Ends) ∧
  ∀ fuel, LengthsSound (qmiWwanRxFixup alloc devAddr r fuel).effects ∧
    BuffersHold (qmiWwanRxFixup alloc devAddr r fuel).effects ∧ ReadsInside r.len (qmiWwanRxFixup alloc devAddr r fuel).effects

theorem wayReached {pos k : Nat} (way : ReflTransGen (Trace.Goes (turn alloc devAddr r)) (0,0) (pos,k)) (long : Long r pos) :
    Reached r pos := ⟨followed way,long⟩

theorem loopSound (sound : ∀ pos, Reached r pos → FrameSound r pos) (fuel : Nat) :
    (∀ e ∈ (Trace.loop (turn alloc devAddr r) fuel (0,0)).effects, Sound r.len e) ∧
      ∃ k', Roomy 0 (Trace.loop (turn alloc devAddr r) fuel (0,0)).effects k' := by
  constructor
  · intro e done
    obtain ⟨⟨pos,k⟩,way,here⟩ := Trace.turnOf done
    exact (turnSound (fun long => sound pos (wayReached way long)) k).2.1 e here
  · refine @Trace.loopKeeps _ _ _ (turn alloc devAddr r) (0,0) (fun s es => ∃ k', Roomy s.2 es k')
      (fun s => ⟨s.2,roomyNil s.2⟩) (fun ⟨pos,k⟩ way => ?_) fuel
    obtain ⟨_,_,k',roomy,last⟩ := @turnSound alloc devAddr r pos (fun long => sound pos (wayReached way long)) k
    refine ⟨⟨k',roomy⟩,fun next goes es later => ?_⟩
    obtain ⟨k'',rest⟩ := later
    rw [last next goes] at rest
    exact ⟨k'',roomy.append rest⟩

theorem labelSilent (es : List Effect) : (∀ e ∈ es.filterMap Effect.receive ++ [.free .input] ++ [], Sound r.len e) ∧
    ∀ n, appended (es.filterMap Effect.receive ++ [.free .input] ++ []) n = 0 ∧
      ∀ size, .alloc n size ∉ es.filterMap Effect.receive ++ [.free .input] ++ [] := by
  have late : ∀ e ∈ es.filterMap Effect.receive ++ [.free .input] ++ [], (∃ b p, e = .deliver b p) ∨ e = .free .input := by
    intro e member
    rw [List.append_nil] at member
    rcases List.mem_append.mp member with delivery | last
    · obtain ⟨d,_,made⟩ := List.mem_filterMap.mp delivery
      cases d <;> cases made
      exact .inl ⟨_,_,rfl⟩
    · exact .inr (List.mem_singleton.mp last)
  refine ⟨fun e member => ?_,fun n => ⟨?_,fun size member => ?_⟩⟩
  · rcases late e member with ⟨b,p,rfl⟩ | rfl
    · trivial
    · trivial
  · refine List.sum_eq_zero fun len member => ?_
    obtain ⟨e,done,rfl⟩ := List.mem_map.mp member
    rcases late e done with ⟨b,p,rfl⟩ | rfl
    · rfl
    · rfl
  · rcases late _ member with ⟨b,p,made⟩ | made
    · cases made
    · cases made

theorem safeWhen (sound : ∀ pos, Reached r pos → FrameSound r pos) : Safe devAddr r := by
  intro alloc
  constructor
  · obtain ⟨fuel,ends⟩ := @Trace.loopEnds _ _ _ (turn alloc devAddr r) (0,0)
      (fun ⟨pos,k⟩ way => (turnSound (fun long => sound pos (wayReached way long)) k).1) (framesDescend 0 0)
    exact ⟨fuel,(Trace.finishEnds (Trace.emitEnds _ 0)).mpr ends⟩
  · intro fuel
    obtain ⟨each,k',roomy⟩ := @loopSound alloc devAddr r sound fuel
    have silent := @labelSilent r (Trace.loop (turn alloc devAddr r) fuel (0,0)).effects
    rw [and_left_comm,← soundBoth,qmiWwanRxFixup]
    rcases Trace.finishEither (Trace.loop (turn alloc devAddr r) fuel (0,0))
      (fun es => .emit (es.filterMap Effect.receive ++ [.free .input]) (.pure 0)) with same | same
    · rw [same]
      exact ⟨fun n size taken => (roomy.2 n).2 size taken,each⟩
    · rw [same]
      refine ⟨fun n size taken => ?_,List.forall_mem_append.mpr ⟨each,silent.1⟩⟩
      rw [appendedAppend]
      have room := (roomy.2 n).2 size ((List.mem_append.mp taken).resolve_right ((silent.2 n).2 size))
      exact Nat.le_trans (Nat.le_of_eq (congrArg _ (silent.2 n).1)) room

theorem soundWhen (safe : Safe devAddr r) (pos : Nat) (reached : Reached r pos) : FrameSound r pos := by
  obtain ⟨k,way⟩ := @grantedWay (fun _ _ => true) devAddr r pos (fun _ _ => rfl) reached.1
  obtain ⟨fuel,whole⟩ := Trace.turnDone way
  obtain ⟨lengths,_,reads⟩ := (safe fun _ _ => true).2 fuel
  have done : ∀ e ∈ (turn (fun _ _ => true) devAddr r (pos,k)).effects, Sound r.len e := fun e here =>
    soundBoth.mpr ⟨lengths,reads⟩ e (Trace.memFinish.mpr (.inl (whole e here)))
  have subtracted : .subtract (qhdr r pos).pktLen (qhdr r pos).padLen ∈ looked r pos := by simp [looked]
  have opens : .read (pos+hdrSize (qhdr r pos)) 1 ∈ opened r pos k := by simp [opened]
  rcases @turnCases (fun _ _ => true) devAddr r pos k with ⟨short,_⟩ | ⟨_,cut,same⟩ | ⟨_,_,command,same⟩ | ⟨_,_,_,refused,_⟩ |
    ⟨_,_,_,_,_,same⟩ | ⟨_,_,_,_,_,same⟩ | ⟨_,_,_,_,_,_,protocol,_,same⟩
  · exact absurd reached.2 short
  · rw [same] at done
    exact ⟨done _ (List.mem_append_left _ subtracted),fun fits => absurd fits cut⟩
  · rw [same] at done
    exact ⟨done _ (List.mem_append_left _ subtracted),fun _ data => absurd command data⟩
  · cases refused
  all_goals
    rw [same] at done
    have first := done _ (List.mem_append_right _ (List.mem_append_left _ opens))
    exact ⟨done _ (List.mem_append_left _ subtracted),fun _ _ => first⟩

end Safety

/- Whatever is received: safe exactly when each frame the loop comes to is. -/
theorem qmapSafe (devAddr : Bytes) (r : Rcvd) : Safe devAddr r ↔ ∀ pos, Reached r pos → FrameSound r pos :=
  ⟨soundWhen,safeWhen⟩

def overpaddedFrame : Rcvd := MbimDecoders.rcvd [1,0x81,0,0,0x45]
def emptyFrame : Rcvd := MbimDecoders.rcvd [0x40,0x81,0,0,0,0,0,0]

theorem framesUnsafe : ¬Safe [2,0x50,0xf4,0,0,0] overpaddedFrame ∧ ¬Safe [2,0x50,0xf4,0,0,0] emptyFrame := by
  constructor
  · intro safe
    obtain ⟨lengths,_⟩ := (safe fun _ _ => true).2 1
    have differs : .subtract 0 1 ∈ (qmiWwanRxFixup (fun _ _ => true) [2,0x50,0xf4,0,0,0] overpaddedFrame 1).effects := by decide
    exact absurd (lengths 0 1 differs) (by decide)
  · intro safe
    obtain ⟨_,_,reads⟩ := (safe fun _ _ => true).2 1
    have behind : .read 8 1 ∈ (qmiWwanRxFixup (fun _ _ => true) [2,0x50,0xf4,0,0,0] emptyFrame 1).effects := by decide
    exact absurd (reads 8 1 behind) (by decide)

theorem turnInner {alloc : Nat → Nat → Bool} {devAddr : Bytes} {r : Rcvd} (s : Nat × Nat) :
    Inner (turn alloc devAddr r s).effects := by
  obtain ⟨pos,k⟩ := s
  have none : Inner [] := fun _ member => absurd member List.not_mem_nil
  have looks : Inner (looked r pos) := by simp [Inner,looked,Effect.inner]
  have opens : Inner (opened r pos k) := by simp [Inner,opened,Effect.inner]
  have copies : Inner (copied r pos k) := by simp [Inner,copied,Effect.inner]
  have queues : ∀ protocol, Inner (queued devAddr r pos k protocol) := fun _ => by simp [Inner,queued,Effect.inner]
  rcases @turnCases alloc devAddr r pos k with ⟨_,same⟩ | ⟨_,_,same⟩ | ⟨_,_,_,same⟩ | ⟨_,_,_,_,same⟩ |
    ⟨_,_,_,_,_,same⟩ | ⟨_,_,_,_,_,same⟩ | ⟨_,_,_,_,_,_,protocol,_,same⟩
  all_goals rw [same]
  · exact none
  · exact innerAppend.mpr ⟨looks,none⟩
  · exact innerAppend.mpr ⟨looks,none⟩
  · exact innerAppend.mpr ⟨looks,none⟩
  · exact innerAppend.mpr ⟨looks,innerAppend.mpr ⟨opens,none⟩⟩
  · exact innerAppend.mpr ⟨looks,innerAppend.mpr ⟨opens,innerAppend.mpr ⟨copies,none⟩⟩⟩
  · exact innerAppend.mpr ⟨looks,innerAppend.mpr ⟨opens,innerAppend.mpr ⟨copies,innerAppend.mpr ⟨queues protocol,none⟩⟩⟩⟩

theorem loopInner {alloc : Nat → Nat → Bool} {devAddr : Bytes} {r : Rcvd} (fuel : Nat) :
    Inner (Trace.loop (turn alloc devAddr r) fuel (0,0)).effects := by
  intro e done
  obtain ⟨s,_,here⟩ := Trace.turnOf done
  exact turnInner s e here

/-! What the trace hands up is what the receiver does, as long as its copies keep to their buffers. -/
section Traced
variable {alloc : Nat → Bool} {devAddr data : Bytes}

theorem peekDrop (pos i : Nat) : Wire.peek (data.drop pos) i = (MbimDecoders.rcvd data).mem (pos+i) := by
  rw [Wire.peek,List.getD_eq_getElem?_getD,List.getElem?_drop]
  rfl

theorem frameRead {pos : Nat} (long : Long (MbimDecoders.rcvd data) pos) :
    qmapHdr (data.drop pos) = qhdr (MbimDecoders.rcvd data) pos := by
  have long : 4 < data.length-pos := long
  have width : Wire.readBe (Wire.field (data.drop pos) 2 2) =
      256 * ((MbimDecoders.rcvd data).mem (pos+2)).toNat+((MbimDecoders.rcvd data).mem (pos+3)).toNat := by
    rw [Wire.field,List.drop_drop,MbimDecoders.readBytes data (by omega)]
    show ((MbimDecoders.rcvd data).mem (pos+3)).toNat+256 * (((MbimDecoders.rcvd data).mem (pos+2)).toNat+256 * 0) = _
    omega
  rw [qmapHdr,qhdr,width,peekDrop,peekDrop]
  rfl

theorem rxTurn {pos : Nat} (long : Long (MbimDecoders.rcvd data) pos) (fits : Fits (MbimDecoders.rcvd data) pos) :
    rxLoop alloc devAddr (data.drop pos) =
      if (qhdr (MbimDecoders.rcvd data) pos).cdBit = 1 then
        rxLoop alloc devAddr (data.drop (behind (MbimDecoders.rcvd data) pos))
      else if !alloc (skbSize (qhdr (MbimDecoders.rcvd data) pos)) then []
      else match datagramProtocol ((MbimDecoders.rcvd data).mem (pos+hdrSize (qhdr (MbimDecoders.rcvd data) pos))) with
        | none => []
        | some protocol =>
          ⟨protocol,ethHeader devAddr protocol,if (qhdr (MbimDecoders.rcvd data) pos).muxId ≠ qmapDefaultMuxId then
              some (qhdr (MbimDecoders.rcvd data) pos).muxId else none,
            (data.drop (pos+hdrSize (qhdr (MbimDecoders.rcvd data) pos))).take (skbLen (qhdr (MbimDecoders.rcvd data) pos))⟩ ::
            rxLoop alloc devAddr (data.drop (behind (MbimDecoders.rcvd data) pos)) := by
  have size : (data.drop pos).length = data.length-pos := List.length_drop
  have enough : ¬(data.drop pos).length ≤ sizeofQmapHdr := size ▸ Nat.not_le.mpr long
  have whole : ¬data.length-pos < (qhdr (MbimDecoders.rcvd data) pos).pktLen+hdrSize (qhdr (MbimDecoders.rcvd data) pos) :=
    Nat.not_lt.mpr fits
  rw [rxLoop,dif_neg enough]
  simp only [frameRead long,size,if_neg whole,peekDrop,List.drop_drop]
  rfl

theorem rxCut {pos : Nat} (cut : ¬Long (MbimDecoders.rcvd data) pos ∨ ¬Fits (MbimDecoders.rcvd data) pos) :
    rxLoop alloc devAddr (data.drop pos) = [] := by
  have size : (data.drop pos).length = data.length-pos := List.length_drop
  by_cases long : Long (MbimDecoders.rcvd data) pos
  · have enough : ¬(data.drop pos).length ≤ sizeofQmapHdr := size ▸ Nat.not_le.mpr long
    have past : data.length-pos < (qhdr (MbimDecoders.rcvd data) pos).pktLen+hdrSize (qhdr (MbimDecoders.rcvd data) pos) :=
      Nat.not_le.mp (cut.resolve_left (not_not.mpr long))
    rw [rxLoop,dif_neg enough]
    simp only [frameRead long,size,if_pos past]
  · have short : (data.drop pos).length ≤ sizeofQmapHdr := size ▸ Nat.not_lt.mp long
    rw [rxLoop,dif_pos short]

theorem loopHands (inside : ∀ pos, ReflTransGen (Follows (MbimDecoders.rcvd data)) 0 pos → Long (MbimDecoders.rcvd data) pos →
      Fits (MbimDecoders.rcvd data) pos → CopyInside (MbimDecoders.rcvd data) pos) {pos : Nat}
    (way : ReflTransGen (Follows (MbimDecoders.rcvd data)) 0 pos) (k : Nat) :
    ∃ fuel, chainResult (Trace.loop (turn (fun _ => alloc) devAddr (MbimDecoders.rcvd data)) fuel (pos,k)) =
      some (rxLoop alloc devAddr (data.drop pos)) := by
  induction left : data.length-pos using Nat.strong_induction_on generalizing pos k with
  | _ n ih =>
    have further : ∀ m, Follows (MbimDecoders.rcvd data) pos (behind (MbimDecoders.rcvd data) pos) → ∃ fuel,
        chainResult (Trace.loop (turn (fun _ => alloc) devAddr (MbimDecoders.rcvd data)) fuel
          (behind (MbimDecoders.rcvd data) pos,m)) =
          some (rxLoop alloc devAddr (data.drop (behind (MbimDecoders.rcvd data) pos))) := by
      intro m follows
      have header := hdrSizePos (qhdr (MbimDecoders.rcvd data) pos)
      have long : sizeofQmapHdr < data.length-pos := follows.1
      exact ih _ (by unfold behind; omega) (way.tail follows) m rfl
    rcases @turnCases (fun _ => alloc) devAddr (MbimDecoders.rcvd data) pos k with ⟨short,same⟩ | ⟨long,cut,same⟩ |
      ⟨long,fits,command,same⟩ | ⟨long,fits,command,refused,same⟩ | ⟨long,fits,command,unknown,granted,same⟩ |
      ⟨long,fits,_,_,outside,_⟩ | ⟨long,fits,command,known,copy,granted,protocol,first,same⟩
    · refine ⟨1,?_⟩
      rw [rxCut (.inl short),Trace.loop,same]
      rfl
    · refine ⟨1,?_⟩
      rw [rxCut (.inr cut),Trace.loop,same]
      rfl
    · obtain ⟨fuel,rest⟩ := further k ⟨long,fits,.inl command,rfl⟩
      have command : (qhdr (MbimDecoders.rcvd data) pos).cdBit = 1 := command
      refine ⟨fuel+1,?_⟩
      rw [rxTurn long fits,if_pos command,← rest,Trace.loop,same]
      rfl
    · refine ⟨1,?_⟩
      have command : ¬(qhdr (MbimDecoders.rcvd data) pos).cdBit = 1 := command
      have refused : alloc (skbSize (qhdr (MbimDecoders.rcvd data) pos)) = false := refused
      rw [rxTurn long fits,if_neg command,refused,Trace.loop,same]
      rfl
    · refine ⟨1,?_⟩
      have command : ¬(qhdr (MbimDecoders.rcvd data) pos).cdBit = 1 := command
      have granted : alloc (skbSize (qhdr (MbimDecoders.rcvd data) pos)) = true := granted
      rw [rxTurn long fits,if_neg command,granted,Option.not_isSome_iff_eq_none.mp unknown,Trace.loop,same]
      rfl
    · exact absurd (inside pos way long fits) outside
    · obtain ⟨fuel,rest⟩ := further (k+1) ⟨long,fits,.inr ⟨known,copy⟩,rfl⟩
      have command : ¬(qhdr (MbimDecoders.rcvd data) pos).cdBit = 1 := command
      have granted : alloc (skbSize (qhdr (MbimDecoders.rcvd data) pos)) = true := granted
      refine ⟨fuel+1,?_⟩
      rw [rxTurn long fits,if_neg command,granted,first,MbimDecoders.readBytes data copy.2,Trace.loop,same]
      show chainResult (.emit (looked (MbimDecoders.rcvd data) pos ++ (opened (MbimDecoders.rcvd data) pos k ++
        (copied (MbimDecoders.rcvd data) pos k ++ (queued devAddr (MbimDecoders.rcvd data) pos k protocol ++ []))))
        (Trace.loop (turn (fun _ => alloc) devAddr (MbimDecoders.rcvd data)) fuel
          (behind (MbimDecoders.rcvd data) pos,k+1))) = _
      rw [chainResultEmit,rest]
      rfl

theorem qmapTraced (inside : ∀ pos, ReflTransGen (Follows (MbimDecoders.rcvd data)) 0 pos → Long (MbimDecoders.rcvd data) pos →
      Fits (MbimDecoders.rcvd data) pos → CopyInside (MbimDecoders.rcvd data) pos) :
    ∃ fuel, results (qmiWwanRxFixup (fun _ => alloc) devAddr (MbimDecoders.rcvd data) fuel) =
      some (rxLoop alloc devAddr data) := by
  obtain ⟨fuel,done⟩ := @loopHands alloc devAddr data inside 0 .refl 0
  refine ⟨fuel,?_⟩
  rw [qmiWwanRxFixup,finishResults (loopInner fuel) rfl]
  exact done

end Traced

end MhiHost.QmapTrace
