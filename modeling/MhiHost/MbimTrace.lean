import MhiHost.Decoding
import MhiHost.MbimDecoders
import MhiHost.Trace

/-! The two receivers of MBIM blocks once more, with every read and every socket buffer in the
order of the code. `alloc` answers for each call of `netdev_alloc_skb` on its own. -/
namespace MhiHost.MbimTrace
open Mbim
open MbimDecoders (Rcvd accepted)
open Wire (Bytes)
open Relation (ReflTransGen TransGen)

section Decoder
variable (link : Link) (alloc : Nat → Nat → Bool) (rxMax : Nat) (r : Rcvd)

def datagrams (tci : Nat) : Nat → Nat → Nat → Trace Effect Nat
  | 0,_,k => .pure k
  | n+1,dpe16,k =>
    let offset := r.u16 dpe16
    let skbLen := r.u16 (dpe16+2)
    let size := skbLen+link.allocExtra
    .emit [.read dpe16 2,.read (dpe16+2) 2] <|
      if offset = 0 ∨ skbLen = 0 then .pure k
      else if r.len < offset+skbLen ∨ rxMax < skbLen then .exit
      else if !alloc k size then .exit
      else .emit [.alloc k size,.read offset 1] <| match datagramProtocol (r.mem offset) with
        | none => .exit
        | some protocol =>
          .emit [.append k link.allocExtra,.read offset skbLen,.append k skbLen,
            .queue k (link.packet tci protocol (r.bytes offset skbLen))] <| datagrams tci n (dpe16+sizeofDpe16) (k+1)

def nframes (ndp16 : Nat) : Nat := (r.u16 (ndp16+4)-sizeofNdp16) / sizeofDpe16

def ndp (ndp16 k : Nat) : Trace Effect Nat :=
  if r.len < ndp16+sizeofNdp16 then .exit
  else .emit [.read (ndp16+4) 2] <|
    if r.u16 (ndp16+4) < 0x10 then .exit
    else if r.len < sizeofNdp16+nframes r ndp16 * sizeofDpe16 then .exit
    else .emit [.read ndp16 4] <| match MbimDecoders.CdcMbim.tci r ndp16 with
      | none => .exit
      | some tci => .emit [.read (ndp16+3) 1] <|
        if !link.accepts tci then .exit
        else datagrams link alloc rxMax r tci (nframes r ndp16) (ndp16+sizeofNdp16) k

/- One turn of `while (ndpoffset > 0)`. -/
def ndpTurn : Nat × Nat → Trace Effect ((Nat × Nat) ⊕ Nat)
  | (ndpoffset,k) =>
    if ndpoffset = 0 then .pure (.inr k)
    else (ndp link alloc rxMax r ndpoffset k).bind fun k =>
      .emit [.read (ndpoffset+6) 2] (.pure (.inl (r.u16 (ndpoffset+6),k)))

def nth16 (fuel : Nat) : Trace Effect Nat :=
  .emit [.read 0 4] <|
    if r.u32 0 ≠ usbCdcNcmNth16Sign then .exit
    else .emit [.read 8 2] <|
      if rxMax < r.u16 8 then .exit
      else .emit [.read 6 2,.read 10 2] <| Trace.loop (ndpTurn link alloc rxMax r) fuel (r.native16 10,0)

end Decoder

namespace MhiNetMbim

def cdcMbimRxFixup (alloc : Nat → Nat → Bool) (rxMax : Nat) (r : Rcvd) (fuel : Nat) : Trace Effect Unit :=
  (if r.len < sizeofNth16+sizeofNdp16 then .exit else nth16 Mbim.MhiNetMbim.link alloc rxMax r fuel).finish fun es =>
    .emit (es.filterMap Effect.receive) (.pure ())

def mhiNetDlCallback (transactionStatus : Bool) (alloc : Nat → Nat → Bool) (rxMax : Nat) (r : Rcvd) (fuel : Nat) :
    Trace Effect Unit :=
  if transactionStatus then .emit [.free .input] (.pure ())
  else (cdcMbimRxFixup alloc rxMax r fuel).bind fun _ => .emit [.free .input] (.pure ())

end MhiNetMbim

/- `net/mhi/cdc_mbim.c`; a frame that is too short is returned on, not released. -/
namespace CdcMbim

def cdcMbimRxFixup (alloc : Nat → Nat → Bool) (devAddr : Bytes) (rxMax : Nat) (r : Rcvd) (fuel : Nat) : Trace Effect Nat :=
  if r.len < sizeofNth16+sizeofNdp16 then .pure 1
  else (nth16 (Mbim.CdcMbim.link devAddr) alloc rxMax r fuel).finish fun es =>
    .emit (es.filterMap Effect.receive ++ [.free .input]) (.pure 0)

end CdcMbim

/-! What a block is to the receivers, read off the block alone. -/
section Block
variable (link : Link) (rxMax : Nat) (r : Rcvd)

def Null (dpe16 : Nat) : Prop := r.u16 dpe16 = 0 ∨ r.u16 (dpe16+2) = 0

def Sound (dpe16 : Nat) : Prop := ¬Null r dpe16 ∧ r.u16 dpe16+r.u16 (dpe16+2) ≤ r.len ∧ r.u16 (dpe16+2) ≤ rxMax

def Known (dpe16 : Nat) : Prop := (datagramProtocol (r.mem (r.u16 dpe16))).isSome = true

def Listed (n dpe16 x : Nat) : Prop := x < n ∧ ∀ y < x, Sound rxMax r (dpe16+y * sizeofDpe16) ∧ Known r (dpe16+y * sizeofDpe16)

def Header (o : Nat) : Prop :=
  o+sizeofNdp16 ≤ r.len ∧ 0x10 ≤ r.u16 (o+4) ∧ sizeofNdp16+nframes r o * sizeofDpe16 ≤ r.len ∧
    ∃ tci, MbimDecoders.CdcMbim.tci r o = some tci ∧ link.accepts tci = true

def entry (o x : Nat) : Nat := o+sizeofNdp16+x * sizeofDpe16
def InTable (o x : Nat) : Prop := Listed rxMax r (nframes r o) (o+sizeofNdp16) x

def Passed (o : Nat) : Prop := Header link r o ∧
  ∀ x, InTable rxMax r o x → Null r (entry o x) ∨ Sound rxMax r (entry o x) ∧ Known r (entry o x)

def Follows (o p : Nat) : Prop := Passed link rxMax r o ∧ p = r.u16 (o+6) ∧ p ≠ 0

def Reached (o : Nat) : Prop :=
  accepted rxMax r = true ∧ r.native16 10 ≠ 0 ∧ ReflTransGen (Follows link rxMax r) (r.native16 10) o

end Block

section Tables
variable {link : Link} {alloc : Nat → Nat → Bool} {rxMax : Nat} {r : Rcvd} {tci : Nat}

theorem entryShift (dpe16 x : Nat) : dpe16+sizeofDpe16+x * sizeofDpe16 = dpe16+(x+1) * sizeofDpe16 := by
  rw [Nat.succ_mul]
  omega

theorem listedLater {n dpe16 x : Nat} (here : Sound rxMax r dpe16 ∧ Known r dpe16)
    (later : Listed rxMax r n (dpe16+sizeofDpe16) x) :
    Listed rxMax r (n+1) dpe16 (x+1) := by
  refine ⟨Nat.succ_lt_succ later.1,fun y before => ?_⟩
  cases y with
  | zero =>
    rw [Nat.zero_mul]
    exact here
  | succ y =>
    rw [← entryShift]
    exact later.2 y (Nat.lt_of_succ_lt_succ before)

theorem listedCons {n dpe16 x : Nat} (listed : Listed rxMax r (n+1) dpe16 (x+1)) :
    (Sound rxMax r dpe16 ∧ Known r dpe16) ∧ Listed rxMax r n (dpe16+sizeofDpe16) x := by
  have first := listed.2 0 (Nat.succ_pos x)
  rw [Nat.zero_mul] at first
  refine ⟨first,Nat.lt_of_succ_lt_succ listed.1,fun y before => ?_⟩
  rw [entryShift]
  exact listed.2 (y+1) (Nat.succ_lt_succ before)

theorem listedFirst (n dpe16 : Nat) : Listed rxMax r (n+1) dpe16 0 :=
  ⟨Nat.succ_pos n,fun _ before => absurd before (Nat.not_lt_zero _)⟩

def looked (dpe16 : Nat) : List Effect := [.read dpe16 2,.read (dpe16+2) 2]
def opened (link : Link) (r : Rcvd) (dpe16 k : Nat) : List Effect :=
  [.alloc k (r.u16 (dpe16+2)+link.allocExtra),.read (r.u16 dpe16) 1]
def filled (link : Link) (r : Rcvd) (tci dpe16 k protocol : Nat) : List Effect :=
  [.append k link.allocExtra,.read (r.u16 dpe16) (r.u16 (dpe16+2)),.append k (r.u16 (dpe16+2)),
    .queue k (link.packet tci protocol (r.bytes (r.u16 dpe16) (r.u16 (dpe16+2))))]

theorem entryCases (n dpe16 k : Nat) :
    (Null r dpe16 ∧ datagrams link alloc rxMax r tci (n+1) dpe16 k = .emit (looked dpe16) (.pure k)) ∨
    (¬Null r dpe16 ∧ ¬Sound rxMax r dpe16 ∧ datagrams link alloc rxMax r tci (n+1) dpe16 k = .emit (looked dpe16) .exit) ∨
    (Sound rxMax r dpe16 ∧ alloc k (r.u16 (dpe16+2)+link.allocExtra) = false ∧
      datagrams link alloc rxMax r tci (n+1) dpe16 k = .emit (looked dpe16) .exit) ∨
    (Sound rxMax r dpe16 ∧ ¬Known r dpe16 ∧ alloc k (r.u16 (dpe16+2)+link.allocExtra) = true ∧
      datagrams link alloc rxMax r tci (n+1) dpe16 k = .emit (looked dpe16) (.emit (opened link r dpe16 k) .exit)) ∨
    (Sound rxMax r dpe16 ∧ Known r dpe16 ∧ alloc k (r.u16 (dpe16+2)+link.allocExtra) = true ∧ ∃ protocol,
      datagramProtocol (r.mem (r.u16 dpe16)) = some protocol ∧
      datagrams link alloc rxMax r tci (n+1) dpe16 k = .emit (looked dpe16) (.emit (opened link r dpe16 k)
        (.emit (filled link r tci dpe16 k protocol) (datagrams link alloc rxMax r tci n (dpe16+sizeofDpe16) (k+1))))) := by
  rw [datagrams]
  by_cases null : r.u16 dpe16 = 0 ∨ r.u16 (dpe16+2) = 0
  · rw [if_pos null]
    exact .inl ⟨null,rfl⟩
  rw [if_neg null]
  by_cases outside : r.len < r.u16 dpe16+r.u16 (dpe16+2) ∨ rxMax < r.u16 (dpe16+2)
  · rw [if_pos outside]
    have unsound : ¬Sound rxMax r dpe16 := by
      rintro ⟨_,inside,small⟩
      omega
    exact .inr (.inl ⟨null,unsound,rfl⟩)
  rw [if_neg outside]
  have sound : Sound rxMax r dpe16 := ⟨null,Nat.not_lt.mp (not_or.mp outside).1,Nat.not_lt.mp (not_or.mp outside).2⟩
  cases granted : alloc k (r.u16 (dpe16+2)+link.allocExtra) with
  | false => exact .inr (.inr (.inl ⟨sound,rfl,rfl⟩))
  | true =>
    cases first : datagramProtocol (r.mem (r.u16 dpe16)) with
    | none =>
      have unknown : ¬Known r dpe16 := by
        rw [Known,first]
        exact Bool.false_ne_true
      exact .inr (.inr (.inr (.inl ⟨sound,unknown,rfl,rfl⟩)))
    | some protocol =>
      have known : Known r dpe16 := by rw [Known,first]; rfl
      exact .inr (.inr (.inr (.inr ⟨sound,known,rfl,protocol,rfl,rfl⟩)))

theorem lookedInside {dpe16 len : Nat} (inside : dpe16+sizeofDpe16 ≤ len) : ReadsInside len (looked dpe16) := by
  intro offset n done
  rcases List.mem_pair.mp done with same | same
  · cases same
    exact Nat.le_trans (by unfold sizeofDpe16; omega) inside
  · cases same
    exact inside

theorem openedInside {dpe16 : Nat} (k : Nat) (sound : Sound rxMax r dpe16) : ReadsInside r.len (opened link r dpe16 k) := by
  obtain ⟨used,inside,_⟩ := sound
  have filled : r.u16 (dpe16+2) ≠ 0 := fun zero => used (.inr zero)
  intro offset n done
  rcases List.mem_pair.mp done with same | same
  · cases same
  · cases same
    omega

theorem filledInside {dpe16 : Nat} (k protocol : Nat) (sound : Sound rxMax r dpe16) :
    ReadsInside r.len (filled link r tci dpe16 k protocol) := by
  intro offset n done
  simp only [filled,List.mem_cons,List.not_mem_nil,or_false,reduceCtorEq,false_or,Effect.read.injEq] at done
  rw [done.1,done.2]
  exact sound.2.1

theorem tidyLooked (dpe16 k : Nat) : Tidy k (looked dpe16 ++ []) k := tidyNil k

theorem tidyEntry (link : Link) (r : Rcvd) (tci dpe16 k protocol : Nat) :
    Tidy k (looked dpe16 ++ opened link r dpe16 k ++ filled link r tci dpe16 k protocol) (k+1) := by
  refine ⟨Nat.le_succ k,fun n => ?_⟩
  have one : (k ≤ n ∧ n < k+1) = (k = n) := by
    apply propext
    omega
  simp only [one,looked,opened,filled]
  by_cases same : k = n
  · simp [Effect.allocs,Effect.queues,same]
  · simp [Effect.allocs,Effect.queues,same]

theorem tableReads {n dpe16 : Nat} (inside : ∀ x, Listed rxMax r n dpe16 x → dpe16+x * sizeofDpe16+sizeofDpe16 ≤ r.len)
    (k : Nat) : ReadsInside r.len (datagrams link alloc rxMax r tci n dpe16 k).effects := by
  induction n generalizing dpe16 k with
  | zero => exact readsNone _
  | succ n ih =>
    have first := inside 0 (listedFirst n dpe16)
    rw [Nat.zero_mul] at first
    have looks := lookedInside first
    rcases @entryCases link alloc rxMax r tci n dpe16 k with ⟨_,same⟩ | ⟨_,_,same⟩ | ⟨_,_,same⟩ | ⟨sound,_,_,same⟩ |
      ⟨sound,known,_,protocol,_,same⟩
    · rw [same]
      exact readsAppend.mpr ⟨looks,readsNone _⟩
    · rw [same]
      exact readsAppend.mpr ⟨looks,readsNone _⟩
    · rw [same]
      exact readsAppend.mpr ⟨looks,readsNone _⟩
    · rw [same]
      exact readsAppend.mpr ⟨looks,readsAppend.mpr ⟨openedInside k sound,readsNone _⟩⟩
    · rw [same]
      refine readsAppend.mpr ⟨looks,readsAppend.mpr ⟨openedInside k sound,readsAppend.mpr ⟨filledInside k protocol sound,?_⟩⟩⟩
      refine ih (fun x later => ?_) (k+1)
      have next := inside (x+1) (listedLater ⟨sound,known⟩ later)
      rw [Nat.succ_mul] at next
      omega

theorem tableEnds (n dpe16 k : Nat) : (datagrams link alloc rxMax r tci n dpe16 k).Ends := by
  induction n generalizing dpe16 k with
  | zero => exact nofun
  | succ n ih =>
    rcases @entryCases link alloc rxMax r tci n dpe16 k with ⟨_,same⟩ | ⟨_,_,same⟩ | ⟨_,_,same⟩ | ⟨_,_,_,same⟩ |
      ⟨_,_,_,_,_,same⟩
    · rw [same]; exact nofun
    · rw [same]; exact nofun
    · rw [same]; exact nofun
    · rw [same]; exact nofun
    · rw [same]; exact ih _ _

def TablePasses (rxMax : Nat) (r : Rcvd) (n dpe16 : Nat) : Prop := ∀ x, Listed rxMax r n dpe16 x →
  Null r (dpe16+x * sizeofDpe16) ∨ Sound rxMax r (dpe16+x * sizeofDpe16) ∧ Known r (dpe16+x * sizeofDpe16)

theorem passesNull {n dpe16 : Nat} (null : Null r dpe16) : TablePasses rxMax r n dpe16 := by
  intro x listed
  cases x with
  | zero =>
    rw [Nat.zero_mul]
    exact .inl null
  | succ x =>
    have first := (listed.2 0 (Nat.succ_pos x)).1.1
    rw [Nat.zero_mul] at first
    exact absurd null first

theorem passesLater {n dpe16 : Nat} (here : Sound rxMax r dpe16 ∧ Known r dpe16) :
    TablePasses rxMax r (n+1) dpe16 ↔ TablePasses rxMax r n (dpe16+sizeofDpe16) := by
  refine ⟨fun all x later => ?_,fun all x listed => ?_⟩
  · rw [entryShift]
    exact all (x+1) (listedLater here later)
  · cases x with
    | zero =>
      rw [Nat.zero_mul]
      exact .inr here
    | succ x =>
      rw [← entryShift]
      exact all x (listedCons listed).2

theorem passesFirst {n dpe16 : Nat} (all : TablePasses rxMax r (n+1) dpe16) :
    Null r dpe16 ∨ Sound rxMax r dpe16 ∧ Known r dpe16 := by
  have first := all 0 (listedFirst n dpe16)
  rw [Nat.zero_mul] at first
  exact first

theorem tableWent {n dpe16 k k' : Nat} (out : (datagrams link alloc rxMax r tci n dpe16 k).outcome = .went k') :
    TablePasses rxMax r n dpe16 := by
  induction n generalizing dpe16 k with
  | zero => exact fun x listed => absurd listed.1 (Nat.not_lt_zero x)
  | succ n ih =>
    rcases @entryCases link alloc rxMax r tci n dpe16 k with ⟨null,_⟩ | ⟨_,_,same⟩ | ⟨_,_,same⟩ | ⟨_,_,_,same⟩ |
      ⟨sound,known,_,_,_,same⟩
    · exact passesNull null
    · rw [same] at out; cases out
    · rw [same] at out; cases out
    · rw [same] at out; cases out
    · rw [same] at out
      exact (passesLater ⟨sound,known⟩).mpr (ih out)

theorem tableGoes {n dpe16 : Nat} (granted : ∀ m size, alloc m size = true) (all : TablePasses rxMax r n dpe16) (k : Nat) :
    ∃ k', (datagrams link alloc rxMax r tci n dpe16 k).outcome = .went k' := by
  induction n generalizing dpe16 k with
  | zero => exact ⟨k,rfl⟩
  | succ n ih =>
    rcases @entryCases link alloc rxMax r tci n dpe16 k with ⟨_,same⟩ | ⟨used,unsound,_⟩ | ⟨_,refused,_⟩ | ⟨sound,unknown,_,_⟩ |
      ⟨sound,known,_,_,_,same⟩
    · rw [same]
      exact ⟨k,rfl⟩
    · rcases passesFirst all with null | ⟨sound,_⟩
      · exact absurd null used
      · exact absurd sound unsound
    · cases (granted _ _).symm.trans refused
    · rcases passesFirst all with null | ⟨_,known⟩
      · exact absurd null sound.1
      · exact absurd known unknown
    · rw [same]
      exact ih ((passesLater ⟨sound,known⟩).mp all) (k+1)

theorem tableTo {n dpe16 x : Nat} (granted : ∀ m size, alloc m size = true) (listed : Listed rxMax r n dpe16 x) (k : Nat) :
    ∃ m pre k', Tidy k pre k' ∧ datagrams link alloc rxMax r tci n dpe16 k =
      .emit pre (datagrams link alloc rxMax r tci (m+1) (dpe16+x * sizeofDpe16) k') := by
  induction x generalizing n dpe16 k with
  | zero =>
    obtain ⟨m,rfl⟩ := Nat.exists_eq_succ_of_ne_zero (Nat.ne_of_gt listed.1)
    refine ⟨m,[],k,tidyNil k,?_⟩
    rw [Nat.zero_mul]
    rfl
  | succ x ih =>
    obtain ⟨n,rfl⟩ := Nat.exists_eq_succ_of_ne_zero (Nat.ne_of_gt (Nat.zero_lt_of_lt listed.1))
    obtain ⟨here,later⟩ := listedCons listed
    rcases @entryCases link alloc rxMax r tci n dpe16 k with ⟨null,_⟩ | ⟨_,unsound,_⟩ | ⟨_,refused,_⟩ | ⟨_,unknown,_⟩ |
      ⟨_,_,_,protocol,_,same⟩
    · exact absurd null here.1.1
    · exact absurd here.1 unsound
    · cases (granted _ _).symm.trans refused
    · exact absurd here.2 unknown
    · obtain ⟨m,pre,k',tidy,rest⟩ := ih later (k+1)
      refine ⟨m,_,k',(tidyEntry link r tci dpe16 k protocol).append tidy,?_⟩
      rw [same,rest,entryShift,Trace.emitEmit,Trace.emitEmit,Trace.emitEmit]

theorem tableTidy {n dpe16 : Nat}
    (known : ∀ x, Listed rxMax r n dpe16 x → Sound rxMax r (dpe16+x * sizeofDpe16) → Known r (dpe16+x * sizeofDpe16)) (k : Nat) :
    ∃ k', Tidy k (datagrams link alloc rxMax r tci n dpe16 k).effects k' ∧
      ∀ w, (datagrams link alloc rxMax r tci n dpe16 k).outcome = .went w → w = k' := by
  induction n generalizing dpe16 k with
  | zero =>
    refine ⟨k,tidyNil k,fun w out => ?_⟩
    cases out
    rfl
  | succ n ih =>
    have here := known 0 (listedFirst n dpe16)
    rw [Nat.zero_mul] at here
    rcases @entryCases link alloc rxMax r tci n dpe16 k with ⟨_,same⟩ | ⟨_,_,same⟩ | ⟨_,_,same⟩ | ⟨sound,unknown,_,_⟩ |
      ⟨sound,known',_,protocol,_,same⟩
    · rw [same]
      refine ⟨k,tidyLooked dpe16 k,fun w out => ?_⟩
      cases out
      rfl
    · rw [same]
      exact ⟨k,tidyLooked dpe16 k,nofun⟩
    · rw [same]
      exact ⟨k,tidyLooked dpe16 k,nofun⟩
    · exact absurd (here sound) unknown
    · have later : ∀ x, Listed rxMax r n (dpe16+sizeofDpe16) x → Sound rxMax r (dpe16+sizeofDpe16+x * sizeofDpe16) →
          Known r (dpe16+sizeofDpe16+x * sizeofDpe16) := by
        intro x listed
        rw [entryShift]
        exact known (x+1) (listedLater ⟨sound,known'⟩ listed)
      obtain ⟨k',tidy,last⟩ := ih later (k+1)
      rw [same,Trace.emitEmit,Trace.emitEmit]
      exact ⟨k',(tidyEntry link r tci dpe16 k protocol).append tidy,last⟩

theorem tableInner (n dpe16 k : Nat) : Inner (datagrams link alloc rxMax r tci n dpe16 k).effects := by
  have none : Inner [] := fun _ member => absurd member List.not_mem_nil
  have looks : ∀ dpe16, Inner (looked dpe16) := fun _ => by simp [Inner,looked,Effect.inner]
  have opens : ∀ dpe16 k, Inner (opened link r dpe16 k) := fun _ _ => by simp [Inner,opened,Effect.inner]
  have fills : ∀ dpe16 k protocol, Inner (filled link r tci dpe16 k protocol) := fun _ _ _ => by simp [Inner,filled,Effect.inner]
  induction n generalizing dpe16 k with
  | zero => exact none
  | succ n ih =>
    rcases @entryCases link alloc rxMax r tci n dpe16 k with ⟨_,same⟩ | ⟨_,_,same⟩ | ⟨_,_,same⟩ | ⟨_,_,_,same⟩ |
      ⟨_,_,_,protocol,_,same⟩
    all_goals rw [same]
    · exact innerAppend.mpr ⟨looks dpe16,none⟩
    · exact innerAppend.mpr ⟨looks dpe16,none⟩
    · exact innerAppend.mpr ⟨looks dpe16,none⟩
    · exact innerAppend.mpr ⟨looks dpe16,innerAppend.mpr ⟨opens dpe16 k,none⟩⟩
    · exact innerAppend.mpr ⟨looks dpe16,innerAppend.mpr ⟨opens dpe16 k,innerAppend.mpr ⟨fills dpe16 k protocol,ih _ _⟩⟩⟩

end Tables

/-! One NDP. -/
section Ndps
variable {link : Link} {alloc : Nat → Nat → Bool} {rxMax : Nat} {r : Rcvd}

def headerReads (o : Nat) : List Effect := [.read (o+4) 2,.read o 4,.read (o+3) 1]

theorem ndpCases (o k : Nat) :
    (¬Header link r o ∧ ∃ es, ndp link alloc rxMax r o k = ⟨es,.left⟩ ∧
      ∀ e ∈ es, o+sizeofNdp16 ≤ r.len ∧ e ∈ headerReads o) ∨
    (Header link r o ∧ ∃ tci, ndp link alloc rxMax r o k =
      .emit (headerReads o) (datagrams link alloc rxMax r tci (nframes r o) (o+sizeofNdp16) k)) := by
  rw [ndp]
  by_cases outside : r.len < o+sizeofNdp16
  · rw [if_pos outside]
    refine .inl ⟨fun header => ?_,[],rfl,fun _ none => absurd none List.not_mem_nil⟩
    exact Nat.not_le.mpr outside header.1
  rw [if_neg outside]
  have inside := Nat.not_lt.mp outside
  by_cases short : r.u16 (o+4) < 0x10
  · rw [if_pos short]
    refine .inl ⟨fun header => Nat.not_le.mpr short header.2.1,_,rfl,fun e now => ⟨inside,?_⟩⟩
    cases List.mem_singleton.mp now
    exact List.mem_cons_self
  rw [if_neg short]
  by_cases many : r.len < sizeofNdp16+nframes r o * sizeofDpe16
  · rw [if_pos many]
    refine .inl ⟨fun header => Nat.not_le.mpr many header.2.2.1,_,rfl,fun e now => ⟨inside,?_⟩⟩
    cases List.mem_singleton.mp now
    exact List.mem_cons_self
  rw [if_neg many]
  cases session : MbimDecoders.CdcMbim.tci r o with
  | none =>
    have shorter : headerReads o = [.read (o+4) 2,.read o 4] ++ [.read (o+3) 1] := rfl
    refine .inl ⟨?_,_,rfl,fun e now => ⟨inside,shorter ▸ List.mem_append_left _ now⟩⟩
    rintro ⟨_,_,_,tci,found,_⟩
    cases session.symm.trans found
  | some tci =>
    cases takes : link.accepts tci with
    | false =>
      refine .inl ⟨?_,headerReads o,?_,fun e now => ⟨inside,now⟩⟩
      · rintro ⟨_,_,_,other,found,taken⟩
        cases session.symm.trans found
        cases takes.symm.trans taken
      · simp only [takes]
        rfl
    | true =>
      refine .inr ⟨⟨inside,Nat.not_lt.mp short,Nat.not_lt.mp many,tci,session,takes⟩,tci,?_⟩
      simp only [takes]
      rfl

theorem headerInside {o : Nat} (inside : o+sizeofNdp16 ≤ r.len) {e : Effect} (now : e ∈ headerReads o) :
    ∃ offset n, e = .read offset n ∧ offset+n ≤ r.len := by
  have whole : o+8 ≤ r.len := inside
  simp only [headerReads,List.mem_cons,List.not_mem_nil,or_false] at now
  rcases now with rfl | rfl | rfl
  · exact ⟨_,_,rfl,by omega⟩
  · exact ⟨_,_,rfl,by omega⟩
  · exact ⟨_,_,rfl,by omega⟩

theorem ndpWent {o k k' : Nat} (out : (ndp link alloc rxMax r o k).outcome = .went k') : Passed link rxMax r o := by
  rcases @ndpCases link alloc rxMax r o k with ⟨_,es,same,_⟩ | ⟨header,tci,same⟩
  · rw [same] at out
    cases out
  · rw [same] at out
    exact ⟨header,tableWent out⟩

theorem ndpGoes {o : Nat} (granted : ∀ m size, alloc m size = true) (passed : Passed link rxMax r o) (k : Nat) :
    ∃ k', (ndp link alloc rxMax r o k).outcome = .went k' := by
  rcases @ndpCases link alloc rxMax r o k with ⟨other,_⟩ | ⟨_,tci,same⟩
  · exact absurd passed.1 other
  · rw [same]
    exact tableGoes granted passed.2 k

theorem ndpEnds (o k : Nat) : (ndp link alloc rxMax r o k).Ends := by
  rcases @ndpCases link alloc rxMax r o k with ⟨_,es,same,_⟩ | ⟨_,tci,same⟩
  · rw [same]
    exact nofun
  · rw [same]
    exact tableEnds _ _ _

/-! The chain. -/
theorem turnUsed {o : Nat} (used : o ≠ 0) (k : Nat) : ndpTurn link alloc rxMax r (o,k) =
    (ndp link alloc rxMax r o k).bind fun k => .emit [.read (o+6) 2] (.pure (.inl (r.u16 (o+6),k))) := by
  rw [ndpTurn,if_neg used]

theorem turnZero (k : Nat) : ndpTurn link alloc rxMax r (0,k) = .pure (.inr k) := by
  rw [ndpTurn,if_pos rfl]

theorem turnEnds (at_ : Nat × Nat) : (ndpTurn link alloc rxMax r at_).Ends := by
  obtain ⟨o,k⟩ := at_
  by_cases used : o = 0
  · rw [used,turnZero]
    exact nofun
  · rw [turnUsed used]
    exact Trace.bindEnds.mpr ⟨ndpEnds o k,fun _ _ => nofun⟩

theorem turnGoes {o k p k' : Nat} (goes : Trace.Goes (ndpTurn link alloc rxMax r) (o,k) (p,k')) :
    o ≠ 0 ∧ (ndp link alloc rxMax r o k).outcome = .went k' ∧ Passed link rxMax r o ∧ p = r.u16 (o+6) := by
  by_cases used : o = 0
  · rw [Trace.Goes,used,turnZero] at goes
    cases goes
  · rw [Trace.Goes,turnUsed used] at goes
    obtain ⟨m,out,last⟩ := Trace.bindWent.mp goes
    cases last
    exact ⟨used,out,ndpWent out,rfl⟩

theorem grantedGoes {o : Nat} (granted : ∀ m size, alloc m size = true) (used : o ≠ 0) (passed : Passed link rxMax r o)
    (k : Nat) :
    ∃ k', Trace.Goes (ndpTurn link alloc rxMax r) (o,k) (r.u16 (o+6),k') := by
  obtain ⟨k',out⟩ := ndpGoes granted passed k
  refine ⟨k',?_⟩
  rw [Trace.Goes,turnUsed used]
  exact Trace.bindWent.mpr ⟨k',out,rfl⟩

theorem chainOf {o k : Nat} {last : Nat × Nat} (way : ReflTransGen (Trace.Goes (ndpTurn link alloc rxMax r)) (o,k) last)
    (used : last.1 ≠ 0) : o ≠ 0 ∧ ReflTransGen (Follows link rxMax r) o last.1 := by
  induction way with
  | refl => exact ⟨used,.refl⟩
  | tail _ goes ih =>
    obtain ⟨from_,_,passed,next⟩ := turnGoes goes
    obtain ⟨first,chain⟩ := ih from_
    exact ⟨first,chain.tail ⟨passed,next,used⟩⟩

theorem grantedChain {o p : Nat} (granted : ∀ m size, alloc m size = true) (used : o ≠ 0)
    (chain : ReflTransGen (Follows link rxMax r) o p) (k : Nat) :
    p ≠ 0 ∧ ∃ k', ReflTransGen (Trace.Goes (ndpTurn link alloc rxMax r)) (o,k) (p,k') := by
  induction chain with
  | refl => exact ⟨used,k,.refl⟩
  | tail _ follows ih =>
    obtain ⟨from_,m,way⟩ := ih
    obtain ⟨passed,rfl,later⟩ := follows
    obtain ⟨k',goes⟩ := grantedGoes granted from_ passed m
    exact ⟨later,k',way.tail goes⟩

end Ndps

/-! The whole block. -/
section Whole
variable {link : Link} {alloc : Nat → Nat → Bool} {rxMax : Nat} {r : Rcvd}

def nthReads : List Effect := [.read 0 4,.read 8 2,.read 6 2,.read 10 2]

theorem nthInside {len : Nat} (long : sizeofNth16+sizeofNdp16 ≤ len) {e : Effect} (now : e ∈ nthReads) :
    ∃ offset n, e = .read offset n ∧ offset+n ≤ len := by
  have whole : 20 ≤ len := long
  simp only [nthReads,List.mem_cons,List.not_mem_nil,or_false] at now
  rcases now with rfl | rfl | rfl | rfl
  · exact ⟨_,_,rfl,by omega⟩
  · exact ⟨_,_,rfl,by omega⟩
  · exact ⟨_,_,rfl,by omega⟩
  · exact ⟨_,_,rfl,by omega⟩

theorem nthCases (long : sizeofNth16+sizeofNdp16 ≤ r.len) :
    (accepted rxMax r = false ∧ ∃ es, (∀ e ∈ es, e ∈ nthReads) ∧ ∀ fuel, nth16 link alloc rxMax r fuel = ⟨es,.left⟩) ∨
    (accepted rxMax r = true ∧ ∀ fuel, nth16 link alloc rxMax r fuel =
      .emit nthReads (Trace.loop (ndpTurn link alloc rxMax r) fuel (r.native16 10,0))) := by
  have first : ∀ e, e = .read 0 4 ∨ e = .read 8 2 → e ∈ nthReads := by
    rintro e (rfl | rfl)
    · exact List.mem_cons_self
    · exact List.mem_cons_of_mem _ List.mem_cons_self
  by_cases unsigned : r.u32 0 ≠ usbCdcNcmNth16Sign
  · refine .inl ⟨by simp [accepted,unsigned],[.read 0 4],fun e now => first e (.inl (List.mem_singleton.mp now)),fun fuel => ?_⟩
    rw [nth16,if_pos unsigned]
    rfl
  by_cases big : rxMax < r.u16 8
  · refine .inl ⟨by simp [accepted,big],[.read 0 4,.read 8 2],fun e now => first e (List.mem_pair.mp now),fun fuel => ?_⟩
    rw [nth16,if_neg unsigned,if_pos big]
    rfl
  · refine .inr ⟨?_,fun fuel => ?_⟩
    · simp [accepted,long,not_not.mp unsigned,Nat.not_lt.mp big]
    · rw [nth16,if_neg unsigned,if_neg big]
      rfl

theorem reachedBy {o k : Nat} (header : accepted rxMax r = true) (used : o ≠ 0)
    (way : ReflTransGen (Trace.Goes (ndpTurn link alloc rxMax r)) (r.native16 10,0) (o,k)) : Reached link rxMax r o := by
  obtain ⟨first,chain⟩ := chainOf way used
  exact ⟨header,first,chain⟩

theorem reachedWay {o : Nat} (granted : ∀ m size, alloc m size = true) (reached : Reached link rxMax r o) :
    o ≠ 0 ∧ ∃ k, ReflTransGen (Trace.Goes (ndpTurn link alloc rxMax r)) (r.native16 10,0) (o,k) :=
  grantedChain granted reached.2.1 reached.2.2 0

theorem reachedLong {o : Nat} (reached : Reached link rxMax r o) : sizeofNth16+sizeofNdp16 ≤ r.len := by
  have header := reached.1
  simp only [accepted,Bool.and_eq_true,decide_eq_true_eq] at header
  exact header.1.1

end Whole

section Reads
variable {link : Link} {rxMax : Nat} {r : Rcvd}

def TablesInside (link : Link) (rxMax : Nat) (r : Rcvd) : Prop := ∀ o, Reached link rxMax r o → Header link r o →
  ∀ x, InTable rxMax r o x → entry o x+sizeofDpe16 ≤ r.len

theorem ndpReads {alloc : Nat → Nat → Bool} {o : Nat}
    (inside : Header link r o → ∀ x, InTable rxMax r o x → entry o x+sizeofDpe16 ≤ r.len) (k : Nat) :
    ReadsInside r.len (ndp link alloc rxMax r o k).effects := by
  rcases @ndpCases link alloc rxMax r o k with ⟨_,es,same,header⟩ | ⟨header,tci,same⟩
  · intro offset n now
    rw [same] at now
    obtain ⟨received,member⟩ := header _ now
    obtain ⟨_,_,same,within⟩ := headerInside received member
    cases same
    exact within
  · rw [same]
    refine readsAppend.mpr ⟨fun offset n now => ?_,tableReads (inside header) k⟩
    obtain ⟨_,_,same,within⟩ := headerInside header.1 now
    cases same
    exact within

theorem nthReadsInside (long : sizeofNth16+sizeofNdp16 ≤ r.len) (tables : TablesInside link rxMax r)
    (alloc : Nat → Nat → Bool) (fuel : Nat) : ReadsInside r.len (nth16 link alloc rxMax r fuel).effects := by
  rcases @nthCases link alloc rxMax r long with ⟨_,es,known,same⟩ | ⟨header,same⟩
  · intro offset n now
    rw [same] at now
    obtain ⟨_,_,same,within⟩ := nthInside long (known _ now)
    cases same
    exact within
  · rw [same]
    refine readsAppend.mpr ⟨fun offset n now => ?_,fun offset n now => ?_⟩
    · obtain ⟨_,_,same,within⟩ := nthInside long now
      cases same
      exact within
    · obtain ⟨⟨o,k⟩,way,here⟩ := Trace.turnOf now
      by_cases used : o = 0
      · rw [used,turnZero] at here
        cases here
      · have reached := reachedBy header used way
        rw [turnUsed used] at here
        rcases Trace.memBind.mp here with inNdp | ⟨k',out,last⟩
        · exact ndpReads (fun header => tables o reached header) k offset n inNdp
        · have received := (ndpWent out).1.1
          cases List.mem_singleton.mp last
          have whole : o+8 ≤ r.len := received
          omega

theorem nthReadsTables {alloc : Nat → Nat → Bool} (granted : ∀ m size, alloc m size = true)
    (all : ∀ fuel, ReadsInside r.len (nth16 link alloc rxMax r fuel).effects) : TablesInside link rxMax r := by
  intro o reached header x listed
  obtain ⟨used,k,way⟩ := @reachedWay link alloc rxMax r o granted reached
  rcases @nthCases link alloc rxMax r (reachedLong reached) with ⟨refused,_⟩ | ⟨_,same⟩
  · cases reached.1.symm.trans refused
  obtain ⟨fuel,whole⟩ := Trace.turnDone way
  rcases @ndpCases link alloc rxMax r o k with ⟨other,_⟩ | ⟨_,tci,one⟩
  · exact absurd header other
  obtain ⟨m,pre,k',_,table⟩ := @tableTo link alloc rxMax r tci _ _ x granted listed k
  have looks : .read (entry o x+2) 2 ∈ (datagrams link alloc rxMax r tci (m+1) (entry o x) k').effects := by
    have member : .read (entry o x+2) 2 ∈ looked (entry o x) := List.mem_cons_of_mem _ List.mem_cons_self
    exact List.mem_append_left _ member
  have read : .read (entry o x+2) 2 ∈ (ndpTurn link alloc rxMax r (o,k)).effects := by
    rw [turnUsed used]
    refine Trace.memBind.mpr (.inl ?_)
    rw [one,table]
    exact Trace.memEmit.mpr (.inr (Trace.memEmit.mpr (.inr looks)))
  have within := all fuel _ _ (by rw [same]; exact Trace.memEmit.mpr (.inr (whole _ read)))
  exact within

theorem shortTables (short : r.len < sizeofNth16+sizeofNdp16) : TablesInside link rxMax r :=
  fun _ reached => absurd (reachedLong reached) (Nat.not_le.mpr short)

end Reads

/- Both receivers read what was received exactly when the tables they follow lie inside it:
the bound on `nframes` leaves the offset of the NDP out. -/
theorem mbimReads (devAddr : Bytes) (rxMax : Nat) (r : Rcvd) :
    ((∀ alloc fuel, ReadsInside r.len (MhiNetMbim.cdcMbimRxFixup alloc rxMax r fuel).effects) ↔
      TablesInside Mbim.MhiNetMbim.link rxMax r) ∧
    ((∀ alloc fuel, ReadsInside r.len (CdcMbim.cdcMbimRxFixup alloc devAddr rxMax r fuel).effects) ↔
      TablesInside (Mbim.CdcMbim.link devAddr) rxMax r) := by
  have silent : ∀ es : List Effect, ReadsInside r.len (es.filterMap Effect.receive ++ []) := by
    intro es
    exact readsAppend.mpr ⟨receivedInside r.len es,readsNone _⟩
  have silentFree : ∀ es : List Effect, ReadsInside r.len (es.filterMap Effect.receive ++ [.free .input] ++ []) := by
    intro es
    refine readsAppend.mpr ⟨readsAppend.mpr ⟨receivedInside r.len es,fun o n now => ?_⟩,readsNone _⟩
    cases List.mem_singleton.mp now
  unfold MhiNetMbim.cdcMbimRxFixup CdcMbim.cdcMbimRxFixup
  by_cases short : r.len < sizeofNth16+sizeofNdp16
  · simp only [if_pos short]
    refine ⟨⟨fun _ => shortTables short,fun _ alloc fuel => ?_⟩,⟨fun _ => shortTables short,fun _ alloc fuel => readsNone _⟩⟩
    exact (readsFinish silent).mpr (readsNone _)
  · simp only [if_neg short]
    have long := Nat.not_lt.mp short
    refine ⟨⟨fun all => ?_,fun tables alloc fuel => ?_⟩,⟨fun all => ?_,fun tables alloc fuel => ?_⟩⟩
    · exact nthReadsTables (fun _ _ => rfl) fun fuel => (readsFinish silent).mp (all (fun _ _ => true) fuel)
    · exact (readsFinish silent).mpr (nthReadsInside long tables alloc fuel)
    · exact nthReadsTables (fun _ _ => rfl) fun fuel => (readsFinish silentFree).mp (all (fun _ _ => true) fuel)
    · exact (readsFinish silentFree).mpr (nthReadsInside long tables alloc fuel)

def endingBlock : Rcvd := MbimDecoders.rcvd
  ([0x4e,0x43,0x4d,0x48,12,0,0,0,20,0,12,0] ++ [0x49,0x50,0x53,0,16,0,0,0])

theorem tableReadBehind : ¬(∀ (rxMax : Nat) (r : Rcvd) (alloc : Nat → Nat → Bool) (fuel : Nat),
    ReadsInside r.len (MhiNetMbim.cdcMbimRxFixup alloc rxMax r fuel).effects) ∧
    ¬(∀ (devAddr : Bytes) (rxMax : Nat) (r : Rcvd) (alloc : Nat → Nat → Bool) (fuel : Nat),
      ReadsInside r.len (CdcMbim.cdcMbimRxFixup alloc devAddr rxMax r fuel).effects) := by
  constructor
  · intro claim
    have behind : .read 20 2 ∈ (MhiNetMbim.cdcMbimRxFixup (fun _ _ => true) (31 * 1024) endingBlock 2).effects := by decide
    exact absurd (claim _ _ _ _ 20 2 behind) (by decide)
  · intro claim
    have behind : .read 20 2 ∈
        (CdcMbim.cdcMbimRxFixup (fun _ _ => true) [2,0x50,0xf4,0,0,0] (31 * 1024) endingBlock 2).effects := by decide
    exact absurd (claim _ _ _ _ _ 20 2 behind) (by decide)

section Ending
variable {link : Link} {rxMax : Nat} {r : Rcvd}

def NoCycle (link : Link) (rxMax : Nat) (r : Rcvd) : Prop :=
  ∀ o, Reached link rxMax r o → ¬TransGen (Follows link rxMax r) o o

theorem chainDescends {o : Nat} (acyclic : ∀ p, ReflTransGen (Follows link rxMax r) o p → ¬TransGen (Follows link rxMax r) p p) :
    Acc (fun p o => Follows link rxMax r o p) o := by
  refine followingEnds (((Set.finite_lt_nat 65536).insert o).subset fun p chain => ?_) acyclic
  rcases ReflTransGen.cases_tail chain with same | ⟨q,_,_,rfl,_⟩
  · exact .inl same
  · exact .inr (r.u16Small _)

theorem loopDescends {alloc : Nat → Nat → Bool} {o : Nat} (descends : Acc (fun p o => Follows link rxMax r o p) o) (k : Nat) :
    Acc (fun t s => Trace.Goes (ndpTurn link alloc rxMax r) s t) (o,k) := by
  induction descends generalizing k with
  | intro o _ ih =>
    refine ⟨_,fun ⟨p,k'⟩ goes => ?_⟩
    obtain ⟨_,_,passed,next⟩ := turnGoes goes
    by_cases used : p = 0
    · refine ⟨_,fun ⟨q,m⟩ further => ?_⟩
      exact absurd used (turnGoes further).1
    · exact ih p ⟨passed,next,used⟩ k'

theorem nthEnds (long : sizeofNth16+sizeofNdp16 ≤ r.len) (acyclic : NoCycle link rxMax r) (alloc : Nat → Nat → Bool) :
    ∃ fuel, (nth16 link alloc rxMax r fuel).Ends := by
  rcases @nthCases link alloc rxMax r long with ⟨_,es,_,same⟩ | ⟨header,same⟩
  · refine ⟨0,?_⟩
    rw [same]
    exact nofun
  · have ends : ∃ fuel, (Trace.loop (ndpTurn link alloc rxMax r) fuel (r.native16 10,0)).Ends := by
      refine Trace.loopEnds (fun t _ => turnEnds t) ?_
      by_cases used : r.native16 10 = 0
      · rw [used]
        exact ⟨_,fun _ goes => absurd rfl (turnGoes goes).1⟩
      · exact loopDescends (chainDescends fun p chain => acyclic p ⟨header,used,chain⟩) 0
    obtain ⟨fuel,last⟩ := ends
    refine ⟨fuel,?_⟩
    rw [same]
    exact last

theorem nthAcyclic {alloc : Nat → Nat → Bool} (granted : ∀ m size, alloc m size = true)
    (ends : ∃ fuel, (nth16 link alloc rxMax r fuel).Ends) : NoCycle link rxMax r := by
  intro o reached cycle
  obtain ⟨fuel,last⟩ := ends
  rcases @nthCases link alloc rxMax r (reachedLong reached) with ⟨refused,_⟩ | ⟨_,same⟩
  · cases reached.1.symm.trans refused
  rw [same] at last
  let among (s : Nat × Nat) : Prop := s.1 ≠ 0 ∧ Endless (Follows link rxMax r) s.1
  have turns : ∀ s, among s → (ndpTurn link alloc rxMax r s).Ends →
      ∃ next, Trace.Goes (ndpTurn link alloc rxMax r) s next ∧ among next := by
    rintro ⟨p,k⟩ ⟨used,endless⟩ _
    obtain ⟨q,⟨passed,rfl,later⟩,further⟩ := endlessStep endless
    obtain ⟨k',goes⟩ := grantedGoes granted used passed k
    exact ⟨_,goes,later,further⟩
  exact Trace.endlessRuns turns ⟨reached.2.1,o,reached.2.2,cycle⟩ fuel last

theorem shortAcyclic (short : r.len < sizeofNth16+sizeofNdp16) : NoCycle link rxMax r :=
  fun _ reached => absurd (reachedLong reached) (Nat.not_le.mpr short)

end Ending

theorem mbimEnds (devAddr : Bytes) (rxMax : Nat) (r : Rcvd) :
    ((∀ alloc, ∃ fuel, (MhiNetMbim.cdcMbimRxFixup alloc rxMax r fuel).Ends) ↔ NoCycle Mbim.MhiNetMbim.link rxMax r) ∧
    ((∀ alloc, ∃ fuel, (CdcMbim.cdcMbimRxFixup alloc devAddr rxMax r fuel).Ends) ↔
    NoCycle (Mbim.CdcMbim.link devAddr) rxMax r) := by
  unfold MhiNetMbim.cdcMbimRxFixup CdcMbim.cdcMbimRxFixup
  by_cases short : r.len < sizeofNth16+sizeofNdp16
  · simp only [if_pos short,Trace.finishEnds (Trace.emitEnds _ ())]
    exact ⟨⟨fun _ => shortAcyclic short,fun _ _ => ⟨0,nofun⟩⟩,⟨fun _ => shortAcyclic short,fun _ _ => ⟨0,nofun⟩⟩⟩
  · simp only [if_neg short,Trace.finishEnds (Trace.emitEnds _ ()),Trace.finishEnds (Trace.emitEnds _ 0)]
    have long := Nat.not_lt.mp short
    exact ⟨⟨fun all => nthAcyclic (fun _ _ => rfl) (all fun _ _ => true),nthEnds long⟩,
      ⟨fun all => nthAcyclic (fun _ _ => rfl) (all fun _ _ => true),nthEnds long⟩⟩

def circularBlock : Rcvd := MbimDecoders.rcvd
  ([0x4e,0x43,0x4d,0x48,12,0,0,0,28,0,12,0] ++ [0x49,0x50,0x53,0,16,0,12,0] ++ [0,0,0,0,0,0,0,0])

theorem circularChain {link : Link} (takes : link.accepts 0 = true) : ¬NoCycle link (31 * 1024) circularBlock := by
  have header : Header link circularBlock 12 := ⟨by decide,by decide,by decide,0,by decide,takes⟩
  have passed : Passed link (31 * 1024) circularBlock 12 := ⟨header,passesNull (.inl (by decide))⟩
  have follows : Follows link (31 * 1024) circularBlock 12 12 := ⟨passed,by decide,by decide⟩
  exact fun acyclic => acyclic 12 ⟨by decide,by decide,.refl⟩ (.single follows)

theorem chainCircles : ¬(∀ (rxMax : Nat) (r : Rcvd) (alloc : Nat → Nat → Bool),
    ∃ fuel, (MhiNetMbim.cdcMbimRxFixup alloc rxMax r fuel).Ends) ∧
    ¬(∀ (devAddr : Bytes) (rxMax : Nat) (r : Rcvd) (alloc : Nat → Nat → Bool),
      ∃ fuel, (CdcMbim.cdcMbimRxFixup alloc devAddr rxMax r fuel).Ends) := by
  have long : ¬circularBlock.len < sizeofNth16+sizeofNdp16 := by decide
  constructor
  · intro claim
    obtain ⟨fuel,ends⟩ := claim (31 * 1024) circularBlock fun _ _ => true
    rw [MhiNetMbim.cdcMbimRxFixup,if_neg long,Trace.finishEnds (Trace.emitEnds _ ())] at ends
    exact circularChain rfl (nthAcyclic (fun _ _ => rfl) ⟨fuel,ends⟩)
  · intro claim
    obtain ⟨fuel,ends⟩ := claim [2,0x50,0xf4,0,0,0] (31 * 1024) circularBlock fun _ _ => true
    rw [CdcMbim.cdcMbimRxFixup,if_neg long,Trace.finishEnds (Trace.emitEnds _ 0)] at ends
    exact circularChain rfl (nthAcyclic (fun _ _ => rfl) ⟨fuel,ends⟩)

/-! What the traces hand up is what the receivers do. `f` and `g` are the loops of either. -/
section Results
variable {link : Link} {alloc : Nat → Bool} {rxMax : Nat} {r : Rcvd}

theorem tableDelivers {tci : Nat} {f : Nat → Nat → List Packet × Bool} (done : ∀ dpe16, f 0 dpe16 = ([],false))
    (turn : ∀ n dpe16, f (n+1) dpe16 =
      if r.u16 dpe16 = 0 ∨ r.u16 (dpe16+2) = 0 then ([],false)
      else if r.len < r.u16 dpe16+r.u16 (dpe16+2) ∨ rxMax < r.u16 (dpe16+2) then ([],true)
      else if !alloc (r.u16 (dpe16+2)+link.allocExtra) then ([],true)
      else match datagramProtocol (r.mem (r.u16 dpe16)) with
        | none => ([],true)
        | some protocol =>
          (link.packet tci protocol (r.bytes (r.u16 dpe16) (r.u16 (dpe16+2))) :: (f n (dpe16+sizeofDpe16)).1,
            (f n (dpe16+sizeofDpe16)).2)) (n dpe16 k : Nat) :
    chained (datagrams link (fun _ => alloc) rxMax r tci n dpe16 k).effects = (f n dpe16).1 ∧
      ((f n dpe16).2 = true ↔ (datagrams link (fun _ => alloc) rxMax r tci n dpe16 k).outcome = .left) := by
  induction n generalizing dpe16 k with
  | zero =>
    rw [done]
    exact ⟨rfl,Bool.noConfusion,nofun⟩
  | succ n ih =>
    have looks : ∀ es, chained (looked dpe16 ++ es) = chained es := fun es => by rw [chainedAppend]; rfl
    have opens : ∀ es, chained (opened link r dpe16 k ++ es) = chained es := fun es => by rw [chainedAppend]; rfl
    rw [turn]
    rcases @entryCases link (fun _ => alloc) rxMax r tci n dpe16 k with ⟨null,same⟩ | ⟨used,unsound,same⟩ |
      ⟨sound,refused,same⟩ | ⟨sound,unknown,granted,same⟩ | ⟨sound,_,granted,protocol,first,same⟩
    · have null : r.u16 dpe16 = 0 ∨ r.u16 (dpe16+2) = 0 := null
      rw [same,if_pos null]
      exact ⟨rfl,Bool.noConfusion,nofun⟩
    · have outside : r.len < r.u16 dpe16+r.u16 (dpe16+2) ∨ rxMax < r.u16 (dpe16+2) := by
        by_contra inside
        exact unsound ⟨used,Nat.not_lt.mp (not_or.mp inside).1,Nat.not_lt.mp (not_or.mp inside).2⟩
      have used : ¬(r.u16 dpe16 = 0 ∨ r.u16 (dpe16+2) = 0) := used
      rw [same,if_neg used,if_pos outside]
      exact ⟨rfl,fun _ => rfl,fun _ => rfl⟩
    all_goals
      have used : ¬(r.u16 dpe16 = 0 ∨ r.u16 (dpe16+2) = 0) := sound.1
      have inside : ¬(r.len < r.u16 dpe16+r.u16 (dpe16+2) ∨ rxMax < r.u16 (dpe16+2)) := by
        have fits := sound.2
        omega
      rw [same,if_neg used,if_neg inside]
    · rw [refused]
      exact ⟨rfl,fun _ => rfl,fun _ => rfl⟩
    · have unknown : datagramProtocol (r.mem (r.u16 dpe16)) = none := Option.not_isSome_iff_eq_none.mp unknown
      rw [granted,unknown]
      exact ⟨rfl,fun _ => rfl,fun _ => rfl⟩
    · obtain ⟨front,flag⟩ := ih (dpe16+sizeofDpe16) (k+1)
      rw [granted,first]
      refine ⟨?_,flag⟩
      show chained (looked dpe16 ++ (opened link r dpe16 k ++ (filled link r tci dpe16 k protocol ++ _))) = _
      rw [looks,opens,chainedAppend,front]
      rfl

theorem ndpDelivers {f : Nat → Nat → Nat → List Packet × Bool}
    (tables : ∀ tci n dpe16 k, chained (datagrams link (fun _ => alloc) rxMax r tci n dpe16 k).effects = (f tci n dpe16).1 ∧
      ((f tci n dpe16).2 = true ↔ (datagrams link (fun _ => alloc) rxMax r tci n dpe16 k).outcome = .left)) (o k : Nat) :
    chained (ndp link (fun _ => alloc) rxMax r o k).effects = (MbimDecoders.oneNdp link.accepts f r o).1 ∧
      ((MbimDecoders.oneNdp link.accepts f r o).2 = true ↔ (ndp link (fun _ => alloc) rxMax r o k).outcome = .left) := by
  rw [ndp,MbimDecoders.oneNdp,nframes]
  by_cases outside : r.len < o+sizeofNdp16
  · rw [if_pos outside,if_pos outside]
    exact ⟨rfl,fun _ => rfl,fun _ => rfl⟩
  rw [if_neg outside,if_neg outside]
  by_cases short : r.u16 (o+4) < 0x10
  · rw [if_pos short,if_pos short]
    exact ⟨rfl,fun _ => rfl,fun _ => rfl⟩
  rw [if_neg short,if_neg short]
  by_cases many : r.len < sizeofNdp16+(r.u16 (o+4)-sizeofNdp16) / sizeofDpe16 * sizeofDpe16
  · rw [if_pos many,if_pos many]
    exact ⟨rfl,fun _ => rfl,fun _ => rfl⟩
  rw [if_neg many,if_neg many]
  cases MbimDecoders.CdcMbim.tci r o with
  | none => exact ⟨rfl,fun _ => rfl,fun _ => rfl⟩
  | some tci =>
    cases takes : link.accepts tci with
    | false =>
      simp only [takes]
      exact ⟨rfl,fun _ => rfl,fun _ => rfl⟩
    | true =>
      simp only [takes]
      exact tables tci _ _ k

theorem loopTurn {g : Nat → List Packet × Bool}
    (one : ∀ o k, chained (ndp link (fun _ => alloc) rxMax r o k).effects = (g o).1 ∧
      ((g o).2 = true ↔ (ndp link (fun _ => alloc) rxMax r o k).outcome = .left)) {o : Nat} (used : o ≠ 0) (fuel k : Nat) :
    ∃ k', chainResult (Trace.loop (ndpTurn link (fun _ => alloc) rxMax r) (fuel+1) (o,k)) =
      if (g o).2 then some (g o).1
      else (chainResult (Trace.loop (ndpTurn link (fun _ => alloc) rxMax r) fuel (r.u16 (o+6),k'))).map ((g o).1 ++ ·) := by
  obtain ⟨front,flag⟩ := one o k
  rw [Trace.loop,turnUsed used]
  cases out : (ndp link (fun _ => alloc) rxMax r o k).outcome with
  | lost => exact absurd out (ndpEnds o k)
  | left =>
    refine ⟨0,?_⟩
    rw [if_pos (flag.mpr out),Trace.bindAssoc,Trace.bind,out,← front]
    rfl
  | went k' =>
    have goes : (g o).2 ≠ true := fun failed => by
      rw [flag.mp failed] at out
      cases out
    have silent : chained [.read (o+6) 2] = [] := rfl
    have rest : chained ((ndp link (fun _ => alloc) rxMax r o k).effects ++ [.read (o+6) 2]) = (g o).1 := by
      rw [chainedAppend,front,silent,List.append_nil]
    refine ⟨k',?_⟩
    rw [if_neg goes,← rest,← chainResultEmit,← Trace.emitEmit,Trace.bindAssoc,Trace.bind,out]
    rfl

theorem loopDelivers {g : Nat → List Packet × Bool} {ndps : Nat → Nat → Option (List Packet)}
    (one : ∀ o k, chained (ndp link (fun _ => alloc) rxMax r o k).effects = (g o).1 ∧
      ((g o).2 = true ↔ (ndp link (fun _ => alloc) rxMax r o k).outcome = .left))
    (spent : ∀ o, ndps 0 o = if o = 0 then some [] else none)
    (turn : ∀ fuel o, ndps (fuel+1) o = if o = 0 then some []
      else if (g o).2 then some (g o).1 else (ndps fuel (r.u16 (o+6))).map ((g o).1 ++ ·)) (fuel o k : Nat) (ps : List Packet) :
    (ndps fuel o = some ps → chainResult (Trace.loop (ndpTurn link (fun _ => alloc) rxMax r) (fuel+1) (o,k)) = some ps) ∧
    (chainResult (Trace.loop (ndpTurn link (fun _ => alloc) rxMax r) fuel (o,k)) = some ps → ndps fuel o = some ps) := by
  have zero : ∀ fuel k, chainResult (Trace.loop (ndpTurn link (fun _ => alloc) rxMax r) (fuel+1) (0,k)) = some [] := by
    intro fuel k
    rw [Trace.loop,turnZero]
    rfl
  have unused : ∀ fuel, ndps fuel 0 = some [] := by
    intro fuel
    cases fuel with
    | zero => rw [spent,if_pos rfl]
    | succ fuel => rw [turn,if_pos rfl]
  induction fuel generalizing o k ps with
  | zero =>
    refine ⟨fun done => ?_,fun done => by cases done⟩
    rw [spent] at done
    split_ifs at done with last
    rw [last,zero,done]
  | succ fuel ih =>
    by_cases used : o = 0
    · rw [used,unused,zero,zero]
      exact ⟨id,id⟩
    · obtain ⟨k',later⟩ := loopTurn one used (fuel+1) k
      obtain ⟨k'',sooner⟩ := loopTurn one used fuel k
      rw [later,sooner,turn,if_neg used]
      cases (g o).2 with
      | true => exact ⟨id,id⟩
      | false =>
        simp only [Bool.false_eq_true,if_false,Option.map_eq_some_iff]
        constructor
        · rintro ⟨rest,done,whole⟩
          exact ⟨rest,(ih _ k' rest).1 done,whole⟩
        · rintro ⟨rest,done,whole⟩
          exact ⟨rest,(ih _ k'' rest).2 done,whole⟩

theorem ndpInner {alloc : Nat → Nat → Bool} (o k : Nat) : Inner (ndp link alloc rxMax r o k).effects := by
  have header : ∀ e ∈ headerReads o, e.inner = true := by simp [headerReads,Effect.inner]
  rcases @ndpCases link alloc rxMax r o k with ⟨_,es,same,known⟩ | ⟨_,tci,same⟩
  · rw [same]
    exact fun e now => header e (known e now).2
  · rw [same]
    exact innerAppend.mpr ⟨header,tableInner _ _ _⟩

theorem turnInner {alloc : Nat → Nat → Bool} (s : Nat × Nat) : Inner (ndpTurn link alloc rxMax r s).effects := by
  obtain ⟨o,k⟩ := s
  intro e now
  by_cases used : o = 0
  · rw [used,turnZero] at now
    cases now
  · rw [turnUsed used] at now
    rcases Trace.memBind.mp now with early | ⟨_,_,last⟩
    · exact ndpInner o k e early
    · cases List.mem_singleton.mp last
      rfl

theorem nthInner {alloc : Nat → Nat → Bool} (long : sizeofNth16+sizeofNdp16 ≤ r.len) (fuel : Nat) :
    Inner (nth16 link alloc rxMax r fuel).effects := by
  have header : ∀ e ∈ nthReads, e.inner = true := by simp [nthReads,Effect.inner]
  rcases @nthCases link alloc rxMax r long with ⟨_,es,known,same⟩ | ⟨_,same⟩
  · rw [same]
    exact fun e now => header e (known e now)
  · rw [same]
    refine innerAppend.mpr ⟨header,fun e now => ?_⟩
    obtain ⟨t,_,here⟩ := Trace.turnOf now
    exact turnInner t e here

theorem nthDelivers {g : Nat → List Packet × Bool} {ndps : Nat → Nat → Option (List Packet)}
    (long : sizeofNth16+sizeofNdp16 ≤ r.len)
    (one : ∀ o k, chained (ndp link (fun _ => alloc) rxMax r o k).effects = (g o).1 ∧
      ((g o).2 = true ↔ (ndp link (fun _ => alloc) rxMax r o k).outcome = .left))
    (spent : ∀ o, ndps 0 o = if o = 0 then some [] else none)
    (turn : ∀ fuel o, ndps (fuel+1) o = if o = 0 then some []
      else if (g o).2 then some (g o).1 else (ndps fuel (r.u16 (o+6))).map ((g o).1 ++ ·)) (ps : List Packet) :
    (∃ fuel, chainResult (nth16 link (fun _ => alloc) rxMax r fuel) = some ps) ↔
      ∃ fuel, (if accepted rxMax r then ndps fuel (r.native16 10) else some []) = some ps := by
  rcases @nthCases link (fun _ => alloc) rxMax r long with ⟨refused,es,known,same⟩ | ⟨header,same⟩
  · have none : chained es = [] := by
      refine List.filterMap_eq_nil_iff.mpr fun e member => ?_
      obtain ⟨_,_,read,_⟩ := nthInside long (known e member)
      rw [read]
    have empty : ∀ fuel, chainResult (nth16 link (fun _ => alloc) rxMax r fuel) = some [] := by
      intro fuel
      rw [same,chainResult,none]
    simp only [empty,refused,Bool.false_eq_true,if_false]
  · have whole : ∀ fuel, chainResult (nth16 link (fun _ => alloc) rxMax r fuel) =
        chainResult (Trace.loop (ndpTurn link (fun _ => alloc) rxMax r) fuel (r.native16 10,0)) := by
      intro fuel
      have silent : chained nthReads = [] := rfl
      rw [same]
      simp only [Trace.emit,chainResult,chainedAppend,silent,List.nil_append]
    simp only [whole,header,if_true]
    constructor
    · rintro ⟨fuel,done⟩
      exact ⟨fuel,(loopDelivers one spent turn fuel _ 0 ps).2 done⟩
    · rintro ⟨fuel,done⟩
      exact ⟨fuel+1,(loopDelivers one spent turn fuel _ 0 ps).1 done⟩

end Results

section Traced
variable {alloc : Nat → Bool} {rxMax : Nat} {r : Rcvd}

theorem headerTests {α : Type} (short refused begun : α) : (if r.len < sizeofNth16+sizeofNdp16 then short
      else if r.u32 0 ≠ usbCdcNcmNth16Sign then refused
      else if rxMax < r.u16 8 then refused
      else begun) =
    if r.len < sizeofNth16+sizeofNdp16 then short else if accepted rxMax r then begun else refused := by
  by_cases tooShort : r.len < sizeofNth16+sizeofNdp16
  · rw [if_pos tooShort,if_pos tooShort]
  rw [if_neg tooShort,if_neg tooShort]
  by_cases unsigned : r.u32 0 ≠ usbCdcNcmNth16Sign
  · have other : ¬accepted rxMax r = true := by simp [accepted,unsigned]
    rw [if_pos unsigned,if_neg other]
  rw [if_neg unsigned]
  by_cases big : rxMax < r.u16 8
  · have other : ¬accepted rxMax r = true := by simp [accepted,big]
    rw [if_pos big,if_neg other]
  · have header : accepted rxMax r = true := by
      simp [accepted,Nat.not_lt.mp tooShort,not_not.mp unsigned,Nat.not_lt.mp big]
    rw [if_neg big,if_pos header]

theorem rawTraced (rxSeq : UInt16) (ps : List Packet) :
    (∃ fuel, results (MhiNetMbim.cdcMbimRxFixup (fun _ => alloc) rxMax r fuel) = some ps) ↔
      ∃ fuel rxSeq', MbimDecoders.MhiNetMbim.cdcMbimRxFixup alloc rxMax r rxSeq fuel = some (rxSeq',ps) := by
  have one : ∀ o k, chained (ndp Mbim.MhiNetMbim.link (fun _ => alloc) rxMax r o k).effects =
        (MbimDecoders.MhiNetMbim.ndp alloc rxMax r o).1 ∧ ((MbimDecoders.MhiNetMbim.ndp alloc rxMax r o).2 = true ↔
          (ndp Mbim.MhiNetMbim.link (fun _ => alloc) rxMax r o k).outcome = .left) := by
    intro o k
    rw [MbimDecoders.rawNdp]
    exact ndpDelivers (fun tci => tableDelivers (fun _ => rfl) fun _ _ => rfl) o k
  simp only [MbimDecoders.MhiNetMbim.cdcMbimRxFixup,MhiNetMbim.cdcMbimRxFixup,headerTests]
  by_cases short : r.len < sizeofNth16+sizeofNdp16
  · simp only [if_pos short]
    constructor
    · rintro ⟨fuel,done⟩
      exact ⟨fuel,rxSeq,congrArg (some ∘ Prod.mk rxSeq) (Option.some.inj done)⟩
    · rintro ⟨fuel,_,done⟩
      exact ⟨fuel,congrArg (some ∘ Prod.snd) (Option.some.inj done)⟩
  · have long := Nat.not_lt.mp short
    have read : ∀ fuel, results ((nth16 Mbim.MhiNetMbim.link (fun _ => alloc) rxMax r fuel).finish fun es =>
        .emit (es.filterMap Effect.receive) (.pure ())) = chainResult (nth16 Mbim.MhiNetMbim.link (fun _ => alloc) rxMax r fuel) := by
      intro fuel
      have inner := @nthInner Mbim.MhiNetMbim.link rxMax r (fun _ => alloc) long fuel
      have done := @finishResults _ _ _ inner [] rfl ()
      simp only [List.append_nil] at done
      exact done
    simp only [if_neg short,read]
    rw [@nthDelivers _ _ _ _ (MbimDecoders.MhiNetMbim.ndp alloc rxMax r) (MbimDecoders.MhiNetMbim.ndps alloc rxMax r)
      long one (fun _ => rfl) (fun _ _ => rfl) ps]
    cases accepted rxMax r with
    | false => simp
    | true => simp

theorem framedTraced (devAddr : Bytes) (rxSeq : UInt16) (ps : List Packet) :
    (∃ fuel, results (CdcMbim.cdcMbimRxFixup (fun _ => alloc) devAddr rxMax r fuel) = some ps) ↔
      ∃ fuel ret rxSeq', MbimDecoders.CdcMbim.cdcMbimRxFixup alloc devAddr rxMax r rxSeq fuel = some (ret,rxSeq',ps) := by
  have one : ∀ o k, chained (ndp (Mbim.CdcMbim.link devAddr) (fun _ => alloc) rxMax r o k).effects =
        (MbimDecoders.CdcMbim.ndp alloc devAddr rxMax r o).1 ∧ ((MbimDecoders.CdcMbim.ndp alloc devAddr rxMax r o).2 = true ↔
          (ndp (Mbim.CdcMbim.link devAddr) (fun _ => alloc) rxMax r o k).outcome = .left) := by
    intro o k
    rw [MbimDecoders.framedNdp]
    exact ndpDelivers (fun tci => tableDelivers (fun _ => rfl) fun _ _ => rfl) o k
  simp only [MbimDecoders.CdcMbim.cdcMbimRxFixup,CdcMbim.cdcMbimRxFixup,headerTests]
  by_cases short : r.len < sizeofNth16+sizeofNdp16
  · simp only [if_pos short]
    constructor
    · rintro ⟨fuel,done⟩
      exact ⟨fuel,1,rxSeq,congrArg (fun chain => some (1,rxSeq,chain)) (Option.some.inj done)⟩
    · rintro ⟨fuel,_,_,done⟩
      cases done
      exact ⟨fuel,rfl⟩
  · have long := Nat.not_lt.mp short
    have read : ∀ fuel, results ((nth16 (Mbim.CdcMbim.link devAddr) (fun _ => alloc) rxMax r fuel).finish fun es =>
        .emit (es.filterMap Effect.receive ++ [.free .input]) (.pure 0)) =
          chainResult (nth16 (Mbim.CdcMbim.link devAddr) (fun _ => alloc) rxMax r fuel) :=
      fun fuel => finishResults (nthInner long fuel) rfl 0
    simp only [if_neg short,read]
    rw [@nthDelivers _ _ _ _ (MbimDecoders.CdcMbim.ndp alloc devAddr rxMax r)
      (MbimDecoders.CdcMbim.ndps alloc devAddr rxMax r) long one (fun _ => rfl) (fun _ _ => rfl) ps]
    cases accepted rxMax r with
    | false => simp
    | true => simp

end Traced

end MhiHost.MbimTrace
