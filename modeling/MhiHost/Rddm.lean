import MhiHost.BootSession

/-! Dumps of the device's memory in `boot.c`: how the table for one is handed to the device,
and the wait for it while the kernel panics, which polls instead of sleeping. -/
namespace MhiHost.Rddm
open Wire (Bytes)
open BhieTable
open BootSession
open PowerUp (mhiGetExecEnv mhictrlMhistateMask mhictrlMhistateShift mhictrlResetMask mhictrlResetShift)
open SharedMemory

def bhiExecenv : Nat := 0x28
def mhictrl : Nat := 0x38
def mhiSocResetReqOffset : Nat := 0xb0
def mhiSocResetReq : Nat := 1
def bhieRxvecstatus : Nat := 0x78

def getExecEnv : Boot Nat := .ask (.read .bhi bhiExecenv) fun r => .pure (mhiGetExecEnv r)
def setMhiState (state : DevState) : Boot Unit :=
  if state = .reset then writeRegField .mhi mhictrl mhictrlResetMask mhictrlResetShift 1
  else writeRegField .mhi mhictrl mhictrlMhistateMask mhictrlMhistateShift state.code

def delayus : Nat := 2000
def rddmRetries : Nat := 200000 / delayus
def retriesOf (timeoutMs : Nat) : Nat := timeoutMs*1000 % 2^32 / delayus

def awaitRddm : Nat → Boot Int
  | 0 => .pure (-1)
  | n+1 => getExecEnv.bind fun ee => if ee = ExecEnv.rddm.code then .pure n else .ask .delay fun _ => awaitRddm n

def awaitCompl : Nat → Boot (Option (Option Errno))
  | 0 => .pure none
  | n+1 => .ask (.read .bhie bhieRxvecstatus) fun r => match PowerUp.mhiReadRegField r statusMask statusShift with
    | .error _ => .pure (some (some .eio))
    | .ok rxStatus => if rxStatus = xferCompl then .pure (some none) else .ask .delay fun _ => awaitCompl n

def forceRddm : Boot Unit := (setMhiState .sysErr).bind fun _ => (awaitRddm rddmRetries).bind fun rddmRetry =>
  (if rddmRetry ≤ 0 then (writeReg .mhi mhiSocResetReqOffset mhiSocResetReq).bind fun _ => .ask .delay fun _ => .pure () else .pure ()).bind
    fun _ => getExecEnv.bind fun _ => .pure ()

def mhiDownloadRddmInPanic (timeoutMs : Nat) : Boot (Option Errno) := getExecEnv.bind fun ee =>
  (if ee = ExecEnv.rddm.code then .pure () else forceRddm).bind fun _ => (awaitCompl (retriesOf timeoutMs)).bind fun
    | some ret => .pure ret
    | none => getExecEnv.bind fun _ => .ask (.read .bhie bhieRxvecstatus) fun _ => .pure (some .eio)

def answers (bank : Bank) (offset : Nat) (es : List Access) : List (Except Errno Nat) := es.filterMap fun
  | ⟨.read b o,a⟩ => if b = bank ∧ o = offset then some a else none
  | _ => none

def envs (es : List Access) : List Nat := (answers .bhi bhiExecenv es).map mhiGetExecEnv
def statuses (es : List Access) : List (Except Errno Nat) :=
  (answers .bhie bhieRxvecstatus es).map fun r => PowerUp.mhiReadRegField r statusMask statusShift

def delays (es : List Access) : Nat := es.countP fun step => step.1 == .delay

def SocReset (es : List Access) : Prop := ⟨.write .mhi mhiSocResetReqOffset mhiSocResetReq,()⟩ ∈ es

section Views
variable {es fs : List Access}

@[simp] theorem answersAppend {bank : Bank} {offset : Nat} :
    answers bank offset (es ++ fs) = answers bank offset es ++ answers bank offset fs :=
  List.filterMap_append

@[simp] theorem envsAppend : envs (es ++ fs) = envs es ++ envs fs := by simp [envs]
@[simp] theorem statusesAppend : statuses (es ++ fs) = statuses es ++ statuses fs := by simp [statuses]
@[simp] theorem delaysAppend : delays (es ++ fs) = delays es+delays fs := by simp [delays]

@[simp] theorem statusesRead {r : Except Errno Nat} :
    statuses (⟨.read .bhie bhieRxvecstatus,r⟩ :: es) = PowerUp.mhiReadRegField r statusMask statusShift :: statuses es := rfl
@[simp] theorem statusesNil : statuses [] = [] := rfl
@[simp] theorem envsDelay {u : Unit} : envs (⟨.delay,u⟩ :: es) = envs es := rfl
@[simp] theorem statusesDelay {u : Unit} : statuses (⟨.delay,u⟩ :: es) = statuses es := rfl
@[simp] theorem delaysDelay {u : Unit} : delays (⟨.delay,u⟩ :: es) = delays es+1 := by simp [delays]
@[simp] theorem envsWrite {bank : Bank} {offset val : Nat} {u : Unit} : envs (⟨.write bank offset val,u⟩ :: es) = envs es := rfl
@[simp] theorem statusesWrite {bank : Bank} {offset val : Nat} {u : Unit} : statuses (⟨.write bank offset val,u⟩ :: es) =
    statuses es := rfl
@[simp] theorem delaysWrite {bank : Bank} {offset val : Nat} {u : Unit} : delays (⟨.write bank offset val,u⟩ :: es) =
    delays es := by
  simp [delays]

end Views

structure Look (ee : Nat) (es : List Access) : Prop where
  envs : envs es = [ee]
  statuses : statuses es = []
  delays : delays es = 0
  reset : ¬SocReset es

section Panic
variable {es : List Access} {ee n : Nat}

theorem looked (ran : getExecEnv.Leaves es (.went ee)) : Look ee es := by
  obtain ⟨r,_,rfl,rfl,same⟩ := ran
  cases same
  exact ⟨rfl,rfl,rfl,by simp [SocReset]⟩

structure Polled (n : Nat) (rddmRetry : Int) (es : List Access) : Prop where
  statuses : statuses es = []
  reset : ¬SocReset es
  delays : delays es ≤ n
  before : ∃ seen : List Nat, ExecEnv.rddm.code ∉ seen ∧ (seen.length = n ∧ rddmRetry = -1 ∧ envs es = seen ∨
    seen.length+rddmRetry+1 = n ∧ 0 ≤ rddmRetry ∧ envs es = seen ++ [ExecEnv.rddm.code])

theorem polled {rddmRetry : Int} (ran : (awaitRddm n).Leaves es (.went rddmRetry)) : Polled n rddmRetry es := by
  induction n generalizing es with
  | zero =>
    obtain ⟨rfl,same⟩ := ran
    cases same
    exact ⟨rfl,by simp [SocReset],Nat.zero_le _,[],by simp,.inl ⟨rfl,rfl,rfl⟩⟩
  | succ n ih =>
    obtain ⟨ee,x,y,rfl,look,ran⟩ := Talk.bindWent.mp ran
    have first := looked look
    split at ran
    · rename_i found
      obtain ⟨rfl,same⟩ := ran
      cases same
      rw [List.append_nil]
      exact ⟨first.statuses,first.reset,by simp [first.delays],[],by simp,.inr ⟨by simp,by simp,by simp [first.envs,found]⟩⟩
    · rename_i other
      obtain ⟨_,z,rfl,later⟩ := ran
      obtain ⟨statuses,reset,delays,seen,none,ends⟩ := ih later
      refine ⟨by simp [first.statuses,statuses],?_,by simp [first.delays,delays],ee :: seen,?_,?_⟩
      · simpa [SocReset] using ⟨first.reset,reset⟩
      · simp [none,Ne.symm other]
      · rcases ends with ⟨long,last,same⟩ | ⟨long,last,same⟩
        · exact .inl ⟨by simp [long],last,by simp [first.envs,same]⟩
        · refine .inr ⟨?_,last,by simp [first.envs,same]⟩
          rw [List.length_cons]
          omega

def Busy (status : Except Errno Nat) : Prop := ∃ v, status = .ok v ∧ v ≠ xferCompl

inductive Ended (n : Nat) (before : List (Except Errno Nat)) : Option (Option Errno) → List (Except Errno Nat) → Prop where
  | out : before.length = n → Ended n before none before
  | complete : before.length < n → Ended n before (some none) (before ++ [.ok xferCompl])
  | unread {err : Errno} : before.length < n → Ended n before (some (some .eio)) (before ++ [.error err])

theorem Ended.ranOut {before seen : List (Except Errno Nat)} (ends : Ended n before none seen) : seen = before ∧
    before.length = n := by
  cases ends with
  | out long => exact ⟨rfl,long⟩

structure Awaited (n : Nat) (out : Option (Option Errno)) (es : List Access) : Prop where
  envs : envs es = []
  reset : ¬SocReset es
  delays : delays es ≤ n
  statuses : ∃ before, (∀ status ∈ before, Busy status) ∧ Ended n before out (statuses es)

theorem awaited {out : Option (Option Errno)} (ran : (awaitCompl n).Leaves es (.went out)) : Awaited n out es := by
  induction n generalizing es with
  | zero =>
    obtain ⟨rfl,same⟩ := ran
    cases same
    exact ⟨rfl,by simp [SocReset],Nat.zero_le _,[],nofun,.out rfl⟩
  | succ n ih =>
    obtain ⟨r,y,rfl,went⟩ := ran
    cases r with
    | error err =>
      obtain ⟨rfl,same⟩ := went
      cases same
      exact ⟨rfl,by simp [SocReset],Nat.zero_le _,[],nofun,.unread (Nat.succ_pos n)⟩
    | ok word =>
      dsimp only [PowerUp.mhiReadRegField] at went
      split at went
      · rename_i complete
        obtain ⟨rfl,same⟩ := went
        cases same
        have field : statuses [⟨.read .bhie bhieRxvecstatus,.ok word⟩] = [.ok xferCompl] :=
          congrArg (fun v => [Except.ok v]) complete
        exact ⟨rfl,by simp [SocReset],Nat.zero_le _,[],nofun,field ▸ .complete (Nat.succ_pos n)⟩
      · rename_i busy
        obtain ⟨_,z,rfl,later⟩ := went
        obtain ⟨envs,reset,delays,before,all,ends⟩ := ih later
        refine ⟨envs,?_,?_,.ok ((word &&& statusMask) >>> statusShift) :: before,?_,?_⟩
        · simpa [SocReset] using reset
        · simpa [Rddm.delays] using delays
        · exact List.forall_mem_cons.mpr ⟨⟨_,rfl,busy⟩,all⟩
        · have views : statuses (⟨.read .bhie bhieRxvecstatus,.ok word⟩ :: ⟨.delay,()⟩ :: z) =
              .ok ((word &&& statusMask) >>> statusShift) :: statuses z := rfl
          rw [views]
          revert ends
          generalize statuses z = seen
          rintro (long | long | long)
          · exact .out (by simp [long])
          · exact .complete (by simpa using long)
          · exact .unread (by simpa using long)

/- The device is told to fail, polled, and reset where that has not helped: on the last poll
even when it has. -/
structure Forced (es : List Access) : Prop where
  statuses : statuses es = []
  delays : delays es ≤ rddmRetries+1
  envs : ∃ seen ended, ExecEnv.rddm.code ∉ seen ∧ envs es = seen ++ ended ∧ (SocReset es ∧ rddmRetries ≤ seen.length+1 ∨
    ¬SocReset es ∧ seen.length+1 < rddmRetries ∧ ExecEnv.rddm.code ∈ ended.head?)

theorem fieldSet {mask shift val : Nat} (ran : (writeRegField .mhi mhictrl mask shift val).Leaves es (.went ())) :
    envs es = [] ∧ statuses es = [] ∧ delays es = 0 ∧ ¬SocReset es := by
  obtain ⟨r,_,rfl,ran⟩ := ran
  cases r with
  | error _ =>
    obtain ⟨rfl,-⟩ := ran
    exact ⟨rfl,rfl,rfl,by simp [SocReset]⟩
  | ok tmp =>
    cases writeWent.mp ran
    exact ⟨rfl,rfl,rfl,by simp [SocReset,mhiSocResetReqOffset,mhictrl]⟩

theorem stateSet {state : DevState} (ran : (setMhiState state).Leaves es (.went ())) :
    envs es = [] ∧ statuses es = [] ∧ delays es = 0 ∧ ¬SocReset es := by
  unfold setMhiState at ran
  split at ran <;> exact fieldSet ran

theorem forced (ran : forceRddm.Leaves es (.went ())) : Forced es := by
  obtain ⟨_,x,_,rfl,told,ran⟩ := Talk.bindWent.mp ran
  obtain ⟨rddmRetry,y,_,rfl,loop,ran⟩ := Talk.bindWent.mp ran
  obtain ⟨_,z,_,rfl,reset,ran⟩ := Talk.bindWent.mp ran
  obtain ⟨ee,w,_,rfl,look,rfl,-⟩ := Talk.bindWent.mp ran
  obtain ⟨envs,statuses,delays,unreset⟩ := stateSet told
  obtain ⟨statuses',unreset',few,seen,none,ends⟩ := polled loop
  have last := looked look
  have fresh : ¬SocReset (x ++ (y ++ (w ++ []))) := by
    simp only [SocReset] at unreset unreset'
    simpa [SocReset] using ⟨unreset,unreset',last.reset⟩
  split at reset
  · rename_i low
    obtain ⟨_,_,_,rfl,wrote,⟨⟩,_,rfl,rfl,-⟩ := Talk.bindWent.mp reset
    cases writeWent.mp wrote
    refine ⟨by simp [statuses,statuses',last.statuses],by simp [delays,last.delays]; omega,?_⟩
    rcases ends with ⟨long,-,same⟩ | ⟨long,zero,same⟩
    · exact ⟨seen,[ee],none,by simp [envs,same,last.envs],.inl ⟨by simp [SocReset,mhiSocResetReq],by omega⟩⟩
    · exact ⟨seen,[ExecEnv.rddm.code,ee],none,by simp [envs,same,last.envs],.inl ⟨by simp [SocReset,mhiSocResetReq],by omega⟩⟩
  · rename_i high
    obtain ⟨rfl,-⟩ := reset
    refine ⟨by simp [statuses,statuses',last.statuses],by simp [delays,last.delays]; omega,?_⟩
    rcases ends with ⟨-,out,-⟩ | ⟨long,-,same⟩
    · omega
    · exact ⟨seen,[ExecEnv.rddm.code,ee],none,by simp [envs,same,last.envs],.inr ⟨fresh,by omega,rfl⟩⟩

def whenOther (ee : Nat) : Boot Unit := if ee = ExecEnv.rddm.code then .pure () else forceRddm

theorem modeReached (ran : (whenOther ee).Leaves es (.went ())) : statuses es = [] ∧ delays es ≤ rddmRetries+1 ∧
    ∀ rest, SocReset es ↔ ExecEnv.rddm.code ∉ (ee :: (envs es ++ rest)).take rddmRetries := by
  unfold whenOther at ran
  split at ran
  · rename_i already
    obtain ⟨rfl,-⟩ := ran
    exact ⟨rfl,Nat.zero_le _,fun rest => by simp [SocReset,rddmRetries,delayus,already]⟩
  · rename_i other
    obtain ⟨statuses,few,seen,ended,none,views,ends⟩ := forced ran
    refine ⟨statuses,few,fun rest => ?_⟩
    rw [views,List.append_assoc]
    have size : rddmRetries = 99+1 := rfl
    rw [size,List.take_succ_cons]
    rcases ends with ⟨reset,late⟩ | ⟨unreset,early,found⟩
    · have within : (seen ++ (ended ++ rest)).take 99 = seen.take 99 := List.take_append_of_le_length (by omega)
      rw [within]
      have unseen : ExecEnv.rddm.code ∉ seen.take 99 := fun inside => none (List.mem_of_mem_take inside)
      simp [reset,unseen,Ne.symm other]
    · obtain ⟨k,room⟩ : ∃ k, 99 = seen.length+(k+1) := ⟨98-seen.length,by omega⟩
      cases ended with
      | nil => cases found
      | cons e ended =>
        cases found
        simp [unreset,room,List.take_append]

def download (n : Nat) : Boot (Option Errno) := (awaitCompl n).bind fun
  | some ret => .pure ret
  | none => getExecEnv.bind fun _ => .ask (.read .bhie bhieRxvecstatus) fun _ => .pure (some .eio)

def Completed (n : Nat) (statuses : List (Except Errno Nat)) : Prop :=
  ∃ before, (∀ status ∈ before, Busy status) ∧ before.length < n ∧ statuses = before ++ [.ok xferCompl]

theorem downloaded {ret : Option Errno} (ran : (download n).Leaves es (.went ret)) :
    ¬SocReset es ∧ delays es ≤ n ∧ (ret = none ↔ Completed n (statuses es)) := by
  obtain ⟨out,z,w,rfl,loop,last⟩ := Talk.bindWent.mp ran
  obtain ⟨-,noReset,few,before,busy,ends⟩ := awaited loop
  cases out with
  | some out =>
    obtain ⟨rfl,same⟩ := last
    cases same
    rw [List.append_nil]
    refine ⟨noReset,few,?_⟩
    revert ends
    generalize statuses z = seen
    rintro (_ | short | _)
    · exact ⟨fun _ => ⟨before,busy,short,rfl⟩,fun _ => rfl⟩
    · refine ⟨nofun,?_⟩
      rintro ⟨earlier,-,-,same⟩
      exact absurd (List.append_inj' same rfl).2 (by simp)
  | none =>
    obtain ⟨ee,v,_,rfl,look,_,_,rfl,rfl,same⟩ := Talk.bindWent.mp last
    cases same
    have final := looked look
    have unreset := final.reset
    refine ⟨?_,?_,nofun,?_⟩
    · simp only [SocReset] at unreset noReset
      simp [SocReset,unreset,noReset]
    · have still : delays [⟨.read .bhie bhieRxvecstatus,by assumption⟩] = 0 := by simp [delays]
      simpa [final.delays,still] using few
    · rintro ⟨earlier,-,short,same⟩
      obtain ⟨all,long⟩ := ends.ranOut
      have counted := congrArg List.length same
      simp [all,final.statuses] at counted
      omega

/- The dump is there exactly if the status says so before the polls run out and before it
cannot be read. The device is reset unless one of its first looks has shown the dump mode. -/
theorem panicExact {timeoutMs : Nat} {ret : Option Errno} (ran : (mhiDownloadRddmInPanic timeoutMs).Leaves es (.went ret)) :
    (SocReset es ↔ ExecEnv.rddm.code ∉ (envs es).take rddmRetries) ∧
    (ret = none ↔ Completed (retriesOf timeoutMs) (statuses es)) ∧
      delays es ≤ rddmRetries+1+retriesOf timeoutMs := by
  obtain ⟨ee,x,_,rfl,look,ran⟩ := Talk.bindWent.mp ran
  obtain ⟨_,y,z,rfl,mode,last⟩ := Talk.bindWent.mp ran
  have first := looked look
  have unreset := first.reset
  obtain ⟨noStatuses,soon,reset⟩ := modeReached mode
  obtain ⟨noReset,few,result⟩ := downloaded last
  refine ⟨?_,?_,by simp [first.delays]; omega⟩
  · have views : envs (x ++ (y ++ z)) = ee :: (envs y ++ envs z) := by simp [first.envs]
    rw [views,← reset]
    simp only [SocReset] at unreset noReset
    simp [SocReset,unreset,noReset]
  · have views : statuses (x ++ (y ++ z)) = statuses z := by simp [first.statuses,noStatuses]
    rw [views]
    exact result

end Panic

namespace Sample

def compl : Nat := 2*2^30

def panic : List Access := [⟨.read .bhi bhiExecenv,.ok 2⟩,⟨.read .mhi mhictrl,.ok 0⟩,⟨.write .mhi mhictrl 0xff00,()⟩,
  ⟨.read .bhi bhiExecenv,.ok 2⟩,⟨.delay,()⟩,⟨.read .bhi bhiExecenv,.ok 3⟩,⟨.read .bhi bhiExecenv,.ok 3⟩,
  ⟨.read .bhie bhieRxvecstatus,.ok 0⟩,⟨.delay,()⟩,⟨.read .bhie bhieRxvecstatus,.ok compl⟩]

theorem panicExactRuns : (SocReset panic ↔ ExecEnv.rddm.code ∉ (envs panic).take rddmRetries) ∧
    ((none : Option Errno) = none ↔ Completed (retriesOf 4) (statuses panic)) ∧ delays panic ≤ rddmRetries+1+retriesOf 4 :=
  panicExact (Talk.followLeaves (by decide +kernel))

end Sample

def sleptTurn (s : Bool × Nat) : Boot ((Bool × Nat) ⊕ Nat) := .ask (.read .bhie bhieRxvecstatus) fun r =>
  match PowerUp.mhiReadRegField r statusMask statusShift with
  | .error _ => .pure (.inr s.2)
  | .ok rxStatus => if rxStatus ≠ 0 ∨ s.1 = true then .pure (.inr rxStatus) else .ask .sleep fun out =>
      .pure (.inl (out,rxStatus))

def mhiDownloadRddmImg (fuel junk timeoutMs : Nat) (inPanic : Bool) : Boot (Option Errno) :=
  if inPanic then mhiDownloadRddmInPanic timeoutMs
  else (Talk.loop sleptTurn fuel (false,junk)).bind fun rxStatus => .pure (if rxStatus = xferCompl then none else some .eio)

def lastSaid (junk : Nat) (reads : List (Except Errno Nat)) : Nat := reads.foldl (fun s r => r.toOption.getD s) junk

section Sleep
variable {es : List Access} {fuel junk timeoutMs : Nat}

theorem sleptSaid {s : Bool × Nat} {rxStatus : Nat} (turns : Talk.Turns sleptTurn s es rxStatus) :
    lastSaid s.2 (statuses es) = rxStatus := by
  induction turns with
  | last ran =>
    obtain ⟨r,_,rfl,ran⟩ := ran
    cases r with
    | error err =>
      obtain ⟨rfl,same⟩ := ran
      cases same
      rfl
    | ok word =>
      dsimp only [PowerUp.mhiReadRegField] at ran
      split at ran
      · obtain ⟨rfl,same⟩ := ran
        cases same
        rfl
      · obtain ⟨_,_,rfl,-,same⟩ := ran
        cases same
  | more ran _ ih =>
    obtain ⟨r,_,rfl,ran⟩ := ran
    cases r with
    | error err => cases ran.2
    | ok word =>
      dsimp only [PowerUp.mhiReadRegField] at ran
      split at ran
      · cases ran.2
      · obtain ⟨_,_,rfl,rfl,same⟩ := ran
        cases same
        exact ih

theorem sleptExact {ret : Option Errno} (ran : (mhiDownloadRddmImg fuel junk timeoutMs false).Leaves es (.went ret)) :
    ret = none ↔ lastSaid junk (statuses es) = xferCompl := by
  obtain ⟨rxStatus,x,_,rfl,loop,rfl,same⟩ := Talk.bindWent.mp ran
  cases same
  have said := sleptSaid (Talk.loopTurns loop)
  rw [List.append_nil,said]
  simp

end Sleep

def fill : Nat → Nat → List MhiBuf → List BhiVecEntry → Boot (List MhiBuf)
  | _,0,bufs,_ => .pure bufs
  | table,n+1,b::bufs,_::vec => .ask (.store table (entry b.dmaAddr b.len)) fun _ => fill (table+16) n bufs vec
  | _,_,_,_ => .stop

def butLast : Nat → Nat
  | 0 => 2^32-1
  | n+1 => n

def mhiRddmPrepare (image : ImageInfo) : Boot Unit :=
  (fill (tableOf image).1 (butLast image.entries) image.mhiBuf image.bhiVec).bind fun
    | [] => .stop
    | b::_ =>
      (writeReg .bhie bhieRxvecaddrHigh (upper32Bits b.dmaAddr)).bind fun _ =>
      (writeReg .bhie bhieRxvecaddrLow (lower32Bits b.dmaAddr)).bind fun _ =>
      (writeReg .bhie bhieRxvecsize b.len).bind fun _ => .ask .random fun r =>
        writeRegField .bhie bhieRxvecdb seqnumBmsk 0 (r.val+1)

def segment (b : MhiBuf) : Nat × Nat := (b.dmaAddr,b.len)

section Prepare
variable {d : Dev} {es : List Access} {table n : Nat} {bufs rest : List MhiBuf} {image : ImageInfo} {segLen size : Nat}

theorem filled {vec : List BhiVecEntry} (ran : (fill table n bufs vec).Leaves es (.went rest)) :
    d.run es = {d with mem := writeTable d.mem table ((bufs.take n).map segment)} ∧ rest = bufs.drop n := by
  induction n generalizing d table bufs vec es with
  | zero =>
    have ended : es = [] ∧ (Outcome.went rest : Outcome (List MhiBuf)) = .went bufs := by
      unfold fill at ran
      exact ran
    obtain ⟨rfl,same⟩ := ended
    cases same
    exact ⟨rfl,rfl⟩
  | succ n ih =>
    cases bufs with
    | nil => simp [fill] at ran
    | cons b bufs =>
      cases vec with
      | nil => simp [fill] at ran
      | cons v vec =>
        obtain ⟨_,later,rfl,ran⟩ := ran
        obtain ⟨stored,same⟩ := ih (d := {d with mem := store d.mem table (entry b.dmaAddr b.len)}) ran
        exact ⟨stored,same⟩

theorem rxTold {b : MhiBuf} {u : Unit} (low : b.dmaAddr < 2^64) (short : b.len < 2^32)
    (ran : ((writeReg .bhie bhieRxvecaddrHigh (upper32Bits b.dmaAddr)).bind fun _ =>
      (writeReg .bhie bhieRxvecaddrLow (lower32Bits b.dmaAddr)).bind fun _ => (writeReg .bhie bhieRxvecsize b.len).bind fun _ =>
        .ask .random fun r => writeRegField .bhie bhieRxvecdb seqnumBmsk 0 (r.val+1) : Boot Unit).Leaves es (.went u)) :
    (d.run es).mem = d.mem ∧ ((∃ err, ⟨.read .bhie bhieRxvecdb,.error err⟩ ∈ es) ∨
      ∃ seq, 0 < seq ∧ seq ≤ seqnumBmsk ∧ (d.run es).dumps = d.dumps ++ [(seq,entries d.mem b.dmaAddr (b.len / 16))]) := by
  simp only [Talk.bindWent,writeWent,writeRegField,Talk.askLeaves] at ran
  obtain ⟨_,_,_,rfl,rfl,_,_,_,rfl,rfl,_,_,_,rfl,rfl,r,_,rfl,tmp,_,rfl,rung⟩ := ran
  cases tmp with
  | error err =>
    obtain ⟨rfl,-⟩ := rung
    refine ⟨?_,.inl ⟨err,by simp⟩⟩
    simp [Dev.run,Dev.hear,Dev.write,bhieRxvecaddrHigh,bhieRxvecaddrLow,bhieRxvecsize,bhieRxvecdb,bhieTxvecdb]
  | ok tmp =>
    cases writeWent.mp rung
    have fits : r.val+1 ≤ seqnumBmsk := r.isLt
    have word : BitField.insert tmp seqnumBmsk 0 (r.val+1) % 4294967296 = BitField.insert tmp seqnumBmsk 0 (r.val+1) :=
      Nat.mod_eq_of_lt (fieldWord tmp fits)
    have size : b.len % 4294967296 = b.len := Nat.mod_eq_of_lt short
    have place : upper32Bits b.dmaAddr % 4294967296*4294967296+lower32Bits b.dmaAddr % 4294967296 = b.dmaAddr := bothHalves low
    refine ⟨?_,.inr ⟨r.val+1,Nat.succ_pos _,fits,?_⟩⟩
    · simp [Dev.run,Dev.hear,Dev.write,bhieRxvecaddrHigh,bhieRxvecaddrLow,bhieRxvecsize,bhieRxvecdb,bhieTxvecdb]
    · simp [Dev.run,Dev.hear,Dev.write,bhieRxvecaddrHigh,bhieRxvecaddrLow,bhieRxvecsize,bhieRxvecdb,bhieTxvecdb,Dev.addr,word,size,place,
        fieldSeq tmp fits]

structure Captures (mem : Mem) (table : Nat) (segs : List (Nat × Nat)) (size : Nat) : Prop where
  kept : ∀ dump, entries (scatter mem segs dump) table segs.length = segs
  whole : ∀ dump : Bytes, dump.length ≤ size → dump <+: segs.flatMap fun s => load (scatter mem segs dump) s.1 s.2

theorem rddmArmed {a : TableAnswers} {u : Unit} (positive : 1 ≤ segLen) (word : segLen < wordSpan)
    (round : size+segLen-1 < wordSpan)
    (short : 16*((size+segLen-1) / segLen) < 2^32) (ok : (mhiAllocBhieTable segLen size a).image = some image)
    (beside : image.mhiBuf.Pairwise BootSession.Beside) (low : ∀ b ∈ image.mhiBuf, b.dmaAddr < 2^64)
    (ran : (mhiRddmPrepare image).Leaves es (.went u)) :
    ((∃ err, ⟨.read .bhie bhieRxvecdb,.error err⟩ ∈ es) ∨ ∃ seq, 0 < seq ∧ seq ≤ seqnumBmsk ∧
      (d.run es).dumps = d.dumps ++ [(seq,image.mhiBuf.dropLast.map segment)]) ∧
      Captures (d.run es).mem (tableOf image).1 (image.mhiBuf.dropLast.map segment) size := by
  obtain ⟨counted,many,shape⟩ := allocated ok
  have fits : Fits segLen size := ⟨round,by omega⟩
  have number := segmentsFit fits counted
  rcases shape with ⟨zero,-⟩ | ⟨n,count,made,-⟩
  · omega
  have long := made.length
  obtain ⟨last,found,lastLen⟩ := made.getLast
  rw [Nat.zero_add,sizeofBhiVecEntry] at lastLen
  have data : image.mhiBuf.dropLast = image.mhiBuf.take n := by rw [List.dropLast_eq_take,long,Nat.add_sub_cancel]
  have split : image.mhiBuf = image.mhiBuf.take n ++ [last] := by
    rw [← data]
    exact (List.dropLast_append_getLast? last found).symm
  have final : image.mhiBuf.drop n = [last] := by
    have parts := (List.take_append_drop n image.mhiBuf).trans split
    exact List.append_cancel_left parts
  have place : tableOf image = (last.dmaAddr,16*n) := by
    rw [tableOf,found]
    exact Prod.ext rfl lastLen
  have turns : butLast image.entries = n := by
    rw [many,count]
    rfl
  unfold mhiRddmPrepare at ran
  rw [turns,place] at ran
  obtain ⟨rest,x,y,rfl,copied,told⟩ := Talk.bindWent.mp ran
  obtain ⟨stored,rfl⟩ := filled (d := d) copied
  rw [final] at told
  have inside : last ∈ image.mhiBuf := List.mem_of_getLast? found
  obtain ⟨same,rung⟩ := rxTold (d := d.run x) (low last inside) (by omega) told
  have words : ∀ s ∈ (image.mhiBuf.take n).map segment, s.1 < 256^8 ∧ s.2 < 256^8 := by
    intro s member
    obtain ⟨b,there,rfl⟩ := List.mem_map.mp member
    have small := low b (List.mem_of_mem_take there)
    have size := segmentsData made b there
    unfold wordSpan at word
    simp only [segment]
    omega
  have count : ((image.mhiBuf.take n).map segment).length = n := by simp [long]
  have table := @entriesWritten d.mem last.dmaAddr _ words
  rw [count] at table
  have memory : (d.run (x ++ y)).mem = writeTable d.mem last.dmaAddr ((image.mhiBuf.take n).map segment) := by
    rw [Dev.runAppend,same,stored]
  rw [split] at beside
  obtain ⟨apart,-,aside⟩ := List.pairwise_append.mp beside
  rw [memory,data,place]
  refine ⟨?_,fun dump => ?_,fun dump short => scattered ?_ ?_⟩
  · rcases rung with ⟨err,unread⟩ | ⟨seq,above,low,rung⟩
    · exact .inl ⟨err,List.mem_append_right _ unread⟩
    · refine .inr ⟨seq,above,low,?_⟩
      rw [Dev.runAppend,rung,stored,lastLen,Nat.mul_div_cancel_left n (by decide),table]
  · have kept : load (scatter (writeTable d.mem last.dmaAddr ((image.mhiBuf.take n).map segment)) ((image.mhiBuf.take n).map segment) dump)
        last.dmaAddr (16*n) = load (writeTable d.mem last.dmaAddr ((image.mhiBuf.take n).map segment)) last.dmaAddr (16*n) := by
      refine scatterFrame fun s member => ?_
      obtain ⟨b,there,rfl⟩ := List.mem_map.mp member
      have room := aside b there last List.mem_cons_self
      unfold BootSession.Beside at room
      rw [lastLen] at room
      exact room.symm
    rw [count]
    exact (entriesSame kept).trans table
  · exact List.pairwise_map.mpr apart
  · have capacity := made.capacity (Nat.le_refl n)
    have lens : ((image.mhiBuf.take n).map segment).map Prod.snd = (image.mhiBuf.take n).map MhiBuf.len := by
      simp [segment,Function.comp_def]
    rw [lens,capacity]
    have quotient : n = (size+segLen-1) / segLen := by omega
    have enough := Nat.lt_mul_div_succ (size+segLen-1) positive
    rw [← quotient,Nat.mul_add,Nat.mul_comm] at enough
    omega

end Prepare

namespace Sample
open BootSession.Sample (buffers segments blank placed)

def prepared : List Access := [⟨.store 0x4000 (entry 0x2000 2),()⟩,⟨.store 0x4010 (entry 0x3000 2),()⟩,⟨.write .bhie bhieRxvecaddrHigh 0,()⟩,
  ⟨.write .bhie bhieRxvecaddrLow 0x4000,()⟩,⟨.write .bhie bhieRxvecsize 32,()⟩,⟨.random,⟨0,BootSession.Sample.seqnumPositive⟩⟩,⟨.read .bhie bhieRxvecdb,.ok 0⟩,
  ⟨.write .bhie bhieRxvecdb 1,()⟩]

theorem rddmArmedRuns : ((∃ err, ⟨.read .bhie bhieRxvecdb,.error err⟩ ∈ prepared) ∨ ∃ seq, 0 < seq ∧ seq ≤ seqnumBmsk ∧
      (blank.run prepared).dumps = blank.dumps ++ [(seq,buffers.dropLast.map segment)]) ∧
    Captures (blank.run prepared).mem (tableOf ⟨buffers,vectorTable buffers,3⟩).1 (buffers.dropLast.map segment) 3 :=
  @rddmArmed blank prepared _ 2 3 placed () (by decide) (by decide) (by decide) (by decide) segments
    (by simp [buffers,BootSession.Beside,Apart]) (by simp [buffers])
    (Talk.followLeaves (by decide +kernel))

end Sample

end MhiHost.Rddm
