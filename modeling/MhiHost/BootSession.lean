import MhiHost.BitField
import MhiHost.FirmwareLoad
import MhiHost.PowerUp
import MhiHost.SharedMemory
import MhiHost.Talk
import Mathlib.Algebra.Order.BigOperators.Group.List
import Mathlib.Algebra.Order.Ring.Nat

/-! `boot.c` as a conversation with the device: what `mhi_fw_load_handler` writes to the
registers and to the memory that the device reads, and what it makes of the answers. The
device takes an image when its doorbell is written, from wherever the registers say. -/
namespace MhiHost.BootSession
open Wire (Bytes)
open BhieTable
open SharedMemory

inductive Bank where
  | mhi | bhi | bhie
  deriving DecidableEq, Repr

def seqnumBmsk : Nat := 0x3fffffff
def statusMask : Nat := 0xc0000000
def statusShift : Nat := 30

inductive Query where
  | read (bank : Bank) (offset : Nat)
  | write (bank : Bank) (offset val : Nat)
  | store (addr : Nat) (bytes : Bytes)
  | random
  | accessValid
  | errorState
  | sleep
  | delay
  | ee
  | firmware (edl : Bool)
  | coherent (size : Nat)
  | table (size : Nat)
  | ready
  | inSbl
  deriving DecidableEq, Repr

/- `prandom_u32_max` stays below its bound; the sleeper is told whether its time is up;
`ready` is the return value of `mhi_ready_state_transition`. -/
abbrev Answer : Query → Type
  | .read _ _ => Except Errno Nat
  | .write _ _ _ | .store _ _ | .delay => Unit
  | .random => Fin seqnumBmsk
  | .accessValid | .errorState | .sleep | .inSbl => Bool
  | .ee => ExecEnv
  | .firmware _ => Option Bytes
  | .coherent _ => Option Nat
  | .table _ => TableAnswers
  | .ready => Option Errno

abbrev Boot := Talk Query Answer
abbrev Access := Exchange Query Answer

def writeReg (bank : Bank) (offset val : Nat) : Boot Unit := .ask (.write bank offset (val % 2^32)) fun _ => .pure ()

def writeRegField (bank : Bank) (offset mask shift val : Nat) : Boot Unit := .ask (.read bank offset) fun
  | .error _ => .pure ()
  | .ok tmp => writeReg bank offset (BitField.insert tmp mask shift val)

def upper32Bits (addr : Nat) : Nat := addr / 2^32
def lower32Bits (addr : Nat) : Nat := addr % 2^32

/- The condition of the waits, with whether the time is up and what the status variable
holds: a register that cannot be read ends the wait and leaves the variable as it was. -/
def waitTurn (bank : Bank) (offset : Nat) (s : Bool × Nat) : Boot ((Bool × Nat) ⊕ (Bool × Nat)) := .ask .errorState fun
  | true => .pure (.inr (true,s.2))
  | false => .ask (.read bank offset) fun r => match PowerUp.mhiReadRegField r statusMask statusShift with
    | .error _ => .pure (.inr (true,s.2))
    | .ok status =>
      if status ≠ 0 then .pure (.inr (true,status))
      else if s.1 then .pure (.inr (false,status))
      else .ask .sleep fun out => .pure (.inl (out,status))

def waitStatus (bank : Bank) (offset fuel junk : Nat) : Boot (Bool × Nat) := .loop (waitTurn bank offset) fuel (false,junk)

def bhieTxvecaddrLow : Nat := 0x2c
def bhieTxvecaddrHigh : Nat := 0x30
def bhieTxvecsize : Nat := 0x34
def bhieTxvecdb : Nat := 0x3c
def bhieTxvecstatus : Nat := 0x44
def xferCompl : Nat := 2

def mhiFwLoadAmss (fuel junk dmaAddr len : Nat) : Boot (Option Errno) := .ask .accessValid fun
  | false => .pure (some .eio)
  | true => .ask .random fun r =>
    (writeReg .bhie bhieTxvecaddrHigh (upper32Bits dmaAddr)).bind fun _ =>
    (writeReg .bhie bhieTxvecaddrLow (lower32Bits dmaAddr)).bind fun _ =>
    (writeReg .bhie bhieTxvecsize len).bind fun _ =>
    (writeRegField .bhie bhieTxvecdb seqnumBmsk 0 (r.val+1)).bind fun _ =>
    (waitStatus .bhie bhieTxvecstatus fuel junk).bind fun w => .ask .errorState fun bad =>
      .pure (if bad || decide (w.2 ≠ xferCompl) then some .eio else if w.1 then none else some .etimedout)

def bhiImgaddrLow : Nat := 0x08
def bhiImgaddrHigh : Nat := 0x0c
def bhiImgsize : Nat := 0x10
def bhiImgtxdb : Nat := 0x18
def bhiStatus : Nat := 0x2c
def bhiStatusError : Nat := 3
def errorReg : List Nat := [0x30,0x34,0x38,0x3c]

def readAll (bank : Bank) : List Nat → Boot Unit
  | [] => .pure ()
  | offset::offsets => .ask (.read bank offset) fun
    | .error _ => .pure ()
    | .ok _ => readAll bank offsets

def mhiFwLoadSbl (fuel junk dmaAddr size : Nat) : Boot (Option Errno) := .ask .accessValid fun
  | false => .pure (some .eio)
  | true => .ask .random fun r =>
    (writeReg .bhi bhiStatus 0).bind fun _ =>
    (writeReg .bhi bhiImgaddrHigh (upper32Bits dmaAddr)).bind fun _ =>
    (writeReg .bhi bhiImgaddrLow (lower32Bits dmaAddr)).bind fun _ =>
    (writeReg .bhi bhiImgsize size).bind fun _ =>
    (writeReg .bhi bhiImgtxdb (r.val+1)).bind fun _ =>
    (waitStatus .bhi bhiStatus fuel junk).bind fun w => .ask .errorState fun
      | true => .pure (some .eio)
      | false =>
        if w.2 = bhiStatusError then .ask .accessValid fun valid =>
          (if valid then readAll .bhi errorReg else .pure ()).bind fun _ => .pure (some .eio)
        else .pure (if w.1 then none else some .etimedout)

def copy : Nat → List MhiBuf → List BhiVecEntry → Bytes → Boot Unit
  | _,_,_,[] => .pure ()
  | table,b::bufs,_::vec,byte::data =>
    let toCpy := min (byte::data).length b.len
    .ask (.store b.dmaAddr ((byte::data).take toCpy)) fun _ =>
    .ask (.store table (entry b.dmaAddr toCpy)) fun _ => copy (table+16) bufs vec ((byte::data).drop toCpy)
  | _,_,_,_ => .stop

def tableOf (image : ImageInfo) : Nat × Nat := image.mhiBuf.getLast?.elim (0,0) fun b => (b.dmaAddr,b.len)

def mhiFirmwareCopy (image : ImageInfo) (firmware : Bytes) : Boot Unit :=
  copy (tableOf image).1 image.mhiBuf image.bhiVec firmware

structure Config where
  fbcDownload : Bool
  sblSize : Nat
  segLen : Nat
  fwImage : Bool
  edlImage : Bool

inductive Exit where
  | early
  | sbl (err : Errno)
  | edl
  | noTable
  | notReady
  | readied
  | notSbl
  | amss (err : Option Errno)
  deriving DecidableEq, Repr

/- `fw_load_ee_pthru`. Without a table the last step dereferences a null pointer. -/
def fwLoadEePthru (cfg : Config) (fuel junk : Nat) (image : Option ImageInfo) : Boot Exit := .ask .ready fun ret =>
  if !cfg.fbcDownload then .pure .readied
  else match ret with
    | some _ => .pure .notReady
    | none => .ask .inSbl fun
      | false => .pure .notSbl
      | true => .ask .errorState fun
        | true => .pure .notSbl
        | false => match image with
          | none => .stop
          | some image => (mhiFwLoadAmss fuel junk (tableOf image).1 (tableOf image).2).bind fun ret => .pure (.amss ret)

def loadTable (cfg : Config) (fuel junk : Nat) (firmware : Bytes) (image : Option ImageInfo) : Boot Exit :=
  if cfg.fbcDownload then .ask (.table firmware.length) fun a => match (mhiAllocBhieTable cfg.segLen firmware.length a).image with
    | none => .pure .noTable
    | some image => (mhiFirmwareCopy image firmware).bind fun _ => fwLoadEePthru cfg fuel junk (some image)
  else fwLoadEePthru cfg fuel junk image

def sblSizeOf (cfg : Config) (firmware : Bytes) : Nat :=
  if cfg.fbcDownload then min cfg.sblSize firmware.length else firmware.length

def bhiSerialnu : Nat := 0x40
def bhiOempkhash (n : Nat) : Nat := 0x64+4*n

def releasedEarly (cfg : Config) : Boot Bool := if cfg.fbcDownload then .ask .ee fun ee => .pure (ee = .edl) else .pure true

/- `image` is a table from before, which only the pass through uses. The environment is read
each time: a file that was given back is no longer there. -/
def mhiFwLoadHandler (cfg : Config) (fuel junk : Nat) (image : Option ImageInfo) : Boot Exit := .ask .errorState fun
  | true => .pure .early
  | false => .ask (.read .bhi bhiSerialnu) fun _ => (readAll .bhi ((List.range 16).map bhiOempkhash)).bind fun _ =>
      .ask .ee fun ee =>
    if ee = .pthru then fwLoadEePthru cfg fuel junk image
    else .ask .ee fun named =>
      let edl := decide (named = .edl)
      if !(if edl then cfg.edlImage else cfg.fwImage) || (cfg.fbcDownload && (cfg.sblSize == 0 || cfg.segLen == 0)) then .pure .early
      else .ask (.firmware edl) fun firmware => match firmware with
        | none => .pure .early
        | some firmware => .ask (.coherent (sblSizeOf cfg firmware)) fun addr => match addr with
          | none => .pure .early
          | some addr => .ask (.store addr (firmware.take (sblSizeOf cfg firmware))) fun _ =>
            (mhiFwLoadSbl fuel junk addr (sblSizeOf cfg firmware)).bind fun ret => match ret with
              | some err => .pure (.sbl err)
              | none => (releasedEarly cfg).bind fun released => .ask .ee fun loaded =>
                if loaded = .edl then .pure .edl else if cfg.fbcDownload && released then .stop
                else loadTable cfg fuel junk firmware image

def bhieRxvecaddrLow : Nat := 0x60
def bhieRxvecaddrHigh : Nat := 0x64
def bhieRxvecsize : Nat := 0x68
def bhieRxvecdb : Nat := 0x70

/- The device: the memory and the registers it sees, the images it has been told to take and
the tables it has been told to dump into, each with the sequence number of its doorbell. -/
structure Dev where
  mem : Mem
  reg : Bank → Nat → Nat
  sbl : List (Nat × Bytes)
  amss : List (Nat × Bytes)
  dumps : List (Nat × List (Nat × Nat))

namespace Dev

def addr (d : Dev) (bank : Bank) (high low : Nat) : Nat := d.reg bank high*2^32+d.reg bank low

def write (d : Dev) (bank : Bank) (offset val : Nat) : Dev :=
  let d := {d with reg := fun b o => if b = bank ∧ o = offset then val else d.reg b o}
  if bank = .bhi ∧ offset = bhiImgtxdb then
    {d with sbl := d.sbl ++ [(val &&& seqnumBmsk,load d.mem (d.addr .bhi bhiImgaddrHigh bhiImgaddrLow) (d.reg .bhi bhiImgsize))]}
  else if bank = .bhie ∧ offset = bhieTxvecdb then
    {d with amss := d.amss ++
      [(val &&& seqnumBmsk,gather d.mem (d.addr .bhie bhieTxvecaddrHigh bhieTxvecaddrLow) (d.reg .bhie bhieTxvecsize / 16))]}
  else if bank = .bhie ∧ offset = bhieRxvecdb then
    {d with dumps := d.dumps ++
      [(val &&& seqnumBmsk,entries d.mem (d.addr .bhie bhieRxvecaddrHigh bhieRxvecaddrLow) (d.reg .bhie bhieRxvecsize / 16))]}
  else d

def hear (d : Dev) : Access → Dev
  | ⟨.write bank offset val,_⟩ => d.write bank offset val
  | ⟨.store a bytes,_⟩ => {d with mem := SharedMemory.store d.mem a bytes}
  | _ => d

def run (d : Dev) (es : List Access) : Dev := es.foldl hear d

theorem runAppend (d : Dev) (es fs : List Access) : d.run (es ++ fs) = (d.run es).run fs := List.foldl_append

end Dev

def Quiet : Query → Prop
  | .write _ _ _ | .store _ _ => False
  | _ => True

theorem quietRun {d : Dev} {es : List Access} (quiet : ∀ step ∈ es, Quiet step.1) : d.run es = d := by
  induction es with
  | nil => rfl
  | cons step es ih =>
    have first : d.hear step = d := by
      have still := quiet step List.mem_cons_self
      obtain ⟨q,a⟩ := step
      cases q <;> first | exact still.elim | rfl
    rw [Dev.run,List.foldl_cons,first]
    exact ih fun step inside => quiet step (List.mem_cons_of_mem _ inside)

theorem turnQuiet (bank : Bank) (offset : Nat) (s : Bool × Nat) : (waitTurn bank offset s).Only Quiet := by
  refine ⟨trivial,fun bad => ?_⟩
  cases bad with
  | true => trivial
  | false =>
    refine ⟨trivial,fun r => ?_⟩
    dsimp only
    split
    · trivial
    split
    · trivial
    split
    · trivial
    · exact ⟨trivial,fun _ => trivial⟩

theorem waitQuiet (bank : Bank) (offset fuel junk : Nat) : (waitStatus bank offset fuel junk).Only Quiet :=
  Talk.onlyLoop (turnQuiet bank offset) fuel _

def Reads : Query → Prop
  | .read _ _ => True
  | _ => False

theorem Reads.quiet {q : Query} (reads : Reads q) : Quiet q := by
  cases q <;> trivial

theorem readAllReads (bank : Bank) (offsets : List Nat) : (readAll bank offsets).Only Reads := by
  induction offsets with
  | nil => trivial
  | cons offset offsets ih =>
    refine ⟨trivial,fun r => ?_⟩
    cases r with
    | error _ => trivial
    | ok _ => exact ih

theorem seqSpans : BitField.Spans seqnumBmsk 0 30 := ⟨rfl,by decide⟩

theorem fieldSeq (tmp : Nat) {seq : Nat} (fits : seq ≤ seqnumBmsk) : BitField.insert tmp seqnumBmsk 0 seq &&& seqnumBmsk = seq :=
  BitField.extractInsert seqSpans (Nat.lt_of_le_of_lt fits (by decide))

theorem seqKept {seq : Nat} (fits : seq ≤ seqnumBmsk) : seq &&& seqnumBmsk = seq := by
  have mask : seqnumBmsk = 2^30-1 := rfl
  rw [mask,Nat.and_two_pow_sub_one_eq_mod]
  exact Nat.mod_eq_of_lt (by omega)

theorem fieldWord (tmp : Nat) {seq : Nat} (fits : seq ≤ seqnumBmsk) : BitField.insert tmp seqnumBmsk 0 seq < 2^32 :=
  BitField.insertWord seqSpans (Nat.lt_of_le_of_lt fits (by decide))

section Told
variable {d : Dev} {es : List Access} {fuel junk dma len : Nat}

theorem writeWent {bank : Bank} {offset val : Nat} {u : Unit} :
    (writeReg bank offset val).Leaves es (.went u) ↔ es = [⟨.write bank offset (val % 2^32),()⟩] := by
  constructor
  · rintro ⟨_,_,rfl,rfl,-⟩
    rfl
  · rintro rfl
    exact ⟨(),[],rfl,rfl,rfl⟩

theorem bothHalves {dma : Nat} (low : dma < 2^64) : upper32Bits dma % 2^32*2^32+lower32Bits dma % 2^32 = dma := by
  unfold upper32Bits lower32Bits
  omega

theorem amssTold (ran : (mhiFwLoadAmss fuel junk dma len).Leaves es (.went none)) (low : dma < 2^64) (short : len < 2^32) :
    (d.run es).sbl = d.sbl ∧ ((∃ err, ⟨.read .bhie bhieTxvecdb,.error err⟩ ∈ es) ∨
      ∃ seq, 0 < seq ∧ seq ≤ seqnumBmsk ∧ (d.run es).amss = d.amss ++ [(seq,gather d.mem dma (len / 16))]) := by
  obtain ⟨valid,_,rfl,ran⟩ := ran
  cases valid with
  | false => simp at ran
  | true =>
    obtain ⟨r,_,rfl,ran⟩ := ran
    simp only [Talk.bindWent,writeWent,writeRegField,Talk.askLeaves] at ran
    obtain ⟨_,_,_,rfl,rfl,_,_,_,rfl,rfl,_,_,_,rfl,rfl,_,_,_,rfl,⟨tmp,_,rfl,rung⟩,w,x,_,rfl,waited,_,_,rfl,rfl,-⟩ := ran
    have quiet (d : Dev) : x.foldl Dev.hear d = d := quietRun (Talk.onlyAsked (waitQuiet _ _ _ _) waited)
    cases tmp with
    | error err =>
      obtain ⟨rfl,-⟩ := rung
      refine ⟨?_,.inl ⟨err,by simp⟩⟩
      simp [Dev.run,quiet,Dev.hear,Dev.write,bhieRxvecdb,bhieTxvecaddrHigh,bhieTxvecaddrLow,bhieTxvecsize,bhieTxvecdb]
    | ok tmp =>
      cases writeWent.mp rung
      have fits : r.val+1 ≤ seqnumBmsk := r.isLt
      have word : BitField.insert tmp seqnumBmsk 0 (r.val+1) % 4294967296 = BitField.insert tmp seqnumBmsk 0 (r.val+1) :=
        Nat.mod_eq_of_lt (fieldWord tmp fits)
      have size : len % 4294967296 = len := Nat.mod_eq_of_lt short
      have place : upper32Bits dma % 4294967296*4294967296+lower32Bits dma % 4294967296 = dma := bothHalves low
      refine ⟨?_,.inr ⟨r.val+1,Nat.succ_pos _,fits,?_⟩⟩
      · simp [Dev.run,quiet,Dev.hear,Dev.write,bhieRxvecdb,bhieTxvecaddrHigh,bhieTxvecaddrLow,bhieTxvecsize,bhieTxvecdb]
      · simp [Dev.run,quiet,Dev.hear,Dev.write,bhieRxvecdb,bhieTxvecaddrHigh,bhieTxvecaddrLow,bhieTxvecsize,bhieTxvecdb,Dev.addr,
          word,size,place,fieldSeq tmp fits]

theorem sblTold (ran : (mhiFwLoadSbl fuel junk dma len).Leaves es (.went none)) (low : dma < 2^64) (short : len < 2^32) :
    (d.run es).amss = d.amss ∧ ∃ seq, 0 < seq ∧ seq ≤ seqnumBmsk ∧ (d.run es).sbl = d.sbl ++ [(seq,load d.mem dma len)] := by
  obtain ⟨valid,_,rfl,ran⟩ := ran
  cases valid with
  | false => simp at ran
  | true =>
    obtain ⟨r,_,rfl,ran⟩ := ran
    simp only [Talk.bindWent,writeWent,Talk.askLeaves] at ran
    obtain ⟨_,_,_,rfl,rfl,_,_,_,rfl,rfl,_,_,_,rfl,rfl,_,_,_,rfl,rfl,_,_,_,rfl,rfl,w,x,_,rfl,waited,bad,rest,rfl,last⟩ := ran
    have quiet (d : Dev) : x.foldl Dev.hear d = d := quietRun (Talk.onlyAsked (waitQuiet _ _ _ _) waited)
    have ended : rest = [] := by
      cases bad with
      | true => exact absurd last.2 (by simp)
      | false =>
        dsimp only at last
        split at last
        · simp [Talk.bindWent,Talk.askLeaves] at last
        · exact last.1
    subst ended
    have fits : r.val+1 ≤ seqnumBmsk := r.isLt
    have word : (r.val+1) % 4294967296 = r.val+1 := Nat.mod_eq_of_lt (Nat.lt_of_le_of_lt fits (by decide))
    have seq : (r.val+1) &&& seqnumBmsk = r.val+1 := seqKept fits
    have size : len % 4294967296 = len := Nat.mod_eq_of_lt short
    have place : upper32Bits dma % 4294967296*4294967296+lower32Bits dma % 4294967296 = dma := bothHalves low
    refine ⟨?_,r.val+1,Nat.succ_pos _,fits,?_⟩
    · simp [Dev.run,quiet,Dev.hear,Dev.write,bhiStatus,bhiImgaddrHigh,bhiImgaddrLow,bhiImgsize,bhiImgtxdb]
    · simp [Dev.run,quiet,Dev.hear,Dev.write,bhiStatus,bhiImgaddrHigh,bhiImgaddrLow,bhiImgsize,bhiImgtxdb,Dev.addr,word,size,place,seq]

theorem turnSaid {bank : Bank} {offset : Nat} {s : Bool × Nat} {next : (Bool × Nat) ⊕ (Bool × Nat)}
    (ran : (waitTurn bank offset s).Leaves es (.went next)) : Sum.elim Prod.snd Prod.snd next = s.2 ∨
      ∃ v, ⟨.read bank offset,.ok v⟩ ∈ es ∧ (v &&& statusMask) >>> statusShift = Sum.elim Prod.snd Prod.snd next := by
  obtain ⟨bad,rest,rfl,ran⟩ := ran
  cases bad with
  | true =>
    cases ran.2
    exact .inl rfl
  | false =>
    obtain ⟨r,rest,rfl,ran⟩ := ran
    cases r with
    | error err =>
      cases ran.2
      exact .inl rfl
    | ok v =>
      refine .inr ⟨v,by simp,?_⟩
      simp only [PowerUp.mhiReadRegField] at ran
      split at ran
      · cases ran.2
        rfl
      split at ran
      · cases ran.2
        rfl
      · obtain ⟨out,_,rfl,-,same⟩ := ran
        cases same
        rfl

theorem waitSaid {bank : Bank} {offset : Nat} {w : Bool × Nat} (waited : (waitStatus bank offset fuel junk).Leaves es (.went w)) :
    w.2 = junk ∨ ∃ v, ⟨.read bank offset,.ok v⟩ ∈ es ∧ (v &&& statusMask) >>> statusShift = w.2 := by
  have all (s : Bool × Nat) (turns : Talk.Turns (waitTurn bank offset) s es w) :
      w.2 = s.2 ∨ ∃ v, ⟨.read bank offset,.ok v⟩ ∈ es ∧ (v &&& statusMask) >>> statusShift = w.2 := by
    clear waited
    induction turns with
    | last ran => exact turnSaid ran
    | more ran _ ih =>
      rcases ih with same | ⟨v,said,field⟩
      · rw [same]
        rcases turnSaid ran with before | ⟨v,said,field⟩
        · exact .inl before
        · exact .inr ⟨v,List.mem_append_left _ said,field⟩
      · exact .inr ⟨v,List.mem_append_right _ said,field⟩
  exact all _ (Talk.loopTurns waited)

end Told

def stores : Nat → List (Nat × Bytes) → List Access
  | _,[] => []
  | table,piece::pieces =>
    ⟨.store piece.1 piece.2,()⟩ :: ⟨.store table (entry piece.1 piece.2.length),()⟩ :: stores (table+16) pieces

def Dev.piece (d : Dev) (table : Nat) (p : Nat × Bytes) : Dev :=
  (d.hear ⟨.store p.1 p.2,()⟩).hear ⟨.store table (entry p.1 p.2.length),()⟩

structure Clear (table : Nat) (pieces : List (Nat × Bytes)) : Prop where
  beside : pieces.Pairwise fun p q => Apart p.1 p.2.length q.1 q.2.length
  aside : ∀ p ∈ pieces, Apart p.1 p.2.length table (16*pieces.length)
  inside : ∀ p ∈ pieces, p.1 < 256^8 ∧ p.2.length < 256^8

section Copy
variable {table : Nat} {pieces : List (Nat × Bytes)} {d : Dev}

theorem Clear.tail {piece : Nat × Bytes} (clear : Clear table (piece::pieces)) : Clear (table+16) pieces := by
  obtain ⟨beside,aside,inside⟩ := clear
  refine ⟨(List.pairwise_cons.mp beside).2,fun p member => ?_,fun p member => inside p (List.mem_cons_of_mem _ member)⟩
  have room := aside p (List.mem_cons_of_mem _ member)
  rw [List.length_cons] at room
  unfold Apart at room ⊢
  omega

theorem storesKeep {a : Nat} {bs : Bytes} (holds : Holds d.mem a bs) (clear : ∀ p ∈ pieces, Apart a bs.length p.1 p.2.length)
    (aside : Apart a bs.length table (16*pieces.length)) : Holds (d.run (stores table pieces)).mem a bs := by
  induction pieces generalizing d table with
  | nil => exact holds
  | cons piece pieces ih =>
    rw [List.length_cons] at aside
    have first : Holds (SharedMemory.store d.mem piece.1 piece.2) a bs := holds.apart (clear piece List.mem_cons_self)
    have second : Holds (SharedMemory.store (SharedMemory.store d.mem piece.1 piece.2) table (entry piece.1 piece.2.length)) a bs := by
      refine first.apart ?_
      rw [entryLength]
      unfold Apart at aside ⊢
      omega
    refine ih (d := d.piece table piece) second
      (fun p member => clear p (List.mem_cons_of_mem _ member)) ?_
    unfold Apart at aside ⊢
    omega

theorem storesSpread (clear : Clear table pieces) : Spread (d.run (stores table pieces)).mem table pieces := by
  induction pieces generalizing d table with
  | nil =>
    intro i piece found
    simp at found
  | cons piece pieces ih =>
    have rest := clear.tail
    obtain ⟨beside,aside,inside⟩ := clear
    have own := aside piece List.mem_cons_self
    rw [List.length_cons] at own
    intro i p found
    cases i with
    | zero =>
      cases Option.some.inj found
      have placed :
          Holds (SharedMemory.store (SharedMemory.store d.mem piece.1 piece.2) table (entry piece.1 piece.2.length)) piece.1 piece.2 := by
        refine (holdsStored d.mem piece.1 piece.2).apart ?_
        rw [entryLength]
        unfold Apart at own ⊢
        omega
      have named := holdsStored (SharedMemory.store d.mem piece.1 piece.2) table (entry piece.1 piece.2.length)
      have after {a : Nat} {bs : Bytes} := @storesKeep (table+16) pieces (d.piece table piece) a bs
      refine ⟨after named (fun q member => ?_) ?_,after placed (fun q member => (List.pairwise_cons.mp beside).1 q member) ?_,
        inside piece List.mem_cons_self⟩
      · have room := aside q (List.mem_cons_of_mem _ member)
        rw [List.length_cons] at room
        rw [entryLength]
        unfold Apart at room ⊢
        omega
      · rw [entryLength]
        unfold Apart
        omega
      · unfold Apart at own ⊢
        omega
    | succ i =>
      have later := @ih (table+16) (d.piece table piece) rest i p (by simpa using found)
      rw [show table+16*(i+1) = table+16+16*i by omega]
      exact later

theorem storesElse : (d.run (stores table pieces)).sbl = d.sbl ∧ (d.run (stores table pieces)).amss = d.amss := by
  induction pieces generalizing d table with
  | nil => exact ⟨rfl,rfl⟩
  | cons piece pieces ih =>
    exact ih (d := d.piece table piece)

theorem copyTold {bufs : List MhiBuf} {vec : List BhiVecEntry} {data : Bytes} {es : List Access} {u : Unit}
    (ran : (copy table bufs vec data).Leaves es (.went u)) : ∃ pieces : List (Nat × Bytes), es = stores table pieces ∧
      pieces.flatMap Prod.snd = data ∧ pieces.length ≤ vec.length ∧
      List.Forall₂ (fun p b => p.1 = b.dmaAddr ∧ p.2.length ≤ b.len) pieces (bufs.take pieces.length) := by
  induction bufs generalizing table vec data es with
  | nil =>
    cases data with
    | nil => exact ⟨[],ran.1,rfl,Nat.zero_le _,.nil⟩
    | cons byte data => simp [copy] at ran
  | cons b bufs ih =>
    cases data with
    | nil =>
      have empty : es = [] := by
        unfold copy at ran
        exact ran.1
      exact ⟨[],empty,rfl,Nat.zero_le _,.nil⟩
    | cons byte data =>
      cases vec with
      | nil => simp [copy] at ran
      | cons v vec =>
        obtain ⟨_,_,rfl,_,_,rfl,later⟩ := ran
        obtain ⟨pieces,rfl,whole,fewer,placed⟩ := ih later
        have long : ((byte::data).take (min (byte::data).length b.len)).length = min (byte::data).length b.len := by simp
        refine ⟨(b.dmaAddr,(byte::data).take (min (byte::data).length b.len))::pieces,?_,?_,?_,?_⟩
        · rw [stores,long]
        · rw [List.flatMap_cons,whole]
          exact List.take_append_drop _ _
        · simpa using fewer
        · refine .cons ⟨rfl,?_⟩ placed
          rw [long]
          exact Nat.min_le_right _ _

end Copy

def Beside (b c : MhiBuf) : Prop := Apart b.dmaAddr b.len c.dmaAddr c.len

def Honest (cfg : Config) : Access → Prop
  | ⟨.firmware _,some firmware⟩ => firmware.length < wordSpan ∧ sblSizeOf cfg firmware < 2^32 ∧
      16*((firmware.length+cfg.segLen-1) / cfg.segLen) < 2^32
  | ⟨.coherent _,some addr⟩ => addr < 2^64
  | ⟨.table size,a⟩ => ∀ image, (mhiAllocBhieTable cfg.segLen size a).image = some image →
      image.mhiBuf.Pairwise Beside ∧ ∀ b ∈ image.mhiBuf, b.dmaAddr < 2^64
  | _ => True

section Table
variable {d : Dev} {es : List Access} {firmware : Bytes} {image : ImageInfo} {segLen n : Nat}

theorem segmentsData {i : Nat} {bufs : List MhiBuf} (made : Segments segLen i (n+1) bufs) :
    ∀ b ∈ bufs.take n, b.len = segLen := by
  induction n generalizing i bufs with
  | zero => simp
  | succ n ih =>
    cases made with
    | data len rest =>
      intro b inside
      rcases List.mem_cons.mp inside with rfl | inside
      · exact len
      · exact ih rest b inside

theorem alongMember {α β : Type} {R : α → β → Prop} {l : List α} {k : List β} (same : List.Forall₂ R l k) {a : α}
    (inside : a ∈ l) :
    ∃ b ∈ k, R a b := by
  induction same with
  | nil => cases inside
  | @cons a' b l k first rest ih =>
    rcases List.mem_cons.mp inside with rfl | later
    · exact ⟨b,List.mem_cons_self,first⟩
    · obtain ⟨b,there,related⟩ := ih later
      exact ⟨b,List.mem_cons_of_mem _ there,related⟩

theorem alongPairwise {α β : Type} {R : α → β → Prop} {S : β → β → Prop} {T : α → α → Prop} {l : List α} {k : List β}
    (same : List.Forall₂ R l k) (step : ∀ a a' b b', R a b → R a' b' → S b b' → T a a') (pairs : k.Pairwise S) :
    l.Pairwise T := by
  induction same with
  | nil => exact .nil
  | @cons a b l k first rest ih =>
    obtain ⟨ahead,later⟩ := List.pairwise_cons.mp pairs
    refine .cons (fun a' inside => ?_) (ih later)
    obtain ⟨b',there,related⟩ := alongMember rest inside
    exact step a a' b b' first related (ahead b' there)

theorem loadedTold {cfg : Config} {a : TableAnswers} {u : Unit} (positive : 1 ≤ cfg.segLen) (word : cfg.segLen < wordSpan)
    (sized : firmware.length < wordSpan) (ok : (mhiAllocBhieTable cfg.segLen firmware.length a).image = some image)
    (beside : image.mhiBuf.Pairwise Beside) (low : ∀ b ∈ image.mhiBuf, b.dmaAddr < 2^64)
    (ran : (mhiFirmwareCopy image firmware).Leaves es (.went u)) :
    gather (d.run es).mem (tableOf image).1 ((tableOf image).2 / 16) = firmware ∧ (d.run es).sbl = d.sbl ∧
    (d.run es).amss = d.amss ∧
      ((tableOf image).1 < 2^64 ∧ ((tableOf image).2 = 0 ∨
        (tableOf image).2 = 16*((firmware.length+cfg.segLen-1) / cfg.segLen))) := by
  obtain ⟨counted,-,shape⟩ := allocated ok
  obtain ⟨pieces,rfl,whole,fewer,placed⟩ := copyTold ran
  rcases shape with ⟨-,none⟩ | ⟨n,count,made,vector⟩
  · rw [none,List.take_nil] at placed
    cases placed
    cases whole
    simp [tableOf,none,gather,entries,stores,Dev.run]
  · have long := made.length
    obtain ⟨last,found,lastLen⟩ := made.getLast
    rw [Nat.zero_add] at lastLen
    rw [vector,vectorTableLength made] at fewer
    have split : image.mhiBuf = image.mhiBuf.take n ++ [last] := by
      have parts := List.dropLast_append_getLast? last found
      rw [List.dropLast_eq_take,long,Nat.add_sub_cancel] at parts
      exact parts.symm
    have place : tableOf image = (last.dmaAddr,16*n) := by
      rw [tableOf,found]
      exact Prod.ext rfl lastLen
    have within : (image.mhiBuf.take pieces.length).Sublist (image.mhiBuf.take n) := List.take_sublist_take_left fewer
    have bounded (p : Nat × Bytes) (inside : p ∈ pieces) : ∃ b ∈ image.mhiBuf.take n, p.1 = b.dmaAddr ∧ p.2.length ≤ b.len ∧
        b.len = cfg.segLen := by
      obtain ⟨b,there,same,fits⟩ := alongMember placed inside
      exact ⟨b,within.subset there,same,fits,segmentsData made b (within.subset there)⟩
    have least : firmware.length ≤ pieces.length*cfg.segLen := by
      rw [← whole,List.length_flatMap]
      have all : ∀ m ∈ pieces.map fun p => p.2.length, m ≤ cfg.segLen := by
        intro m inside
        obtain ⟨p,member,rfl⟩ := List.mem_map.mp inside
        obtain ⟨b,-,-,fits,size⟩ := bounded p member
        exact size ▸ fits
      simpa using List.sum_le_card_nsmul _ _ all
    have fits : Fits cfg.segLen firmware.length := by
      by_contra overflows
      have short := segmentsShort positive word sized overflows counted count
      have product := Nat.mul_le_mul_right cfg.segLen fewer
      omega
    have number : n = (firmware.length+cfg.segLen-1) / cfg.segLen := by
      have exact := segmentsFit fits counted
      omega
    have all : pieces.length = n := by
      refine Nat.le_antisymm fewer ?_
      rw [number]
      refine Nat.le_of_lt_succ ((Nat.div_lt_iff_lt_mul positive).mpr ?_)
      rw [Nat.succ_mul]
      omega
    rw [split] at beside
    obtain ⟨data,-,table⟩ := List.pairwise_append.mp beside
    have clear : Clear last.dmaAddr pieces := by
      refine ⟨alongPairwise placed (fun p q b c first second room => ?_) (data.sublist within),fun p inside => ?_,
        fun p inside => ?_⟩
      · obtain ⟨same,fits⟩ := first
        obtain ⟨same',fits'⟩ := second
        unfold Beside Apart at room
        unfold Apart
        omega
      · obtain ⟨b,there,same,fits,-⟩ := bounded p inside
        have room := table b there last List.mem_cons_self
        unfold Beside Apart at room
        unfold Apart
        rw [lastLen,sizeofBhiVecEntry] at room
        omega
      · obtain ⟨b,there,same,fits,size⟩ := bounded p inside
        have small := low b (List.mem_of_mem_take there)
        unfold wordSpan at word
        omega
    obtain ⟨sbl,amss⟩ := @storesElse last.dmaAddr pieces d
    have spread := gatherSpread (storesSpread (d := d) clear)
    rw [all,whole] at spread
    rw [place] at ran ⊢
    refine ⟨?_,sbl,amss,low last ?_,.inr ?_⟩
    · rw [Nat.mul_div_cancel_left n (by decide)]
      exact spread
    · rw [split]
      simp
    · rw [number]

end Table

section Delivered
variable {cfg : Config} {fuel junk : Nat} {d : Dev} {es : List Access} {image : Option ImageInfo} {firmware : Bytes}

structure Taken (d : Dev) (firmware : Bytes) (junk : Nat) (es : List Access) (d' : Dev) : Prop where
  sbl : d'.sbl = d.sbl
  amss : (∃ err, ⟨.read .bhie bhieTxvecdb,.error err⟩ ∈ es) ∨
    ∃ seq, 0 < seq ∧ seq ≤ seqnumBmsk ∧ d'.amss = d.amss ++ [(seq,firmware)]
  reported : junk = xferCompl ∨ ∃ v, ⟨.read .bhie bhieTxvecstatus,.ok v⟩ ∈ es ∧ (v &&& statusMask) >>> statusShift = xferCompl

theorem amssReported {dma len : Nat} (ran : (mhiFwLoadAmss fuel junk dma len).Leaves es (.went none)) :
    junk = xferCompl ∨ ∃ v, ⟨.read .bhie bhieTxvecstatus,.ok v⟩ ∈ es ∧ (v &&& statusMask) >>> statusShift = xferCompl := by
  obtain ⟨valid,_,rfl,ran⟩ := ran
  cases valid with
  | false => simp at ran
  | true =>
    obtain ⟨r,_,rfl,ran⟩ := ran
    simp only [Talk.bindWent] at ran
    obtain ⟨_,_,_,rfl,-,_,_,_,rfl,-,_,_,_,rfl,-,_,_,_,rfl,-,w,x,_,rfl,waited,bad,_,rfl,-,last⟩ := ran
    have compl : w.2 = xferCompl := by
      by_contra other
      simp [other] at last
    rcases waitSaid waited with before | ⟨v,said,field⟩
    · exact .inl (before.symm.trans compl)
    · exact .inr ⟨v,by simp [said],field.trans compl⟩

theorem pthruTaken {table : ImageInfo} (ran : (fwLoadEePthru cfg fuel junk (some table)).Leaves es (.went (.amss none)))
    (low : (tableOf table).1 < 2^64) (short : (tableOf table).2 < 2^32) :
    Taken d (gather d.mem (tableOf table).1 ((tableOf table).2 / 16)) junk es (d.run es) := by
  obtain ⟨ret,_,rfl,ran⟩ := ran
  dsimp only at ran
  split at ran
  · simp at ran
  split at ran
  · simp at ran
  obtain ⟨reached,_,rfl,ran⟩ := ran
  cases reached with
  | false => simp at ran
  | true =>
    obtain ⟨bad,_,rfl,ran⟩ := ran
    cases bad with
    | true => simp at ran
    | false =>
      obtain ⟨out,x,_,rfl,loaded,rfl,same⟩ := Talk.bindWent.mp ran
      cases same
      obtain ⟨sbl,told⟩ := amssTold (d := d) loaded low short
      refine ⟨?_,?_,?_⟩
      · simpa [Dev.run,Dev.hear] using sbl
      · rcases told with ⟨err,unread⟩ | ⟨seq,positive,fits,told⟩
        · exact .inl ⟨err,by simp [unread]⟩
        · exact .inr ⟨seq,positive,fits,by simpa [Dev.run,Dev.hear] using told⟩
      · rcases amssReported loaded with before | ⟨v,said,field⟩
        · exact .inl before
        · exact .inr ⟨v,by simp [said],field⟩

theorem tableTaken (positive : cfg.fbcDownload = true → 1 ≤ cfg.segLen) (word : cfg.segLen < wordSpan)
    (sized : firmware.length < wordSpan)
    (short : 16*((firmware.length+cfg.segLen-1) / cfg.segLen) < 2^32)
    (ran : (loadTable cfg fuel junk firmware image).Leaves es (.went (.amss none))) (honest : ∀ step ∈ es, Honest cfg step) :
    Taken d firmware junk es (d.run es) := by
  unfold loadTable at ran
  split at ran
  · rename_i fbc
    obtain ⟨a,_,rfl,ran⟩ := ran
    dsimp only at ran
    split at ran
    · simp at ran
    · rename_i table made
      obtain ⟨u,x,y,rfl,copied,ran⟩ := Talk.bindWent.mp ran
      obtain ⟨beside,low⟩ := honest _ List.mem_cons_self table made
      obtain ⟨whole,sbl,amss,inside,size⟩ := loadedTold (d := d) (positive fbc) word sized made beside low copied
      have small : (tableOf table).2 < 2^32 := by rcases size with zero | size <;> omega
      have taken := pthruTaken (d := d.run x) ran inside small
      rw [whole] at taken
      have after : d.run (⟨.table firmware.length,a⟩ :: (x ++ y)) = (d.run x).run y := Dev.runAppend d x y
      refine ⟨?_,?_,?_⟩
      · rw [after,taken.sbl,sbl]
      · rcases taken.amss with ⟨err,unread⟩ | ⟨seq,positive,fits,told⟩
        · exact .inl ⟨err,by simp [unread]⟩
        · exact .inr ⟨seq,positive,fits,by rw [after,told,amss]⟩
      · rcases taken.reported with before | ⟨v,said,field⟩
        · exact .inl before
        · exact .inr ⟨v,by simp [said],field⟩
  · rename_i plain
    obtain ⟨ret,_,rfl,ran⟩ := ran
    simp [plain] at ran

def Loads : List Access → Prop
  | [] => True
  | ⟨.ee,ee⟩ :: _ => ee ≠ .pthru
  | _ :: es => Loads es

theorem loadsPast {es later : List Access} (reads : ∀ step ∈ es, Reads step.1) (loads : Loads (es ++ later)) : Loads later := by
  induction es with
  | nil => exact loads
  | cons step es ih =>
    obtain ⟨first,rest⟩ := List.forall_mem_cons.mp reads
    refine ih rest ?_
    obtain ⟨q,a⟩ := step
    cases q <;> first | exact first.elim | exact loads

def Ahead (d : Dev) (order : Nat × Bytes) (es : List Access) : Prop :=
  ∃ before after, es = before ++ after ∧ (d.run before).sbl = d.sbl ++ [order] ∧ (d.run before).amss = d.amss

theorem firmwareDelivered (word : cfg.segLen < wordSpan) (fbc : cfg.fbcDownload = true)
    (ran : (mhiFwLoadHandler cfg fuel junk image).Leaves es (.went (.amss none))) (loads : Loads es)
    (honest : ∀ step ∈ es, Honest cfg step) :
    ∃ edl firmware seq, ⟨.firmware edl,some firmware⟩ ∈ es ∧ 0 < seq ∧ seq ≤ seqnumBmsk ∧
      Ahead d (seq,firmware.take cfg.sblSize) es ∧
      Taken {d with sbl := d.sbl ++ [(seq,firmware.take cfg.sblSize)]} firmware junk es (d.run es) := by
  obtain ⟨bad,_,rfl,ran⟩ := ran
  cases bad with
  | true => simp at ran
  | false =>
    obtain ⟨serial,_,rfl,ran⟩ := ran
    replace ran := Talk.bindWent.mp ran
    obtain ⟨_,hashes,_,rfl,hashed,ee,_,rfl,ran⟩ := ran
    have reads := Talk.onlyAsked (readAllReads _ _) hashed
    have quiet (d : Dev) : hashes.foldl Dev.hear d = d := quietRun fun step inside => (reads step inside).quiet
    have fresh : ee ≠ .pthru := loadsPast reads loads
    dsimp only at ran
    rw [if_neg fresh] at ran
    obtain ⟨named,_,rfl,ran⟩ := ran
    dsimp only at ran
    by_cases defined : (!(if decide (named = .edl) then cfg.edlImage else cfg.fwImage) ||
        (cfg.fbcDownload && (cfg.sblSize == 0 || cfg.segLen == 0))) = true
    · rw [if_pos defined] at ran
      simp at ran
    rw [if_neg defined] at ran
    obtain ⟨file,_,rfl,ran⟩ := ran
    cases file with
    | none => simp at ran
    | some firmware =>
      obtain ⟨addr,_,rfl,ran⟩ := ran
      cases addr with
      | none => simp at ran
      | some addr =>
        obtain ⟨_,_,rfl,ran⟩ := ran
        replace ran := Talk.bindWent.mp ran
        obtain ⟨ret,x,_,rfl,loaded,ran⟩ := ran
        cases ret with
        | some err => simp at ran
        | none =>
          simp only [releasedEarly,fbc] at ran
          replace ran := Talk.bindWent.mp ran
          obtain ⟨released,_,_,rfl,⟨now,_,rfl,rfl,-⟩,last,y,rfl,ran⟩ := ran
          dsimp only at ran
          split at ran
          · simp at ran
          split at ran
          · simp at ran
          have file : Honest cfg ⟨.firmware (decide (named = .edl)),some firmware⟩ := honest _ (by simp)
          have block : Honest cfg ⟨.coherent (sblSizeOf cfg firmware),some addr⟩ := honest _ (by simp)
          obtain ⟨sized,sblSmall,tableSmall⟩ := file
          have positive : cfg.fbcDownload = true → 1 ≤ cfg.segLen := by
            intro _
            simp only [fbc,Bool.true_and,Bool.or_eq_true,Bool.not_eq_true',beq_iff_eq,not_or] at defined
            omega
          have size : sblSizeOf cfg firmware = min cfg.sblSize firmware.length := by simp [sblSizeOf,fbc]
          have head : firmware.take (sblSizeOf cfg firmware) = firmware.take cfg.sblSize := by
            rw [size,← List.take_eq_take_min]
          let stored : Dev := {d with mem := SharedMemory.store d.mem addr (firmware.take (sblSizeOf cfg firmware))}
          obtain ⟨amss,seq,nonzero,fits,told⟩ := sblTold (d := stored) loaded block sblSmall
          have image : load stored.mem addr (sblSizeOf cfg firmware) = firmware.take cfg.sblSize := by
            have back := loadStored d.mem addr (firmware.take (sblSizeOf cfg firmware))
            rw [List.length_take,Nat.min_eq_left (size ▸ Nat.min_le_right _ _)] at back
            exact back.trans head
          rw [image] at told
          have taken := tableTaken (d := stored.run x) positive word sized tableSmall ran fun step inside =>
              honest step (by simp [inside])
          let before : List Access := ⟨.errorState,false⟩ :: ⟨.read .bhi bhiSerialnu,serial⟩ :: (hashes ++
            ⟨.ee,ee⟩ :: ⟨.ee,named⟩ :: ⟨.firmware (decide (named = .edl)),some firmware⟩ :: ⟨.coherent (sblSizeOf cfg firmware),some addr⟩ ::
            ⟨.store addr (firmware.take (sblSizeOf cfg firmware)),()⟩ :: (x ++ [⟨.ee,now⟩,⟨.ee,last⟩]))
          have same : d.run before = stored.run x := by
            simp only [before,Dev.run,List.foldl_cons,List.foldl_append,List.foldl_nil,Dev.hear,quiet]
            rfl
          refine ⟨decide (named = .edl),firmware,seq,by simp,nonzero,fits,⟨before,y,by simp [before],same ▸ told,same ▸ amss⟩,?_⟩
          have whole : ((stored.run x).run y).sbl = d.sbl ++ [(seq,firmware.take cfg.sblSize)] := taken.sbl.trans told
          simp only [Dev.run,List.foldl_cons,List.foldl_append,Dev.hear,quiet]
          refine ⟨whole,?_,?_⟩
          · rcases taken.amss with ⟨err,unread⟩ | ⟨seq,above,fits,told⟩
            · exact .inl ⟨err,by simp [unread]⟩
            · rw [amss] at told
              exact .inr ⟨seq,above,fits,told⟩
          · rcases taken.reported with before | ⟨v,said,field⟩
            · exact .inl before
            · exact .inr ⟨v,by simp [said],field⟩

end Delivered

namespace Sample

def cfg : Config := ⟨true,1,2,true,false⟩
def firmware : Bytes := [7,8,9]
def placed : TableAnswers := ⟨true,true,fun i _ => some (0x2000+0x1000*i,fun _ => 0),[]⟩
def compl : Nat := 2*2^30
theorem seqnumPositive : 0 < seqnumBmsk := by decide

def session : List Access := [
  ⟨.errorState,false⟩,⟨.read .bhi bhiSerialnu,.ok 0⟩,⟨.read .bhi (bhiOempkhash 0),.error .eio⟩,⟨.ee,.pbl⟩,⟨.ee,.pbl⟩,
  ⟨.firmware false,some firmware⟩,⟨.coherent 1,some 0x1000⟩,⟨.store 0x1000 [7],()⟩,
  ⟨.accessValid,true⟩,⟨.random,⟨0,seqnumPositive⟩⟩,⟨.write .bhi bhiStatus 0,()⟩,⟨.write .bhi bhiImgaddrHigh 0,()⟩,
  ⟨.write .bhi bhiImgaddrLow 0x1000,()⟩,⟨.write .bhi bhiImgsize 1,()⟩,⟨.write .bhi bhiImgtxdb 1,()⟩,
  ⟨.errorState,false⟩,⟨.read .bhi bhiStatus,.ok compl⟩,⟨.errorState,false⟩,⟨.ee,.pbl⟩,⟨.ee,.pbl⟩,⟨.table 3,placed⟩,
  ⟨.store 0x2000 [7,8],()⟩,⟨.store 0x4000 (entry 0x2000 2),()⟩,⟨.store 0x3000 [9],()⟩,⟨.store 0x4010 (entry 0x3000 1),()⟩,
  ⟨.ready,none⟩,⟨.inSbl,true⟩,⟨.errorState,false⟩,⟨.accessValid,true⟩,⟨.random,⟨0,seqnumPositive⟩⟩,
  ⟨.write .bhie bhieTxvecaddrHigh 0,()⟩,⟨.write .bhie bhieTxvecaddrLow 0x4000,()⟩,⟨.write .bhie bhieTxvecsize 32,()⟩,
  ⟨.read .bhie bhieTxvecdb,.ok 0⟩,⟨.write .bhie bhieTxvecdb 1,()⟩,⟨.errorState,false⟩,⟨.read .bhie bhieTxvecstatus,.ok compl⟩,
  ⟨.errorState,false⟩]

def blank : Dev := ⟨fun _ => 0,fun _ _ => 0,[],[],[]⟩

def buffers : List MhiBuf := [⟨2,0x2000,fun _ => 0⟩,⟨2,0x3000,fun _ => 0⟩,⟨32,0x4000,fun _ => 0⟩]

theorem segments : (mhiAllocBhieTable cfg.segLen 3 placed).image = some ⟨buffers,vectorTable buffers,3⟩ := by
  have count : segmentsOf cfg.segLen 3 = 3 := by decide +kernel
  unfold mhiAllocBhieTable
  rw [count]
  rfl

theorem honest : ∀ step ∈ session, Honest cfg step := by
  simp only [session,List.forall_mem_cons,Honest,true_and]
  refine ⟨by decide,by decide,fun image made => ?_,by simp⟩
  cases made.symm.trans segments
  simp [buffers,Beside,Apart]

theorem firmwareDeliveredRuns : ∃ edl image seq, ⟨.firmware edl,some image⟩ ∈ session ∧ 0 < seq ∧ seq ≤ seqnumBmsk ∧
    Ahead blank (seq,image.take cfg.sblSize) session ∧
    Taken {blank with sbl := blank.sbl ++ [(seq,image.take cfg.sblSize)]} image 0 session (blank.run session) :=
  @firmwareDelivered cfg 1 0 blank session none (by decide) rfl (Talk.followLeaves (by decide +kernel)) (by simp [session,Loads]) honest

end Sample

end MhiHost.BootSession
