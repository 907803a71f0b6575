import MhiHost.BhieTable
import MhiHost.Holdings
import MhiHost.Internal
import Mathlib.Data.List.Nodup
import Mathlib.Data.List.Perm.Basic

/-! Who holds the BHIe tables: `mhi_prepare_for_power_up`, `mhi_fw_load_handler`,
`mhi_power_down` and `mhi_unprepare_after_power_down`, one after the other in any order. The
firmware file and the buffer of the SBL image are taken and given back inside one call and
are left out. -/
namespace MhiHost.FirmwareLoad
open BhieTable

structure Piece where
  table : Nat
  part : Part
  deriving DecidableEq, Repr

structure Table where
  id : Nat
  image : ImageInfo

def Table.parts (t : Table) : List Piece := (mhiFreeBhieTable t.image).map (Piece.mk t.id)

inductive NullUse where
  | free | read
  deriving DecidableEq, Repr

structure Memory where
  parts : Holdings Piece
  next : Nat
  nullUses : List NullUse
  overwritten : List Table

structure Config where
  fbcDownload : Bool
  rddmSize : Nat
  segLen : Nat
  sblSize : Nat
  fwImage : Bool
  edlImage : Bool

structure Cntrl where
  preInit : Bool
  fbcImage : Option Table
  rddmImage : Option Table
  memory : Memory

def allocate (cfg : Config) (size : Nat) (a : TableAnswers) (m : Memory) : Memory × Option Table :=
  let made := mhiAllocBhieTable cfg.segLen size a
  ({m with
    parts := Holdings.giveAll (made.returned.map (Piece.mk m.next)) (Holdings.takeAll (made.taken.map (Piece.mk m.next)) m.parts),
    next := m.next+1},made.image.map (Table.mk m.next))

def release (m : Memory) : Option Table → Memory
  | none => {m with nullUses := .free :: m.nullUses}
  | some t => {m with parts := Holdings.giveAll t.parts m.parts}

def live (m : Memory) (t : Table) : Bool := decide (0 < m.parts.held ⟨t.id,.info⟩)

def setFbcImage (c : Cntrl) (t : Table) : Cntrl :=
  {c with
    fbcImage := some t,
    memory := {c.memory with overwritten := (c.fbcImage.toList.filter (live c.memory)) ++ c.memory.overwritten}}

def freeFbcImage (c : Cntrl) : Cntrl :=
  match c.fbcImage with
  | none => c
  | some t => {c with fbcImage := none,memory := release c.memory (some t)}

def freeRddmImage (c : Cntrl) : Cntrl :=
  match c.rddmImage with
  | none => c
  | some t => {c with rddmImage := none,memory := release c.memory (some t)}

structure PrepareAnswers where
  allocated : Bool
  table : TableAnswers
  bhieOff : Except Errno Nat

def allocRddm (cfg : Config) (a : TableAnswers) (c : Cntrl) : Cntrl :=
  match allocate cfg cfg.rddmSize a c.memory with
  | (m,none) => {c with memory := m}
  | (m,some t) => {c with rddmImage := some t,memory := m}

/- An allocation of the table that fails is not looked at. -/
def mhiPrepareForPowerUp (cfg : Config) (a : PrepareAnswers) (c : Cntrl) : Cntrl × Option Errno :=
  if !a.allocated then (c,some .enomem)
  else if cfg.rddmSize = 0 then ({c with preInit := true},none)
  else
    match a.bhieOff with
    | .error err => (freeRddmImage (allocRddm cfg a.table c),some err)
    | .ok _ => ({allocRddm cfg a.table c with preInit := true},none)

/- The execution environment is read anew at each use; an interrupt may have changed it. -/
structure LoadAnswers where
  inErrorState : Bool
  ee : ExecEnv
  eeNamed : ExecEnv
  eeLoaded : ExecEnv
  firmware : Option Nat
  coherent : Bool
  sbl : Bool
  table : TableAnswers
  ready : Bool
  inSbl : Bool

/- `fw_load_ee_pthru`: the pass through jumps here past the allocation. -/
def fwLoadEePthru (cfg : Config) (a : LoadAnswers) (c : Cntrl) : Cntrl :=
  if !cfg.fbcDownload then c
  else if !a.ready || !a.inSbl then {c with fbcImage := none,memory := release c.memory c.fbcImage}
  else
    match c.fbcImage with
    | none => {c with memory := {c.memory with nullUses := .read :: c.memory.nullUses}}
    | some _ => c

def loadTable (cfg : Config) (size : Nat) (a : LoadAnswers) (c : Cntrl) : Cntrl :=
  if cfg.fbcDownload then
    match allocate cfg size a.table c.memory with
    | (m,none) => {c with memory := m}
    | (m,some t) => fwLoadEePthru cfg a (setFbcImage {c with memory := m} t)
  else fwLoadEePthru cfg a c

def fwName (cfg : Config) (ee : ExecEnv) : Bool := if ee = .edl then cfg.edlImage else cfg.fwImage

def mhiFwLoadHandler (cfg : Config) (a : LoadAnswers) (c : Cntrl) : Cntrl :=
  if a.inErrorState then c
  else if a.ee = .pthru then fwLoadEePthru cfg a c
  else if !fwName cfg a.eeNamed || (cfg.fbcDownload && (cfg.sblSize == 0 || cfg.segLen == 0)) then c
  else
    match a.firmware with
    | none => c
    | some size =>
      if !a.coherent || !a.sbl || decide (a.eeLoaded = .edl) then c
      else loadTable cfg size a c

def mhiPowerDown (c : Cntrl) : Cntrl := if !c.preInit then freeFbcImage c else c

def mhiUnprepareAfterPowerDown (c : Cntrl) : Cntrl := {freeRddmImage (freeFbcImage c) with preInit := false}

inductive Event where
  | prepare (a : PrepareAnswers)
  | powerUp
  | fwLoad (a : LoadAnswers)
  | powerDown
  | unprepare

def step (cfg : Config) (c : Cntrl) : Event → Cntrl
  | .prepare a => (mhiPrepareForPowerUp cfg a c).1
  | .powerUp => c
  | .fwLoad a => mhiFwLoadHandler cfg a c
  | .powerDown => mhiPowerDown c
  | .unprepare => mhiUnprepareAfterPowerDown c

def start : Cntrl := ⟨false,none,none,⟨Holdings.empty,0,[],[]⟩⟩

structure Owns (named : List Table) (m : Memory) : Prop where
  live : NullUse.free ∉ m.nullUses
  kept : m.overwritten = []
  sound : m.parts.Sound
  held : ∀ p, m.parts.held p = (named.flatMap Table.parts).count p
  once : ∀ p, m.parts.taken p ≤ 1
  fresh : ∀ p : Piece, m.next ≤ p.table → m.parts.taken p = 0

def Cntrl.named (c : Cntrl) : List Table := c.fbcImage.toList ++ c.rddmImage.toList

def Owned (c : Cntrl) : Prop := Owns c.named c.memory

/- Two ways for an allocation to fail: with nothing but the `image_info`, or at a segment,
where the array stays behind. -/
def Refused (segLen size : Nat) (a : TableAnswers) : Prop :=
  a.kzalloc = false ∨ segmentsOf segLen size < 0 ∨ a.kcalloc = false

def SegmentRefused (segLen size : Nat) (a : TableAnswers) : Prop :=
  ¬Refused segLen size a ∧ ∃ i < (segmentsOf segLen size).toNat,
    a.coherent i (if i+1 = (segmentsOf segLen size).toNat then sizeofBhiVecEntry*i else segLen) = none

def Spares (segLen size : Nat) (a : TableAnswers) (image : Option Table) : Prop :=
  Refused segLen size a ∨ ¬SegmentRefused segLen size a ∧ image = none

structure Reaches (cfg : Config) (a : LoadAnswers) (size : Nat) : Prop where
  valid : a.inErrorState = false
  through : a.ee ≠ .pthru
  named : fwName cfg a.eeNamed = true
  sized : cfg.sblSize ≠ 0 ∧ cfg.segLen ≠ 0
  file : a.firmware = some size
  loaded : a.coherent = true ∧ a.sbl = true ∧ a.eeLoaded ≠ .edl
  download : cfg.fbcDownload = true

def PassFails (cfg : Config) (a : LoadAnswers) : Prop :=
  a.inErrorState = false ∧ a.ee = .pthru ∧ cfg.fbcDownload = true ∧ (a.ready = false ∨ a.inSbl = false)

def Careful (cfg : Config) (c : Cntrl) : Event → Prop
  | .prepare a => a.allocated = true → cfg.rddmSize ≠ 0 → Spares cfg.segLen cfg.rddmSize a.table c.rddmImage
  | .fwLoad a => (∀ size, Reaches cfg a size → Spares cfg.segLen size a.table c.fbcImage) ∧
      (PassFails cfg a → c.fbcImage ≠ none)
  | _ => True

def CarefulRun (cfg : Config) : Cntrl → List Event → Prop
  | _,[] => True
  | c,e :: es => Careful cfg c e ∧ CarefulRun cfg (step cfg c e) es

theorem segmentRefusal {coherent : Nat → Nat → Option (Nat × (Nat → UInt8))} {segSize left i : Nat}
    (short : (allocSegments coherent segSize left i).2 = false) :
    ∃ k < left, coherent (i+k) (if k+1 = left then sizeofBhiVecEntry*(i+k) else segSize) = none := by
  induction left generalizing i with
  | zero => cases short
  | succ left ih =>
    rw [allocSegments] at short
    dsimp only at short
    cases asked : coherent i (if left = 0 then sizeofBhiVecEntry*i else segSize) with
    | none =>
      refine ⟨0,Nat.succ_pos left,?_⟩
      simpa [eq_comm] using asked
    | some segment =>
      rw [asked] at short
      obtain ⟨k,inside,refused⟩ := ih short
      refine ⟨k+1,Nat.succ_lt_succ inside,?_⟩
      rw [show i+(k+1) = i+1+k from by omega]
      simpa only [Nat.add_right_cancel_iff] using refused

theorem allocSegmentsLength {coherent : Nat → Nat → Option (Nat × (Nat → UInt8))} {segSize left : Nat} {bufs : List MhiBuf}
    (made : allocSegments coherent segSize left 0 = (bufs,true)) : bufs.length = left := by
  cases left with
  | zero =>
    cases made
    rfl
  | succ left => exact (allocSegmentsMakes made).length

inductive Outcome (segLen size : Nat) (a : TableAnswers) : Allocation → Prop where
  | refused (parts : List Part) (nodup : parts.Nodup) (early : Refused segLen size a) : Outcome segLen size a ⟨none,parts,parts⟩
  | made (image : ImageInfo) (later : ¬Refused segLen size a) :
      Outcome segLen size a ⟨some image,.info :: .array :: segmentParts image.entries,[]⟩

theorem outcome {segLen size : Nat} {a : TableAnswers} (whole : ¬SegmentRefused segLen size a) :
    Outcome segLen size a (mhiAllocBhieTable segLen size a) := by
  unfold mhiAllocBhieTable
  dsimp only
  split
  · rename_i first
    exact .refused [] List.nodup_nil (.inl (by simpa using first))
  · rename_i first
    split
    · rename_i second
      exact .refused [.info] (List.nodup_singleton _) (.inr second)
    · rename_i second
      have later : ¬Refused segLen size a := by
        rintro (info | array)
        · exact first (by rw [info]; rfl)
        · exact second array
      split
      · rename_i bufs segments
        rw [allocSegmentsLength segments]
        generalize (segmentsOf segLen size).toNat = entries
        exact .made ⟨bufs,_,entries⟩ later
      · rename_i bufs segments
        obtain ⟨k,inside,refused⟩ := segmentRefusal (congrArg Prod.snd segments)
        rw [Nat.zero_add] at refused
        exact absurd ⟨later,k,inside,refused⟩ whole

theorem Owns.swap {l l' : List Table} {m : Memory} (owns : Owns l m) (perm : l.Perm l') : Owns l' m := by
  refine ⟨owns.live,owns.kept,owns.sound,?_,owns.once,owns.fresh⟩
  intro p
  rw [owns.held p]
  exact (perm.flatMap_right _).count_eq p

theorem heldFirst {t : Table} {l : List Table} {m : Memory} (owns : Owns (t :: l) m) (p : Piece) :
    m.parts.held p = t.parts.count p+(l.flatMap Table.parts).count p := by
  rw [owns.held p,List.flatMap_cons,List.count_append]

theorem Owns.release {t : Table} {l : List Table} {m : Memory} (owns : Owns (t :: l) m) : Owns l (release m (some t)) := by
  have enough : ∀ p, t.parts.count p ≤ m.parts.held p := by
    intro p
    rw [heldFirst owns]
    exact Nat.le_add_right _ _
  refine ⟨owns.live,owns.kept,Holdings.giveAllSound enough owns.sound,?_,?_,?_⟩
  · intro p
    have left := @Holdings.giveAllHeld _ _ m.parts t.parts enough p
    rw [heldFirst owns,Nat.add_sub_cancel_left] at left
    exact left
  · intro p
    exact (Holdings.giveAllTaken m.parts t.parts p).trans_le (owns.once p)
  · intro p next
    exact (Holdings.giveAllTaken m.parts t.parts p).trans (owns.fresh p next)

theorem countNext {parts : List Part} (nodup : parts.Nodup) (next : Nat) (p : Piece) :
    (parts.map (Piece.mk next)).count p ≤ 1 := by
  have apart : (parts.map (Piece.mk next)).Nodup := nodup.map fun i j same => (Piece.mk.inj same).2
  exact List.nodup_iff_count_le_one.mp apart p

theorem countOther (parts : List Part) {next : Nat} {p : Piece} (other : p.table ≠ next) :
    (parts.map (Piece.mk next)).count p = 0 := by
  rw [List.count_eq_zero]
  intro listed
  obtain ⟨_,_,rfl⟩ := List.mem_map.mp listed
  exact other rfl

theorem takenOnce {l : List Table} {m : Memory} (owns : Owns l m) {parts : List Part} (nodup : parts.Nodup) (p : Piece) :
    (Holdings.takeAll (parts.map (Piece.mk m.next)) m.parts).taken p ≤ 1 ∧
      (m.next+1 ≤ p.table → (Holdings.takeAll (parts.map (Piece.mk m.next)) m.parts).taken p = 0) := by
  rw [Holdings.takeAllTaken]
  rcases Nat.lt_trichotomy p.table m.next with before | here | after
  · rw [countOther parts (Nat.ne_of_lt before)]
    exact ⟨owns.once p,fun next => by omega⟩
  · rw [owns.fresh p (Nat.le_of_eq here.symm),Nat.zero_add]
    exact ⟨countNext nodup m.next p,fun next => by omega⟩
  · rw [countOther parts (Nat.ne_of_gt after),owns.fresh p (Nat.le_of_lt after)]
    exact ⟨Nat.zero_le 1,fun _ => rfl⟩

theorem segmentPartsNodup (n : Nat) : (Part.info :: .array :: segmentParts n).Nodup := by
  have segments : (segmentParts n).Nodup := List.nodup_range.map fun i j same => by injection same
  have neither : ∀ p ∈ segmentParts n, p ≠ .info ∧ p ≠ .array := by
    intro p listed
    obtain ⟨i,_,rfl⟩ := List.mem_map.mp listed
    constructor
    · intro same
      cases same
    · intro same
      cases same
  refine List.nodup_cons.mpr ⟨?_,List.nodup_cons.mpr ⟨fun listed => (neither _ listed).2 rfl,segments⟩⟩
  intro listed
  rcases List.mem_cons.mp listed with same | listed
  · cases same
  · exact (neither _ listed).1 rfl

theorem Owns.allocate {cfg : Config} {size : Nat} {a : TableAnswers} {l : List Table} {m : Memory} (owns : Owns l m)
    (whole : ¬SegmentRefused cfg.segLen size a) :
    Owns ((allocate cfg size a m).2.toList ++ l) (allocate cfg size a m).1 := by
  have comes := outcome whole
  unfold FirmwareLoad.allocate
  generalize mhiAllocBhieTable cfg.segLen size a = made at comes ⊢
  cases comes with
  | refused parts nodup early =>
    have enough : ∀ p, (parts.map (Piece.mk m.next)).count p ≤ (Holdings.takeAll (parts.map (Piece.mk m.next)) m.parts).held p := by
      intro p
      rw [Holdings.takeAllHeld]
      exact Nat.le_add_left _ _
    refine ⟨owns.live,owns.kept,Holdings.giveAllSound enough (Holdings.takeAllSound owns.sound),?_,?_,?_⟩
    · intro p
      have left := Holdings.giveAllHeld enough p
      rw [Holdings.takeAllHeld,Nat.add_sub_cancel] at left
      exact left.trans (owns.held p)
    · intro p
      exact (Holdings.giveAllTaken _ _ p).trans_le (takenOnce owns nodup p).1
    · intro p next
      exact (Holdings.giveAllTaken _ _ p).trans ((takenOnce owns nodup p).2 next)
  | made image later =>
    refine ⟨owns.live,owns.kept,Holdings.takeAllSound owns.sound,?_,?_,?_⟩
    · intro p
      have order : (segmentParts image.entries ++ [Part.array,Part.info]).Perm (Part.info :: Part.array :: segmentParts image.entries) :=
        List.perm_append_comm.trans (.swap _ _ _)
      have count := (order.map (Piece.mk m.next)).count_eq p
      show (Holdings.takeAll _ m.parts).held p = ((Table.mk m.next image :: l).flatMap Table.parts).count p
      rw [Holdings.takeAllHeld,owns.held p,List.flatMap_cons,List.count_append,← count]
      exact Nat.add_comm _ _
    · intro p
      exact (takenOnce owns (segmentPartsNodup image.entries) p).1
    · intro p next
      exact (takenOnce owns (segmentPartsNodup image.entries) p).2 next

theorem allocateRefused {cfg : Config} {size : Nat} {a : TableAnswers} (refused : Refused cfg.segLen size a) (m : Memory) :
    (allocate cfg size a m).2 = none := by
  have nothing : (mhiAllocBhieTable cfg.segLen size a).image = none := by
    unfold mhiAllocBhieTable
    dsimp only
    split
    · rfl
    · rename_i first
      have second : segmentsOf cfg.segLen size < 0 ∨ a.kcalloc = false := by
        rcases refused with info | array
        · exact absurd (by rw [info]; rfl) first
        · exact array
      rw [if_pos second]
  unfold allocate
  dsimp only
  rw [nothing]
  rfl

theorem Spares.whole {segLen size : Nat} {a : TableAnswers} {image : Option Table} (spares : Spares segLen size a image) :
    ¬SegmentRefused segLen size a := by
  rcases spares with refused | ⟨whole,_⟩
  · exact fun lost => lost.1 refused
  · exact whole

theorem Spares.unnamed {cfg : Config} {size : Nat} {a : TableAnswers} {image : Option Table} {m m' : Memory} {t : Table}
    (spares : Spares cfg.segLen size a image) (made : allocate cfg size a m = (m',some t)) : image = none := by
  rcases spares with refused | ⟨_,unnamed⟩
  · have nothing := allocateRefused refused m
    rw [made] at nothing
    cases nothing
  · exact unnamed

theorem allocRddmOwned {cfg : Config} {a : TableAnswers} {c : Cntrl} (owned : Owned c)
    (spares : Spares cfg.segLen cfg.rddmSize a c.rddmImage) : Owned (allocRddm cfg a c) := by
  have owns := Owns.allocate owned spares.whole
  unfold allocRddm
  split
  · rename_i m made
    rw [made] at owns
    exact owns
  · rename_i m t made
    rw [made] at owns
    have unnamed := spares.unnamed made
    refine owns.swap ?_
    unfold Cntrl.named
    rw [unnamed,Option.toList_none,List.append_nil]
    exact @List.perm_append_comm _ [t] c.fbcImage.toList

theorem freeRddmOwned {c : Cntrl} (owned : Owned c) : Owned (freeRddmImage c) := by
  unfold freeRddmImage
  split
  · exact owned
  · rename_i t named
    have owns : Owns (t :: c.fbcImage.toList) c.memory := by
      refine Owns.swap owned ?_
      unfold Cntrl.named
      rw [named]
      exact List.perm_append_comm
    exact owns.release.swap (by simp [Cntrl.named])

theorem freeFbcOwned {c : Cntrl} (owned : Owned c) : Owned (freeFbcImage c) := by
  unfold freeFbcImage
  split
  · exact owned
  · rename_i t named
    have owns : Owns (t :: c.rddmImage.toList) c.memory := by
      unfold Owned Cntrl.named at owned
      rw [named] at owned
      exact owned
    exact owns.release

theorem fwLoadEePthruOwned {cfg : Config} {a : LoadAnswers} {c : Cntrl} (owned : Owned c)
    (loaded : cfg.fbcDownload = true → (a.ready = false ∨ a.inSbl = false) → c.fbcImage ≠ none) :
    Owned (fwLoadEePthru cfg a c) := by
  unfold fwLoadEePthru
  split
  · exact owned
  · rename_i download
    split
    · rename_i fails
      have there : c.fbcImage ≠ none := loaded (by simpa using download) (by simpa using fails)
      have freed := freeFbcOwned owned
      unfold freeFbcImage at freed
      split at freed
      · rename_i named
        exact absurd named there
      · rename_i t named
        rw [named]
        exact freed
    · split
      · exact ⟨by simpa using owned.live,owned.kept,owned.sound,owned.held,owned.once,owned.fresh⟩
      · exact owned

theorem loadTableOwned {cfg : Config} {a : LoadAnswers} {size : Nat} {c : Cntrl} (owned : Owned c)
    (spares : cfg.fbcDownload = true → Spares cfg.segLen size a.table c.fbcImage) : Owned (loadTable cfg size a c) := by
  unfold loadTable
  split
  · rename_i download
    have owns := Owns.allocate owned (spares download).whole
    split
    · rename_i m made
      rw [made] at owns
      exact owns
    · rename_i m t made
      rw [made] at owns
      have unnamed := (spares download).unnamed made
      have stored : Owned (setFbcImage {c with memory := m} t) := by
        unfold Cntrl.named at owns
        rw [unnamed] at owns
        refine ⟨owns.live,?_,owns.sound,owns.held,owns.once,owns.fresh⟩
        show c.fbcImage.toList.filter (live m) ++ m.overwritten = []
        rw [unnamed]
        exact owns.kept
      refine fwLoadEePthruOwned stored ?_
      intro _ _ named
      cases named
  · rename_i whole
    exact fwLoadEePthruOwned owned fun download => absurd download whole

theorem fwLoadOwned {cfg : Config} {a : LoadAnswers} {c : Cntrl} (owned : Owned c)
    (spares : ∀ size, Reaches cfg a size → Spares cfg.segLen size a.table c.fbcImage)
    (passes : PassFails cfg a → c.fbcImage ≠ none) : Owned (mhiFwLoadHandler cfg a c) := by
  unfold mhiFwLoadHandler
  split
  · exact owned
  · rename_i valid
    split
    · rename_i pthru
      exact fwLoadEePthruOwned owned fun download fails => passes ⟨by simpa using valid,pthru,download,fails⟩
    · rename_i through
      split
      · exact owned
      · rename_i sized
        split
        · exact owned
        · rename_i size file
          split
          · exact owned
          · rename_i loaded
            refine loadTableOwned owned fun download => spares size ?_
            simp only [download,Bool.or_eq_true,Bool.and_eq_true,Bool.not_eq_true',beq_iff_eq,decide_eq_true_eq,not_or,
              Bool.not_eq_false,true_and] at sized loaded
            exact ⟨by simpa using valid,through,sized.1,sized.2,file,⟨loaded.1.1,loaded.1.2,loaded.2⟩,download⟩

theorem stepOwned {cfg : Config} {c : Cntrl} {e : Event} (owned : Owned c) (careful : Careful cfg c e) :
    Owned (step cfg c e) := by
  cases e with
  | prepare a =>
    show Owned (mhiPrepareForPowerUp cfg a c).1
    unfold mhiPrepareForPowerUp
    split
    · exact owned
    · rename_i allocated
      split
      · exact owned
      · rename_i sized
        have made := allocRddmOwned owned (careful (by simpa using allocated) sized)
        split
        · exact freeRddmOwned made
        · exact made
  | powerUp => exact owned
  | fwLoad a => exact fwLoadOwned owned careful.1 careful.2
  | powerDown =>
    show Owned (mhiPowerDown c)
    unfold mhiPowerDown
    split
    · exact freeFbcOwned owned
    · exact owned
  | unprepare => exact freeRddmOwned (freeFbcOwned owned)

theorem startOwned : Owned start :=
  ⟨List.not_mem_nil,rfl,Holdings.soundEmpty,fun _ => rfl,fun _ => Nat.zero_le 1,fun _ _ => rfl⟩

theorem runOwned {cfg : Config} {c : Cntrl} {events : List Event} (owned : Owned c) (careful : CarefulRun cfg c events) :
    Owned (events.foldl (step cfg) c) := by
  induction events generalizing c with
  | nil => exact owned
  | cons e events ih => exact ih (stepOwned owned careful.1) careful.2

theorem carefulPrefix {cfg : Config} {c : Cntrl} {before later : List Event} (careful : CarefulRun cfg c (before ++ later)) :
    CarefulRun cfg c before := by
  induction before generalizing c with
  | nil => trivial
  | cons e before ih => exact ⟨careful.1,ih careful.2⟩

theorem unpreparedReturns {c : Cntrl} (owned : Owned c) (p : Piece) :
    (mhiUnprepareAfterPowerDown c).memory.parts.returned p = (mhiUnprepareAfterPowerDown c).memory.parts.taken p := by
  have freed : Owned (mhiUnprepareAfterPowerDown c) := freeRddmOwned (freeFbcOwned owned)
  have nothing : (mhiUnprepareAfterPowerDown c).named = [] := by
    unfold mhiUnprepareAfterPowerDown freeRddmImage freeFbcImage Cntrl.named
    cases fbc : c.fbcImage <;> cases rddm : c.rddmImage <;> simp [fbc,rddm]
  have held := freed.held p
  rw [nothing] at held
  have balance := freed.sound.balance p
  rw [held] at balance
  exact balance.symm

theorem tablesReleasedOnce {cfg : Config} {before later : List Event} (careful : CarefulRun cfg start (before ++ later)) :
    Owned (before.foldl (step cfg) start) ∧ ∀ p,
      (mhiUnprepareAfterPowerDown (before.foldl (step cfg) start)).memory.parts.returned p =
        (mhiUnprepareAfterPowerDown (before.foldl (step cfg) start)).memory.parts.taken p := by
  have owned := runOwned startOwned (carefulPrefix careful)
  exact ⟨owned,unpreparedReturns owned⟩

def wholeImage : Config := ⟨true,0,4096,4096,true,false⟩

def pblLoad : LoadAnswers := ⟨false,.pbl,.pbl,.pbl,some 1,true,true,answered,true,true⟩

theorem tablesReleasedOnceLoaded : Owned ([.powerUp,.fwLoad pblLoad].foldl (step wholeImage) start) := by
  have careful : CarefulRun wholeImage start ([.powerUp,.fwLoad pblLoad] ++ [.powerDown,.unprepare]) := by
    refine ⟨trivial,⟨?_,?_⟩,trivial,trivial,trivial⟩
    · intro size _
      refine .inr ⟨?_,rfl⟩
      rintro ⟨_,i,_,refused⟩
      cases refused
    · rintro ⟨_,pthru,_⟩
      cases pthru
  exact (tablesReleasedOnce careful).1

theorem tablesLost :
    ¬Owned (step wholeImage start (.fwLoad {pblLoad with table := {answered with coherent := fun _ _ => none}})) ∧
    ¬Owned (step wholeImage start (.fwLoad {pblLoad with ee := .pthru,ready := false})) ∧
    ¬Owned ([.fwLoad pblLoad,.fwLoad pblLoad].foldl (step wholeImage) start) := by
  refine ⟨?_,?_,?_⟩
  · intro owned
    have held := owned.held ⟨0,.array⟩
    revert held
    decide
  · intro owned
    exact owned.live (List.mem_singleton.mpr rfl)
  · intro owned
    have kept := owned.kept
    cases kept

end MhiHost.FirmwareLoad
