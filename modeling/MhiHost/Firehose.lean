import MhiHost.CString
import MhiHost.RawImage
import MhiHost.Trace

/-! One element of a flash script or of a device's reply in `firehose_protocol.c`: the
attributes that `fh_xml_get_value` finds by their names, the command that
`fh_parse_xml_line` makes of them, and every place of a buffer that both touch. -/
namespace MhiHost.Firehose
open Wire (Bytes peek)
open CString
open RawImage (ResponseValue)

def valueSize : Nat := 64
def labelSize : Nat := 32
def vendorSize : Nat := 256
def tableSize : Nat := 128
def xmlSize : Nat := 1024

/- What the three functions do to their buffers: read so far behind a pointer, write so many
bytes to `value` or to a label, take an entry of the table, put the terminator behind a
reply, or follow a null pointer. -/
inductive Access where
  | read (i : Nat) (pchar : Bytes)
  | value (n : Nat)
  | label (n : Nat)
  | entry (i : Nat)
  | terminator (i : Nat)
  | null
  deriving DecidableEq, Repr

inductive Bound where
  | string | buffer
  deriving DecidableEq, Repr

def reach : Bound → Bytes → Nat
  | .string,pchar => (cstr pchar).length
  | .buffer,pchar => pchar.length

def Access.Within (b : Bound) : Access → Prop
  | .read i pchar => i ≤ reach b pchar
  | .value n => n ≤ valueSize
  | .label n => n ≤ labelSize
  | .entry i => i < tableSize
  | .terminator i => i < xmlSize
  | .null => False

instance (b : Bound) (e : Access) : Decidable (e.Within b) :=
  match e with
  | .read _ _ => inferInstanceAs (Decidable (_ ≤ _))
  | .value _ => inferInstanceAs (Decidable (_ ≤ _))
  | .label _ => inferInstanceAs (Decidable (_ ≤ _))
  | .entry _ => inferInstanceAs (Decidable (_ < _))
  | .terminator _ => inferInstanceAs (Decidable (_ < _))
  | .null => inferInstanceAs (Decidable False)

/- Beyond its buffer an access is not followed further. -/
def access (e : Access) : Trace Access Unit := .emit [e] (if e.Within .buffer then .pure () else .stop)

def less : UInt8 := 60
def equals : UInt8 := 61
def quote : UInt8 := 34
def slash : UInt8 := 47
def greater : UInt8 := 62

/- `pchar[0] == '=' || pchar[1] == '"'`; only the second test may read too far. -/
def started (pchar : Bytes) : Trace Access Bool :=
  if peek pchar 0 = equals then .pure true
  else .bind (access (.read 1 pchar)) fun _ => .pure (decide (peek pchar 1 = quote))

def fhXmlGetValue (line key : Bytes) : Trace Access (Option Bytes) :=
  match strstr line key with
  | none => .pure none
  | some found =>
    let pchar := found.drop key.length
    .bind (started pchar) fun start =>
    if start then
      .bind (access (.read 2 pchar)) fun _ =>
      match strstr (pchar.drop 2) [quote] with
      | none => .pure none
      | some pend =>
        let value := (pchar.drop 2).take ((pchar.drop 2).length-pend.length)
        .bind (access (.value (value.length+1))) fun _ => .pure (some value)
    else .pure none

structure EraseCmd where
  pagesPerBlock : UInt32
  sectorSizeInBytes : UInt32
  label : Bytes
  lastSector : UInt32
  numPartitionSectors : UInt32
  physicalPartitionNumber : UInt32
  startSector : UInt32
  deriving DecidableEq, Repr

structure ProgramCmd where
  filename : Option Bytes
  pagesPerBlock : UInt32
  sectorSizeInBytes : UInt32
  label : Bytes
  lastSector : UInt32
  numPartitionSectors : UInt32
  physicalPartitionNumber : UInt32
  startSector : UInt32
  deriving DecidableEq, Repr

structure ResponseCmd where
  value : Option ResponseValue
  rawmode : Bool
  maxPayloadSizeToTargetInBytes : UInt32
  deriving DecidableEq, Repr

inductive Cmd where
  | vendor (buffer : Bytes)
  | erase (cmd : EraseCmd)
  | program (cmd : ProgramCmd)
  | response (cmd : ResponseCmd)
  | log
  deriving DecidableEq, Repr

def vendorMark : Bytes := text "vendor=\"quectel\""

def number (line key : Bytes) (reads : Bytes → UInt32) : Trace Access UInt32 :=
  .bind (fhXmlGetValue line key) fun value => .pure (value.elim 0 reads)

def strtoulField (value : Bytes) : UInt32 := UInt32.ofNat (strtoul value)

/- `strcpy` into the 32 bytes of a label. -/
def copyLabel : Option Bytes → Trace Access Bytes
  | none => .pure []
  | some value => .bind (access (.label (value.length+1))) fun _ => .pure value

def labelAndLastSector (line : Bytes) : Trace Access (Bytes × UInt32) :=
  if holds line (text "label") && holds line (text "last_sector") then
    .bind (fhXmlGetValue line (text "label")) fun value =>
    .bind (copyLabel value) fun label =>
    .bind (number line (text "last_sector") atoi) fun last => .pure (label,last)
  else .pure ([],0)

def parseErase (line : Bytes) : Trace Access (Option Cmd) :=
  .bind (number line (text "PAGES_PER_BLOCK") atoi) fun pages =>
  .bind (number line (text "SECTOR_SIZE_IN_BYTES") atoi) fun size =>
  .bind (labelAndLastSector line) fun named =>
  .bind (number line (text "num_partition_sectors") strtoulField) fun count =>
  .bind (number line (text "physical_partition_number") atoi) fun partition =>
  .bind (number line (text "start_sector") atoi) fun start =>
  .pure (some (.erase ⟨pages,size,named.1,named.2,count,partition,start⟩))

def parseProgram (line : Bytes) : Trace Access (Option Cmd) :=
  .bind (fhXmlGetValue line (text "filename")) fun filename =>
  if filename = some [] then .pure none
  else
    .bind (number line (text "PAGES_PER_BLOCK") atoi) fun pages =>
    .bind (number line (text "SECTOR_SIZE_IN_BYTES") atoi) fun size =>
    .bind (labelAndLastSector line) fun named =>
    .bind (number line (text "num_partition_sectors") atoi) fun count =>
    .bind (number line (text "physical_partition_number") atoi) fun partition =>
    .bind (number line (text "start_sector") atoi) fun start =>
    .pure (some (.program ⟨filename,pages,size,named.1,named.2,count,partition,start⟩))

def responseValue (value : Bytes) : ResponseValue :=
  if value = text "ACK" then .ack else if value = text "NAK" then .nak else .other

def parseResponse (line : Bytes) : Trace Access (Option Cmd) :=
  .bind (fhXmlGetValue line (text "value")) fun value =>
  if holds line (text "rawmode") then
    .bind (fhXmlGetValue line (text "rawmode")) fun rawmode =>
    .pure (some (.response ⟨value.map responseValue,rawmode = some (text "true"),0⟩))
  else if holds line (text "MaxPayloadSizeToTargetInBytes") then
    .bind (number line (text "MaxPayloadSizeToTargetInBytes") atoi) fun size =>
    .pure (some (.response ⟨value.map responseValue,false,size⟩))
  else .pure (some (.response ⟨value.map responseValue,false,0⟩))

def fhParseXmlLine (line : Bytes) : Trace Access (Option Cmd) :=
  if holds line vendorMark then .pure (some (.vendor ((cstr line).take (vendorSize-1))))
  else if (text "<erase ").isPrefixOf line then parseErase line
  else if (text "<program ").isPrefixOf line then parseProgram line
  else if (text "<response ").isPrefixOf line then parseResponse line
  else if (text "<log ").isPrefixOf line then .pure (some .log)
  else .pure none

structure Reads {α : Type} (t : Trace Access α) (C : Bound → Prop) (a : α) : Prop where
  safe : ∀ b, (∀ e ∈ t.effects, e.Within b) ↔ C b
  went : C .buffer → t.outcome = .went a
  lost : ¬C .buffer → t.outcome = .lost

theorem reachLe (b : Bound) (pchar : Bytes) : reach b pchar ≤ pchar.length := by
  cases b with
  | string => exact (List.takeWhile_sublist _).length_le
  | buffer => exact Nat.le_refl _

theorem withinBuffer {b : Bound} {e : Access} (within : e.Within b) : e.Within .buffer := by
  cases e with
  | read i pchar => exact Nat.le_trans within (reachLe b pchar)
  | value _ | label _ | entry _ | terminator _ | null => exact within

namespace Reads
variable {α β : Type} {t : Trace Access α} {f : α → Trace Access β} {a : α} {c : β} {C D : Bound → Prop}

theorem buffered (reads : Reads t C a) {b : Bound} (safe : C b) : C .buffer :=
  (reads.safe .buffer).mp fun e inside => withinBuffer ((reads.safe b).mpr safe e inside)

theorem done (a : α) : Reads (Trace.pure a : Trace Access α) (fun _ => True) a :=
  ⟨fun _ => ⟨fun _ => trivial,fun _ _ inside => absurd inside List.not_mem_nil⟩,fun _ => rfl,fun beyond => absurd trivial beyond⟩

theorem touch (e : Access) : Reads (access e) e.Within () := by
  refine ⟨fun b => ?_,fun within => ?_,fun beyond => ?_⟩
  · have only : (access e).effects = [e] := by
      unfold access
      split <;> rfl
    rw [only]
    exact List.forall_mem_singleton
  · rw [access,if_pos within]
    rfl
  · rw [access,if_neg beyond]
    rfl

theorem restSafe (first : Reads t C a) (f : α → Trace Access β) (b : Bound) :
    (∀ e ∈ (Trace.bind t f).effects, e.Within b) ↔ C b ∧ ∀ e ∈ (f a).effects, e.Within b := by
  rw [← first.safe b]
  constructor
  · intro all
    have before : ∀ e ∈ t.effects, e.Within b := fun e inside => all e (Trace.memBind.mpr (.inl inside))
    refine ⟨before,fun e inside => all e (Trace.memBind.mpr (.inr ⟨a,?_,inside⟩))⟩
    exact first.went (first.buffered ((first.safe b).mp before))
  · rintro ⟨before,after⟩ e inside
    rcases Trace.memBind.mp inside with early | ⟨a',went,late⟩
    · exact before e early
    · cases (first.went (first.buffered ((first.safe b).mp before))).symm.trans went
      exact after e late

theorem restWent (first : Reads t C a) (f : α → Trace Access β) (c : β) :
    (Trace.bind t f).outcome = .went c ↔ C .buffer ∧ (f a).outcome = .went c := by
  by_cases before : C .buffer
  · rw [Trace.bind,first.went before]
    exact (and_iff_right before).symm
  · rw [Trace.bind,first.lost before]
    refine ⟨fun same => ?_,fun both => absurd both.1 before⟩
    cases same

theorem restEnds (first : Reads t C a) (f : α → Trace Access β) : (Trace.bind t f).Ends ↔ C .buffer ∧ (f a).Ends := by
  by_cases before : C .buffer
  · rw [Trace.bind,first.went before]
    exact (and_iff_right before).symm
  · rw [Trace.bind,first.lost before]
    exact ⟨fun ends => absurd rfl ends,fun both => absurd both.1 before⟩

theorem next (first : Reads t C a) (later : Reads (f a) D c) : Reads (Trace.bind t f) (fun b => C b ∧ D b) c := by
  refine ⟨fun b => ?_,fun both => ?_,fun either => ?_⟩
  · rw [first.restSafe,later.safe]
  · exact (first.restWent f c).mpr ⟨both.1,later.went both.2⟩
  · by_cases before : C .buffer
    · rw [Trace.bind,first.went before]
      exact later.lost fun after => either ⟨before,after⟩
    · rw [Trace.bind,first.lost before]

theorem congr (reads : Reads t C a) (same : ∀ b, C b ↔ D b) : Reads t D a :=
  ⟨fun b => (reads.safe b).trans (same b),fun safe => reads.went ((same _).mpr safe),
    fun unsafe' => reads.lost fun safe => unsafe' ((same _).mp safe)⟩

theorem last (first : Reads t C a) (g : α → β) : Reads (Trace.bind t fun x => Trace.pure (g x)) C (g a) :=
  (first.next (f := fun x => Trace.pure (g x)) (done (g a))).congr fun _ => ⟨And.left,fun here => ⟨here,trivial⟩⟩

end Reads

def behind (line key : Bytes) : Option Bytes := (strstr line key).map (·.drop key.length)
def Opens (pchar : Bytes) : Prop := peek pchar 0 = equals ∨ peek pchar 1 = quote
instance (pchar : Bytes) : Decidable (Opens pchar) := inferInstanceAs (Decidable (_ ∨ _))
def quoted (pchar : Bytes) : Option Bytes :=
  (strstr (pchar.drop 2) [quote]).map fun pend => (pchar.drop 2).take ((pchar.drop 2).length-pend.length)

def valueAt (pchar : Bytes) : Option Bytes := if Opens pchar then quoted pchar else none
def valueOf (line key : Bytes) : Option Bytes := (behind line key).bind valueAt

def NeatAt (b : Bound) (pchar : Bytes) : Prop :=
  (peek pchar 0 ≠ equals → 1 ≤ reach b pchar) ∧ (Opens pchar → 2 ≤ reach b pchar ∧ ∀ v ∈ quoted pchar, v.length < valueSize)
instance (b : Bound) (pchar : Bytes) : Decidable (NeatAt b pchar) := inferInstanceAs (Decidable ((_ → _) ∧ (_ → _ ∧ _)))
def Neat (b : Bound) (line key : Bytes) : Prop := ∀ pchar ∈ behind line key, NeatAt b pchar
instance (b : Bound) (line key : Bytes) : Decidable (Neat b line key) := inferInstanceAs (Decidable (∀ pchar ∈ _, _))

theorem startedReads (pchar : Bytes) :
    Reads (started pchar) (fun b => peek pchar 0 ≠ equals → 1 ≤ reach b pchar) (decide (Opens pchar)) := by
  unfold started
  by_cases first : peek pchar 0 = equals
  · have opens : decide (Opens pchar) = true := decide_eq_true (Or.inl first)
    rw [if_pos first,opens]
    exact (Reads.done true).congr fun b => ⟨fun _ other => absurd first other,fun _ => trivial⟩
  · have same : decide (peek pchar 1 = quote) = decide (Opens pchar) :=
      decide_eq_decide.mpr ⟨Or.inr,fun opens => opens.resolve_left first⟩
    rw [if_neg first,← same]
    exact ((Reads.touch (.read 1 pchar)).last fun _ => _).congr fun b => ⟨fun here _ => here,fun reads => reads first⟩

theorem quotedReads (pchar : Bytes) :
    Reads (.bind (access (.read 2 pchar)) fun _ =>
        match strstr (pchar.drop 2) [quote] with
        | none => .pure none
        | some pend =>
          let value := (pchar.drop 2).take ((pchar.drop 2).length-pend.length)
          .bind (access (.value (value.length+1))) fun _ => .pure (some value))
      (fun b => 2 ≤ reach b pchar ∧ ∀ v ∈ quoted pchar, v.length < valueSize) (quoted pchar) := by
  unfold quoted
  cases strstr (pchar.drop 2) [quote] with
  | none =>
    refine ((Reads.touch (.read 2 pchar)).last fun _ => none).congr fun b => ?_
    exact ⟨fun here => ⟨here,fun _ inside => absurd inside (Option.not_mem_none _)⟩,And.left⟩
  | some pend =>
    refine ((Reads.touch (.read 2 pchar)).next (f := fun _ => .bind (access (.value _)) fun _ => .pure _)
      ((Reads.touch (.value _)).last fun _ => _)).congr fun b => ?_
    simp only [Option.map_some,Option.mem_def,Option.some.injEq,forall_eq']
    exact Iff.rfl

theorem fromReads (pchar : Bytes) :
    Reads (.bind (started pchar) fun start =>
        if start then
          .bind (access (.read 2 pchar)) fun _ =>
          match strstr (pchar.drop 2) [quote] with
          | none => .pure none
          | some pend =>
            let value := (pchar.drop 2).take ((pchar.drop 2).length-pend.length)
            .bind (access (.value (value.length+1))) fun _ => .pure (some value)
        else .pure none)
      (fun b => NeatAt b pchar) (valueAt pchar) := by
  refine ((startedReads pchar).next ?_ (D := fun b => Opens pchar → 2 ≤ reach b pchar ∧
    ∀ v ∈ quoted pchar, v.length < valueSize)).congr
    fun b => Iff.rfl
  rw [valueAt]
  by_cases opens : Opens pchar
  · rw [if_pos (decide_eq_true opens),if_pos opens]
    exact (quotedReads pchar).congr fun b => ⟨fun here _ => here,fun here => here opens⟩
  · rw [if_neg (fun same => opens (of_decide_eq_true same)),if_neg opens]
    exact (Reads.done none).congr fun b => ⟨fun _ other => absurd other opens,fun _ => trivial⟩

theorem valueReads (line key : Bytes) : Reads (fhXmlGetValue line key) (fun b => Neat b line key) (valueOf line key) := by
  unfold fhXmlGetValue valueOf Neat behind
  cases strstr line key with
  | none => exact (Reads.done none).congr fun b => ⟨fun _ _ inside => absurd inside (Option.not_mem_none _),fun _ => trivial⟩
  | some found =>
    refine (fromReads (found.drop key.length)).congr fun b => ?_
    simp only [Option.map_some,Option.mem_def,Option.some.injEq,forall_eq']

def numberOf (line key : Bytes) (reads : Bytes → UInt32) : UInt32 := (valueOf line key).elim 0 reads

def Labelled (line : Bytes) : Prop := holds line (text "label") = true ∧ holds line (text "last_sector") = true
instance (line : Bytes) : Decidable (Labelled line) := inferInstanceAs (Decidable (_ ∧ _))

def labelOf (line : Bytes) : Bytes := if Labelled line then (valueOf line (text "label")).getD [] else []
def lastSectorOf (line : Bytes) : UInt32 := if Labelled line then numberOf line (text "last_sector") atoi else 0

def eraseOf (line : Bytes) : EraseCmd where
  pagesPerBlock := numberOf line (text "PAGES_PER_BLOCK") atoi
  sectorSizeInBytes := numberOf line (text "SECTOR_SIZE_IN_BYTES") atoi
  label := labelOf line
  lastSector := lastSectorOf line
  numPartitionSectors := numberOf line (text "num_partition_sectors") strtoulField
  physicalPartitionNumber := numberOf line (text "physical_partition_number") atoi
  startSector := numberOf line (text "start_sector") atoi

def programOf (line : Bytes) : ProgramCmd where
  filename := valueOf line (text "filename")
  pagesPerBlock := numberOf line (text "PAGES_PER_BLOCK") atoi
  sectorSizeInBytes := numberOf line (text "SECTOR_SIZE_IN_BYTES") atoi
  label := labelOf line
  lastSector := lastSectorOf line
  numPartitionSectors := numberOf line (text "num_partition_sectors") atoi
  physicalPartitionNumber := numberOf line (text "physical_partition_number") atoi
  startSector := numberOf line (text "start_sector") atoi

def responseOf (line : Bytes) : ResponseCmd where
  value := (valueOf line (text "value")).map responseValue
  rawmode := decide (valueOf line (text "rawmode") = some (text "true"))
  maxPayloadSizeToTargetInBytes :=
    if holds line (text "rawmode") then 0 else numberOf line (text "MaxPayloadSizeToTargetInBytes") atoi

def Blank (line : Bytes) : Prop := valueOf line (text "filename") = some []
instance (line : Bytes) : Decidable (Blank line) := inferInstanceAs (Decidable (_ = _))

def commandOf (line : Bytes) : Option Cmd :=
  if holds line vendorMark then some (.vendor ((cstr line).take (vendorSize-1)))
  else if (text "<erase ").isPrefixOf line then some (.erase (eraseOf line))
  else if (text "<program ").isPrefixOf line then if Blank line then none else some (.program (programOf line))
  else if (text "<response ").isPrefixOf line then some (.response (responseOf line))
  else if (text "<log ").isPrefixOf line then some .log
  else none

def NeatLabel (b : Bound) (line : Bytes) : Prop :=
  Labelled line → Neat b line (text "label") ∧ (∀ v ∈ valueOf line (text "label"), v.length < labelSize) ∧
    Neat b line (text "last_sector")

instance (b : Bound) (line : Bytes) : Decidable (NeatLabel b line) := inferInstanceAs (Decidable (_ → _ ∧ _ ∧ _))

def NeatSectors (b : Bound) (line : Bytes) : Prop :=
  Neat b line (text "PAGES_PER_BLOCK") ∧ Neat b line (text "SECTOR_SIZE_IN_BYTES") ∧ NeatLabel b line ∧
    Neat b line (text "num_partition_sectors") ∧ Neat b line (text "physical_partition_number") ∧
      Neat b line (text "start_sector")

instance (b : Bound) (line : Bytes) : Decidable (NeatSectors b line) := inferInstanceAs (Decidable (_ ∧ _ ∧ _ ∧ _ ∧ _ ∧ _))

def NeatProgram (b : Bound) (line : Bytes) : Prop := Neat b line (text "filename") ∧ (¬Blank line → NeatSectors b line)
instance (b : Bound) (line : Bytes) : Decidable (NeatProgram b line) := inferInstanceAs (Decidable (_ ∧ (_ → _)))

def NeatResponse (b : Bound) (line : Bytes) : Prop :=
  Neat b line (text "value") ∧
    if holds line (text "rawmode") then Neat b line (text "rawmode") else Neat b line (text "MaxPayloadSizeToTargetInBytes")

instance (b : Bound) (line : Bytes) : Decidable (NeatResponse b line) := by unfold NeatResponse; infer_instance

def Tame (b : Bound) (line : Bytes) : Prop :=
  if holds line vendorMark then True
  else if (text "<erase ").isPrefixOf line then NeatSectors b line
  else if (text "<program ").isPrefixOf line then NeatProgram b line
  else if (text "<response ").isPrefixOf line then NeatResponse b line
  else True
instance (b : Bound) (line : Bytes) : Decidable (Tame b line) := by unfold Tame; infer_instance

section Lines
variable (line : Bytes)

theorem numberReads (key : Bytes) (reads : Bytes → UInt32) :
    Reads (number line key reads) (fun b => Neat b line key) (numberOf line key reads) :=
  (valueReads line key).last fun value => value.elim 0 reads

theorem copyReads (value : Option Bytes) :
    Reads (copyLabel value) (fun _ => ∀ v ∈ value, v.length < labelSize) (value.getD []) := by
  cases value with
  | none => exact (Reads.done []).congr fun b => ⟨fun _ _ inside => absurd inside (Option.not_mem_none _),fun _ => trivial⟩
  | some v =>
    refine ((Reads.touch (.label (v.length+1))).last fun _ => v).congr fun b => ?_
    simp only [Option.mem_def,Option.some.injEq,forall_eq']
    exact Iff.rfl

theorem labelReads : Reads (labelAndLastSector line) (fun b => NeatLabel b line) (labelOf line,lastSectorOf line) := by
  unfold labelAndLastSector NeatLabel labelOf lastSectorOf
  by_cases both : Labelled line
  · have test : (holds line (text "label") && holds line (text "last_sector")) = true := Bool.and_eq_true_iff.mpr both
    rw [if_pos test,if_pos both,if_pos both]
    refine ((valueReads line (text "label")).next ((copyReads _).next
      ((numberReads line (text "last_sector") atoi).last fun last => (_,last)))).congr fun b => ?_
    exact ⟨fun here _ => here,fun here => here both⟩
  · have test : ¬(holds line (text "label") && holds line (text "last_sector")) = true :=
      fun same => both (Bool.and_eq_true_iff.mp same)
    rw [if_neg test,if_neg both,if_neg both]
    exact (Reads.done _).congr fun b => ⟨fun _ other => absurd other both,fun _ => trivial⟩

theorem sectorsReads {β : Type} (reads : Bytes → UInt32) (g : UInt32 → UInt32 → Bytes × UInt32 → UInt32 → UInt32 → UInt32 → β) :
    Reads (.bind (number line (text "PAGES_PER_BLOCK") atoi) fun pages =>
        .bind (number line (text "SECTOR_SIZE_IN_BYTES") atoi) fun size =>
        .bind (labelAndLastSector line) fun named =>
        .bind (number line (text "num_partition_sectors") reads) fun count =>
        .bind (number line (text "physical_partition_number") atoi) fun partition =>
        .bind (number line (text "start_sector") atoi) fun start => .pure (g pages size named count partition start))
      (fun b => NeatSectors b line)
      (g (numberOf line (text "PAGES_PER_BLOCK") atoi) (numberOf line (text "SECTOR_SIZE_IN_BYTES") atoi)
        (labelOf line,lastSectorOf line) (numberOf line (text "num_partition_sectors") reads)
        (numberOf line (text "physical_partition_number") atoi) (numberOf line (text "start_sector") atoi)) :=
  (numberReads line _ _).next <| (numberReads line _ _).next <| (labelReads line).next <| (numberReads line _ _).next <|
    (numberReads line _ _).next <| (numberReads line _ _).last _

theorem eraseReads : Reads (parseErase line) (fun b => NeatSectors b line) (some (.erase (eraseOf line))) := by
  unfold parseErase eraseOf
  have reads := sectorsReads line strtoulField fun pages size named count partition start =>
    some (Cmd.erase ⟨pages,size,named.1,named.2,count,partition,start⟩)
  exact reads

theorem programReads : Reads (parseProgram line) (fun b => NeatProgram b line)
    (if Blank line then none else some (.program (programOf line))) := by
  refine (valueReads line (text "filename")).next (D := fun b => ¬Blank line → NeatSectors b line) ?_
  by_cases blank : Blank line
  · have same : valueOf line (text "filename") = some [] := blank
    rw [if_pos blank,if_pos same]
    exact (Reads.done none).congr fun b => ⟨fun _ other => absurd blank other,fun _ => trivial⟩
  · have other : ¬valueOf line (text "filename") = some [] := blank
    have reads := sectorsReads line atoi fun pages size named count partition start =>
      some (Cmd.program ⟨valueOf line (text "filename"),pages,size,named.1,named.2,count,partition,start⟩)
    rw [if_neg blank,if_neg other]
    exact reads.congr fun b => ⟨fun here _ => here,fun here => here blank⟩

theorem lacking {key : Bytes} (lacks : holds line key = false) : behind line key = none := by
  unfold holds at lacks
  unfold behind
  rw [Option.not_isSome_iff_eq_none.mp (Bool.eq_false_iff.mp lacks),Option.map_none]

theorem responseReads : Reads (parseResponse line) (fun b => NeatResponse b line) (some (.response (responseOf line))) := by
  refine (valueReads line (text "value")).next ?_
  unfold responseOf
  by_cases raw : holds line (text "rawmode") = true
  · rw [if_pos raw,if_pos raw]
    exact ((valueReads line (text "rawmode")).last _).congr fun b => by rw [if_pos raw]
  · have none' : valueOf line (text "rawmode") = none := by
      rw [valueOf,lacking line (Bool.eq_false_iff.mpr raw)]
      rfl
    rw [if_neg raw,if_neg raw,none']
    by_cases size : holds line (text "MaxPayloadSizeToTargetInBytes") = true
    · rw [if_pos size]
      exact ((numberReads line (text "MaxPayloadSizeToTargetInBytes") atoi).last _).congr fun b => by rw [if_neg raw]
    · have absent : behind line (text "MaxPayloadSizeToTargetInBytes") = none := lacking line (Bool.eq_false_iff.mpr size)
      have zero : numberOf line (text "MaxPayloadSizeToTargetInBytes") atoi = 0 := by
        rw [numberOf,valueOf,absent]
        rfl
      rw [if_neg size,zero]
      refine (Reads.done _).congr fun b => ?_
      rw [if_neg raw,Neat,absent]
      exact ⟨fun _ _ inside => absurd inside (Option.not_mem_none _),fun _ => trivial⟩

theorem lineReads : Reads (fhParseXmlLine line) (fun b => Tame b line) (commandOf line) := by
  unfold fhParseXmlLine Tame commandOf
  split
  · exact Reads.done _
  · split
    · exact eraseReads line
    · split
      · exact programReads line
      · split
        · exact responseReads line
        · split
          · exact Reads.done _
          · exact Reads.done _

end Lines

end MhiHost.Firehose
