import MhiHost.Firehose

/-! `fh_send_cmd` in `firehose_protocol.c`: the element that is printed for a command, and
what of the command `fh_parse_xml_line` finds in it again. -/
namespace MhiHost.Commands
open Wire (Bytes peek)
open CString Firehose

def fields : List Bytes → List Bytes → Bytes → Bytes
  | n::ns,v::vs,last => n ++ quote :: (v ++ quote :: fields ns vs last)
  | _,_,last => last

def eraseLabelled : List Bytes :=
  [text "<erase PAGES_PER_BLOCK=",text " SECTOR_SIZE_IN_BYTES=",text " label=",text " last_sector=",
    text " num_partition_sectors=",text " physical_partition_number=",text " start_sector="]
def erasePaged : List Bytes :=
  [text "<erase PAGES_PER_BLOCK=",text " SECTOR_SIZE_IN_BYTES=",text " num_partition_sectors=",
    text " physical_partition_number=",text " start_sector="]
def eraseBare : List Bytes := [text "<erase num_partition_sectors=",text " start_sector="]
def programLabelled : List Bytes :=
  [text "<program PAGES_PER_BLOCK=",text " SECTOR_SIZE_IN_BYTES=",text " filename=",text " label=",text " last_sector=",
    text " num_partition_sectors=",text "  physical_partition_number=",text " start_sector="]
def programPlain : List Bytes :=
  [text "<program PAGES_PER_BLOCK=",text " SECTOR_SIZE_IN_BYTES=",text " filename=",
    text " num_partition_sectors=",text "  physical_partition_number=",text " start_sector="]
def configureNames : List Bytes :=
  [text "<configure MemoryName=",text " Verbose=",text " AlwaysValidate=",text " MaxDigestTableSizeInBytes=",
    text " MaxPayloadSizeToTargetInBytes=",text "  ZlpAwareHost=",text " SkipStorageInit="]

def Named (label : Bytes) (lastSector : UInt32) : Prop := label ≠ [] ∧ lastSector ≠ 0
instance (label : Bytes) (lastSector : UInt32) : Decidable (Named label lastSector) := inferInstanceAs (Decidable (_ ∧ _))

def eraseLabelledValues (c : EraseCmd) : List Bytes :=
  [printD c.pagesPerBlock,printD c.sectorSizeInBytes,c.label,printD c.lastSector,
    printD c.numPartitionSectors,printD c.physicalPartitionNumber,printD c.startSector]
def erasePagedValues (c : EraseCmd) : List Bytes :=
  [printD c.pagesPerBlock,printD c.sectorSizeInBytes,
    printD c.numPartitionSectors,printD c.physicalPartitionNumber,printD c.startSector]
def eraseBareValues (c : EraseCmd) : List Bytes := [printU c.numPartitionSectors,printD c.startSector]
def programLabelledValues (c : ProgramCmd) (filename : Bytes) : List Bytes :=
  [printD c.pagesPerBlock,printD c.sectorSizeInBytes,filename,c.label,printD c.lastSector,
    printD c.numPartitionSectors,printD c.physicalPartitionNumber,printD c.startSector]
def programPlainValues (c : ProgramCmd) (filename : Bytes) : List Bytes :=
  [printD c.pagesPerBlock,printD c.sectorSizeInBytes,filename,
    printD c.numPartitionSectors,printD c.physicalPartitionNumber,printD c.startSector]

def slash : Bytes := text " />"
def farSlash : Bytes := text "    />"

def eraseText (c : EraseCmd) : Bytes :=
  if Named c.label c.lastSector then fields eraseLabelled (eraseLabelledValues c) slash
  else if c.pagesPerBlock ≠ 0 ∧ c.sectorSizeInBytes ≠ 0 then fields erasePaged (erasePagedValues c) farSlash
  else fields eraseBare (eraseBareValues c) farSlash

/- Printing the null pointer of a command without a file name is not defined. -/
def programText (c : ProgramCmd) : Option Bytes :=
  c.filename.map fun filename =>
    if Named c.label c.lastSector then fields programLabelled (programLabelledValues c filename) slash
    else fields programPlain (programPlainValues c filename) slash

structure ConfigureCmd where
  memoryName : Bytes
  verbose : UInt32
  alwaysValidate : UInt32
  maxDigestTableSizeInBytes : UInt32
  maxPayloadSizeToTargetInBytes : UInt32
  zlpAwareHost : UInt32
  skipStorageInit : UInt32
  deriving DecidableEq, Repr

inductive Request where
  | command (cmd : Cmd)
  | configure (cmd : ConfigureCmd)
  | reset
  deriving DecidableEq, Repr

def elementText : Request → Option Bytes
  | .command (.vendor buffer) => some buffer
  | .command (.erase c) => some (eraseText c)
  | .command (.program c) => programText c
  | .command (.response _) | .command .log => none
  | .configure c => some (fields configureNames [c.memoryName,printD c.verbose,printD c.alwaysValidate,
      printD c.maxDigestTableSizeInBytes,printD c.maxPayloadSizeToTargetInBytes,printD c.zlpAwareHost,
      printD c.skipStorageInit] slash)
  | .reset => some (text "<power value=\"reset\" />")

def header : Bytes := text "<?xml version=\"1.0\" encoding=\"UTF-8\" ?>\n" ++ text "<data>\n"

def fhSendCmd (request : Request) : Option Bytes :=
  (elementText request).map fun element =>
    header ++ element ++ text "\n</data>"

section Fields
variable {names values : List Bytes} {last key : Bytes}

/- Where a key occurs in a name, the name ends with it and its `=`; no name has a quote or a
NUL, and what is behind the attributes has no key. -/
def Formatted (keys names : List Bytes) (last : Bytes) : Prop :=
  (∀ n ∈ names, quote ∉ n ∧ 0 ∉ n) ∧
    ∀ key ∈ keys, strstr last key = none ∧ ∀ n ∈ names, strstr n key = none ∨ strstr n key = some (key ++ [equals])
instance (keys names : List Bytes) (last : Bytes) : Decidable (Formatted keys names last) := inferInstanceAs (Decidable (_ ∧ _))

theorem fieldFound (given : key ≠ []) (unquoted : quote ∉ key) (lengths : names.length = values.length)
    (clean : ∀ n ∈ names, quote ∉ n ∧ 0 ∉ n) (cleanValues : ∀ v ∈ values, quote ∉ v ∧ 0 ∉ v)
    (ends : ∀ n ∈ names, strstr n key = none ∨ strstr n key = some (key ++ [equals])) (lastless : strstr last key = none)
    (free : ∀ v ∈ values.take (names.findIdx (holds · key)), strstr v key = none) :
    behind (fields names values last) key = none ∧ values[names.findIdx (holds · key)]? = none ∨
      ∃ v rest, values[names.findIdx (holds · key)]? = some v ∧
        behind (fields names values last) key = some (equals :: quote :: (v ++ quote :: rest)) := by
  induction names generalizing values with
  | nil =>
    cases values with
    | nil =>
      refine .inl ⟨?_,rfl⟩
      rw [fields,behind,lastless]
      · rfl
      · exact fun _ _ _ _ same => by cases same
    | cons v vs => cases lengths
  | cons n ns ih =>
    cases values with
    | nil => cases lengths
    | cons v vs =>
      obtain ⟨unquotedName,cleanName⟩ := clean n List.mem_cons_self
      obtain ⟨-,cleanValue⟩ := cleanValues v List.mem_cons_self
      have apart : quote ≠ 0 := by decide
      have whole : strstr (fields (n :: ns) (v :: vs) last) key =
          ((strstr n key).map (· ++ quote :: (v ++ quote :: fields ns vs last))).or
          (((strstr v key).map (· ++ quote :: fields ns vs last)).or (strstr (fields ns vs last) key)) := by
        rw [fields,across given unquoted apart cleanName,across given unquoted apart cleanValue]
      rcases ends n List.mem_cons_self with other | here
      · have miss : holds n key = false := holdsNone other
        have later : (n :: ns).findIdx (holds · key) = ns.findIdx (holds · key)+1 := by
          rw [List.findIdx_cons,miss]
          rfl
        rw [later] at free ⊢
        have valueless : strstr v key = none := free v List.mem_cons_self
        have same : behind (fields (n :: ns) (v :: vs) last) key = behind (fields ns vs last) key := by
          rw [behind,behind,whole,other,valueless]
          rfl
        rw [same,List.getElem?_cons_succ]
        exact ih (Nat.succ.inj lengths) (fun n inside => clean n (List.mem_cons_of_mem _ inside))
          (fun v inside => cleanValues v (List.mem_cons_of_mem _ inside)) (fun n inside => ends n (List.mem_cons_of_mem _ inside))
          fun v inside => free v (List.mem_cons_of_mem _ inside)
      · have hit : holds n key = true := by rw [holds,here]; rfl
        have first : (n :: ns).findIdx (holds · key) = 0 := by
          rw [List.findIdx_cons,hit]
          rfl
        refine .inr ⟨v,fields ns vs last,by rw [first]; rfl,?_⟩
        rw [behind,whole,here,Option.map_some,Option.some_or,Option.map_some,List.append_assoc,List.drop_left]
        rfl

theorem fieldsLength (lengths : names.length = values.length) {bound : Nat} (short : ∀ v ∈ values, v.length ≤ bound) :
    (fields names values last).length ≤ names.flatten.length+(bound+2)*names.length+last.length := by
  induction names generalizing values with
  | nil =>
    cases values with
    | nil => exact Nat.le_add_left _ _
    | cons v vs => cases lengths
  | cons n ns ih =>
    cases values with
    | nil => cases lengths
    | cons v vs =>
      have rest := ih (Nat.succ.inj lengths) fun v inside => short v (List.mem_cons_of_mem _ inside)
      have here := short v List.mem_cons_self
      rw [fields,List.length_append,List.length_cons,List.length_append,List.length_cons,List.flatten_cons,List.length_append,
        List.length_cons,Nat.mul_succ]
      omega

theorem valueBehind {v rest : Bytes} (clean : quote ∉ v ∧ 0 ∉ v) :
    valueAt (equals :: quote :: (v ++ quote :: rest)) = some v := by
  have opens : Opens (equals :: quote :: (v ++ quote :: rest)) := .inl rfl
  have same : strstr ((equals :: quote :: (v ++ quote :: rest)).drop 2) [quote] = some (quote :: rest) :=
    foundByte clean.1 clean.2
  have size : (v ++ quote :: rest).length-(quote :: rest).length = v.length := by
    rw [List.length_append]
    omega
  rw [valueAt,if_pos opens,quoted,same]
  show some ((v ++ quote :: rest).take _) = some v
  rw [List.drop_succ_cons,List.drop_succ_cons,List.drop_zero,size,List.take_left]

theorem fieldRead {keys : List Bytes} (listed : key ∈ keys) (keysText : ∀ key ∈ keys, key ≠ [] ∧ quote ∉ key)
    (formatted : Formatted keys names last) (lengths : names.length = values.length)
    (cleanValues : ∀ v ∈ values, quote ∉ v ∧ 0 ∉ v)
    (free : ∀ v ∈ values.take (names.findIdx (holds · key)), strstr v key = none) :
    valueOf (fields names values last) key = values[names.findIdx (holds · key)]? ∧
      ((∀ v ∈ values, v.length < valueSize) → Neat .buffer (fields names values last) key) := by
  obtain ⟨given,unquoted⟩ := keysText key listed
  obtain ⟨lastless,ends⟩ := formatted.2 key listed
  rcases fieldFound given unquoted lengths formatted.1 cleanValues ends lastless free with ⟨lacks,none'⟩ | ⟨v,rest,same,found'⟩
  · rw [valueOf,lacks,none']
    refine ⟨rfl,fun _ pchar inside => ?_⟩
    rw [lacks] at inside
    exact absurd inside (Option.not_mem_none _)
  · have clean := cleanValues v (List.mem_of_getElem? same)
    rw [valueOf,found',same]
    refine ⟨valueBehind clean,fun short pchar inside => ?_⟩
    rw [found'] at inside
    cases inside
    refine ⟨fun other => absurd rfl other,fun opens => ⟨Nat.le_add_left 2 _,fun v' inside' => ?_⟩⟩
    have value := @valueBehind v rest clean
    rw [valueAt,if_pos opens] at value
    cases value.symm.trans inside'
    exact short v (List.mem_of_getElem? same)

theorem fieldsHold (given : key ≠ []) (unquoted : quote ∉ key) (lengths : names.length = values.length)
    (clean : ∀ n ∈ names, quote ∉ n ∧ 0 ∉ n) (cleanValues : ∀ v ∈ values, quote ∉ v ∧ 0 ∉ v) (lastless : strstr last key = none) :
    holds (fields names values last) key = (names.any (holds · key) || values.any (holds · key)) := by
  induction names generalizing values with
  | nil =>
    cases values with
    | nil => exact holdsNone lastless
    | cons v vs => cases lengths
  | cons n ns ih =>
    cases values with
    | nil => cases lengths
    | cons v vs =>
      have cleanName := clean n List.mem_cons_self
      have cleanValue := cleanValues v List.mem_cons_self
      have rest := ih (Nat.succ.inj lengths) (fun n inside => clean n (List.mem_cons_of_mem _ inside))
        fun v inside => cleanValues v (List.mem_cons_of_mem _ inside)
      have apart : quote ≠ 0 := by decide
      have over' : ∀ {s b : Bytes}, 0 ∉ s → holds (s ++ quote :: b) key = (holds s key || holds b key) := by
        intro s b clean
        rw [holds,across given unquoted apart clean,Option.isSome_or,Option.isSome_map]
        rfl
      rw [fields,over' cleanName.2,over' cleanValue.2,rest,List.any_cons,List.any_cons]
      ac_rfl

theorem fieldsHead (names values : List Bytes) (last : Bytes) :
    fields names values last = last ∨ ∃ n rest, n ∈ names ∧ fields names values last = n ++ rest := by
  cases names with
  | nil => cases values <;> exact .inl rfl
  | cons n ns =>
    cases values with
    | nil => exact .inl rfl
    | cons v vs => exact .inr ⟨n,_,List.mem_cons_self,rfl⟩

theorem fieldsMark {k₁ k₂ : Bytes} (before : quote ∉ k₁) (clean : ∀ n ∈ names, quote ∉ n ∧ 0 ∉ n)
    (cleanValues : ∀ v ∈ values, quote ∉ v ∧ 0 ∉ v) (lastless : strstr last (k₁ ++ quote :: k₂) = none)
    (named : ∀ n ∈ names, ¬k₁ <:+ n) (parted : ∀ n ∈ names.drop 1, n.head? ≠ k₂.head?) (closing : last.head? ≠ k₂.head?)
    (begins : k₂ ≠ []) (full : ∀ n ∈ names, n ≠ []) (fullLast : last ≠ []) :
    strstr (fields names values last) (k₁ ++ quote :: k₂) = none := by
  induction names generalizing values with
  | nil =>
    cases values <;> exact lastless
  | cons n ns ih =>
    cases values with
    | nil => exact lastless
    | cons v vs =>
      have cleanName := clean n List.mem_cons_self
      have cleanValue := cleanValues v List.mem_cons_self
      have apart : quote ≠ 0 := by decide
      have rest := @ih vs (fun n inside => clean n (List.mem_cons_of_mem _ inside))
        (fun v inside => cleanValues v (List.mem_cons_of_mem _ inside)) (fun n inside => named n (List.mem_cons_of_mem _ inside))
        (fun n inside => parted n (List.mem_of_mem_drop inside)) (fun n inside => full n (List.mem_cons_of_mem _ inside))
      have next : ¬k₂ <+: fields ns vs last := by
        obtain ⟨c,k,rfl⟩ := List.exists_cons_of_ne_nil begins
        rcases fieldsHead ns vs last with same | ⟨m,rest',inside,same⟩
        · rintro starts
          obtain ⟨d,l,whole⟩ := List.exists_cons_of_ne_nil fullLast
          rw [same,whole] at starts
          exact closing (by rw [whole,(List.cons_prefix_cons.mp starts).1]; rfl)
        · intro starts
          obtain ⟨d,l,whole⟩ := List.exists_cons_of_ne_nil (full m (List.mem_cons_of_mem _ inside))
          rw [same,whole] at starts
          exact parted m inside (by rw [whole,(List.cons_prefix_cons.mp starts).1]; rfl)
      rw [fields,acrossMark apart before cleanName.1 cleanName.2 fun both => named n List.mem_cons_self both.1,
        acrossMark apart before cleanValue.1 cleanValue.2 fun both => next both.2]
      exact rest

end Fields

def keys : List Bytes :=
  [text "PAGES_PER_BLOCK",text "SECTOR_SIZE_IN_BYTES",text "filename",text "label",text "last_sector",
    text "num_partition_sectors",text "physical_partition_number",text "start_sector"]

theorem keysText : ∀ key ∈ keys, key ≠ [] ∧ quote ∉ key := by decide +kernel
def markBefore : Bytes := text "vendor="
def markBehind : Bytes := text "quectel\""

def Unmarked (names : List Bytes) (last : Bytes) : Prop :=
  (strstr last vendorMark = none ∧ last.head? ≠ markBehind.head? ∧ last ≠ []) ∧
    (∀ n ∈ names, ¬markBefore <:+ n ∧ n ≠ []) ∧ ∀ n ∈ names.drop 1, n.head? ≠ markBehind.head?
instance (names : List Bytes) (last : Bytes) : Decidable (Unmarked names last) := inferInstanceAs (Decidable (_ ∧ _ ∧ _))

def Layout (names : List Bytes) (last : Bytes) (places : List Nat) : Prop :=
  Formatted keys names last ∧ Unmarked names last ∧ keys.map (fun key => names.findIdx (holds · key)) = places
instance (names : List Bytes) (last : Bytes) (places : List Nat) : Decidable (Layout names last places) :=
  inferInstanceAs (Decidable (_ ∧ _ ∧ _))

theorem eraseLabelledLayout : Layout eraseLabelled slash [0,1,7,2,3,4,5,6] := by decide +kernel
theorem erasePagedLayout : Layout erasePaged farSlash [0,1,5,5,5,2,3,4] := by decide +kernel
theorem eraseBareLayout : Layout eraseBare farSlash [2,2,2,2,2,0,2,1] := by decide +kernel
theorem programLabelledLayout : Layout programLabelled slash [0,1,2,3,4,5,6,7] := by decide +kernel
theorem programPlainLayout : Layout programPlain slash [0,1,2,6,6,3,4,5] := by decide +kernel

def Fits (v : Bytes) : Prop := (quote ∉ v ∧ 0 ∉ v) ∧ v.length < valueSize
instance (v : Bytes) : Decidable (Fits v) := inferInstanceAs (Decidable (_ ∧ _))

theorem printedLacks {v : Bytes} {c : UInt8} (printed : Printed v) (other : isDigit c = false ∧ c ≠ minus) : c ∉ v := by
  intro inside
  rcases printed.1 c inside with digit | sign
  · exact Bool.false_ne_true (other.1.symm.trans digit)
  · exact other.2 sign

theorem printedFits {v : Bytes} (printed : Printed v) : Fits v :=
  ⟨⟨printedLacks printed (by decide),printedLacks printed (by decide)⟩,Nat.lt_of_le_of_lt printed.2 (by decide)⟩

theorem printedFree {v key : Bytes} (printed : Printed v) (listed : key ∈ keys) : strstr v key = none := by
  have letters : ∀ key ∈ keys, ∃ c ∈ key, isDigit c = false ∧ c ≠ minus := by decide +kernel
  obtain ⟨c,needs,other⟩ := letters key listed
  exact absent needs (printedLacks printed other)

def Clear (key v : Bytes) : Prop := Printed v ∨ strstr v key = none

theorem clearD (key : Bytes) (x : UInt32) : Clear key (printD x) := .inl (printedD x)
theorem fitsD (x : UInt32) : Fits (printD x) := printedFits (printedD x)
theorem fitsU (x : UInt32) : Fits (printU x) := printedFits (printedU x)

section Reading
variable {names values : List Bytes} {last key t : Bytes} {places : List Nat} {x : UInt32}

structure Print (names values : List Bytes) (last : Bytes) (places : List Nat) : Prop where
  layout : Layout names last places
  lengths : names.length = values.length
  fit : ∀ v ∈ values, Fits v

theorem Print.short (print : Print names values last places) :
    (fields names values last).length ≤ names.flatten.length+65*names.length+last.length :=
  fieldsLength print.lengths fun v inside => Nat.le_of_lt_succ (print.fit v inside).2

theorem Print.place (print : Print names values last places) (k : Nat) {i : Nat} (listed : keys[k]? = some key)
    (place : places[k]? = some i) : key ∈ keys ∧ names.findIdx (CString.holds · key) = i := by
  refine ⟨List.mem_of_getElem? listed,?_⟩
  rw [← print.layout.2.2,List.getElem?_map,listed] at place
  exact Option.some.inj place

def Unshadowed (searched places : List Nat) (values : List Bytes) : Prop :=
  ∀ k ∈ searched, ∀ key ∈ keys[k]?, ∀ i ∈ places[k]?, ∀ v ∈ values.take i, Clear key v

theorem unshadowed (searched places : List Nat) (printed : ∀ v ∈ values, Printed v) : Unshadowed searched places values :=
  fun _ _ _ _ _ _ v before => .inl (printed v (List.mem_of_mem_take before))

theorem Print.read {searched : List Nat} (print : Print names values last places)
    (clear : Unshadowed searched places values) (k i : Nat)
    (inside : k ∈ searched) (listed : keys[k]? = some key) (place : places[k]? = some i) :
    valueOf (fields names values last) key = values[i]? ∧ Neat .buffer (fields names values last) key := by
  obtain ⟨known,index⟩ := print.place k listed place
  have free : ∀ v ∈ values.take (names.findIdx (CString.holds · key)), strstr v key = none := by
    intro v before
    rw [index] at before
    exact (clear k inside key listed i place v before).elim (fun printed => printedFree printed known) id
  obtain ⟨same,neat⟩ := fieldRead known keysText print.layout.1 print.lengths (fun v inside => (print.fit v inside).1) free
  rw [index] at same
  exact ⟨same,neat fun v inside => (print.fit v inside).2⟩

theorem Print.holds (print : Print names values last places) (inside : key ∈ keys) :
    CString.holds (fields names values last) key = (names.any (CString.holds · key) || values.any (CString.holds · key)) := by
  obtain ⟨given,unquoted⟩ := keysText key inside
  exact fieldsHold given unquoted print.lengths print.layout.1.1 (fun v inside => (print.fit v inside).1)
    (print.layout.1.2 key inside).1

theorem Print.named (print : Print names values last places) (k i : Nat) (listed : keys[k]? = some key)
    (place : places[k]? = some i)
    (given : i < names.length) : CString.holds (fields names values last) key = true := by
  obtain ⟨inside,index⟩ := print.place k listed place
  obtain ⟨n,within,here⟩ := List.findIdx_lt_length.mp (index ▸ given)
  rw [print.holds inside]
  exact Bool.or_eq_true_iff.mpr (.inl (List.any_eq_true.mpr ⟨n,within,here⟩))

theorem Print.heldBy (print : Print names values last places) (k : Nat) (listed : keys[k]? = some key)
    (place : places[k]? = some names.length) (held : CString.holds (fields names values last) key = true) :
    ∃ v ∈ values, ¬Printed v ∧ CString.holds v key = true := by
  obtain ⟨listed',index⟩ := print.place k listed place
  have nameless : names.any (CString.holds · key) = false := by
    refine List.any_eq_false.mpr fun n inside => Bool.eq_false_iff.mp (List.findIdx_eq_length.mp index n inside)
  rw [print.holds listed',nameless,Bool.false_or] at held
  obtain ⟨v,inside,here⟩ := List.any_eq_true.mp held
  refine ⟨v,inside,fun printed => ?_,here⟩
  rw [holdsNone (printedFree printed listed')] at here
  exact Bool.false_ne_true here

theorem Print.unmarked (print : Print names values last places) :
    CString.holds (fields names values last) vendorMark = false := by
  have mark : vendorMark = markBefore ++ quote :: markBehind := by decide
  obtain ⟨⟨lastless,closing,fullLast⟩,named,parted⟩ := print.layout.2.1
  apply holdsNone
  rw [mark] at lastless ⊢
  exact fieldsMark (by decide) print.layout.1.1 (fun v inside => (print.fit v inside).1) lastless
    (fun n inside => (named n inside).1)
    parted closing (by decide) (fun n inside => (named n inside).2) fullLast

structure LabelRead (t label : Bytes) (lastSector : UInt32) : Prop where
  label : labelOf t = label
  lastSector : lastSectorOf t = lastSector
  neat : NeatLabel .buffer t

theorem unlabelledRead (neither : ¬Labelled t) : LabelRead t [] 0 :=
  ⟨if_neg neither,if_neg neither,fun both => absurd both neither⟩

theorem Print.unlabelled (print : Print names values last places) (place : places[3]? = some names.length)
    (printed : ∀ v ∈ values, Printed v) : LabelRead (fields names values last) [] 0 := by
  refine unlabelledRead fun both => ?_
  obtain ⟨v,inside,other,-⟩ := print.heldBy 3 rfl place both.1
  exact other (printed v inside)

theorem Print.labelledRead {label : Bytes} {i j : Nat} (print : Print names values last places)
    (clear : Unshadowed [3,4] places values)
    (place : places[3]? = some i) (placeLast : places[4]? = some j) (same : values[i]? = some label)
    (sameLast : values[j]? = some (printD x)) (short : label.length < labelSize) :
    LabelRead (fields names values last) label x := by
  obtain ⟨labelled,neatLabel⟩ := print.read clear 3 i (by simp) rfl place
  obtain ⟨ends,neatLast⟩ := print.read clear 4 j (by simp) rfl placeLast
  rw [same] at labelled
  rw [sameLast] at ends
  have within : ∀ {i : Nat} {v : Bytes}, values[i]? = some v → i < names.length := by
    intro i v same
    rw [print.lengths]
    exact (List.getElem?_eq_some_iff.mp same).1
  have both : Labelled (fields names values last) :=
    ⟨print.named 3 i rfl place (within same),print.named 4 j rfl placeLast (within sameLast)⟩
  constructor
  · rw [labelOf,if_pos both,labelled]
    rfl
  · rw [lastSectorOf,if_pos both,numberOf,ends]
    exact atoiPrintD x
  · refine fun _ => ⟨neatLabel,fun v inside => ?_,neatLast⟩
    cases labelled.symm.trans inside
    exact short

/- The five numbers that every element is searched for. -/
theorem Print.sectors {i₀ i₁ i₂ i₃ i₄ i₅ i₆ i₇ : Nat} (print : Print names values last [i₀,i₁,i₂,i₃,i₄,i₅,i₆,i₇])
    (clear : Unshadowed [0,1,5,6,7] [i₀,i₁,i₂,i₃,i₄,i₅,i₆,i₇] values) (neatLabel : NeatLabel .buffer (fields names values last)) :
    (valueOf (fields names values last) (text "PAGES_PER_BLOCK") = values[i₀]? ∧
      valueOf (fields names values last) (text "SECTOR_SIZE_IN_BYTES") = values[i₁]? ∧
      valueOf (fields names values last) (text "num_partition_sectors") = values[i₅]? ∧
      valueOf (fields names values last) (text "physical_partition_number") = values[i₆]? ∧
      valueOf (fields names values last) (text "start_sector") = values[i₇]?) ∧
      NeatSectors .buffer (fields names values last) := by
  obtain ⟨pages,neatPages⟩ := print.read clear 0 i₀ (by simp) rfl rfl
  obtain ⟨size,neatSize⟩ := print.read clear 1 i₁ (by simp) rfl rfl
  obtain ⟨count,neatCount⟩ := print.read clear 5 i₅ (by simp) rfl rfl
  obtain ⟨partition,neatPartition⟩ := print.read clear 6 i₆ (by simp) rfl rfl
  obtain ⟨start,neatStart⟩ := print.read clear 7 i₇ (by simp) rfl rfl
  exact ⟨⟨pages,size,count,partition,start⟩,neatPages,neatSize,neatLabel,neatCount,neatPartition,neatStart⟩

def shown (values : List Bytes) (i : Nat) (reads : Bytes → UInt32) : UInt32 := values[i]?.elim 0 reads

theorem Print.erase {i₀ i₁ i₂ i₃ i₄ i₅ i₆ i₇ : Nat} {label : Bytes} (print : Print names values last [i₀,i₁,i₂,i₃,i₄,i₅,i₆,i₇])
    (clear : Unshadowed [0,1,5,6,7] [i₀,i₁,i₂,i₃,i₄,i₅,i₆,i₇] values) (named : LabelRead (fields names values last) label x) :
    eraseOf (fields names values last) = ⟨shown values i₀ atoi,shown values i₁ atoi,label,x,shown values i₅ strtoulField,
        shown values i₆ atoi,shown values i₇ atoi⟩ ∧
      NeatSectors .buffer (fields names values last) := by
  obtain ⟨⟨pages,size,count,partition,start⟩,neat⟩ := print.sectors clear named.neat
  refine ⟨?_,neat⟩
  rw [eraseOf,numberOf,numberOf,numberOf,numberOf,numberOf,pages,size,named.label,named.lastSector,count,partition,start]
  rfl

theorem Print.program {i₀ i₁ i₂ i₃ i₄ i₅ i₆ i₇ : Nat} {label : Bytes} (print : Print names values last [i₀,i₁,i₂,i₃,i₄,i₅,i₆,i₇])
    (clear : Unshadowed [0,1,2,5,6,7] [i₀,i₁,i₂,i₃,i₄,i₅,i₆,i₇] values) (named : LabelRead (fields names values last) label x) :
    programOf (fields names values last) = ⟨values[i₂]?,shown values i₀ atoi,shown values i₁ atoi,label,x,shown values i₅ atoi,
        shown values i₆ atoi,shown values i₇ atoi⟩ ∧
      Neat .buffer (fields names values last) (text "filename") ∧ NeatSectors .buffer (fields names values last) := by
  obtain ⟨name,neatName⟩ := print.read clear 2 i₂ (by simp) rfl rfl
  have more : ∀ k ∈ [0,1,5,6,7], k ∈ [0,1,2,5,6,7] := by decide
  have fewer : Unshadowed [0,1,5,6,7] [i₀,i₁,i₂,i₃,i₄,i₅,i₆,i₇] values := fun k inside => clear k (more k inside)
  obtain ⟨⟨pages,size,count,partition,start⟩,neat⟩ := print.sectors fewer named.neat
  refine ⟨?_,neatName,neat⟩
  rw [programOf,name,numberOf,numberOf,numberOf,numberOf,numberOf,pages,size,named.label,named.lastSector,count,partition,start]
  rfl

end Reading

def carriedErase (c : EraseCmd) : EraseCmd :=
  if Named c.label c.lastSector then c
  else if c.pagesPerBlock ≠ 0 ∧ c.sectorSizeInBytes ≠ 0 then { c with label := [], lastSector := 0 }
  else ⟨0,0,[],0,c.numPartitionSectors,0,c.startSector⟩

def Free (names : List Bytes) (v : Bytes) : Prop := ∀ key ∈ names, strstr v key = none
instance (names : List Bytes) (v : Bytes) : Decidable (Free names v) := inferInstanceAs (Decidable (∀ _ ∈ _, _))

def sectorKeys : List Bytes := [text "num_partition_sectors",text "physical_partition_number",text "start_sector"]

section Elements

theorem eraseLabelledPrint (c : EraseCmd) (fits : Fits c.label) :
    Print eraseLabelled (eraseLabelledValues c) slash [0,1,7,2,3,4,5,6] :=
  ⟨eraseLabelledLayout,rfl,by simp [eraseLabelledValues,fitsD,fits]⟩

theorem erasePagedPrint (c : EraseCmd) : Print erasePaged (erasePagedValues c) farSlash [0,1,5,5,5,2,3,4] :=
  ⟨erasePagedLayout,rfl,by simp [erasePagedValues,fitsD]⟩

theorem eraseBarePrint (c : EraseCmd) : Print eraseBare (eraseBareValues c) farSlash [2,2,2,2,2,0,2,1] :=
  ⟨eraseBareLayout,rfl,by simp [eraseBareValues,fitsD,fitsU]⟩

theorem programLabelledPrint (c : ProgramCmd) {filename : Bytes} (fits : Fits c.label) (fitsName : Fits filename) :
    Print programLabelled (programLabelledValues c filename) slash [0,1,2,3,4,5,6,7] :=
  ⟨programLabelledLayout,rfl,by simp [programLabelledValues,fitsD,fits,fitsName]⟩

theorem programPlainPrint (c : ProgramCmd) {filename : Bytes} (fitsName : Fits filename) :
    Print programPlain (programPlainValues c filename) slash [0,1,2,6,6,3,4,5] :=
  ⟨programPlainLayout,rfl,by simp [programPlainValues,fitsD,fitsName]⟩

theorem clearFirst {names : List Bytes} {key v : Bytes} (free : Free (key :: names) v) : Clear key v ∧ Free names v :=
  ⟨.inr (free key List.mem_cons_self),fun other inside => free other (List.mem_cons_of_mem _ inside)⟩

theorem clearSectors {v : Bytes} (free : Free sectorKeys v) : Clear (text "num_partition_sectors") v ∧
    Clear (text "physical_partition_number") v ∧ Clear (text "start_sector") v := by
  obtain ⟨count,free⟩ := clearFirst free
  obtain ⟨partition,free⟩ := clearFirst free
  exact ⟨count,partition,(clearFirst free).1⟩

theorem eraseLabelledRead (c : EraseCmd) (fits : Fits c.label) (short : c.label.length < labelSize)
    (free : Free (text "last_sector" :: sectorKeys) c.label) :
    eraseOf (fields eraseLabelled (eraseLabelledValues c) slash) = c ∧
      NeatSectors .buffer (fields eraseLabelled (eraseLabelledValues c) slash) := by
  have print := eraseLabelledPrint c fits
  obtain ⟨ends,free⟩ := clearFirst free
  have clear := clearSectors free
  have named := print.labelledRead (by simp [Unshadowed,keys,eraseLabelledValues,clearD,ends]) rfl rfl rfl rfl short
  have read := print.erase (by simp [Unshadowed,keys,eraseLabelledValues,clearD,clear]) named
  simpa [shown,eraseLabelledValues,atoiPrintD,strtoulField,strtoulPrintD] using read

theorem erasePagedRead (c : EraseCmd) :
    eraseOf (fields erasePaged (erasePagedValues c) farSlash) = { c with label := [], lastSector := 0 } ∧
      NeatSectors .buffer (fields erasePaged (erasePagedValues c) farSlash) := by
  have printed : ∀ v ∈ erasePagedValues c, Printed v := by simp [erasePagedValues,printedD]
  have print := erasePagedPrint c
  have read := print.erase (unshadowed _ _ printed) (print.unlabelled rfl printed)
  simpa [shown,erasePagedValues,atoiPrintD,strtoulField,strtoulPrintD] using read

theorem eraseBareRead (c : EraseCmd) :
    eraseOf (fields eraseBare (eraseBareValues c) farSlash) = ⟨0,0,[],0,c.numPartitionSectors,0,c.startSector⟩ ∧
      NeatSectors .buffer (fields eraseBare (eraseBareValues c) farSlash) := by
  have printed : ∀ v ∈ eraseBareValues c, Printed v := by simp [eraseBareValues,printedD,printedU]
  have print := eraseBarePrint c
  have read := print.erase (unshadowed _ _ printed) (print.unlabelled rfl printed)
  simpa [shown,eraseBareValues,atoiPrintD,strtoulField,strtoulPrintU] using read

theorem programLabelledRead (c : ProgramCmd) (filename : Bytes) (fits : Fits c.label) (short : c.label.length < labelSize)
    (fitsName : Fits filename) (free : Free (text "last_sector" :: sectorKeys) c.label)
    (freeName : Free (text "label" :: text "last_sector" :: sectorKeys) filename) :
    programOf (fields programLabelled (programLabelledValues c filename) slash) = { c with filename := some filename } ∧
      Neat .buffer (fields programLabelled (programLabelledValues c filename) slash) (text "filename") ∧
      NeatSectors .buffer (fields programLabelled (programLabelledValues c filename) slash) := by
  have print := programLabelledPrint c fits fitsName
  obtain ⟨ends,free⟩ := clearFirst free
  obtain ⟨label,freeName⟩ := clearFirst freeName
  obtain ⟨endsName,freeName⟩ := clearFirst freeName
  have clear := clearSectors free
  have clearName := clearSectors freeName
  have named := print.labelledRead (by simp [Unshadowed,keys,programLabelledValues,clearD,label,ends,endsName]) rfl rfl rfl rfl short
  have read := print.program (by simp [Unshadowed,keys,programLabelledValues,clearD,clear,clearName]) named
  simpa [shown,programLabelledValues,atoiPrintD] using read

theorem programPlainRead (c : ProgramCmd) (filename : Bytes) (fitsName : Fits filename) (freeName : Free sectorKeys filename)
    (apart : ¬(holds filename (text "label") = true ∧ holds filename (text "last_sector") = true)) :
    programOf (fields programPlain (programPlainValues c filename) slash) =
        { c with filename := some filename, label := [], lastSector := 0 } ∧
      Neat .buffer (fields programPlain (programPlainValues c filename) slash) (text "filename") ∧
      NeatSectors .buffer (fields programPlain (programPlainValues c filename) slash) := by
  have print := programPlainPrint c fitsName
  have texts : ∀ v ∈ programPlainValues c filename, ¬Printed v → v = filename := by
    intro v inside other
    have all : ∀ v ∈ programPlainValues c filename, Printed v ∨ v = filename := by simp [programPlainValues,printedD]
    exact (all v inside).resolve_left other
  have neither : ¬Labelled (fields programPlain (programPlainValues c filename) slash) := by
    intro both
    obtain ⟨v,inside,other,label⟩ := print.heldBy 3 rfl rfl both.1
    obtain ⟨w,within,other',ends⟩ := print.heldBy 4 rfl rfl both.2
    exact apart ⟨texts v inside other ▸ label,texts w within other' ▸ ends⟩
  have clearName := clearSectors freeName
  have read := print.program (by simp [Unshadowed,keys,programPlainValues,clearD,clearName]) (unlabelledRead neither)
  simpa [shown,programPlainValues,atoiPrintD] using read

end Elements

theorem eraseLine {t : Bytes} {c : EraseCmd} (unmarked : holds t vendorMark = false)
    (starts : (text "<erase ").isPrefixOf t = true)
    (read : eraseOf t = c ∧ NeatSectors .buffer t) : (fhParseXmlLine t).outcome = .went (some (.erase c)) := by
  have tame : Tame .buffer t := by
    rw [Tame,unmarked,starts]
    exact read.2
  rw [(lineReads t).went tame,commandOf,unmarked,starts,read.1]
  rfl

theorem programLine {t : Bytes} {c : ProgramCmd} (unmarked : holds t vendorMark = false)
    (starts : (text "<program ").isPrefixOf t = true)
    (other : (text "<erase ").isPrefixOf t = false) (given : c.filename ≠ some [])
    (read : programOf t = c ∧ Neat .buffer t (text "filename") ∧ NeatSectors .buffer t) :
    (fhParseXmlLine t).outcome = .went (some (.program c)) := by
  have named : ¬Blank t := by
    intro blank
    exact given (read.1 ▸ blank)
  have tame : Tame .buffer t := by
    rw [Tame,unmarked,starts,other]
    exact ⟨read.2.1,fun _ => read.2.2⟩
  rw [(lineReads t).went tame,commandOf,unmarked,starts,other]
  show Outcome.went (if Blank t then none else some (Cmd.program (programOf t))) = _
  rw [if_neg named,read.1]

theorem valueText {line key v : Bytes} (same : valueOf line key = some v) (neat : Neat .buffer line key) : Fits v := by
  obtain ⟨pchar,found',at'⟩ := Option.bind_eq_some_iff.mp same
  rw [valueAt] at at'
  split at at'
  · rename_i opens
    refine ⟨?_,((neat pchar found').2 opens).2 v at'⟩
    obtain ⟨pend,ends,rfl⟩ := Option.map_eq_some_iff.mp at'
    obtain ⟨a,whole,unquoted,clean⟩ := byteFirst ends
    rw [whole,List.length_append,Nat.add_sub_cancel,List.take_left]
    exact ⟨unquoted,clean⟩
  · cases at'

theorem labelText {line : Bytes} (neat : NeatLabel .buffer line) : Fits (labelOf line) ∧ (labelOf line).length < labelSize := by
  have empty : Fits [] ∧ ([] : Bytes).length < labelSize := by decide
  rw [labelOf]
  split
  · rename_i both
    obtain ⟨neatLabel,short,-⟩ := neat both
    cases same : valueOf line (text "label") with
    | none => exact empty
    | some v => exact ⟨valueText same neatLabel,short v same⟩
  · exact empty

def Returns (cmd : Cmd) : Prop :=
  (elementText (.command cmd)).map (fun element => (fhParseXmlLine element).outcome) = some (.went (some cmd))
instance (cmd : Cmd) : Decidable (Returns cmd) := inferInstanceAs (Decidable (_ = _))

def PlainErase (c : EraseCmd) : Prop := Named c.label c.lastSector → Free (text "last_sector" :: sectorKeys) c.label
def PlainProgram (c : ProgramCmd) (filename : Bytes) : Prop :=
  (Named c.label c.lastSector →
    Free (text "last_sector" :: sectorKeys) c.label ∧ Free (text "label" :: text "last_sector" :: sectorKeys) filename) ∧
  (¬Named c.label c.lastSector →
    Free sectorKeys filename ∧ ¬(holds filename (text "label") = true ∧ holds filename (text "last_sector") = true))
instance (c : EraseCmd) : Decidable (PlainErase c) := inferInstanceAs (Decidable (_ → _))
instance (c : ProgramCmd) (filename : Bytes) : Decidable (PlainProgram c filename) := inferInstanceAs (Decidable (_ ∧ _))

def Plain : Cmd → Prop
  | .erase c => PlainErase c
  | .program c => ∀ filename ∈ c.filename, PlainProgram c filename
  | .vendor _ | .response _ | .log => False

def Carried : Cmd → Prop
  | .erase c => Named c.label c.lastSector ∨ c.label = [] ∧ c.lastSector = 0 ∧
      (c.pagesPerBlock ≠ 0 ∧ c.sectorSizeInBytes ≠ 0 ∨
        c.pagesPerBlock = 0 ∧ c.sectorSizeInBytes = 0 ∧ c.physicalPartitionNumber = 0)
  | .program c => c.filename ≠ none ∧ (Named c.label c.lastSector ∨ c.label = [] ∧ c.lastSector = 0)
  | .vendor _ | .response _ | .log => False

theorem erasePrinted (c : EraseCmd) (fits : Fits c.label) (short : c.label.length < labelSize) (plain : PlainErase c) :
    (fhParseXmlLine (eraseText c)).outcome = .went (some (.erase (carriedErase c))) := by
  unfold eraseText carriedErase
  split
  · rename_i named
    exact eraseLine (eraseLabelledPrint c fits).unmarked rfl (eraseLabelledRead c fits short (plain named))
  · split
    · exact eraseLine (erasePagedPrint c).unmarked rfl (erasePagedRead c)
    · exact eraseLine (eraseBarePrint c).unmarked rfl (eraseBareRead c)

def carriedProgram (c : ProgramCmd) : ProgramCmd :=
  if Named c.label c.lastSector then c else { c with label := [], lastSector := 0 }

theorem programPrinted (c : ProgramCmd) {filename : Bytes} (same : c.filename = some filename) (given : filename ≠ [])
    (fits : Fits c.label) (short : c.label.length < labelSize) (fitsName : Fits filename) (plain : PlainProgram c filename) :
    (programText c).map (fun element => (fhParseXmlLine element).outcome) =
    some (.went (some (.program (carriedProgram c)))) := by
  have whole : { c with filename := some filename } = c := by rw [← same]
  have named : some filename ≠ some [] := fun empty => given (Option.some.inj empty)
  rw [programText,same,Option.map_some,Option.map_some]
  refine congrArg some ?_
  unfold carriedProgram
  split
  · rename_i both
    obtain ⟨free,freeName⟩ := plain.1 both
    have read := programLabelledRead c filename fits short fitsName free freeName
    rw [whole] at read
    exact programLine (programLabelledPrint c fits fitsName).unmarked rfl rfl (same ▸ named) read
  · rename_i neither
    obtain ⟨freeName,apart⟩ := plain.2 neither
    have read := programPlainRead c filename fitsName freeName apart
    rw [← same] at read
    exact programLine (programPlainPrint c fitsName).unmarked rfl rfl (same ▸ named) read

theorem eraseCarried (c : EraseCmd) : carriedErase c = c ↔ Carried (.erase c) := by
  unfold carriedErase Carried
  obtain ⟨pages,size,label,last,count,partition,start⟩ := c
  by_cases named : Named label last
  · rw [if_pos named]
    exact ⟨fun _ => .inl named,fun _ => rfl⟩
  · rw [if_neg named]
    by_cases paged : pages ≠ 0 ∧ size ≠ 0
    · rw [if_pos paged,EraseCmd.mk.injEq]
      refine ⟨fun same => .inr ⟨same.2.2.1.symm,same.2.2.2.1.symm,.inl paged⟩,fun either => ?_⟩
      obtain ⟨rfl,rfl,-⟩ := either.resolve_left named
      exact ⟨rfl,rfl,rfl,rfl,rfl,rfl,rfl⟩
    · rw [if_neg paged,EraseCmd.mk.injEq]
      constructor
      · rintro ⟨pages,size,label,last,-,partition,-⟩
        exact .inr ⟨label.symm,last.symm,.inr ⟨pages.symm,size.symm,partition.symm⟩⟩
      · intro either
        obtain ⟨rfl,rfl,rest⟩ := either.resolve_left named
        obtain ⟨rfl,rfl,rfl⟩ := rest.resolve_left paged
        exact ⟨rfl,rfl,rfl,rfl,rfl,rfl,rfl⟩

theorem programCarried {c : ProgramCmd} {filename : Bytes} (same : c.filename = some filename) :
    carriedProgram c = c ↔ Carried (.program c) := by
  obtain ⟨name,pages,size,label,last,count,partition,start⟩ := c
  obtain rfl : name = some filename := same
  unfold carriedProgram Carried
  by_cases named : Named label last
  · rw [if_pos named]
    exact ⟨fun _ => ⟨Option.some_ne_none _,.inl named⟩,fun _ => rfl⟩
  · rw [if_neg named,ProgramCmd.mk.injEq]
    refine ⟨fun same => ⟨Option.some_ne_none _,.inr ⟨same.2.2.2.1.symm,same.2.2.2.2.1.symm⟩⟩,fun both => ?_⟩
    obtain ⟨rfl,rfl⟩ := both.2.resolve_left named
    exact ⟨rfl,rfl,rfl,rfl,rfl,rfl,rfl,rfl⟩

theorem accepted {line : Bytes} {cmd : Cmd} (parsed : (fhParseXmlLine line).outcome = .went (some cmd)) :
    Tame .buffer line ∧ commandOf line = some cmd := by
  have tame : Tame .buffer line := by
    by_contra other
    cases ((lineReads line).lost other).symm.trans parsed
  exact ⟨tame,Outcome.went.inj (((lineReads line).went tame).symm.trans parsed)⟩

theorem eraseSource {line : Bytes} {c : EraseCmd} (command : commandOf line = some (.erase c)) (tame : Tame .buffer line) :
    c = eraseOf line ∧ NeatSectors .buffer line := by
  rw [commandOf] at command
  rw [Tame] at tame
  split at command
  · cases command
  · rename_i unmarked
    rw [if_neg unmarked] at tame
    split at command
    · rename_i starts
      rw [if_pos starts] at tame
      exact ⟨(Cmd.erase.inj (Option.some.inj command)).symm,tame⟩
    · repeat' split at command
      all_goals cases command

theorem programSource {line : Bytes} {c : ProgramCmd} (command : commandOf line = some (.program c)) (tame : Tame .buffer line) :
    c = programOf line ∧ ¬Blank line ∧ Neat .buffer line (text "filename") ∧ NeatSectors .buffer line := by
  rw [commandOf] at command
  rw [Tame] at tame
  split at command
  · cases command
  · rename_i unmarked
    rw [if_neg unmarked] at tame
    split at command
    · cases command
    · rename_i other
      rw [if_neg other] at tame
      split at command
      · rename_i starts
        rw [if_pos starts] at tame
        split at command
        · cases command
        · rename_i named
          exact ⟨(Cmd.program.inj (Option.some.inj command)).symm,named,tame.1,tame.2 named⟩
      · repeat' split at command
        all_goals cases command

/- A command of the script whose texts shadow none of its attributes is sent as it was
parsed exactly if its formats carry all that it holds. -/
theorem commandsCarried {line : Bytes} {cmd : Cmd} (parsed : (fhParseXmlLine line).outcome = .went (some cmd))
    (plain : Plain cmd) :
    Returns cmd ↔ Carried cmd := by
  obtain ⟨tame,command⟩ := accepted parsed
  cases cmd with
  | vendor _ => exact plain.elim
  | response _ => exact plain.elim
  | log => exact plain.elim
  | erase c =>
    obtain ⟨rfl,neat⟩ := eraseSource command tame
    obtain ⟨fits,short⟩ := labelText neat.2.2.1
    rw [← eraseCarried,Returns,elementText,Option.map_some,erasePrinted (eraseOf line) fits short plain]
    refine ⟨fun same => ?_,fun same => by rw [same]⟩
    exact Cmd.erase.inj (Option.some.inj (Outcome.went.inj (Option.some.inj same)))
  | program c =>
    obtain ⟨rfl,named,neatName,neat⟩ := programSource command tame
    obtain ⟨fits,short⟩ := labelText neat.2.2.1
    cases same : valueOf line (text "filename") with
    | none =>
      have unprinted : programText (programOf line) = none := Option.map_eq_none_iff.mpr same
      rw [Returns,elementText,unprinted]
      refine ⟨fun printed => ?_,fun carried => absurd same carried.1⟩
      cases printed
    | some filename =>
      have given : filename ≠ [] := by
        rintro rfl
        exact named same
      have printed := programPrinted (programOf line) same given fits short (valueText same neatName) (plain filename same)
      rw [← programCarried same,Returns,elementText,printed]
      refine ⟨fun same => ?_,fun same => by rw [same]⟩
      exact Cmd.program.inj (Option.some.inj (Outcome.went.inj (Option.some.inj same)))

def sampleProgram : Bytes :=
  text "<program SECTOR_SIZE_IN_BYTES=\"4096\" filename=\"a.mbn\" label=\"a\" last_sector=\"9\" start_sector=\"-1\" />"

def sampleCmd : Cmd := .program ⟨some (text "a.mbn"),0,4096,text "a",9,0,0,4294967295⟩

theorem commandsCarriedSample : Returns sampleCmd := by
  have plain : Plain sampleCmd := by
    intro filename same
    cases same
    decide +kernel
  have carried : Carried sampleCmd := by
    unfold Carried sampleCmd
    decide +kernel
  exact (@commandsCarried sampleProgram sampleCmd (by decide +kernel) plain).mpr carried

def bareErase : Bytes := text "<erase num_partition_sectors=\"2\" physical_partition_number=\"1\" start_sector=\"7\" />"

theorem partitionDropped : ¬∀ (line : Bytes) (cmd : Cmd), (fhParseXmlLine line).outcome = .went (some cmd) →
    (∃ c, cmd = .erase c) ∨ (∃ c, cmd = .program c) → Returns cmd := by
  intro all
  have returns := all bareErase (.erase ⟨0,0,[],0,2,1,7⟩) (by decide +kernel) (.inl ⟨_,rfl⟩)
  exact absurd returns (by decide +kernel)

end MhiHost.Commands
