import Mathlib.Data.List.Count
import Mathlib.Data.List.TakeWhile
import MhiHost.Attributes

/-! `fh_parse_xml_file` in `firehose_protocol.c`: the flash script is read line by line into
one buffer, and comments are told from elements by what the line at hand holds. A command
in the table carries the number of its line, which the program does not keep. -/
namespace MhiHost.FlashScript
open Wire (Bytes)
open CString Firehose
open Attributes (Own Separates)

abbrev Table := List (Nat × Cmd)

def opening : Bytes := text "<!--"
def closing : Bytes := text "-->"

/- What the outer loop does with a line: hand it to `fh_parse_xml_line` from its first `<`
on, pass it over, or read on from a comment that it opens. -/
inductive Turn where
  | parse (line : Bytes)
  | passed
  | comment
  deriving DecidableEq, Repr

def candidate (line : Bytes) : Bool :=
  holds line (text "<erase ") || holds line (text "<program ") || holds line vendorMark

def handed (line : Bytes) : Turn := if candidate line then .parse line else .passed

def endsBefore (line start : Bytes) : Bool :=
  (strstr line (text "/>")).elim true fun finish => decide (start.length < finish.length)

def turn (buffer : Bytes) : Turn :=
  match strstr buffer [less] with
  | none => .passed
  | some line =>
    match strstr line opening with
    | none => handed line
    | some start =>
      if holds line closing then if endsBefore line start then handed line else .passed
      else .comment

def readsOn (buffer : Bytes) : Bool := !holds buffer closing && holds buffer opening

/- The lines left. In the inner loop the buffer of the last `fgets` is kept, since at the
end of the file `fgets` leaves it as it is and the loop tests it again. -/
def parseLines : Option Bytes → Nat → Table → List Bytes → Trace Access Table
  | none,_,table,[] => .pure table
  | some buffer,_,table,[] => if readsOn buffer then .stop else .pure table
  | none,i,table,buffer::rest =>
    match turn buffer with
    | .parse line =>
      .bind (access (.entry table.length)) fun _ =>
      .bind (fhParseXmlLine line) fun cmd =>
      parseLines none (i+1) (table ++ (cmd.map fun c => (i,c)).toList) rest
    | .passed => parseLines none (i+1) table rest
    | .comment => parseLines (some buffer) (i+1) table rest
  | some _,i,table,buffer::rest => parseLines (if readsOn buffer then some buffer else none) (i+1) table rest

def script (file : Bytes) : List Bytes := fgetsAll xmlSize (xmlSize-2) file

def fhParseXmlFile (file : Bytes) : Trace Access Table := parseLines none 0 [] (script file)

def taken : Option Bytes → Bytes → Option Bytes
  | some _,_ => none
  | none,buffer => match turn buffer with
    | .parse line => some line
    | .passed | .comment => none

def afterwards : Option Bytes → Bytes → Option Bytes
  | some _,buffer => if readsOn buffer then some buffer else none
  | none,buffer => if turn buffer = .comment then some buffer else none

def command (inner : Option Bytes) (buffer : Bytes) : Option Cmd := (taken inner buffer).bind commandOf

def Kept (b : Bound) : Option Bytes → Nat → List Bytes → Prop
  | _,_,[] => True
  | inner,n,buffer::rest =>
    (∀ line ∈ taken inner buffer, n < tableSize ∧ Tame b line) ∧
      Kept b (afterwards inner buffer) (n+(command inner buffer).toList.length) rest

def Closes : Option Bytes → List Bytes → Prop
  | inner,[] => ∀ buffer ∈ inner, readsOn buffer = false
  | inner,buffer::rest => Closes (afterwards inner buffer) rest

theorem stepLine (inner : Option Bytes) (i : Nat) (table : Table) (buffer : Bytes) (rest : List Bytes) :
    parseLines inner i table (buffer :: rest) =
      match taken inner buffer with
      | none => parseLines (afterwards inner buffer) (i+1) table rest
      | some line =>
        .bind (access (.entry table.length)) fun _ =>
        .bind (fhParseXmlLine line) fun cmd =>
        parseLines (afterwards inner buffer) (i+1) (table ++ (cmd.map fun c => (i,c)).toList) rest := by
  cases inner with
  | some _ => rfl
  | none =>
    rw [parseLines,taken,afterwards]
    cases turn buffer with
    | parse line => rfl
    | passed => rfl
    | comment => rfl

theorem forSome {b : Bound} {n : Nat} {line : Bytes} : (∀ line' ∈ some line, n < tableSize ∧ Tame b line') ↔
    (Access.entry n).Within b ∧ Tame b line :=
  ⟨fun all => all line rfl,fun here _ same => Option.some.inj same ▸ here⟩

theorem entered (i : Nat) (cmd : Option Cmd) : (cmd.map fun c => (i,c)).toList.length = cmd.toList.length := by
  cases cmd <;> rfl

theorem keptSafe (b : Bound) (inner : Option Bytes) (i : Nat) (table : Table) (lines : List Bytes) :
    (∀ e ∈ (parseLines inner i table lines).effects, e.Within b) ↔ Kept b inner table.length lines := by
  induction lines generalizing inner i table with
  | nil =>
    refine ⟨fun _ => trivial,fun _ e inside => ?_⟩
    cases inner with
    | none => cases inside
    | some buffer =>
      rw [parseLines] at inside
      split at inside <;> cases inside
  | cons buffer rest ih =>
    rw [stepLine,Kept,command]
    cases same : taken inner buffer with
    | none =>
      rw [ih]
      exact ⟨fun kept => ⟨fun _ other => absurd other (Option.not_mem_none _),kept⟩,And.right⟩
    | some line =>
      simp only
      rw [(Reads.touch _).restSafe,(lineReads line).restSafe,ih,List.length_append,Option.bind_some,forSome,entered,and_assoc]

theorem staysInBuffers (file : Bytes) :
    (∀ e ∈ (fhParseXmlFile file).effects, e.Within .string) ↔ Kept .string none 0 (script file) :=
  keptSafe .string none 0 [] (script file)

def longLabel : Bytes := text "<erase label=\"0123456789abcdef0123456789abcdef\" last_sector=\"1\" />"

theorem longLabelOverflows : ¬∀ file : Bytes, ∀ e ∈ (fhParseXmlFile file).effects, e.Within .string := by
  intro all
  have label : Access.label 33 ∈ (fhParseXmlFile longLabel).effects := by decide +kernel
  exact absurd (all longLabel _ label) (by decide)

/- A line without its comments, and whether one is open behind it. A comment reaches from
`<!--` to the first `-->` behind that; `skip` counts what is left of such a mark. -/
def strip : Nat → Bool → Bytes → Bytes × Bool
  | _,inside,[] => ([],inside)
  | skip+1,inside,_::s => strip skip inside s
  | 0,true,b::s => if closing.isPrefixOf (b::s) then strip 2 false s else strip 0 true s
  | 0,false,b::s => if opening.isPrefixOf (b::s) then strip 3 true s else (b :: (strip 0 false s).1,(strip 0 false s).2)

def shown (inside : Bool) (line : Bytes) : Bytes := (strip 0 inside line).1
def openAfter (inside : Bool) (line : Bytes) : Bool := (strip 0 inside line).2

def tags : Bytes → List Bytes
  | [] => []
  | b::s => if b = less then (b :: s.takeWhile (· ≠ less)) :: tags s else tags s

def Unfiled (tag : Bytes) : Prop := text "<program " <+: tag ∧ valueOf tag (text "filename") = none
instance (tag : Bytes) : Decidable (Unfiled tag) := inferInstanceAs (Decidable (_ ∧ _))

def IsElement (tag : Bytes) : Prop :=
  holds tag vendorMark = true ∨ text "<erase " <+: tag ∨ text "<program " <+: tag ∧ ¬Unfiled tag ∧ ¬Blank tag
instance (tag : Bytes) : Decidable (IsElement tag) := inferInstanceAs (Decidable (_ ∨ _ ∨ _ ∧ _ ∧ _))

def elements (inside : Bool) (line : Bytes) : List Bytes := (tags (shown inside line)).filter IsElement
def commands (inside : Bool) (line : Bytes) : List Cmd := (elements inside line).filterMap commandOf

def tableOf : Bool → Nat → List Bytes → Table
  | _,_,[] => []
  | inside,i,line::rest => (commands inside line).map (fun c => (i,c)) ++ tableOf (openAfter inside line) (i+1) rest

def Begins (r : Bytes) : Prop :=
  holds r vendorMark = true ∨ text "<erase " <+: r ∨ text "<program " <+: r ∧ ¬Blank r ∨ text "<response " <+: r ∨
    text "<log " <+: r
instance (r : Bytes) : Decidable (Begins r) := inferInstanceAs (Decidable (_ ∨ _ ∨ _ ∧ _ ∨ _ ∨ _))

def pagesKey : Bytes := text "PAGES_PER_BLOCK"
def sectorSizeKey : Bytes := text "SECTOR_SIZE_IN_BYTES"
def labelKey : Bytes := text "label"
def lastSectorKey : Bytes := text "last_sector"
def countKey : Bytes := text "num_partition_sectors"
def partitionKey : Bytes := text "physical_partition_number"
def startKey : Bytes := text "start_sector"
def filenameKey : Bytes := text "filename"
def names : List Bytes := [pagesKey,sectorSizeKey,labelKey,lastSectorKey,countKey,partitionKey,startKey,filenameKey]

structure Shields (s more : Bytes) : Prop where
  own : ∀ key ∈ [pagesKey,sectorSizeKey,countKey,partitionKey,startKey], Own s more key
  label : holds s labelKey = true ∨ holds more labelKey = false
  last : holds s lastSectorKey = true ∨ holds more lastSectorKey = false
  ownLabel : Own s more labelKey
  ownLast : Own s more lastSectorKey
  file : text "<program " <+: s → Own s more filenameKey

/- Both texts begin with the tag and the attributes of an element, and what follows in either
is kept from it; or they are a vendor's and their first 255 bytes are the same. -/
inductive Shares (r el : Bytes) : Prop where
  | same (same : r = el)
  | vendor (first : holds r vendorMark = true) (second : holds el vendorMark = true)
      (equal : (cstr r).take (vendorSize-1) = (cstr el).take (vendorSize-1))
  | sectors {s y z : Bytes} {q : UInt8} (first : r = s ++ q :: y) (second : el = s ++ q :: z)
      (unmarked : holds r vendorMark = false ∧ holds el vendorMark = false) (tag : text "<erase " <+: s ∨ text "<program " <+: s)
      (clean : 0 ∉ s ∧ 0 ∉ y ∧ 0 ∉ z) (apart : ∀ key ∈ names, Separates q key y ∧ Separates q key z)
      (shields : Shields s y ∧ Shields s z)

def Layout (shares : Bytes → Bytes → Prop) (inside : Bool) (inner : Option Bytes) (line : Bytes) : Prop :=
  (∀ r ∈ taken inner line, ¬Begins r) ∧ elements inside line = [] ∨
    ∃ r el, taken inner line = some r ∧ Begins r ∧ elements inside line = [el] ∧ shares r el

def Lines (laid : Bool → Option Bytes → Bytes → Prop) : Bool → Option Bytes → Nat → List Bytes → Prop
  | _,inner,_,[] => ∀ buffer ∈ inner, readsOn buffer = false
  | inside,inner,n,line::rest =>
    (∀ r ∈ taken inner line, n < tableSize ∧ Tame .buffer r) ∧ laid inside inner line ∧
      Lines laid (openAfter inside line) (afterwards inner line) (n+(elements inside line).length) rest

section Shared
variable {s more : Bytes} {q : UInt8}

end Shared

namespace Sample

def comment : Bytes := text "<!-- blank -->\n"
def blank : Bytes := text "<program filename=\"\" />\n"
def opens : Bytes := text "<!-- two\n"
def closes : Bytes := text "lines -->\n"
def front : Bytes := text "<erase num_partition_sectors=\"2\" start_sector=\"7\" /"
def remark : Bytes := text " <!-- last -->\n"
def erase : Bytes := front ++ greater :: remark
def file : Bytes := comment ++ blank ++ opens ++ closes ++ erase

theorem lines : linesOf file = [comment,blank,opens,closes,erase] := by decide +kernel

theorem separates (more : Bytes) : ∀ key ∈ names, Separates greater key (text " " ++ more) := by
  intro key member
  refine ⟨?_,by decide,by decide,by decide,fun same => absurd (Option.some.inj same) (by decide)⟩
  revert key
  decide +kernel

theorem shared : Shares erase (front ++ greater :: text " \n") :=
  .sectors rfl rfl (by decide +kernel) (.inl (by decide +kernel)) (by decide +kernel)
    (fun key member => ⟨separates (text "<!-- last -->\n") key member,separates (text "\n") key member⟩)
    ⟨⟨by decide +kernel,by decide +kernel,by decide +kernel,by decide +kernel,by decide +kernel,by decide +kernel⟩,
      ⟨by decide +kernel,by decide +kernel,by decide +kernel,by decide +kernel,by decide +kernel,by decide +kernel⟩⟩

theorem laid : Lines (Layout Shares) false none 0 [comment,blank,opens,closes,erase] := by
  have last : Layout Shares (openAfter (openAfter (openAfter (openAfter false comment) blank) opens) closes)
      (afterwards (afterwards (afterwards (afterwards none comment) blank) opens) closes) erase :=
    .inr ⟨erase,_,by decide +kernel,by decide +kernel,by decide +kernel,shared⟩
  refine ⟨by decide +kernel,.inl (by decide +kernel),by decide +kernel,.inl (by decide +kernel),by decide +kernel,
    .inl (by decide +kernel),by decide +kernel,.inl (by decide +kernel),by decide +kernel,last,?_⟩
  rw [Lines]
  decide +kernel

end Sample

end MhiHost.FlashScript
