import MhiHost.Attributes

/-! `fh_recv_cmd` in `firehose_protocol.c`: one read from the device is scanned for XML
documents, and the last of their elements that counts becomes the command. Pointers reach
to the terminator that is put behind the reply; a reply may hold NULs of its own. -/
namespace MhiHost.Replies
open Wire (Bytes peek)
open CString Firehose
open Attributes (Own Separates)

def declaration : Bytes := text "<?xml version="
def dataTag : Bytes := text "<data>\n"
def responseTag : Bytes := text "<response "
def logTag : Bytes := text "<log "
def finish : Bytes := [slash,greater]

/- `pend = strstr(xml_line, "/>")`, two bytes on and one more; the loop then reads there.
The dots that a log gets for its line ends lie before `pend`, where no one reads again. -/
def closeElement (element : Bytes) : Trace Access Bytes :=
  match strstr element finish with
  | none => .bind (access .null) fun _ => .pure []
  | some pend => .bind (access (.read 1 (pend.drop finish.length))) fun _ => .pure ((pend.drop finish.length).drop 1)

def parseElement (element : Bytes) : Trace Access ((Option Cmd × Bytes) ⊕ Option Cmd) :=
  .bind (fhParseXmlLine element) fun cmd => .bind (closeElement element) fun rest => .pure (.inl (cmd,rest))

def turn (cmd : Option Cmd) (xmlLine : Bytes) : Trace Access ((Option Cmd × Bytes) ⊕ Option Cmd) :=
  if peek xmlLine 0 = 0 then .pure (.inr cmd)
  else
    match behind xmlLine declaration with
    | none => .pure (.inr cmd)
    | some xmlLine =>
      match behind xmlLine dataTag with
      | none => .pure (.inr none)
      | some xmlLine =>
        if responseTag.isPrefixOf xmlLine then parseElement xmlLine
        else if logTag.isPrefixOf xmlLine then
          if cmd.any (· ≠ .log) then .pure (.inr cmd) else parseElement xmlLine
        else .pure (.inr none)

def scan (fuel : Nat) (cmd : Option Cmd) (reply : Bytes) : Trace Access (Option Cmd) :=
  Trace.loop (fun s => turn s.1 s.2) fuel (cmd,reply)

def fhRecvCmd (reply : Bytes) : Trace Access (Option Cmd) :=
  .bind (access (.terminator reply.length)) fun _ => scan (reply.length+1) none reply

def nextElement (s : Bytes) : Option Bytes :=
  ((behind s declaration).bind fun p => behind p dataTag).filter fun e => responseTag.isPrefixOf e || logTag.isPrefixOf e

/- A log behind another command ends the scan. -/
def Enough (cmd : Option Cmd) (element : Bytes) : Prop :=
  ¬responseTag.isPrefixOf element = true ∧ cmd.any (· ≠ .log) = true
instance (cmd : Option Cmd) (element : Bytes) : Decidable (Enough cmd element) := inferInstanceAs (Decidable (_ ∧ _))

def closed (element : Bytes) : Option Bytes :=
  (behind element finish).bind fun pend => if pend = [] then none else some (pend.drop 1)

inductive Clean : Option Cmd → Bytes → Prop where
  | ends {cmd : Option Cmd} {s : Bytes} (last : nextElement s = none) : Clean cmd s
  | enough {cmd : Option Cmd} {s e : Bytes} (next : nextElement s = some e) (enough : Enough cmd e) : Clean cmd s
  | more {cmd : Option Cmd} {s e rest : Bytes} (next : nextElement s = some e) (tame : Tame .buffer e)
      (closes : closed e = some rest) (later : Clean (commandOf e) rest) : Clean cmd s

def Closes (b : Bound) (element : Bytes) : Prop := ∃ pend, behind element finish = some pend ∧ 1 ≤ reach b pend

theorem closeReads (element : Bytes) :
    Reads (closeElement element) (fun b => Closes b element) ((closed element).getD []) := by
  unfold closeElement Closes closed behind
  cases strstr element finish with
  | none =>
    refine ((Reads.touch .null).last fun _ => []).congr fun b => ⟨False.elim,fun here => ?_⟩
    obtain ⟨_,same,-⟩ := here
    cases same
  | some pend =>
    have rest : (((some pend).map (·.drop finish.length)).bind fun pend => if pend = [] then none else some (pend.drop 1)).getD [] =
        (pend.drop finish.length).drop 1 := by
      rw [Option.map_some,Option.bind_some]
      split
      · rename_i empty
        rw [empty]
        rfl
      · rfl
    rw [rest]
    refine ((Reads.touch (.read 1 (pend.drop finish.length))).last fun _ => _).congr fun b => ⟨fun here => ⟨_,rfl,here⟩,?_⟩
    rintro ⟨_,⟨rfl⟩,here⟩
    exact here

theorem parseReads (element : Bytes) : Reads (parseElement element) (fun b => Tame b element ∧ Closes b element)
    (.inl (commandOf element,(closed element).getD [])) := by
  have closing : Reads (.bind (closeElement element) fun rest => .pure (Sum.inl (commandOf element,rest) : (Option Cmd × Bytes) ⊕ Option Cmd))
      (fun b => Closes b element) (.inl (commandOf element,(closed element).getD [])) := (closeReads element).last _
  exact (lineReads element).next closing

theorem closesSome {element : Bytes} : Closes .buffer element ↔ ∃ rest, closed element = some rest := by
  unfold Closes closed
  cases behind element finish with
  | none =>
    constructor
    · rintro ⟨_,same,-⟩
      cases same
    · rintro ⟨_,same⟩
      cases same
  | some pend =>
    cases pend with
    | nil =>
      constructor
      · rintro ⟨_,⟨rfl⟩,long⟩
        cases long
      · rintro ⟨_,same⟩
        cases same
    | cons b rest => exact ⟨fun _ => ⟨rest,rfl⟩,fun _ => ⟨_,rfl,Nat.le_add_left 1 _⟩⟩

theorem behindShorter {s key p : Bytes} (same : behind s key = some p) : p.length+key.length ≤ s.length := by
  obtain ⟨r,found',rfl⟩ := Option.map_eq_some_iff.mp same
  have := foundShorter found'
  have := foundHolds found'
  rw [List.length_drop]
  omega

theorem nextShorter {s e : Bytes} (next : nextElement s = some e) : e.length < s.length := by
  obtain ⟨within,-⟩ := Option.filter_eq_some_iff.mp next
  obtain ⟨p,first,second⟩ := Option.bind_eq_some_iff.mp within
  have := behindShorter first
  have := behindShorter second
  have : declaration.length = 14 := by decide
  omega

theorem closedShorter {e rest : Bytes} (closes : closed e = some rest) : rest.length < e.length := by
  obtain ⟨pend,same,after⟩ := Option.bind_eq_some_iff.mp closes
  have := behindShorter same
  have : finish.length = 2 := by decide
  split at after
  · cases after
  · cases after
    rw [List.length_drop]
    omega

theorem turnNext (cmd : Option Cmd) (s : Bytes) : turn cmd s =
    match nextElement s with
    | none => .pure (.inr (if holds s declaration then none else cmd))
    | some e => if Enough cmd e then .pure (.inr cmd) else parseElement e := by
  unfold turn nextElement
  by_cases atEnd : peek s 0 = 0
  · have none' : strstr s declaration = none := by
      cases s with
      | nil => rfl
      | cons c s =>
        obtain rfl : c = 0 := atEnd
        have other : declaration.isPrefixOf (0 :: s) = false := rfl
        rw [strstr,if_neg (Bool.eq_false_iff.mp other),if_pos rfl]
    rw [if_pos atEnd,holdsNone none',behind,none']
    rfl
  · rw [if_neg atEnd,holds,behind]
    cases strstr s declaration with
    | none => rfl
    | some r =>
      rw [Option.map_some,Option.bind_some]
      cases found' : behind (r.drop declaration.length) dataTag with
      | none =>
        simp only [found']
        rfl
      | some e =>
        simp only [found',Option.filter_some]
        by_cases response : responseTag.isPrefixOf e = true
        · have goes : ¬Enough cmd e := fun enough => enough.1 response
          rw [if_pos response,response,Bool.true_or,if_pos rfl]
          exact (if_neg goes).symm
        · rw [if_neg response,Bool.eq_false_iff.mpr response,Bool.false_or]
          by_cases log : logTag.isPrefixOf e = true
          · rw [if_pos log,if_pos log]
            by_cases other : cmd.any (· ≠ .log) = true
            · rw [if_pos other]
              exact (if_pos ⟨response,other⟩).symm
            · rw [if_neg other]
              exact (if_neg fun enough => other enough.2).symm
          · rw [if_neg log,if_neg log]
            rfl

theorem scanClean {fuel : Nat} {cmd : Option Cmd} {s : Bytes} (enough : s.length < fuel) :
    (scan fuel cmd s).Ends ∧ (∀ e ∈ (scan fuel cmd s).effects, e.Within .buffer) ↔ Clean cmd s := by
  induction fuel generalizing cmd s with
  | zero => cases enough
  | succ fuel ih =>
    rw [scan,Trace.loop]
    have same := turnNext cmd s
    cases next : nextElement s with
    | none =>
      simp only [same,next]
      refine ⟨fun _ => .ends next,fun _ => ⟨Trace.pureEnds _,fun e inside => ?_⟩⟩
      cases inside
    | some e =>
      simp only [next] at same
      by_cases enough' : Enough cmd e
      · rw [if_pos enough'] at same
        simp only [same]
        refine ⟨fun _ => .enough next enough',fun _ => ⟨Trace.pureEnds cmd,fun e inside => ?_⟩⟩
        cases inside
      · rw [if_neg enough'] at same
        simp only [same]
        rw [(parseReads e).restEnds,(parseReads e).restSafe]
        have shorter := nextShorter next
        constructor
        · rintro ⟨⟨⟨tame,closes⟩,ends⟩,-,safe⟩
          obtain ⟨rest,closes⟩ := closesSome.mp closes
          have := closedShorter closes
          rw [closes] at ends safe
          exact .more next tame closes ((ih (by omega)).mp ⟨ends,safe⟩)
        · intro clean
          cases clean with
          | ends last => cases last.symm.trans next
          | enough next' stops =>
            cases next'.symm.trans next
            exact absurd stops enough'
          | more next' tame closes later =>
            cases next'.symm.trans next
            have := closedShorter closes
            have closes' : Closes .buffer e := closesSome.mpr ⟨_,closes⟩
            rw [closes]
            have both := (ih (by omega)).mpr later
            exact ⟨⟨⟨tame,closes'⟩,both.1⟩,⟨tame,closes'⟩,both.2⟩

theorem replySafe (reply : Bytes) :
    (fhRecvCmd reply).Ends ∧ (∀ e ∈ (fhRecvCmd reply).effects, e.Within .buffer) ↔ reply.length < xmlSize ∧ Clean none reply := by
  rw [fhRecvCmd,(Reads.touch _).restEnds,(Reads.touch _).restSafe,and_and_and_comm,and_self,scanClean (Nat.lt_succ_self _)]
  exact Iff.rfl

structure Document where
  version : Bytes
  gap : Bytes
  response : Bool
  attributes : Bytes
  tail : Bytes
  versionText : 0 ∉ version ∧ holds version dataTag = false
  gapText : 0 ∉ gap ∧ less ∉ gap
  attributesText : 0 ∉ attributes ∧ less ∉ attributes
  tailText : 0 ∉ tail ∧ holds tail declaration = false ∧ holds tail dataTag = false
  goesOn : tail ≠ []

namespace Document

def tag (d : Document) : Bytes := if d.response then responseTag else logTag
def named (d : Document) : Bytes := d.tag ++ d.attributes
def element (d : Document) : Bytes := d.tag ++ d.attributes ++ finish

end Document

def onFrom (d : Document) (rest : Bytes) : Bytes := d.element ++ d.tail ++ rest
def within (d : Document) (rest : Bytes) : Bytes := d.version ++ (text "<data>" ++ (d.gap ++ onFrom d rest))
def render : List Document → Bytes
  | [] => []
  | d::ds => declaration ++ within d (render ds)

def said (docs : List Document) : Cmd :=
  match docs.find? Document.response with
  | some d => .response (responseOf d.element)
  | none => .log

/- The document whose element the scan comes to next. A `<data>` tag that does not end its
line is passed by; where it does, the element has to stand on the next. -/
def seen : List Document → Option (Document × List Document)
  | [] => none
  | d::ds => if d.gap.head? = some newline then if d.gap = [newline] then some (d,ds) else none else seen ds

def Marked (d : Document) (ds : List Document) : Prop := holds (onFrom d (render ds)) vendorMark = true

def valueKey : Bytes := text "value"
def rawmodeKey : Bytes := text "rawmode"
def payloadKey : Bytes := text "MaxPayloadSizeToTargetInBytes"

def following (d : Document) (ds : List Document) : Bytes := greater :: (d.tail ++ render ds)

/- No attribute of the response is made up from behind it: not its value; no `rawmode` for one
that has none; and for one without a `rawmode` no payload size. What reads as nothing does
no harm. -/
def Apart (d : Document) (ds : List Document) : Prop :=
  Own d.named (following d ds) valueKey ∧ (holds d.named rawmodeKey = true ∨
    if holds (following d ds) rawmodeKey = true then
      valueOf (following d ds) rawmodeKey ≠ some (text "true") ∧ numberOf d.named payloadKey atoi = 0
    else Own d.named (following d ds) payloadKey ∨ numberOf (onFrom d (render ds)) payloadKey atoi = 0)

def Kept (d : Document) (ds : List Document) : Prop := ¬Marked d ds ∧ Tame .buffer (onFrom d (render ds)) ∧ Apart d ds

/- Where the scan's answer is what the documents say. A `<data>` tag that ends its line has
the element behind it, and one that does not belongs to a log and is not the last; a log that
is taken for a vendor's command has the response seen next; and the response is kept, with
a document seen behind it if there is any. -/
def Heard : List Document → Prop
  | [] => True
  | d::ds =>
    if d.gap = [newline] then
      if d.response then Kept d ds ∧ (ds = [] ∨ (seen ds).isSome)
      else (Marked d ds → ∃ p ∈ seen ds, p.1.response = true) ∧ Heard ds
    else d.gap.head? ≠ some newline ∧ d.response = false ∧ ds ≠ [] ∧ Heard ds

section Scanning
variable (d : Document) (ds : List Document)

theorem tagText : 0 ∉ d.tag ∧ ∃ c t, d.tag = less :: c :: t ∧ less ∉ c :: t ∧ c ≠ 63 ∧ c ≠ 100 := by
  unfold Document.tag
  cases d.response with
  | true => exact ⟨by decide,_,text "esponse ",rfl,by decide,by decide⟩
  | false => exact ⟨by decide,_,text "og ",rfl,by decide,by decide⟩

theorem tagStarts (rest : Bytes) : d.tag <+: onFrom d rest := by
  rw [onFrom,Document.element,List.append_assoc,List.append_assoc,List.append_assoc]
  exact List.prefix_append _ _

theorem elementText : 0 ∉ d.element ++ d.tail := by
  have inTag := (tagText d).1
  have inAttributes := d.attributesText.1
  have inTail := d.tailText.1
  have inFinish : 0 ∉ finish := by decide
  simp only [Document.element,List.mem_append]
  tauto

theorem renderText : 0 ∉ render ds := by
  induction ds with
  | nil => exact List.not_mem_nil
  | cons d ds ih =>
    have inVersion := d.versionText.1
    have inGap := d.gapText.1
    have inElement := elementText d
    have inDeclaration : 0 ∉ declaration := by decide
    have inData : 0 ∉ text "<data>" := by decide
    simp only [List.mem_append,not_or] at inElement
    simp only [render,within,onFrom,List.mem_append]
    tauto

theorem followingText : 0 ∉ following d ds := by
  have inTail := d.tailText.1
  have later := renderText ds
  have first : 0 ≠ greater := by decide
  simp only [following,List.mem_cons,List.mem_append]
  tauto

theorem namedText : 0 ∉ d.named := fun inside => elementText d (List.mem_append_left _ (List.mem_append_left _ inside))

theorem slashSeparates (more : Bytes) {key : Bytes} (apart : slash ∉ key) : Separates slash key (greater :: more) :=
  ⟨apart,by decide,by decide,by decide,fun same => absurd (Option.some.inj same) (by decide)⟩

theorem lacksEnd {key : Bytes} (given : key ≠ []) (ends : greater ∉ key) : strstr [greater] key = none := by
  obtain ⟨c,key,rfl⟩ := List.exists_cons_of_ne_nil given
  exact absent List.mem_cons_self fun same => ends (List.mem_singleton.mp same ▸ List.mem_cons_self)

theorem elementValue {key : Bytes} (given : key ≠ []) (apart : slash ∉ key) (ends : greater ∉ key) :
    valueOf d.element key = valueOf d.named key := by
  refine (Attributes.ownValue given (slashSeparates [] apart) (namedText d) (by decide)).mpr ?_
  rw [Own,behind,behind,lacksEnd given ends]
  cases strstr d.named key with
  | none => exact fun _ none' => absurd none' (by simp)
  | some r => exact fun _ => .inr (by decide)

theorem elementHolds {key : Bytes} (given : key ≠ []) (apart : slash ∉ key) (ends : greater ∉ key) :
    holds d.element key = holds d.named key := by
  have whole := Attributes.holdsMore given (slashSeparates [] apart) (namedText d)
  rw [holdsNone (lacksEnd given ends),Bool.or_false] at whole
  exact whole

theorem ownRawmode (stands : holds d.named rawmodeKey = true) :
    valueOf (d.named ++ slash :: following d ds) rawmodeKey = some (text "true") ↔
    valueOf d.named rawmodeKey = some (text "true") := by
  have sep : Separates slash rawmodeKey (following d ds) := slashSeparates _ (by decide)
  by_cases own : Own d.named (following d ds) rawmodeKey
  · rw [(Attributes.ownValue (by decide) sep (namedText d) (followingText d ds)).mpr own]
  · obtain ⟨v,whole,strange⟩ := Attributes.borrows (by decide) sep (namedText d) (followingText d ds) stands own
    rw [whole,Attributes.ownNone (namedText d) own]
    refine iff_of_false (fun same => ?_) nofun
    obtain rfl := Option.some.inj same
    rcases strange with inside | starts
    · exact absurd inside (by decide)
    · rw [following,List.takeWhile_cons,if_pos (by decide)] at starts
      exact absurd (List.cons.inj starts).1 (by decide)

theorem apartSame : responseOf (onFrom d (render ds)) = responseOf d.element ↔ Apart d ds := by
  have whole : onFrom d (render ds) = d.named ++ slash :: following d ds := by
    simp only [onFrom,Document.element,Document.named,following,List.append_assoc]
    rfl
  have clean := namedText d
  have text' := followingText d ds
  have sep {key : Bytes} (apart : slash ∉ key) : Separates slash key (following d ds) := slashSeparates _ apart
  have value : (valueOf (onFrom d (render ds)) valueKey).map responseValue = (valueOf d.element valueKey).map responseValue ↔
      Own d.named (following d ds) valueKey := by
    rw [whole,elementValue d (by decide) (by decide) (by decide)]
    exact Attributes.ownMap _ (by decide) (sep (by decide)) clean text'
  have raw : holds (onFrom d (render ds)) rawmodeKey = (holds d.named rawmodeKey || holds (following d ds) rawmodeKey) := by
    rw [whole]
    exact Attributes.holdsMore (by decide) (sep (by decide)) clean
  have size : numberOf (onFrom d (render ds)) payloadKey atoi = numberOf d.element payloadKey atoi ↔
      Own d.named (following d ds) payloadKey ∨ numberOf (onFrom d (render ds)) payloadKey atoi = 0 := by
    rw [whole,numberOf,numberOf,elementValue d (by decide) (by decide) (by decide)]
    exact Attributes.ownNumber (by decide) (sep (by decide)) clean text'
  have alone : numberOf d.element payloadKey atoi = numberOf d.named payloadKey atoi := by
    rw [numberOf,numberOf,elementValue d (by decide) (by decide) (by decide)]
  rw [responseOf,responseOf,ResponseCmd.mk.injEq]
  refine and_congr value ?_
  change decide (valueOf (onFrom d (render ds)) rawmodeKey = some (text "true")) =
    decide (valueOf d.element rawmodeKey = some (text "true")) ∧
    (if holds (onFrom d (render ds)) rawmodeKey = true then 0 else numberOf (onFrom d (render ds)) payloadKey atoi) =
      (if holds d.element rawmodeKey = true then 0 else numberOf d.element payloadKey atoi) ↔ _
  rw [raw,elementHolds d (by decide) (by decide) (by decide),elementValue d (by decide) (by decide) (by decide),decide_eq_decide]
  by_cases stands : holds d.named rawmodeKey = true
  · rw [stands,Bool.true_or,if_pos rfl,if_pos rfl,whole]
    exact iff_of_true ⟨ownRawmode d ds stands,rfl⟩ (.inl rfl)
  · have lacks : behind d.named rawmodeKey = none := by rw [behind,unheld (Bool.eq_false_iff.mpr stands)]; rfl
    have later : valueOf (onFrom d (render ds)) rawmodeKey = valueOf (following d ds) rawmodeKey := by
      rw [whole,valueOf,Attributes.behindMore (by decide) (sep (by decide)) clean,lacks]
      rfl
    have none' : valueOf d.named rawmodeKey = none := by rw [valueOf,lacks]; rfl
    rw [later,none',if_neg stands,Bool.eq_false_iff.mpr stands,Bool.false_or,or_iff_right Bool.false_ne_true]
    by_cases behind' : holds (following d ds) rawmodeKey = true
    · rw [if_pos behind',if_pos behind',alone]
      exact and_congr (iff_false_right (Option.some_ne_none _).symm) eq_comm
    · rw [if_neg behind',if_neg behind',size]
      have absent' : valueOf (following d ds) rawmodeKey = none := by
        rw [valueOf,behind,unheld (Bool.eq_false_iff.mpr behind')]
        rfl
      rw [absent']
      exact and_iff_right Iff.rfl

theorem elementLacks {c : UInt8} {k : Bytes} (other : ∀ {c' : UInt8} {t : Bytes}, d.tag = less :: c' :: t → c' ≠ c)
    (not : holds d.tail (less :: c :: k) = false) : holds (d.element ++ d.tail) (less :: c :: k) = false := by
  obtain ⟨clean,c',t,same,lacks,-⟩ := tagText d
  have whole : d.element ++ d.tail = less :: ((c' :: t ++ d.attributes ++ finish) ++ d.tail) := by
    rw [Document.element,same]
    rfl
  have front : less ∉ c' :: t ++ d.attributes ++ finish := by
    have := d.attributesText.2
    have : less ∉ finish := by decide
    simp only [List.mem_append]
    tauto
  have text' : 0 ∉ c' :: t ++ d.attributes ++ finish := by
    have all := elementText d
    rw [whole] at all
    exact fun inside => all (List.mem_cons_of_mem _ (List.mem_append_left _ inside))
  have apart : ¬less :: c :: k <+: less :: ((c' :: t ++ d.attributes ++ finish) ++ d.tail) := by
    intro starts
    exact other same (List.cons_prefix_cons.mp (List.cons_prefix_cons.mp starts).2).1.symm
  apply holdsNone
  rw [whole,passed apart (by decide)]
  exact (passOver front text').trans (unheld not)

theorem elementDeclares : holds (d.element ++ d.tail) declaration = false := by
  obtain ⟨-,c,t,same,-,question,-⟩ := tagText d
  refine elementLacks d (fun same' => ?_) d.tailText.2.1
  cases same.symm.trans same'
  exact question

theorem elementTagless : holds (d.element ++ d.tail) dataTag = false := by
  obtain ⟨-,c,t,same,-,-,data⟩ := tagText d
  refine elementLacks d (fun same' => ?_) d.tailText.2.2
  cases same.symm.trans same'
  exact data

theorem documentCloses (rest : Bytes) : ∃ x, closed (onFrom d rest) = some (x ++ rest) ∧ 0 ∉ x ∧ holds x declaration = false := by
  have whole : onFrom d rest = (d.tag ++ d.attributes) ++ (finish ++ (d.tail ++ rest)) := by
    simp only [onFrom,Document.element,List.append_assoc]
  have text' := elementText d
  have front : 0 ∉ d.tag ++ d.attributes := fun inside => text' (List.mem_append_left _ (List.mem_append_left _ inside))
  obtain ⟨z,same,⟨y,ends⟩⟩ := foundFirst front (List.prefix_append finish (d.tail ++ rest)) (by decide)
  have given : 0 < d.tail.length := List.length_pos_iff.mpr d.goesOn
  have long : 3 ≤ (z ++ finish ++ d.tail).length := by
    have : finish.length = 2 := by decide
    rw [List.length_append,List.length_append]
    omega
  have split : d.element ++ d.tail = y ++ (z ++ finish ++ d.tail) := by
    rw [Document.element,← ends]
    simp only [List.append_assoc]
  refine ⟨(z ++ finish ++ d.tail).drop 3,?_,?_,?_⟩
  · have regroup : (z ++ (finish ++ (d.tail ++ rest))).drop finish.length = (z ++ finish ++ d.tail).drop 2 ++ rest := by
      rw [← List.drop_append_of_le_length (by omega)]
      simp only [List.append_assoc]
      rfl
    have more : 1 ≤ ((z ++ finish ++ d.tail).drop 2).length := by
      rw [List.length_drop]
      omega
    have nonempty : (z ++ finish ++ d.tail).drop 2 ++ rest ≠ [] := by
      intro empty
      rw [(List.append_eq_nil_iff.mp empty).1] at more
      cases more
    rw [closed,behind,whole,same,Option.map_some,Option.bind_some,regroup,if_neg nonempty,
      List.drop_append_of_le_length more,List.drop_drop]
  · exact fun inside => text' (split ▸ List.mem_append_right y (List.mem_of_mem_drop inside))
  · have pieces : d.element ++ d.tail = (y ++ (z ++ finish ++ d.tail).take 3) ++ (z ++ finish ++ d.tail).drop 3 := by
      rw [List.append_assoc,List.take_append_drop,split]
    exact holdsBehind (fun inside => text' (pieces ▸ List.mem_append_left _ inside)) (pieces ▸ elementDeclares d)

theorem renderStarts : render ds = [] ∨ (render ds).head? = some less := by
  cases ds with
  | nil => exact .inl rfl
  | cons d ds => exact .inr rfl

theorem renderTag : strstr (render (d :: ds)) dataTag = strstr (within d (render ds)) dataTag := by
  have apart : ¬dataTag <+: less :: (text "?xml version=" ++ within d (render ds)) := by
    intro starts
    exact absurd (List.cons_prefix_cons.mp (List.cons_prefix_cons.mp starts).2).1 (by decide)
  exact (passed apart (by decide)).trans (passOver (by decide) (by decide))

theorem tagPassed (other : d.gap.head? ≠ some newline) : strstr (within d (render ds)) dataTag = strstr (render ds) dataTag := by
  have apart : ¬dataTag <+: less :: (text "data>" ++ (d.gap ++ onFrom d (render ds))) := by
    intro starts
    have next : [newline] <+: d.gap ++ onFrom d (render ds) := (List.prefix_append_right_inj (text "<data>")).mp starts
    cases same : d.gap with
    | nil =>
      obtain ⟨-,c,t,tag',-⟩ := tagText d
      obtain ⟨u,whole⟩ := tagStarts d (render ds)
      rw [same,List.nil_append,← whole,tag'] at next
      exact absurd (List.cons_prefix_cons.mp next).1 (by decide)
    | cons c g =>
      rw [same] at next other
      exact other (congrArg some (List.cons_prefix_cons.mp next).1.symm)
  calc strstr (within d (render ds)) dataTag
      _ = strstr (less :: (text "data>" ++ (d.gap ++ onFrom d (render ds)))) dataTag :=
        acrossHead (by decide) d.versionText.1 d.versionText.2
      _ = strstr (text "data>" ++ (d.gap ++ onFrom d (render ds))) dataTag := passed apart (by decide)
      _ = strstr (d.gap ++ onFrom d (render ds)) dataTag := passOver (by decide) (by decide)
      _ = strstr (onFrom d (render ds)) dataTag := passOver d.gapText.2 d.gapText.1
      _ = strstr (render ds) dataTag := passText (by decide) (elementText d) (elementTagless d) (renderStarts ds)

theorem tagFound {g : Bytes} (opens : d.gap = newline :: g) (rest : Bytes) :
    behind (within d rest) dataTag = some (g ++ onFrom d rest) := by
  have opens' : text "<data>" ++ (d.gap ++ onFrom d rest) = dataTag ++ (g ++ onFrom d rest) := by
    rw [opens]
    rfl
  have here : strstr (d.version ++ (dataTag ++ (g ++ onFrom d rest))) dataTag = some (dataTag ++ (g ++ onFrom d rest)) :=
    (acrossHead (by decide) d.versionText.1 d.versionText.2).trans (foundHere (List.prefix_append dataTag _))
  rw [within,opens',behind,here]
  exact congrArg some List.drop_left

def tagged (e : Bytes) : Bool := responseTag.isPrefixOf e || logTag.isPrefixOf e

theorem elementTagged (rest : Bytes) : tagged (onFrom d rest) = true := by
  have starts := List.isPrefixOf_iff_prefix.mpr (tagStarts d rest)
  unfold Document.tag at starts
  cases same : d.response with
  | true =>
    rw [same] at starts
    exact Bool.or_eq_true_iff.mpr (.inl starts)
  | false =>
    rw [same] at starts
    exact Bool.or_eq_true_iff.mpr (.inr starts)

theorem tagRefused {c : UInt8} {g : Bytes} (other : c ≠ less) : tagged (c :: g) = false := by
  have first : ∀ {k : Bytes}, (less :: k).isPrefixOf (c :: g) = false := by
    intro k
    exact Bool.eq_false_iff.mpr fun starts => other (List.cons_prefix_cons.mp (List.isPrefixOf_iff_prefix.mp starts)).1.symm
  exact Bool.or_eq_false_iff.mpr ⟨first,first⟩

theorem tagSeen (later : (behind (render ds) dataTag).filter tagged = (seen ds).map fun p => onFrom p.1 (render p.2)) :
    (behind (within d (render ds)) dataTag).filter tagged = (seen (d :: ds)).map fun p => onFrom p.1 (render p.2) := by
  by_cases opens : d.gap.head? = some newline
  · obtain ⟨g,same⟩ : ∃ g, d.gap = newline :: g := List.head?_eq_some_iff.mp opens
    rw [tagFound d same,Option.filter_some,seen,if_pos opens]
    cases g with
    | nil =>
      rw [if_pos same,List.nil_append,elementTagged]
      rfl
    | cons c g =>
      have text' : c ≠ less := by
        rintro rfl
        exact d.gapText.2 (by rw [same]; exact List.mem_cons_of_mem _ List.mem_cons_self)
      have longer : d.gap ≠ [newline] := by
        rw [same]
        exact fun short => absurd (List.cons.inj short).2 (List.cons_ne_nil c g)
      rw [if_neg longer,List.cons_append,tagRefused text']
      rfl
  · rw [behind,tagPassed d ds opens,seen,if_neg opens]
    exact later

theorem elementSeen : (behind (within d (render ds)) dataTag).filter tagged =
    (seen (d :: ds)).map fun p => onFrom p.1 (render p.2) := by
  induction ds generalizing d with
  | nil => exact tagSeen d [] (by rw [behind]; rfl)
  | cons e es ih => exact tagSeen d (e :: es) (by rw [behind,renderTag]; exact ih e)

theorem nextSeen {x : Bytes} (clean : 0 ∉ x) (undeclared : holds x declaration = false) :
    nextElement (x ++ render ds) = (seen ds).map fun p => onFrom p.1 (render p.2) := by
  cases ds with
  | nil =>
    rw [render,List.append_nil,nextElement,behind,unheld undeclared]
    rfl
  | cons d ds =>
    have first : behind (x ++ render (d :: ds)) declaration = some (within d (render ds)) := by
      have here : strstr (x ++ render (d :: ds)) declaration = some (render (d :: ds)) :=
        (acrossHead (by decide) clean undeclared).trans (foundHere (List.prefix_append declaration _))
      rw [behind,here]
      exact congrArg some List.drop_left
    rw [nextElement,first,Option.bind_some]
    exact elementSeen d ds

theorem declares {x : Bytes} (clean : 0 ∉ x) (undeclared : holds x declaration = false) :
    holds (x ++ render ds) declaration = decide (ds ≠ []) := by
  have same : strstr (x ++ render ds) declaration = strstr (render ds) declaration :=
    passText (by decide) clean undeclared (renderStarts ds)
  rw [holds,same]
  cases ds with
  | nil => rfl
  | cons d ds =>
    have here : strstr (render (d :: ds)) declaration = some (render (d :: ds)) := foundHere (List.prefix_append declaration _)
    rw [here]
    exact (decide_eq_true (List.cons_ne_nil d ds)).symm

end Scanning

section Answers
variable {x : Bytes} {d : Document} {ds : List Document} {cmd : Option Cmd} {fuel : Nat}

theorem enoughTag {rest : Bytes} : Enough cmd (onFrom d rest) ↔ d.response = false ∧ cmd.any (· ≠ .log) = true := by
  obtain ⟨t,same⟩ := tagStarts d rest
  refine and_congr_left fun _ => ?_
  unfold Document.tag at same
  rw [← same]
  cases d.response with
  | true => exact ⟨fun not => absurd rfl not,fun not => absurd not.symm Bool.false_ne_true⟩
  | false => exact ⟨fun _ => rfl,fun _ => Bool.false_ne_true⟩

theorem turnSeen (clean : 0 ∉ x) (undeclared : holds x declaration = false) (cmd : Option Cmd) : turn cmd (x ++ render ds) =
    match seen ds with
    | none => .pure (.inr (if ds ≠ [] then none else cmd))
    | some p => if p.1.response = false ∧ cmd.any (· ≠ .log) = true then .pure (.inr cmd) else parseElement (onFrom p.1 (render p.2)) := by
  rw [turnNext,nextSeen ds clean undeclared,declares ds clean undeclared]
  cases seen ds with
  | none => simp only [Option.map_none,decide_eq_true_eq]
  | some p => simp only [Option.map_some,enoughTag]

theorem scanSkips (clean : 0 ∉ x) (undeclared : holds x declaration = false) (other : d.gap.head? ≠ some newline)
    (later : ds ≠ []) :
    scan fuel cmd (x ++ render (d :: ds)) = scan fuel cmd ([] ++ render ds) := by
  have same : turn cmd (x ++ render (d :: ds)) = turn cmd ([] ++ render ds) := by
    rw [turnSeen clean undeclared,turnSeen List.not_mem_nil rfl,seen,if_neg other,if_pos later,if_pos (List.cons_ne_nil d ds)]
  cases fuel with
  | zero => rfl
  | succ fuel =>
    rw [scan,scan,Trace.loop,Trace.loop]
    simp only [same]

theorem scanEnds {r : Option Cmd} (ends : turn cmd x = .pure (.inr r)) : (scan (fuel+1) cmd x).outcome = .went r := by
  rw [scan,Trace.loop]
  simp only [ends]
  rfl

theorem renderLonger (x : Bytes) (d : Document) (ds : List Document) :
    ([] ++ render ds).length ≤ (x ++ render (d :: ds)).length := by
  simp only [render,within,onFrom,List.length_append,List.length_nil]
  omega

theorem commandRest (d : Document) (ds : List Document) :
    (Marked d ds → (∃ b, commandOf (onFrom d (render ds)) = some (.vendor b)) ∧ Tame .buffer (onFrom d (render ds))) ∧
    (¬Marked d ds → commandOf (onFrom d (render ds)) = some (if d.response then .response (responseOf (onFrom d (render ds))) else .log) ∧
      (d.response = false → Tame .buffer (onFrom d (render ds)))) := by
  refine ⟨fun marked => ?_,fun unmarked => ?_⟩
  · unfold Marked at marked
    rw [commandOf,Tame,if_pos marked,if_pos marked]
    exact ⟨⟨_,rfl⟩,trivial⟩
  · obtain ⟨t,same⟩ := tagStarts d (render ds)
    unfold Document.tag at same
    unfold Marked at unmarked
    rw [commandOf,Tame,if_neg unmarked,if_neg unmarked,← same]
    cases d.response with
    | true => exact ⟨rfl,fun other => absurd other.symm Bool.false_ne_true⟩
    | false => exact ⟨rfl,fun _ => trivial⟩

theorem scanDocument (clean : 0 ∉ x) (undeclared : holds x declaration = false) (here : d.gap = [newline])
    (goes : ¬(d.response = false ∧ cmd.any (· ≠ .log) = true)) (enough : (x ++ render (d :: ds)).length < fuel+1) :
    ∃ y : Bytes, 0 ∉ y ∧ holds y declaration = false ∧ (y ++ render ds).length < fuel ∧
      ∀ all, (scan (fuel+1) cmd (x ++ render (d :: ds))).outcome = .went all ↔
        Tame .buffer (onFrom d (render ds)) ∧ (scan fuel (commandOf (onFrom d (render ds))) (y ++ render ds)).outcome =
          .went all := by
  have opens : seen (d :: ds) = some (d,ds) := by
    rw [seen,here]
    rfl
  have next : nextElement (x ++ render (d :: ds)) = some (onFrom d (render ds)) := by
    rw [nextSeen (d :: ds) clean undeclared,opens]
    rfl
  have same := @turnSeen x (d :: ds) clean undeclared cmd
  rw [opens] at same
  simp only [if_neg goes] at same
  obtain ⟨y,closes,clean',undeclared'⟩ := documentCloses d (render ds)
  have short := nextShorter next
  have shorter := closedShorter closes
  refine ⟨y,clean',undeclared',by omega,fun all => ?_⟩
  rw [scan,Trace.loop]
  simp only [same]
  rw [(parseReads _).restWent,closes]
  exact ⟨fun both => ⟨both.1.1,both.2⟩,fun both => ⟨⟨both.1,closesSome.mpr ⟨_,closes⟩⟩,both.2⟩⟩

theorem seenMem {p : Document × List Document} (same : seen ds = some p) : p.1 ∈ ds := by
  induction ds with
  | nil => cases same
  | cons d ds ih =>
    rw [seen] at same
    split at same
    · split at same
      · cases same
        exact List.mem_cons_self
      · cases same
    · exact List.mem_cons_of_mem d (ih same)

theorem scanRest (enough : (x ++ render ds).length < fuel) (clean : 0 ∉ x) (undeclared : holds x declaration = false)
    (other : cmd.any (· ≠ .log) = true)
    (log : ∀ p ∈ seen ds, p.1.response = false) :
    (scan fuel cmd (x ++ render ds)).outcome = .went (if ds = [] ∨ (seen ds).isSome then cmd else none) := by
  cases fuel with
  | zero => cases enough
  | succ fuel =>
    apply scanEnds
    rw [turnSeen clean undeclared]
    cases same : seen ds with
    | none => simp only [Option.isSome_none,Bool.false_eq_true,or_false,ne_eq,ite_not]
    | some p => simp only [log p same,other,and_self,if_true,Option.isSome_some,or_true]

theorem scanLogs {r : ResponseCmd} (enough : (x ++ render ds).length < fuel) (clean : 0 ∉ x)
    (undeclared : holds x declaration = false)
    (logs : ∀ d ∈ ds, d.response = false) (other : cmd ≠ some (.response r)) :
    (scan fuel cmd (x ++ render ds)).outcome ≠ .went (some (.response r)) := by
  induction ds generalizing fuel cmd x with
  | nil =>
    cases fuel with
    | zero => cases enough
    | succ fuel =>
      have ends := @turnSeen x [] clean undeclared cmd
      rw [scanEnds ends]
      exact fun same => other (Outcome.went.inj same)
  | cons d ds ih =>
    have log := logs d List.mem_cons_self
    have logs' : ∀ d ∈ ds, d.response = false := fun d inside => logs d (List.mem_cons_of_mem _ inside)
    cases fuel with
    | zero => cases enough
    | succ fuel =>
      have turn' := @turnSeen x (d :: ds) clean undeclared cmd
      by_cases opens : d.gap.head? = some newline
      · by_cases here : d.gap = [newline]
        · by_cases stops : cmd.any (· ≠ .log) = true
          · simp only [seen,if_pos opens,if_pos here,log,stops,and_self,if_true] at turn'
            rw [scanEnds turn']
            exact fun same => other (Outcome.went.inj same)
          · obtain ⟨y,clean',undeclared',short,step⟩ := scanDocument clean undeclared here (fun both => stops both.2) enough
            rw [Ne,step]
            rintro ⟨-,same⟩
            refine ih short clean' undeclared' logs' ?_ same
            by_cases marked : Marked d ds
            · obtain ⟨b,command⟩ := ((commandRest d ds).1 marked).1
              rw [command]
              exact fun same => by cases same
            · rw [((commandRest d ds).2 marked).1,log]
              exact fun same => by cases same
        · simp only [seen,if_pos opens,if_neg here] at turn'
          rw [scanEnds turn']
          exact fun same => by cases same
      · by_cases later : ds = []
        · simp only [seen,if_neg opens,later] at turn'
          rw [later,scanEnds turn']
          exact fun same => by cases same
        · rw [scanSkips clean undeclared opens later]
          refine ih ?_ List.not_mem_nil rfl logs' other
          have := renderLonger x d ds
          omega

theorem scanMarked {b : Bytes} (enough : (x ++ render ds).length < fuel) (clean : 0 ∉ x)
    (undeclared : holds x declaration = false) :
    (scan fuel (some (.vendor b)) (x ++ render ds)).outcome = .went (some (said ds)) ↔
      (∃ p ∈ seen ds, p.1.response = true) ∧ (scan fuel (some .log) (x ++ render ds)).outcome = .went (some (said ds)) := by
  have other : said ds ≠ .vendor b := by
    unfold said
    split
    · exact fun same => by cases same
    · exact fun same => by cases same
  by_cases answered : ∃ p ∈ seen ds, p.1.response = true
  · obtain ⟨p,here,response⟩ := answered
    have same : turn (some (.vendor b)) (x ++ render ds) = turn (some .log) (x ++ render ds) := by
      rw [turnSeen clean undeclared,turnSeen clean undeclared,here]
      simp only [response,Bool.true_eq_false,false_and,if_false]
    have same' : scan fuel (some (.vendor b)) (x ++ render ds) = scan fuel (some .log) (x ++ render ds) := by
      cases fuel with
      | zero => rfl
      | succ fuel =>
        rw [scan,scan,Trace.loop,Trace.loop]
        simp only [same]
    rw [and_iff_right ⟨p,here,response⟩,same']
  · have log : ∀ p ∈ seen ds, p.1.response = false :=
      fun p here => Bool.eq_false_iff.mpr fun response => answered ⟨p,here,response⟩
    refine iff_of_false ?_ fun both => answered both.1
    rw [scanRest enough clean undeclared rfl log]
    split
    · exact fun same => other (Option.some.inj (Outcome.went.inj same)).symm
    · exact fun same => by cases same

theorem saidLater (log : d.response = false) : said (d :: ds) = said ds := by
  rw [said,List.find?_cons_of_neg (by rw [log]; exact Bool.false_ne_true)]
  rfl

theorem saidHere (response : d.response = true) : said (d :: ds) = .response (responseOf d.element) := by
  rw [said,List.find?_cons_of_pos response]

theorem oneLater (log : d.response = false) (one : (d :: ds).countP Document.response ≤ 1) : ds.countP Document.response ≤ 1 := by
  rw [List.countP_cons_of_neg (by rw [log]; exact Bool.false_ne_true)] at one
  exact one

theorem logsLater (response : d.response = true) (one : (d :: ds).countP Document.response ≤ 1) :
    ∀ e ∈ ds, e.response = false := by
  rw [List.countP_cons_of_pos response] at one
  have none' : ds.countP Document.response = 0 := by omega
  exact fun e inside => Bool.eq_false_iff.mpr (List.countP_eq_zero.mp none' e inside)

/- Behind a response only logs are seen, at which the scan ends. -/
theorem responseHeard (response : d.response = true) (logs : ∀ e ∈ ds, e.response = false)
    (enough : (x ++ render ds).length < fuel)
    (clean : 0 ∉ x) (undeclared : holds x declaration = false) :
    Tame .buffer (onFrom d (render ds)) ∧
        (scan fuel (commandOf (onFrom d (render ds))) (x ++ render ds)).outcome =
        .went (some (.response (responseOf d.element))) ↔
      Kept d ds ∧ (ds = [] ∨ (seen ds).isSome) := by
  have log : ∀ p ∈ seen ds, p.1.response = false := fun p same => logs p.1 (seenMem same)
  by_cases marked : Marked d ds
  · obtain ⟨⟨b,command⟩,-⟩ := (commandRest d ds).1 marked
    refine iff_of_false ?_ fun heard => heard.1.1 marked
    rw [command,scanRest enough clean undeclared rfl log]
    rintro ⟨-,same⟩
    split at same
    · cases same
    · cases same
  · rw [((commandRest d ds).2 marked).1,response,scanRest enough clean undeclared rfl log,Kept,← apartSame,and_iff_right marked,and_assoc]
    refine and_congr_right fun _ => ?_
    split
    · rename_i rest
      refine ⟨fun same => ⟨?_,rest⟩,fun both => ?_⟩
      · exact Cmd.response.inj (Option.some.inj (Outcome.went.inj same))
      · rw [if_pos rfl,both.1]
    · rename_i lost
      exact iff_of_false (fun same => by cases same) fun both => lost both.2

theorem logHeard (log : d.response = false) (enough : (x ++ render ds).length < fuel) (clean : 0 ∉ x)
    (undeclared : holds x declaration = false)
    (later : (scan fuel (some .log) (x ++ render ds)).outcome = .went (some (said ds)) ↔ Heard ds) :
    Tame .buffer (onFrom d (render ds)) ∧
        (scan fuel (commandOf (onFrom d (render ds))) (x ++ render ds)).outcome = .went (some (said ds)) ↔
      (Marked d ds → ∃ p ∈ seen ds, p.1.response = true) ∧ Heard ds := by
  by_cases marked : Marked d ds
  · obtain ⟨⟨b,command⟩,tame⟩ := (commandRest d ds).1 marked
    rw [command,and_iff_right tame,scanMarked enough clean undeclared,later]
    exact and_congr_left fun _ => ⟨fun answered _ => answered,fun answered => answered marked⟩
  · obtain ⟨command,tame⟩ := (commandRest d ds).2 marked
    rw [command,log,and_iff_right (tame log)]
    exact later.trans (and_iff_right fun marked' => absurd marked' marked).symm

theorem scanHeard (enough : (x ++ render ds).length < fuel) (quiet : cmd.any (· ≠ .log) = false)
    (any' : ds = [] → cmd = some .log)
    (clean : 0 ∉ x) (undeclared : holds x declaration = false) (one : ds.countP Document.response ≤ 1) :
    (scan fuel cmd (x ++ render ds)).outcome = .went (some (said ds)) ↔ Heard ds := by
  induction ds generalizing fuel cmd x with
  | nil =>
    cases fuel with
    | zero => cases enough
    | succ fuel =>
      have ends := @turnSeen x [] clean undeclared cmd
      rw [scanEnds ends,any' rfl]
      exact ⟨fun _ => trivial,fun _ => rfl⟩
  | cons d ds ih =>
    cases fuel with
    | zero => cases enough
    | succ fuel =>
      have goes : ¬(d.response = false ∧ cmd.any (· ≠ .log) = true) := fun both => Bool.false_ne_true (quiet.symm.trans both.2)
      rw [Heard]
      by_cases here : d.gap = [newline]
      · obtain ⟨y,clean',undeclared',short,step⟩ := scanDocument clean undeclared here goes enough
        rw [if_pos here,step]
        cases kind : d.response with
        | false =>
          rw [if_neg Bool.false_ne_true,saidLater kind]
          exact logHeard kind short clean' undeclared' (ih short rfl (fun _ => rfl) clean' undeclared' (oneLater kind one))
        | true =>
          rw [if_pos rfl,saidHere kind]
          exact responseHeard kind (logsLater kind one) short clean' undeclared'
      · rw [if_neg here]
        by_cases opens : d.gap.head? = some newline
        · have turn' := @turnSeen x (d :: ds) clean undeclared cmd
          simp only [seen,if_pos opens,if_neg here] at turn'
          rw [scanEnds turn']
          exact iff_of_false (fun same => by cases same) fun heard => heard.1 opens
        · by_cases later : ds = []
          · have turn' := @turnSeen x (d :: ds) clean undeclared cmd
            simp only [seen,if_neg opens,later] at turn'
            rw [later,scanEnds turn']
            exact iff_of_false (fun same => by cases same) fun heard => heard.2.2.1 rfl
          · have shorter := renderLonger x d ds
            rw [scanSkips clean undeclared opens later]
            cases kind : d.response with
            | false =>
              rw [saidLater kind,ih (by omega) quiet (fun empty => absurd empty later) List.not_mem_nil rfl (oneLater kind one)]
              exact ⟨fun heard => ⟨opens,rfl,later,heard⟩,fun heard => heard.2.2.2⟩
            | true =>
              rw [saidHere kind]
              refine iff_of_false (scanLogs (by omega) List.not_mem_nil rfl (logsLater kind one) ?_) fun heard =>
                Bool.false_ne_true heard.2.1.symm
              rintro rfl
              exact Bool.false_ne_true quiet.symm

end Answers

theorem repliesRead {docs : List Document} (given : docs ≠ []) (one : docs.countP Document.response ≤ 1) :
    (fhRecvCmd (render docs)).outcome = .went (some (said docs)) ↔ (render docs).length < xmlSize ∧ Heard docs := by
  rw [fhRecvCmd,(Reads.touch _).restWent]
  refine and_congr Iff.rfl ?_
  exact @scanHeard [] docs none _ (Nat.lt_succ_self _) rfl (fun empty => absurd empty given) List.not_mem_nil rfl one

theorem repliesParsed (reply : Bytes) :
    ((fhRecvCmd reply).Ends ∧ (∀ e ∈ (fhRecvCmd reply).effects, e.Within .buffer) ↔ reply.length < xmlSize ∧ Clean none reply) ∧
    ∀ docs : List Document, render docs = reply → docs ≠ [] → docs.countP Document.response ≤ 1 →
      ((fhRecvCmd reply).outcome = .went (some (said docs)) ↔ reply.length < xmlSize ∧ Heard docs) := by
  refine ⟨replySafe reply,?_⟩
  rintro docs rfl given one
  exact repliesRead given one

def greeting : Document :=
  ⟨text "?>",[newline],false,text "value=\"hi\" ",text "\n</data>",by decide,by decide,by decide,by decide,by decide⟩
def acknowledgement : Document :=
  ⟨text "?>",[newline],true,text "value=\"ACK\" rawmode=\"true\" ",text "\n</data>",
    by decide,by decide,by decide,by decide,by decide⟩

theorem repliesParsedAcknowledged :
    ((render [greeting,acknowledgement]).length < xmlSize ∧ Clean none (render [greeting,acknowledgement])) ∧
      (render [greeting,acknowledgement]).length < xmlSize ∧ Heard [greeting,acknowledgement] :=
  ⟨(repliesParsed _).1.mp (by decide +kernel),
    ((repliesParsed _).2 [greeting,acknowledgement] rfl (by decide) (by decide)).mp (by decide +kernel)⟩

def bareLog : Bytes := text "<?xml version=<data>\n<log />"

theorem bareLogOverread : ¬∀ reply : Bytes, 0 < reply.length → reply.length ≤ xmlSize →
    (fhRecvCmd reply).Ends ∧ ∀ e ∈ (fhRecvCmd reply).effects, e.Within .buffer := by
  intro all
  exact absurd (all bareLog (by decide) (by decide)).1 (by decide +kernel)

end MhiHost.Replies
