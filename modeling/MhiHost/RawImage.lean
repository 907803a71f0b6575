import MhiHost.Wire

/-! Flashing one image in `firehose_protocol.c`: the payload size that the configuration
settles, the sectors that the program command announces, and the loop that sends the file.
`SECTOR_SIZE_IN_BYTES` comes from the rawprogram file, the payload size may come from the
target. -/
namespace MhiHost.RawImage
open Wire (Bytes)

inductive ResponseValue where
  | ack | nak | other
  deriving DecidableEq, Repr

structure Response where
  value : Option ResponseValue
  maxPayloadSizeToTargetInBytes : Nat
  deriving DecidableEq, Repr

inductive Configured where
  | payload (size : Nat)
  | failed
  | crashed
  deriving DecidableEq, Repr

def defaultPayload : Nat := 8*1024

def acknowledged (size : Nat) : Option Response → Configured
  | none => .failed
  | some r =>
    match r.value with
    | none => .crashed
    | some v => if v = .ack then .payload size else .failed

/- The answers of `fh_wait_response_cmd` to the first and the second command; `none` is its
error. The number of a response is an `uint32_t`. -/
def fhSendCfgCmd (first second : Option Response) : Configured :=
  match first with
  | none => .failed
  | some r =>
    if r.value = some .nak ∧ r.maxPayloadSizeToTargetInBytes % 2 ^ 32 ≠ 0 then
      acknowledged (r.maxPayloadSizeToTargetInBytes % 2 ^ 32) second
    else acknowledged defaultPayload first

def fhFixupProgramCmd (sectorSize filesize : Nat) : Option Nat :=
  if filesize = 0 then some 0
  else if sectorSize = 0 then none
  else
    let sectors := filesize / sectorSize % 2 ^ 32
    some (if filesize % sectorSize = 0 then sectors else (sectors+1) % 2 ^ 32)

/- What has gone to the device, whether the padding left the payload buffer, and what the
function returns; `trapped` is a division by zero. -/
structure Sent where
  device : Bytes
  overrun : Bool
  trapped : Bool
  done : Bool
  deriving DecidableEq, Repr

def padding (sectorSize n : Nat) : Nat := if n % sectorSize = 0 then 0 else sectorSize-n % sectorSize

def asSize (ret : Int) : Nat := (Int.bmod ret (2 ^ 32) % (2 ^ 64 : Nat)).toNat

def sendTurns (sectorSize payload filesize : Nat) (writes : Nat → Nat → Int) : Nat → Nat → Bytes → Nat → Sent
  | 0,_,_,filesend => ⟨[],false,false,decide (filesize ≤ filesend)⟩
  | left+1,i,rest,filesend =>
    if filesize ≤ filesend then ⟨[],false,false,true⟩
    else
      let chunk := rest.take payload
      if chunk.length = 0 then ⟨[],false,false,false⟩
      else if sectorSize = 0 then ⟨[],false,true,false⟩
      else
        let pad := padding sectorSize chunk.length
        let reads := chunk.length+pad
        let beyond := decide (pad ≠ 0) && decide (payload < reads)
        let buffer := chunk ++ List.replicate pad 0
        let ret := writes i reads
        if asSize ret = reads then
          let out := sendTurns sectorSize payload filesize writes left (i+1) (rest.drop payload) (filesend+reads)
          {out with device := buffer ++ out.device,overrun := beyond || out.overrun}
        else ⟨buffer.take (Int.bmod ret (2 ^ 32)).toNat,beyond,false,false⟩

def fhSendRawmodeImage (sectorSize payload : Nat) (allocated opened : Bool) (writes : Nat → Nat → Int) (file : Bytes) : Sent :=
  if !allocated || !opened then ⟨[],false,false,false⟩
  else sendTurns sectorSize payload file.length writes file.length 0 file 0

def padded (sectorSize : Nat) (file : Bytes) : Bytes := file ++ List.replicate (padding sectorSize file.length) 0

def FlashedWhole (sectorSize payload : Nat) (file : Bytes) : Prop :=
  ∃ sectors, fhFixupProgramCmd sectorSize file.length = some sectors ∧
    ∀ allocated opened writes,
      (fhSendRawmodeImage sectorSize payload allocated opened writes file).trapped = false ∧
      (fhSendRawmodeImage sectorSize payload allocated opened writes file).overrun = false ∧
      ((fhSendRawmodeImage sectorSize payload allocated opened writes file).done = true →
        (fhSendRawmodeImage sectorSize payload allocated opened writes file).device = padded sectorSize file ∧
        (fhSendRawmodeImage sectorSize payload allocated opened writes file).device.length = sectors*sectorSize)

def sectorsOf (sectorSize filesize : Nat) : Nat := (filesize+padding sectorSize filesize) / sectorSize

/- The payload is made of whole sectors or holds the padded file; and the number of sectors
is an `uint32_t`, or a payload is more than a write can report. -/
def Fits (sectorSize payload filesize : Nat) : Prop :=
  sectorSize ≠ 0 ∧ (payload % sectorSize = 0 ∨ filesize+padding sectorSize filesize ≤ payload) ∧
    (sectorsOf sectorSize filesize < 2 ^ 32 ∨ 2 ^ 31 ≤ payload)

theorem paddingLess {sectorSize : Nat} (positive : 0 < sectorSize) (n : Nat) : padding sectorSize n < sectorSize := by
  unfold padding
  split
  · exact positive
  · omega

theorem paddedWhole {sectorSize : Nat} (positive : 0 < sectorSize) (n : Nat) : (n+padding sectorSize n) % sectorSize = 0 := by
  have below := Nat.mod_lt n positive
  unfold padding
  split
  · assumption
  · rw [← Nat.mod_add_mod,Nat.add_sub_cancel' (Nat.le_of_lt below),Nat.mod_self]

theorem sectorsWhole {sectorSize : Nat} (positive : 0 < sectorSize) (n : Nat) :
    sectorsOf sectorSize n*sectorSize = n+padding sectorSize n :=
  Nat.div_mul_cancel (Nat.dvd_of_mod_eq_zero (paddedWhole positive n))

theorem paddingShift {sectorSize payload n : Nat} (whole : payload % sectorSize = 0) (more : payload ≤ n) :
    padding sectorSize (n-payload) = padding sectorSize n := by
  have same : (n-payload+payload) % sectorSize = (n-payload) % sectorSize := by
    rw [← Nat.add_mod_mod,whole,Nat.add_zero]
  rw [Nat.sub_add_cancel more] at same
  rw [padding,padding,same]

theorem lastFits {sectorSize payload n : Nat} (positive : 0 < sectorSize) (whole : payload % sectorSize = 0)
    (last : n ≤ payload) :
    n+padding sectorSize n ≤ payload := by
  have next := paddedWhole positive n
  have short := paddingLess positive n
  obtain ⟨k,rfl⟩ := Nat.dvd_of_mod_eq_zero whole
  obtain ⟨j,same⟩ := Nat.dvd_of_mod_eq_zero next
  rw [same]
  refine Nat.mul_le_mul_left sectorSize (Nat.le_of_lt_succ ?_)
  refine @Nat.lt_of_mul_lt_mul_left sectorSize j (k+1) ?_
  rw [← same,Nat.mul_succ]
  exact Nat.add_lt_add_of_le_of_lt last short

theorem fixup {sectorSize filesize : Nat} (positive : 0 < sectorSize) (some : 0 < filesize) :
    fhFixupProgramCmd sectorSize filesize = .some (sectorsOf sectorSize filesize % 2 ^ 32) := by
  unfold fhFixupProgramCmd sectorsOf padding
  rw [if_neg (Nat.ne_of_gt some),if_neg (Nat.ne_of_gt positive)]
  dsimp only
  split
  · rw [Nat.add_zero]
  · have below := Nat.mod_lt filesize positive
    have whole := Nat.div_add_mod filesize sectorSize
    have up : filesize+(sectorSize-filesize % sectorSize) = sectorSize*(filesize / sectorSize+1) := by
      rw [Nat.mul_succ]
      omega
    rw [up,Nat.mul_div_cancel_left _ positive,Nat.mod_add_mod]

structure Sends (sectorSize payload : Nat) (writes : Nat → Nat → Int) (rest : Bytes) (out : Sent) : Prop where
  trapped : out.trapped = false
  overrun : out.overrun = false
  device : out.done = true → out.device = padded sectorSize rest
  taken : (∀ i n, n ≤ payload → asSize (writes i n) = n) → out.done = true

theorem sendsNothing (sectorSize payload filesize : Nat) (writes : Nat → Nat → Int) (left i : Nat) (rest : Bytes) {filesend : Nat}
    (past : filesize ≤ filesend) : sendTurns sectorSize payload filesize writes left i rest filesend = ⟨[],false,false,true⟩ := by
  cases left with
  | zero =>
    rw [sendTurns,decide_eq_true past]
  | succ left => rw [sendTurns,if_pos past]

section Turn
variable {sectorSize payload filesize left i filesend : Nat} {writes : Nat → Nat → Int} {rest : Bytes}

theorem turn (positive : 0 < sectorSize) (more : ¬filesize ≤ filesend) {chunk : Bytes} (cut : rest.take payload = chunk)
    (some : chunk.length ≠ 0) {pad : Nat} (filled : padding sectorSize chunk.length = pad)
    (inside : pad = 0 ∨ chunk.length+pad ≤ payload) :
    sendTurns sectorSize payload filesize writes (left+1) i rest filesend =
      if asSize (writes i (chunk.length+pad)) = chunk.length+pad then
        let out := sendTurns sectorSize payload filesize writes left (i+1) (rest.drop payload) (filesend+(chunk.length+pad))
        {out with device := chunk ++ List.replicate pad 0 ++ out.device}
      else ⟨(chunk ++ List.replicate pad 0).take (Int.bmod (writes i (chunk.length+pad)) (2 ^ 32)).toNat,false,false,false⟩ := by
  subst cut filled
  have beyond : (decide (padding sectorSize (rest.take payload).length ≠ 0) &&
      decide (payload < (rest.take payload).length+padding sectorSize (rest.take payload).length)) = false := by
    rw [Bool.and_eq_false_iff,decide_eq_false_iff_not,decide_eq_false_iff_not,not_not,Nat.not_lt]
    exact inside
  rw [sendTurns,if_neg more]
  dsimp only
  rw [if_neg some,if_neg (Nat.ne_of_gt positive),beyond]
  rfl

end Turn

theorem sendsWhole {sectorSize payload filesize left i filesend : Nat} {writes : Nat → Nat → Int} {rest : Bytes}
    (positive : 0 < sectorSize) (some : 0 < payload)
    (fits : payload % sectorSize = 0 ∨ rest.length+padding sectorSize rest.length ≤ payload)
    (counted : filesend+rest.length = filesize) (enough : rest.length ≤ left) :
    Sends sectorSize payload writes rest (sendTurns sectorSize payload filesize writes left i rest filesend) := by
  induction left generalizing i rest filesend with
  | zero =>
    have empty : rest = [] := List.eq_nil_of_length_eq_zero (Nat.le_zero.mp enough)
    subst empty
    have past : filesize ≤ filesend := Nat.le_of_eq counted.symm
    rw [sendsNothing _ _ _ _ _ _ _ past]
    refine ⟨rfl,rfl,fun _ => ?_,fun _ => rfl⟩
    rw [padded,List.length_nil,padding,Nat.zero_mod]
    rfl
  | succ left ih =>
    by_cases past : filesize ≤ filesend
    · have empty : rest = [] := List.eq_nil_of_length_eq_zero (by omega)
      subst empty
      rw [sendsNothing _ _ _ _ _ _ _ past]
      refine ⟨rfl,rfl,fun _ => ?_,fun _ => rfl⟩
      rw [padded,List.length_nil,padding,Nat.zero_mod]
      rfl
    · rcases Nat.lt_or_ge payload rest.length with more | last
      · have whole : payload % sectorSize = 0 := fits.resolve_right (by omega)
        have chunk : (rest.take payload).length = payload := List.length_take_of_le (Nat.le_of_lt more)
        have filled : padding sectorSize (rest.take payload).length = 0 := by rw [chunk,padding,if_pos whole]
        rw [turn positive past rfl (by omega) filled (.inl rfl)]
        split
        · have later := @ih (i+1) (filesend+((rest.take payload).length+0)) (rest.drop payload) (.inl whole)
            (by rw [List.length_drop]; omega) (by rw [List.length_drop]; omega)
          refine ⟨later.trapped,later.overrun,?_,later.taken⟩
          intro done
          have tail : _ = padded sectorSize (rest.drop payload) := later.device done
          dsimp only
          rw [tail,padded,padded,List.length_drop,paddingShift whole (Nat.le_of_lt more),List.replicate_zero,List.append_nil,
            ← List.append_assoc,List.take_append_drop]
        · rename_i refused
          refine ⟨rfl,rfl,fun done => absurd done Bool.false_ne_true,?_⟩
          intro takes
          exact absurd (takes i _ (by omega)) refused
      · have chunk : rest.take payload = rest := List.take_of_length_le last
        have inside : rest.length+padding sectorSize rest.length ≤ payload := by
          rcases fits with whole | inside
          · exact lastFits positive whole last
          · exact inside
        rw [turn positive past chunk (by omega) rfl (.inr inside)]
        split
        · rw [sendsNothing _ _ _ _ _ _ _ (by omega)]
          exact ⟨rfl,rfl,fun _ => List.append_nil _,fun _ => rfl⟩
        · rename_i refused
          refine ⟨rfl,rfl,fun done => absurd done Bool.false_ne_true,?_⟩
          intro takes
          exact absurd (takes i _ inside) refused

theorem asSizeShort {n : Nat} (short : n < 2 ^ 31) : asSize n = n := by
  unfold asSize
  rw [Int.bmod_eq_of_le (by omega) (by omega)]
  omega

theorem asSizeLong {n : Nat} (long : 2 ^ 31 ≤ n) (word : n < 2 ^ 32) (ret : Int) : asSize ret ≠ n := by
  unfold asSize
  have low := @Int.le_bmod ret (2 ^ 32) (by decide)
  have high := @Int.bmod_lt ret (2 ^ 32) (by decide)
  omega

section Image
variable {sectorSize payload : Nat} {file : Bytes}

theorem sendsOpened (writes : Nat → Nat → Int) :
    fhSendRawmodeImage sectorSize payload true true writes file =
      sendTurns sectorSize payload file.length writes file.length 0 file 0 := rfl

theorem imageSends (positive : 0 < sectorSize) (some : 0 < payload)
    (fits : payload % sectorSize = 0 ∨ file.length+padding sectorSize file.length ≤ payload) (writes : Nat → Nat → Int) :
    Sends sectorSize payload writes file (fhSendRawmodeImage sectorSize payload true true writes file) :=
  sendsWhole positive some fits (Nat.zero_add _) (Nat.le_refl _)

theorem overruns (positive : 0 < sectorSize) (some : 0 < payload) (content : file ≠ [])
    (odd : payload % sectorSize ≠ 0) (short : payload < file.length+padding sectorSize file.length) (writes : Nat → Nat → Int) :
    (fhSendRawmodeImage sectorSize payload true true writes file).overrun = true := by
  obtain ⟨byte,rest,rfl⟩ := List.exists_cons_of_ne_nil content
  have chunk : ((byte :: rest).take payload).length = min payload (byte :: rest).length := List.length_take
  have length : (byte :: rest).length = rest.length+1 := rfl
  have pad : padding sectorSize ((byte :: rest).take payload).length ≠ 0 ∧
      payload < ((byte :: rest).take payload).length+padding sectorSize ((byte :: rest).take payload).length := by
    rw [chunk]
    rcases Nat.lt_or_ge (byte :: rest).length payload with below | above
    · rw [Nat.min_eq_right (Nat.le_of_lt below)]
      omega
    · rw [Nat.min_eq_left above]
      have some : padding sectorSize payload ≠ 0 := by
        have below := Nat.mod_lt payload positive
        rw [padding,if_neg odd]
        omega
      omega
  rw [sendsOpened,length,sendTurns,if_neg (by omega)]
  dsimp only
  rw [if_neg (by omega),if_neg (Nat.ne_of_gt positive),decide_eq_true pad.1,decide_eq_true pad.2]
  split
  · rfl
  · rfl

theorem neverTaken (positive : 0 < sectorSize) (long : 2 ^ 31 ≤ payload) (word : payload < 2 ^ 32)
    (whole : payload % sectorSize = 0)
    (more : payload < file.length) (writes : Nat → Nat → Int) :
    (fhSendRawmodeImage sectorSize payload true true writes file).done = false := by
  have chunk : (file.take payload).length = payload := List.length_take_of_le (Nat.le_of_lt more)
  have filled : padding sectorSize (file.take payload).length = 0 := by rw [chunk,padding,if_pos whole]
  obtain ⟨left,length⟩ : ∃ left, file.length = left+1 := ⟨file.length-1,by omega⟩
  rw [sendsOpened,length,turn positive (by omega) rfl (by omega) filled (.inl rfl),chunk,Nat.add_zero,
    if_neg (asSizeLong long word _)]

theorem closedSends {allocated opened : Bool} (closed : ¬(allocated = true ∧ opened = true)) (writes : Nat → Nat → Int) :
    fhSendRawmodeImage sectorSize payload allocated opened writes file = ⟨[],false,false,false⟩ := by
  unfold fhSendRawmodeImage
  rw [if_pos]
  cases allocated <;> cases opened <;> first | rfl | exact absurd ⟨rfl,rfl⟩ closed

theorem emptyFlashed : FlashedWhole sectorSize payload [] := by
  refine ⟨0,rfl,?_⟩
  intro allocated opened writes
  have nothing : padded sectorSize [] = [] := by
    rw [padded,List.length_nil,padding,Nat.zero_mod]
    rfl
  cases allocated <;> cases opened <;> exact ⟨rfl,rfl,fun _ => ⟨nothing.symm,(Nat.zero_mul _).symm⟩⟩

theorem paddedLength : (padded sectorSize file).length = file.length+padding sectorSize file.length := by
  rw [padded,List.length_append,List.length_replicate]

end Image

theorem configuredPayload {first second : Option Response} {payload : Nat}
    (configured : fhSendCfgCmd first second = .payload payload) :
    0 < payload ∧ payload < 2 ^ 32 := by
  have settled : ∀ {size : Nat} {r : Option Response}, acknowledged size r = .payload payload → size = payload := by
    intro size r ok
    unfold acknowledged at ok
    split at ok
    · cases ok
    · split at ok
      · cases ok
      · split at ok
        · cases ok
          rfl
        · cases ok
  unfold fhSendCfgCmd at configured
  split at configured
  · cases configured
  · split at configured
    · rename_i named
      obtain rfl := settled configured
      exact ⟨Nat.pos_of_ne_zero named.2,Nat.mod_lt _ (by decide)⟩
    · obtain rfl := settled configured
      exact ⟨by decide,by decide⟩

theorem flashedWhole {first second : Option Response} {sectorSize payload : Nat} {file : Bytes}
    (configured : fhSendCfgCmd first second = .payload payload) :
    FlashedWhole sectorSize payload file ↔ file = [] ∨ Fits sectorSize payload file.length := by
  obtain ⟨some,word⟩ := configuredPayload configured
  rcases Decidable.eq_or_ne file [] with rfl | content
  · exact ⟨fun _ => .inl rfl,fun _ => emptyFlashed⟩
  have length : 0 < file.length := List.length_pos_iff.mpr content
  constructor
  · rintro ⟨sectors,counted,sent⟩
    have positive : 0 < sectorSize := by
      refine Nat.pos_of_ne_zero fun zero => ?_
      rw [zero,fhFixupProgramCmd,if_neg (Nat.ne_of_gt length),if_pos rfl] at counted
      cases counted
    have inside : payload % sectorSize = 0 ∨ file.length+padding sectorSize file.length ≤ payload := by
      refine Decidable.byContradiction fun outside => ?_
      rw [not_or,Nat.not_le] at outside
      have beyond := overruns positive some content outside.1 outside.2 fun _ _ => 0
      rw [(sent true true fun _ _ => 0).2.1] at beyond
      cases beyond
    refine .inr ⟨Nat.ne_of_gt positive,inside,?_⟩
    refine Decidable.byContradiction fun outside => ?_
    rw [not_or,Nat.not_lt,Nat.not_le] at outside
    have sends := imageSends positive some inside fun _ n => n
    obtain ⟨_,whole⟩ := (sent true true fun _ n => n).2.2 (sends.taken fun _ n below => asSizeShort (Nat.lt_of_le_of_lt below outside.2))
    rw [sends.device (sends.taken fun _ n below => asSizeShort (Nat.lt_of_le_of_lt below outside.2)),paddedLength,
      ← sectorsWhole positive] at whole
    have same := Nat.eq_of_mul_eq_mul_right positive whole
    rw [fixup positive length,Option.some.injEq] at counted
    have below := Nat.mod_lt (sectorsOf sectorSize file.length) (Nat.two_pow_pos 32)
    omega
  · rintro (empty | ⟨sector,inside,few⟩)
    · exact absurd empty content
    have positive : 0 < sectorSize := Nat.pos_of_ne_zero sector
    refine ⟨_,fixup positive length,?_⟩
    intro allocated opened writes
    by_cases ready : allocated = true ∧ opened = true
    · obtain ⟨rfl,rfl⟩ := ready
      have sends := imageSends positive some inside writes
      refine ⟨sends.trapped,sends.overrun,fun done => ⟨sends.device done,?_⟩⟩
      rw [sends.device done,paddedLength,← sectorsWhole positive]
      rcases Nat.lt_or_ge (sectorsOf sectorSize file.length) (2 ^ 32) with short | long
      · rw [Nat.mod_eq_of_lt short]
      · have large : 2 ^ 31 ≤ payload := few.resolve_left (Nat.not_lt.mpr long)
        have above : (2 ^ 32)*sectorSize ≤ file.length+padding sectorSize file.length := by
          rw [← sectorsWhole positive]
          exact Nat.mul_le_mul_right _ long
        have less := paddingLess positive file.length
        have whole : payload % sectorSize = 0 := inside.resolve_right (by omega)
        have more : payload < file.length := by omega
        have refused := neverTaken positive large word whole more writes
        rw [done] at refused
        cases refused
    · rw [closedSends ready]
      exact ⟨rfl,rfl,fun done => absurd done Bool.false_ne_true⟩

def nak (size : Nat) : Option Response := some ⟨some .nak,size⟩
def ack : Option Response := some ⟨some .ack,0⟩

instance (sectorSize payload filesize : Nat) : Decidable (Fits sectorSize payload filesize) :=
  inferInstanceAs (Decidable (_ ∧ _ ∧ _))

theorem flashedWholeNegotiated : FlashedWhole 4 8 [1,2,3,4,5,6,7,8,9,10] :=
  (@flashedWhole (nak 8) ack 4 8 [1,2,3,4,5,6,7,8,9,10] rfl).mpr (.inr (by decide))

theorem oddPayloadOverruns : fhSendCfgCmd (nak 10) ack = .payload 10 ∧
    fhFixupProgramCmd 4 25 = some 7 ∧
    (fhSendRawmodeImage 4 10 true true (fun _ n => n) (List.replicate 25 1)).done = true ∧
    (fhSendRawmodeImage 4 10 true true (fun _ n => n) (List.replicate 25 1)).overrun = true ∧
    (fhSendRawmodeImage 4 10 true true (fun _ n => n) (List.replicate 25 1)).device.length = 32 ∧
    fhFixupProgramCmd 0 25 = none := by
  decide

end MhiHost.RawImage
