import Mathlib.Algebra.Group.Nat.Defs
import MhiHost.Wire

/-! Strings in C buffers. A pointer is what lies between it and the terminator that the
program placed; the string there may end earlier, at a NUL of its own. -/
namespace MhiHost.CString
open Wire (Bytes)

def text (s : String) : Bytes := s.toList.map fun c => UInt8.ofNat c.toNat

def cstr (p : Bytes) : Bytes := p.takeWhile (· ≠ 0)

def strstr : Bytes → Bytes → Option Bytes
  | [],key => if key = [] then some [] else none
  | c::s,key => if key.isPrefixOf (c::s) then some (c::s) else if c = 0 then none else strstr s key

def holds (s key : Bytes) : Bool := (strstr s key).isSome

section Finding
variable {s key r : Bytes} {c q : UInt8}

theorem notMemCons : q ∉ c :: s ↔ q ≠ c ∧ q ∉ s := (not_congr List.mem_cons).trans not_or

theorem found (same : strstr s key = some r) : ∃ a, s = a ++ r ∧ key <+: r ∧ 0 ∉ a := by
  induction s with
  | nil =>
    rw [strstr] at same
    split at same
    · rename_i empty
      cases same
      exact ⟨[],rfl,empty ▸ List.prefix_rfl,List.not_mem_nil⟩
    · cases same
  | cons c s ih =>
    rw [strstr] at same
    split at same
    · rename_i here
      cases same
      exact ⟨[],rfl,List.isPrefixOf_iff_prefix.mp here,List.not_mem_nil⟩
    · split at same
      · cases same
      · rename_i text
        obtain ⟨a,rfl,starts,clean⟩ := ih same
        exact ⟨c :: a,rfl,starts,notMemCons.mpr ⟨Ne.symm text,clean⟩⟩

theorem foundShorter (same : strstr s key = some r) : r.length ≤ s.length := by
  obtain ⟨a,rfl,-,-⟩ := found same
  rw [List.length_append]
  exact Nat.le_add_left _ _

theorem foundHolds (same : strstr s key = some r) : key.length ≤ r.length := (found same).choose_spec.2.1.length_le

theorem foundHere (starts : key <+: c :: s) : strstr (c :: s) key = some (c :: s) := by
  rw [strstr,if_pos (List.isPrefixOf_iff_prefix.mpr starts)]

theorem passed (other : ¬key <+: c :: s) (inside : c ≠ 0) : strstr (c :: s) key = strstr s key := by
  rw [strstr,if_neg (fun starts => other (List.isPrefixOf_iff_prefix.mp starts)),if_neg inside]

theorem holdsCons (inside : c ≠ 0) : holds (c :: s) key = (key.isPrefixOf (c :: s) || holds s key) := by
  rw [holds,strstr,if_neg inside]
  cases key.isPrefixOf (c :: s) <;> rfl

theorem holdsBehind {a : Bytes} (clean : 0 ∉ a) (not : holds (a ++ s) key = false) : holds s key = false := by
  induction a with
  | nil => exact not
  | cons c a ih =>
    obtain ⟨inside,clean⟩ := notMemCons.mp clean
    rw [List.cons_append,holdsCons (Ne.symm inside),Bool.or_eq_false_iff] at not
    exact ih clean not.2

theorem holdsNone (not : strstr s key = none) : holds s key = false := by
  rw [holds,not]
  rfl

theorem unheld (not : holds s key = false) : strstr s key = none := Option.not_isSome_iff_eq_none.mp (Bool.eq_false_iff.mp not)

theorem absent (needs : c ∈ key) (lacks : c ∉ s) : strstr s key = none := by
  cases same : strstr s key with
  | none => rfl
  | some r =>
    obtain ⟨a,rfl,starts,-⟩ := found same
    exact absurd (List.mem_append_right a (starts.subset needs)) lacks

theorem acrossPrefix {b : Bytes} (lacks : q ∉ key) (s : Bytes) : key <+: s ++ q :: b ↔ key <+: s := by
  refine ⟨fun starts => ?_,fun starts => starts.trans (List.prefix_append _ _)⟩
  rcases List.prefix_or_prefix_of_prefix starts (List.prefix_append s (q :: b)) with short | ⟨t,rfl⟩
  · exact short
  · cases t with
    | nil => exact (List.append_nil s).symm ▸ List.prefix_refl s
    | cons d t =>
      obtain ⟨u,same⟩ := starts
      rw [List.append_assoc,List.append_cancel_left_eq] at same
      cases same
      exact absurd (List.mem_append_right s List.mem_cons_self) lacks

theorem across {b : Bytes} (given : key ≠ []) (lacks : q ∉ key) (apart : q ≠ 0) (clean : 0 ∉ s) :
    strstr (s ++ q :: b) key = ((strstr s key).map (· ++ q :: b)).or (strstr b key) := by
  induction s with
  | nil =>
    have other : ¬key <+: q :: b := fun starts => given (List.prefix_nil.mp ((acrossPrefix lacks []).mp starts))
    rw [List.nil_append,passed other apart,strstr,if_neg given]
    rfl
  | cons c s ih =>
    obtain ⟨inside,clean⟩ := notMemCons.mp clean
    by_cases starts : key <+: c :: s
    · have longer : key <+: c :: (s ++ q :: b) := (acrossPrefix lacks (c :: s)).mpr starts
      rw [List.cons_append,foundHere longer,foundHere starts]
      rfl
    · have other : ¬key <+: c :: (s ++ q :: b) := fun longer => starts ((acrossPrefix lacks (c :: s)).mp longer)
      rw [List.cons_append,passed other (Ne.symm inside),passed starts (Ne.symm inside),ih clean]

theorem acrossMark {k₁ k₂ b : Bytes} (apart : q ≠ 0) (before : q ∉ k₁) (lacks : q ∉ s) (clean : 0 ∉ s)
    (elsewhere : ¬(k₁ <:+ s ∧ k₂ <+: b)) : strstr (s ++ q :: b) (k₁ ++ q :: k₂) = strstr b (k₁ ++ q :: k₂) := by
  have meets : ∀ t : Bytes, q ∉ t → k₁ ++ q :: k₂ <+: t ++ q :: b → k₁ = t ∧ k₂ <+: b := by
    intro t lacks starts
    have first : k₁ <+: t ++ q :: b := (List.prefix_append _ _).trans starts
    obtain ⟨u,rfl⟩ := (acrossPrefix before t).mp first
    obtain ⟨v,same⟩ := starts
    rw [List.append_assoc,List.append_assoc,List.append_cancel_left_eq] at same
    cases u with
    | nil => exact ⟨(List.append_nil k₁).symm,v,(List.cons.inj same).2⟩
    | cons d u =>
      obtain rfl := (List.cons.inj same).1
      exact absurd (List.mem_append_right k₁ List.mem_cons_self) lacks
  induction s with
  | nil =>
    refine passed (fun starts => elsewhere ?_) apart
    obtain ⟨rfl,rest⟩ := meets [] List.not_mem_nil starts
    exact ⟨List.suffix_rfl,rest⟩
  | cons c s ih =>
    rw [List.cons_append,passed _ (Ne.symm (notMemCons.mp clean).1)]
    · refine ih (notMemCons.mp lacks).2 (notMemCons.mp clean).2 fun later => elsewhere ⟨?_,later.2⟩
      exact later.1.trans (List.suffix_cons c s)
    · intro starts
      obtain ⟨rfl,rest⟩ := meets (c :: s) lacks starts
      exact elsewhere ⟨List.suffix_rfl,rest⟩

theorem acrossHead {k a b : Bytes} (once : c ∉ k) (clean : 0 ∉ a) (not : holds a (c :: k) = false) :
    strstr (a ++ c :: b) (c :: k) = strstr (c :: b) (c :: k) := by
  induction a with
  | nil => rfl
  | cons d a ih =>
    obtain ⟨inside,clean⟩ := notMemCons.mp clean
    rw [holdsCons (Ne.symm inside),Bool.or_eq_false_iff] at not
    rw [List.cons_append,passed _ (Ne.symm inside),ih clean not.2]
    intro starts
    obtain ⟨same,rest⟩ := List.cons_prefix_cons.mp starts
    have short : k <+: a := (acrossPrefix once a).mp rest
    exact absurd (List.isPrefixOf_iff_prefix.mpr (List.cons_prefix_cons.mpr ⟨same,short⟩)) (Bool.eq_false_iff.mp not.1)

theorem passText {k a : Bytes} (once : c ∉ k) (clean : 0 ∉ a) (not : holds a (c :: k) = false)
    (stands : s = [] ∨ s.head? = some c) :
    strstr (a ++ s) (c :: k) = strstr s (c :: k) := by
  cases s with
  | nil =>
    rw [List.append_nil,unheld not]
    rfl
  | cons d b =>
    obtain rfl : d = c := by
      rcases stands with empty | same
      · cases empty
      · exact Option.some.inj same
    exact acrossHead once clean not

theorem passOver {k a : Bytes} (lacks : c ∉ a) (clean : 0 ∉ a) : strstr (a ++ s) (c :: k) = strstr s (c :: k) := by
  induction a with
  | nil => rfl
  | cons d a ih =>
    obtain ⟨inside,clean⟩ := notMemCons.mp clean
    obtain ⟨other,lacks⟩ := notMemCons.mp lacks
    rw [List.cons_append,passed (fun starts => other (List.cons_prefix_cons.mp starts).1) (Ne.symm inside),ih lacks clean]

theorem foundFirst {a : Bytes} (clean : 0 ∉ a) (starts : key <+: r) (given : key ≠ []) :
    ∃ z, strstr (a ++ r) key = some (z ++ r) ∧ z <:+ a := by
  induction a with
  | nil =>
    cases r with
    | nil => exact absurd (List.prefix_nil.mp starts) given
    | cons c r => exact ⟨[],foundHere starts,List.suffix_rfl⟩
  | cons d a ih =>
    obtain ⟨inside,clean⟩ := notMemCons.mp clean
    by_cases here : key <+: d :: (a ++ r)
    · exact ⟨d :: a,foundHere here,List.suffix_rfl⟩
    · obtain ⟨z,same,behind⟩ := ih clean
      exact ⟨z,(passed here (Ne.symm inside)).trans same,behind.trans (List.suffix_cons d a)⟩

theorem byteFirst (same : strstr s [q] = some r) : ∃ a, s = a ++ r ∧ q ∉ a ∧ 0 ∉ a := by
  induction s with
  | nil => cases same
  | cons c s ih =>
    rw [strstr] at same
    split at same
    · cases same
      exact ⟨[],rfl,List.not_mem_nil,List.not_mem_nil⟩
    · rename_i other
      split at same
      · cases same
      · rename_i inside
        obtain ⟨a,rfl,apart,clean⟩ := ih same
        refine ⟨c :: a,rfl,notMemCons.mpr ⟨fun equal => other ?_,apart⟩,notMemCons.mpr ⟨Ne.symm inside,clean⟩⟩
        rw [← equal]
        exact List.isPrefixOf_iff_prefix.mpr (List.prefix_append [q] _)

theorem foundByte {v b : Bytes} (apart : q ∉ v) (clean : 0 ∉ v) : strstr (v ++ q :: b) [q] = some (q :: b) := by
  induction v with
  | nil => exact foundHere (List.prefix_append [q] b)
  | cons c v ih =>
    obtain ⟨other,apart⟩ := notMemCons.mp apart
    obtain ⟨inside,clean⟩ := notMemCons.mp clean
    rw [List.cons_append,passed (fun starts => other (List.cons_prefix_cons.mp starts).1) (Ne.symm inside)]
    exact ih apart clean

theorem nothing (given : key ≠ []) : strstr [] key = none := if_neg given

end Finding

section Numbers

def isSpace (c : UInt8) : Bool := c = 32 || 9 ≤ c && c ≤ 13
def isDigit (c : UInt8) : Bool := 48 ≤ c && c ≤ 57

def magnitude (n : Nat) : Bytes → Nat
  | [] => n
  | c::s => if isDigit c then magnitude (10*n+(c.toNat-48)) s else n

def minus : UInt8 := 45
def plus : UInt8 := 43

/- The digits behind blanks and a sign, and whether the sign is a minus. -/
def readNumber (p : Bytes) : Bool × Nat :=
  let s := p.dropWhile isSpace
  if s.head? = some minus then (true,magnitude 0 (s.drop 1))
  else (false,magnitude 0 (if s.head? = some plus then s.drop 1 else s))

def strtol (p : Bytes) : Int :=
  let (negative,n) := readNumber p
  if negative then -((min n (2 ^ 63) : Nat) : Int) else (min n (2 ^ 63-1) : Nat)

def strtoul (p : Bytes) : Nat :=
  let (negative,n) := readNumber p
  if 2 ^ 64 ≤ n then 2 ^ 64-1 else if negative then (2 ^ 64-n) % 2 ^ 64 else n

def atoi (p : Bytes) : UInt32 := UInt32.ofInt (strtol p)

def decimal (n : Nat) : Bytes := (Nat.toDigits 10 n).map fun c => UInt8.ofNat c.toNat

def printU (n : UInt32) : Bytes := decimal n.toNat
def printD (n : UInt32) : Bytes := if n.toNat < 2 ^ 31 then decimal n.toNat else minus :: decimal (2 ^ 32-n.toNat)

theorem magnitudeAppend {s : Bytes} (all : ∀ c ∈ s, isDigit c) (n : Nat) (t : Bytes) :
    magnitude n (s ++ t) = magnitude (magnitude n s) t := by
  induction s generalizing n with
  | nil => rfl
  | cons c s ih =>
    have here : isDigit c = true := all c List.mem_cons_self
    rw [List.cons_append,magnitude,magnitude,if_pos here,if_pos here]
    exact ih (fun c later => all c (List.mem_cons_of_mem _ later)) _

theorem digitCode {d : Nat} (small : d < 10) : (UInt8.ofNat d.digitChar.toNat).toNat = 48+d := by
  rw [Nat.toNat_digitChar_of_lt_ten small,UInt8.toNat_ofNat',Nat.mod_eq_of_lt (by omega)]

theorem digitCodes {d : Nat} (small : d < 10) : isDigit (UInt8.ofNat d.digitChar.toNat) = true := by
  have code := digitCode small
  simp only [isDigit,Bool.and_eq_true,decide_eq_true_eq,UInt8.le_iff_toNat_le,code]
  exact ⟨Nat.le_add_right 48 d,show 48+d ≤ 57 by omega⟩

theorem decimalStep (n : Nat) : decimal n =
    if n < 10 then [UInt8.ofNat n.digitChar.toNat] else decimal (n / 10) ++ [UInt8.ofNat (n % 10).digitChar.toNat] := by
  rw [decimal,Nat.toDigits_eq_if (by omega)]
  split
  · rfl
  · rw [List.map_append]
    rfl

theorem decimalDigits (n : Nat) : ∀ c ∈ decimal n, isDigit c = true := by
  induction n using Nat.strongRecOn with
  | _ n ih =>
    rw [decimalStep]
    split
    · rename_i small
      exact fun c only => List.mem_singleton.mp only ▸ digitCodes small
    · intro c inside
      rcases List.mem_append.mp inside with front | last
      · exact ih (n / 10) (by omega) c front
      · exact List.mem_singleton.mp last ▸ digitCodes (Nat.mod_lt n (by omega))

theorem decimalBack (n : Nat) : magnitude 0 (decimal n) = n := by
  induction n using Nat.strongRecOn with
  | _ n ih =>
    rw [decimalStep]
    split
    · rename_i small
      rw [magnitude,if_pos (digitCodes small),digitCode small,magnitude]
      omega
    · have small : n % 10 < 10 := Nat.mod_lt n (by omega)
      rw [magnitudeAppend (decimalDigits _),ih (n / 10) (by omega),magnitude,if_pos (digitCodes small),digitCode small,magnitude]
      omega

theorem decimalStarts (n : Nat) : ∃ c s, decimal n = c :: s ∧ isDigit c = true := by
  cases same : decimal n with
  | nil => exact absurd (List.map_eq_nil_iff.mp same) Nat.toDigits_ne_nil
  | cons c s => exact ⟨c,s,rfl,decimalDigits n c (same ▸ List.mem_cons_self)⟩

theorem decimalLength {n k : Nat} (given : 0 < k) (small : n < 10 ^ k) : (decimal n).length ≤ k := by
  rw [decimal,List.length_map]
  exact (Nat.length_toDigits_le_iff (by omega) given).mpr small

theorem digitApart {c : UInt8} (digit : isDigit c = true) : isSpace c = false ∧ c ≠ minus ∧ c ≠ plus := by
  simp only [isDigit,Bool.and_eq_true,decide_eq_true_eq,UInt8.le_iff_toNat_le] at digit
  have low : 48 ≤ c.toNat := digit.1
  refine ⟨?_,?_,?_⟩
  · simp only [isSpace,Bool.or_eq_false_iff,Bool.and_eq_false_iff,decide_eq_false_iff_not,UInt8.le_iff_toNat_le,
      ← UInt8.toNat_inj]
    exact ⟨by change c.toNat ≠ 32; omega,.inr (by change ¬c.toNat ≤ 13; omega)⟩
  · rintro rfl
    exact absurd low (by decide)
  · rintro rfl
    exact absurd low (by decide)

theorem readDecimal (n : Nat) : readNumber (decimal n) = (false,n) := by
  obtain ⟨c,s,same,digit⟩ := decimalStarts n
  obtain ⟨blank,negative,positive⟩ := digitApart digit
  have whole : (decimal n).dropWhile isSpace = decimal n := by rw [same,List.dropWhile_cons,blank]; rfl
  have first : (decimal n).head? = some c := by rw [same]; rfl
  rw [readNumber,whole,first,if_neg (fun other => negative (Option.some.inj other)),
    if_neg (fun other => positive (Option.some.inj other)),decimalBack]

theorem readNegative (n : Nat) : readNumber (minus :: decimal n) = (true,n) :=
  congrArg (Prod.mk true) (decimalBack n)

theorem longDecimal {n : Nat} (small : n < 2 ^ 32) : strtol (decimal n) = n := by
  rw [strtol,readDecimal]
  exact congrArg Int.ofNat (Nat.min_eq_left (by omega))

theorem longNegative {n : Nat} (small : n ≤ 2 ^ 32) : strtol (minus :: decimal n) = -(n : Int) := by
  rw [strtol,readNegative]
  exact congrArg (fun m : Nat => -(m : Int)) (Nat.min_eq_left (by omega))

theorem ofIntNat (x : Int) : (UInt32.ofInt x).toNat = (x % (2 ^ 32 : Nat)).toNat := by
  rw [UInt32.ofInt,UInt32.toNat_ofNat']
  change (x % (2 ^ 32 : Nat)).toNat % 2 ^ 32 = _
  omega

theorem atoiPrintD (n : UInt32) : atoi (printD n) = n := by
  have small : n.toNat < 2 ^ 32 := n.toNat_lt
  apply UInt32.toNat_inj.mp
  rw [atoi,ofIntNat,printD]
  split
  · rw [longDecimal small]
    omega
  · rw [longNegative (Nat.sub_le _ _)]
    omega

theorem strtoulPrintD (n : UInt32) : UInt32.ofNat (strtoul (printD n)) = n := by
  have small : n.toNat < 2 ^ 32 := n.toNat_lt
  apply UInt32.toNat_inj.mp
  rw [UInt32.toNat_ofNat',printD]
  split
  · rw [strtoul,readDecimal]
    change (if 2 ^ 64 ≤ n.toNat then _ else n.toNat) % 2 ^ 32 = n.toNat
    rw [if_neg (by omega),Nat.mod_eq_of_lt small]
  · rw [strtoul,readNegative]
    change (if 2 ^ 64 ≤ 2 ^ 32-n.toNat then _ else (2 ^ 64-(2 ^ 32-n.toNat)) % 2 ^ 64) % 2 ^ 32 = n.toNat
    rw [if_neg (by omega)]
    omega

theorem strtoulPrintU (n : UInt32) : UInt32.ofNat (strtoul (printU n)) = n := by
  have small : n.toNat < 2 ^ 32 := n.toNat_lt
  apply UInt32.toNat_inj.mp
  rw [UInt32.toNat_ofNat',printU,strtoul,readDecimal]
  change (if 2 ^ 64 ≤ n.toNat then _ else n.toNat) % 2 ^ 32 = n.toNat
  rw [if_neg (by omega),Nat.mod_eq_of_lt small]

def Printed (v : Bytes) : Prop := (∀ c ∈ v, isDigit c = true ∨ c = minus) ∧ v.length ≤ 11

theorem decimalShort {n : Nat} (small : n < 2 ^ 32) : (decimal n).length ≤ 10 := decimalLength (by omega) (by omega)

theorem printedDecimal {n : Nat} (small : n < 2 ^ 32) : Printed (decimal n) :=
  ⟨fun c inside => .inl (decimalDigits n c inside),Nat.le_succ_of_le (decimalShort small)⟩

theorem printedD (n : UInt32) : Printed (printD n) := by
  have small : n.toNat < 2 ^ 32 := n.toNat_lt
  rw [printD]
  split
  · exact printedDecimal small
  · refine ⟨fun c inside => ?_,Nat.succ_le_succ (decimalShort (by omega))⟩
    exact (List.mem_cons.mp inside).elim .inr fun later => .inl (decimalDigits _ c later)

theorem printedU (n : UInt32) : Printed (printU n) := printedDecimal n.toNat_lt

end Numbers

section Lines

def newline : UInt8 := 10

/- One `fgets`, with room for `room` more bytes behind the first: what it puts before the
terminator, and what it leaves. -/
def fgets : Nat → Bytes → Bytes × Bytes
  | _,[] => ([],[])
  | room,c::s => if c = newline ∨ room = 0 then ([c],s) else (c :: (fgets (room-1) s).1,(fgets (room-1) s).2)

def onto (c : UInt8) : List Bytes → List Bytes
  | [] => [[c]]
  | l::ls => (c :: l) :: ls

def fgetsAll (size : Nat) : Nat → Bytes → List Bytes
  | _,[] => []
  | room,c::s => if c = newline ∨ room = 0 then [c] :: fgetsAll size (size-2) s else onto c (fgetsAll size (room-1) s)

def linesOf : Bytes → List Bytes
  | [] => []
  | c::s => if c = newline then [c] :: linesOf s else onto c (linesOf s)

end Lines

end MhiHost.CString
