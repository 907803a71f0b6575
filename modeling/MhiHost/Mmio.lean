import MhiHost.BootSession
import MhiHost.Host

/-! The registers that `mhi_init_mmio` programs, as the device finds them afterwards. Each is
read first and then written back with its field put in; one that cannot be read is passed
over, and the call succeeds all the same. -/
namespace MhiHost.Mmio
open BootSession

structure RegInfo where
  offset : Nat
  mask : Nat
  shift : Nat
  val : Nat

structure Contexts where
  chanCtxtAddr : Nat
  erCtxtAddr : Nat
  cmdCtxtAddr : Nat
  totalEvRings : Nat
  hwEvRings : Nat
  ctrlSegAddr : Nat
  ctrlSegLen : Nat
  iovaStart : Nat
  iovaStop : Nat

def mhicfg : Nat := 0x10
def mhicfgNhwerMask : Nat := 0xff000000
def mhicfgNhwerShift : Nat := 24
def mhicfgNerMask : Nat := 0xff0000
def mhicfgNerShift : Nat := 16
def chdboff : Nat := 0x18
def erdboff : Nat := 0x20
def ccabapLower : Nat := 0x58
def ccabapHigher : Nat := 0x5c
def ecabapLower : Nat := 0x60
def ecabapHigher : Nat := 0x64
def crcbapLower : Nat := 0x68
def crcbapHigher : Nat := 0x6c
def mhictrlbaseLower : Nat := 0x80
def mhictrlbaseHigher : Nat := 0x84
def mhictrllimitLower : Nat := 0x88
def mhictrllimitHigher : Nat := 0x8c
def mhidatabaseLower : Nat := 0x98
def mhidatabaseHigher : Nat := 0x9c
def mhidatalimitLower : Nat := 0xa0
def mhidatalimitHigher : Nat := 0xa4
def u32Max : Nat := 0xffffffff

def pair (higher lower addr : Nat) : List RegInfo := [⟨higher,u32Max,0,upper32Bits addr⟩,⟨lower,u32Max,0,lower32Bits addr⟩]

def regInfo (c : Contexts) : List RegInfo :=
  pair ccabapHigher ccabapLower c.chanCtxtAddr ++ pair ecabapHigher ecabapLower c.erCtxtAddr ++
    pair crcbapHigher crcbapLower c.cmdCtxtAddr ++
    [⟨mhicfg,mhicfgNerMask,mhicfgNerShift,c.totalEvRings⟩,⟨mhicfg,mhicfgNhwerMask,mhicfgNhwerShift,c.hwEvRings⟩] ++
    pair mhictrlbaseHigher mhictrlbaseLower c.ctrlSegAddr ++ pair mhidatabaseHigher mhidatabaseLower c.iovaStart ++
    pair mhictrllimitHigher mhictrllimitLower (c.ctrlSegAddr+c.ctrlSegLen) ++ pair mhidatalimitHigher mhidatalimitLower c.iovaStop

def put (f : RegInfo) : Boot Unit := writeRegField .mhi f.offset f.mask f.shift f.val

def mhiInitMmio (c : Contexts) : Boot (Option (Nat × Nat)) := .ask (.read .mhi chdboff) fun
  | .error _ => .pure none
  | .ok chdb =>
    (writeReg .mhi (chdb+8*mhiDevWakeDb+4) 0).bind fun _ => (writeReg .mhi (chdb+8*mhiDevWakeDb) 0).bind fun _ =>
      .ask (.read .mhi erdboff) fun
        | .error _ => .pure none
        | .ok erdb => (Talk.each put (regInfo c)).bind fun _ => .pure (some (chdb,erdb))

abbrev Regs := Nat → Nat

/- The registers after a step; a device answers with what they hold. -/
def heard (reg : Regs) : Access → Regs
  | ⟨.write .mhi o val,_⟩ => Function.update reg o val
  | _ => reg
def after (reg : Regs) (es : List Access) : Regs := es.foldl heard reg

def Tells (reg : Regs) : List Access → Prop
  | [] => True
  | step :: es => (∀ o v, step = ⟨.read .mhi o,.ok v⟩ → v = reg o) ∧ Tells (heard reg step) es

def Unread (o : Nat) (es : List Access) : Prop := ∃ err, ⟨.read .mhi o,.error err⟩ ∈ es
def Read (o : Nat) (es : List Access) : Prop := ∃ v, ⟨.read .mhi o,.ok v⟩ ∈ es

section Tells
variable {reg : Regs} {x y : List Access}

theorem afterAppend : after reg (x ++ y) = after (after reg x) y := List.foldl_append

theorem tellsAppend : Tells reg (x ++ y) ↔ Tells reg x ∧ Tells (after reg x) y := by
  induction x generalizing reg with
  | nil => simp [Tells,after]
  | cons step x ih =>
    simp only [List.cons_append,Tells,ih,and_assoc]
    rfl

end Tells

structure RegInfo.Fits (f : RegInfo) (width : Nat) : Prop where
  spans : BitField.Spans f.mask f.shift width
  val : f.val < 2^width

def Proper (f : RegInfo) : Prop := ∃ width, f.Fits width

def Aside (f g : RegInfo) : Prop := f.offset ≠ g.offset ∨ f.mask &&& g.mask = 0

section Put
variable {reg : Regs} {es : List Access} {f g : RegInfo}

theorem putRan {u : Unit} (ran : (put f).Leaves es (.went u)) (proper : Proper f) (tells : Tells reg es) :
    Unread f.offset es ∧ after reg es = reg ∨
      Read f.offset es ∧ after reg es = Function.update reg f.offset (BitField.insert (reg f.offset) f.mask f.shift f.val) := by
  obtain ⟨r,_,rfl,wrote⟩ := ran
  cases r with
  | error err =>
    obtain ⟨rfl,-⟩ := wrote
    exact .inl ⟨⟨err,List.mem_cons_self⟩,rfl⟩
  | ok tmp =>
    cases writeWent.mp wrote
    obtain ⟨width,spans,fits⟩ := proper
    cases tells.1 f.offset tmp rfl
    refine .inr ⟨⟨_,List.mem_cons_self⟩,?_⟩
    have word : BitField.insert (reg f.offset) f.mask f.shift f.val % 2^32 =
        BitField.insert (reg f.offset) f.mask f.shift f.val :=
      Nat.mod_eq_of_lt (BitField.insertWord spans fits)
    simp only [after,List.foldl_cons,List.foldl_nil,heard,word]

def Bits (reg : Regs) (f : RegInfo) : Nat := BitField.extract (reg f.offset) f.mask f.shift

theorem putSets {u : Unit} (ran : (put f).Leaves es (.went u)) (proper : Proper f) (tells : Tells reg es)
    (read : ¬Unread f.offset es) :
    Bits (after reg es) f = f.val := by
  rcases putRan ran proper tells with ⟨unread,-⟩ | ⟨-,put⟩
  · exact absurd unread read
  · obtain ⟨width,spans,fits⟩ := proper
    rw [Bits,put,Function.update_self]
    exact BitField.extractInsert spans fits

theorem putKeeps {u : Unit} (word : g.mask < 2^32) (ran : (put f).Leaves es (.went u)) (proper : Proper f) (tells : Tells reg es)
    (aside : Aside f g) : Bits (after reg es) g = Bits reg g := by
  rcases putRan ran proper tells with ⟨-,same⟩ | ⟨-,put⟩
  · rw [same]
  · obtain ⟨width,spans,fits⟩ := proper
    rw [Bits,Bits,put]
    by_cases here : g.offset = f.offset
    · rw [here,Function.update_self]
      exact BitField.extractBeside spans fits word (aside.resolve_left fun other => other here.symm)
    · rw [Function.update_of_ne here]

end Put

section Program
variable {reg : Regs} {es : List Access} {l : List RegInfo}

theorem programKeeps {g : RegInfo} (word : g.mask < 2^32) (proper : ∀ f ∈ l, Proper f) (aside : ∀ f ∈ l, Aside f g)
    (tells : Tells reg es)
    (ran : (Talk.each put l).Leaves es (.went ())) : Bits (after reg es) g = Bits reg g := by
  induction l generalizing reg es with
  | nil =>
    obtain ⟨rfl,-⟩ := ran
    rfl
  | cons f l ih =>
    obtain ⟨u,x,y,rfl,first,later⟩ := Talk.bindWent.mp ran
    obtain ⟨before,behind⟩ := tellsAppend.mp tells
    rw [List.forall_mem_cons] at proper aside
    rw [afterAppend,ih proper.2 aside.2 behind later]
    exact putKeeps word first proper.1 before aside.1

theorem programSets (words : ∀ f ∈ l, f.mask < 2^32) (proper : ∀ f ∈ l, Proper f) (aside : l.Pairwise Aside)
    (tells : Tells reg es)
    (ran : (Talk.each put l).Leaves es (.went ())) : ∀ f ∈ l, ¬Unread f.offset es → Bits (after reg es) f = f.val := by
  induction l generalizing reg es with
  | nil => exact nofun
  | cons f l ih =>
    obtain ⟨u,x,y,rfl,first,later⟩ := Talk.bindWent.mp ran
    obtain ⟨before,behind⟩ := tellsAppend.mp tells
    obtain ⟨ahead,others⟩ := List.pairwise_cons.mp aside
    rw [List.forall_mem_cons] at words proper
    rw [List.forall_mem_cons]
    have parts (o : Nat) (read : ¬Unread o (x ++ y)) : ¬Unread o x ∧ ¬Unread o y := by
      refine ⟨fun unread => read ?_,fun unread => read ?_⟩
      · exact unread.imp fun err inside => List.mem_append_left _ inside
      · exact unread.imp fun err inside => List.mem_append_right _ inside
    rw [afterAppend]
    refine ⟨fun read => ?_,fun g inside read => ih words.2 proper.2 others behind later g inside (parts _ read).2⟩
    have symm : ∀ g ∈ l, Aside g f := fun g inside => (ahead g inside).imp Ne.symm ((Nat.land_comm _ _).trans ·)
    rw [programKeeps words.1 proper.2 symm behind later]
    exact putSets first proper.1 before (parts _ read).1

theorem programElse {o : Nat} (proper : ∀ f ∈ l, Proper f) (other : (∀ f ∈ l, f.offset ≠ o) ∨ ¬Read o es) (tells : Tells reg es)
    (ran : (Talk.each put l).Leaves es (.went ())) : after reg es o = reg o := by
  induction l generalizing reg es with
  | nil =>
    obtain ⟨rfl,-⟩ := ran
    rfl
  | cons f l ih =>
    obtain ⟨u,x,y,rfl,first,later⟩ := Talk.bindWent.mp ran
    obtain ⟨before,behind⟩ := tellsAppend.mp tells
    rw [List.forall_mem_cons] at proper other
    have parts : (f.offset ≠ o ∨ ¬Read o x) ∧ ((∀ f ∈ l, f.offset ≠ o) ∨ ¬Read o y) := by
      rcases other with named | unread
      · exact ⟨.inl named.1,.inl named.2⟩
      · refine ⟨.inr fun read => unread ?_,.inr fun read => unread ?_⟩
        · exact read.imp fun v inside => List.mem_append_left _ inside
        · exact read.imp fun v inside => List.mem_append_right _ inside
    rw [afterAppend,ih proper.2 parts.2 behind later]
    rcases putRan first proper.1 before with ⟨-,same⟩ | ⟨read,put⟩
    · rw [same]
    · rw [put]
      rcases parts.1 with elsewhere | unread
      · exact Function.update_of_ne (Ne.symm elsewhere) _ _
      · refine Function.update_of_ne (fun same => unread ?_) _ _
        rw [same]
        exact read

end Program

structure Contexts.Fits (c : Contexts) : Prop where
  chan : c.chanCtxtAddr < 2^64
  er : c.erCtxtAddr < 2^64
  cmd : c.cmdCtxtAddr < 2^64
  ctrl : c.ctrlSegAddr+c.ctrlSegLen < 2^64
  start : c.iovaStart < 2^64
  stop : c.iovaStop < 2^64
  total : c.totalEvRings < 2^8
  hw : c.hwEvRings < 2^8

def Contexts.pairs (c : Contexts) : List (Nat × Nat × Nat) := [(ccabapHigher,ccabapLower,c.chanCtxtAddr),
  (ecabapHigher,ecabapLower,c.erCtxtAddr),(crcbapHigher,crcbapLower,c.cmdCtxtAddr),(mhictrlbaseHigher,mhictrlbaseLower,c.ctrlSegAddr),
  (mhidatabaseHigher,mhidatabaseLower,c.iovaStart),(mhictrllimitHigher,mhictrllimitLower,c.ctrlSegAddr+c.ctrlSegLen),
  (mhidatalimitHigher,mhidatalimitLower,c.iovaStop)]

def address (reg : Regs) (higher lower : Nat) : Nat := reg higher % 2^32*2^32+reg lower % 2^32

theorem properInfo {c : Contexts} (fits : c.Fits) : ∀ f ∈ regInfo c, Proper f := by
  have whole (o : Nat) (v : Nat) (word : v < 2^32) : Proper ⟨o,u32Max,0,v⟩ := ⟨32,⟨rfl,Nat.le_refl 32⟩,word⟩
  have high {a : Nat} (long : a < 2^64) : upper32Bits a < 2^32 := by
    unfold upper32Bits
    omega
  have low (a : Nat) : lower32Bits a < 2^32 := Nat.mod_lt _ (by decide)
  have both (h o : Nat) {a : Nat} (long : a < 2^64) : ∀ f ∈ pair h o a, Proper f := by
    simp only [pair,List.forall_mem_cons]
    exact ⟨whole _ _ (high long),whole _ _ (low a),nofun⟩
  simp only [regInfo,List.forall_mem_append,List.forall_mem_cons]
  exact ⟨⟨⟨⟨⟨⟨⟨both _ _ fits.chan,both _ _ fits.er⟩,both _ _ fits.cmd⟩,⟨8,⟨rfl,by simp [mhicfgNerShift]⟩,fits.total⟩,
    ⟨8,⟨rfl,by simp [mhicfgNhwerShift]⟩,fits.hw⟩,nofun⟩,both _ _ (by have := fits.ctrl; omega)⟩,both _ _ fits.start⟩,
    both _ _ fits.ctrl⟩,both _ _ fits.stop⟩

theorem asideInfo (c : Contexts) : (regInfo c).Pairwise Aside := by
  simp [regInfo,pair,Aside,mhicfg,mhicfgNerMask,mhicfgNhwerMask,ccabapHigher,ccabapLower,ecabapHigher,ecabapLower,
    crcbapHigher,crcbapLower,
    mhictrlbaseHigher,mhictrlbaseLower,mhidatabaseHigher,mhidatabaseLower,mhictrllimitHigher,mhictrllimitLower,mhidatalimitHigher,
    mhidatalimitLower]

/- The registers when the contexts are told: each address where both of its registers could be
read, the numbers of rings in their fields, and all else as it was but for the wake doorbell. -/
structure Programmed (c : Contexts) (chdb : Nat) (reg : Regs) (es : List Access) (reg' : Regs) : Prop where
  addresses : ∀ p ∈ c.pairs, ¬Unread p.1 es → ¬Unread p.2.1 es → address reg' p.1 p.2.1 = p.2.2
  rings : ¬Unread mhicfg es → BitField.extract (reg' mhicfg) mhicfgNerMask mhicfgNerShift = c.totalEvRings ∧
    BitField.extract (reg' mhicfg) mhicfgNhwerMask mhicfgNhwerShift = c.hwEvRings
  channels : BitField.extract (reg' mhicfg) 0xffff 0 = BitField.extract (reg mhicfg) 0xffff 0
  still : ∀ o, o ≠ chdb+8*mhiDevWakeDb → o ≠ chdb+8*mhiDevWakeDb+4 → ((∀ f ∈ regInfo c, f.offset ≠ o) ∨ ¬Read o es) →
    reg' o = reg o

theorem pairInfo {c : Contexts} {p : Nat × Nat × Nat} (inside : p ∈ c.pairs) : ∀ f ∈ pair p.1 p.2.1 p.2.2, f ∈ regInfo c := by
  simp only [Contexts.pairs,List.mem_cons,List.not_mem_nil,or_false] at inside
  rcases inside with rfl | rfl | rfl | rfl | rfl | rfl | rfl <;> (intro f member; simp [regInfo,member])

theorem wordBits (v : Nat) : BitField.extract v u32Max 0 = v % 2^32 := Nat.and_two_pow_sub_one_eq_mod v 32

theorem wordMasks {c : Contexts} : ∀ f ∈ regInfo c, f.mask < 2^32 := by
  simp [regInfo,pair,u32Max,mhicfgNerMask,mhicfgNhwerMask]

theorem mmioProgrammed {c : Contexts} {reg : Regs} {es : List Access} {chdb erdb : Nat} (fits : c.Fits) (tells : Tells reg es)
    (ran : (mhiInitMmio c).Leaves es (.went (some (chdb,erdb)))) : Programmed c chdb reg es (after reg es) := by
  obtain ⟨r,_,rfl,ran⟩ := ran
  cases r with
  | error err => simp at ran
  | ok chdb' =>
    simp only [Talk.bindWent,writeWent] at ran
    obtain ⟨_,_,_,rfl,rfl,_,_,_,rfl,rfl,r,rest,rfl,ran⟩ := ran
    cases r with
    | error err => simp at ran
    | ok erdb' =>
      obtain ⟨u,x,_,rfl,programs,rfl,same⟩ := Talk.bindWent.mp ran
      cases same
      rw [List.append_nil] at tells ⊢
      let woken := Function.update (Function.update reg (chdb+8*mhiDevWakeDb+4) 0) (chdb+8*mhiDevWakeDb) 0
      have told : Tells woken x := tells.2.2.2.2
      have apart {o : Nat} (first : o ≠ chdb+8*mhiDevWakeDb) (second : o ≠ chdb+8*mhiDevWakeDb+4) : woken o = reg o := by
        rw [show woken o = _ from Function.update_of_ne first _ _,Function.update_of_ne second]
      have outer {o : Nat} {a : Except Errno Nat} (inside : ⟨.read .mhi o,a⟩ ∈ x) : ⟨.read .mhi o,a⟩ ∈
          (⟨.read .mhi chdboff,.ok chdb⟩ :: ([⟨.write .mhi (chdb+8*mhiDevWakeDb+4) (0 % 2^32),()⟩] ++
            ([⟨.write .mhi (chdb+8*mhiDevWakeDb) (0 % 2^32),()⟩] ++ ⟨.read .mhi erdboff,.ok erdb⟩ :: x)) : List Access) := by
        simp [inside]
      have sets := programSets wordMasks (properInfo fits) (asideInfo c) told programs
      have final (o : Nat) : ¬Unread o _ → ¬Unread o x := fun read unread => read (unread.imp fun err inside => outer inside)
      refine ⟨fun p inside high low => ?_,fun read => ?_,?_,fun o first second other => ?_⟩
      · have both := pairInfo inside
        simp only [pair,List.forall_mem_cons] at both
        have upper := sets _ both.1 (final _ high)
        have lower := sets _ both.2.1 (final _ low)
        simp only [Bits,wordBits] at upper lower
        show address (after woken x) p.1 p.2.1 = p.2.2
        rw [address,upper,lower]
        unfold upper32Bits lower32Bits
        omega
      · exact ⟨sets ⟨mhicfg,mhicfgNerMask,mhicfgNerShift,c.totalEvRings⟩ (by simp [regInfo]) (final _ read),
          sets ⟨mhicfg,mhicfgNhwerMask,mhicfgNhwerShift,c.hwEvRings⟩ (by simp [regInfo]) (final _ read)⟩
      · have beside : ∀ f ∈ regInfo c, Aside f ⟨mhicfg,0xffff,0,0⟩ := by
          simp [regInfo,pair,Aside,mhicfg,mhicfgNerMask,mhicfgNhwerMask,ccabapHigher,ccabapLower,ecabapHigher,ecabapLower,
            crcbapHigher,
            crcbapLower,mhictrlbaseHigher,mhictrlbaseLower,mhidatabaseHigher,mhidatabaseLower,mhictrllimitHigher,mhictrllimitLower,
            mhidatalimitHigher,mhidatalimitLower]
        have kept := programKeeps (by decide) (properInfo fits) beside told programs
        simp only [Bits] at kept
        rw [apart (by unfold mhicfg mhiDevWakeDb; omega) (by unfold mhicfg mhiDevWakeDb; omega)] at kept
        exact kept
      · have named : (∀ f ∈ regInfo c, f.offset ≠ o) ∨ ¬Read o x := other.imp_right fun unread read =>
          unread (read.imp fun v inside => outer inside)
        exact (programElse (properInfo fits) named told programs).trans (apart first second)

namespace Sample

def contexts : Contexts := ⟨0x100000000,0x2000,0x3000,3,2,0x1000,0x4000,0,0xffffffff⟩
def blank : Regs := fun o => if o = mhicfg then 0x80 else 0

def answered (reg : Regs) : List RegInfo → List Access
  | [] => []
  | f::l =>
    if f.offset = ecabapLower then ⟨.read .mhi f.offset,.error .eio⟩ :: answered reg l
    else
      let v := BitField.insert (reg f.offset) f.mask f.shift f.val
      ⟨.read .mhi f.offset,.ok (reg f.offset)⟩ :: ⟨.write .mhi f.offset v,()⟩ :: answered (Function.update reg f.offset v) l

theorem answeredTells (reg : Regs) (l : List RegInfo) : Tells reg (answered reg l) := by
  induction l generalizing reg with
  | nil => trivial
  | cons f l ih =>
    unfold answered
    split
    · exact ⟨nofun,ih reg⟩
    · refine ⟨fun o v same => ?_,nofun,ih _⟩
      cases same
      rfl

def session : List Access := [⟨.read .mhi chdboff,.ok 0⟩,⟨.write .mhi 1020 0,()⟩,⟨.write .mhi 1016 0,()⟩,⟨.read .mhi erdboff,.ok 0⟩] ++
  answered blank (regInfo contexts)

theorem sessionTells : Tells blank session := by
  have still : Function.update (Function.update blank 1020 0) 1016 0 = blank := by
    funext o
    by_cases first : o = 1016
    · simp [first,blank,mhicfg]
    · by_cases second : o = 1020 <;> simp [first,second,blank,mhicfg]
  have later : Tells (Function.update (Function.update blank 1020 0) 1016 0) (answered blank (regInfo contexts)) := by
    rw [still]
    exact answeredTells blank _
  refine ⟨fun o v same => ?_,nofun,nofun,fun o v same => ?_,later⟩
  · cases same
    rfl
  · cases same
    rfl

theorem mmioProgrammedSample : Programmed contexts 0 blank session (after blank session) :=
  @mmioProgrammed _ _ _ 0 0 ⟨by decide,by decide,by decide,by decide,by decide,by decide,by decide,by decide⟩ sessionTells
    (Talk.followLeaves (by decide +kernel))

end Sample

end MhiHost.Mmio
