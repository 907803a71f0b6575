import MhiHost.Host
import MhiHost.Rows

/-! `parse_config`: both tables of a controller configuration, read entry by entry
into the zeroed channel and event arrays, and what later code takes from them
without looking again. The answers of the two allocations are arguments. -/
namespace MhiHost

inductive ChType where
  | invalid | outbound | inbound | inboundCoalesced
  deriving DecidableEq, Repr

def ChType.ofDir : DmaDir → ChType
  | .bidirectional => .invalid
  | .toDevice => .outbound
  | .fromDevice => .inbound
  | .none => .inboundCoalesced

structure ChannelEntry extends ChannelConfig where
  type : ChType
  pollcfg : Nat
  lpmNotify : Bool
  autoStart : Bool
  deriving DecidableEq, Repr

structure EventEntry where
  numElements : Nat
  irqModerationMs : Nat
  irq : Nat
  channel : Nat
  mode : Option BrstMode
  dataType : Option ErDataType
  hardwareEvent : Bool
  clientManaged : Bool
  offloadChannel : Bool
  deriving DecidableEq, Repr

structure ControllerConfig where
  maxChannels : Nat
  timeoutMs : Nat
  bufLen : Nat
  chCfg : List ChannelEntry
  eventCfg : List EventEntry
  useBounceBuf : Bool
  m2NoDb : Bool
  deriving DecidableEq, Repr

structure ChanSlot where
  chan : Chan
  type : ChType
  pollcfg : Nat
  lpmNotify : Bool
  autoStart : Bool

def ChanSlot.zero : ChanSlot := ⟨Chan.zero,.invalid,0,false,false⟩

structure ChanTable where
  slots : Nat → ChanSlot
  lpmChans : List Nat

def ChanTable.zero : ChanTable := ⟨fun _ => ChanSlot.zero,[]⟩

/- The assignments of the loop body, over whatever the slot held: an offload entry
leaves the doorbell mode alone. -/
def fillSlot (slot : ChanSlot) (e : ChannelEntry) : ChanSlot where
  chan := {slot.chan with
    name := e.name
    chan := e.num
    treRing := {slot.chan.treRing with elements := e.numElements}
    bufRing := {slot.chan.bufRing with elements := if e.localElements = 0 then e.numElements else e.localElements}
    erIndex := e.eventRing
    dir := e.dir
    eeMask := e.eeMask
    dbCfg := {slot.chan.dbCfg with
      resetReq := e.doorbellModeSwitch
      brstmode := if e.offloadChannel then slot.chan.dbCfg.brstmode else e.doorbell.getD .disable}
    offloadCh := e.offloadChannel
    preAlloc := e.autoQueue
    configured := true}
  type := if e.type = .invalid then .ofDir e.dir else e.type
  pollcfg := e.pollcfg
  lpmNotify := e.lpmNotify
  autoStart := e.autoStart

def parseEntry (maxChan : Nat) (t : ChanTable) (e : ChannelEntry) : Option ChanTable :=
  match configureChan maxChan e.toChannelConfig with
  | none => none
  | some _ => some ⟨Function.update t.slots e.num (fillSlot (t.slots e.num) e),
      if e.lpmNotify then t.lpmChans ++ [e.num] else t.lpmChans⟩

def parseEntries (maxChan : Nat) : ChanTable → List ChannelEntry → Option ChanTable
  | t, [] => some t
  | t, e :: rest =>
    match parseEntry maxChan t e with
    | none => none
    | some t => parseEntries maxChan t rest

def parseChCfg (vzalloc : Bool) (config : ControllerConfig) : Except Errno ChanTable :=
  if !vzalloc then .error .enomem
  else
    match parseEntries config.maxChannels ChanTable.zero config.chCfg with
    | none => .error .einval
    | some t => .ok t

structure EventSlot where
  erIndex : Nat
  intmod : Nat
  irq : Nat
  chan : Nat
  mhiChan : Option Nat
  priority : Nat
  event : MhiEvent

structure EventTable where
  events : List EventSlot
  hwEvRings : Nat
  swEvRings : Nat

def parseEvent (maxChan erIndex : Nat) (e : EventEntry) : Option EventSlot :=
  if e.channel ≠ uintMax ∧ maxChan ≤ e.channel then none
  else
    match e.mode, e.dataType with
    | some mode, some dataType => some
      {erIndex := erIndex
       intmod := e.irqModerationMs
       irq := e.irq
       chan := if e.channel = uintMax then 0 else e.channel
       mhiChan := if e.channel = uintMax then none else some e.channel
       priority := 1
       event :=
        {ring := {Ring.zero with elements := e.numElements}
         mem := fun _ => ⟨0,0,0⟩
         ctxtRp := 0
         rbase := 0
         dbCfg := ⟨false,false,mode,0⟩
         dataType := dataType
         hwRing := e.hardwareEvent
         clManage := e.clientManaged
         offloadEv := e.offloadChannel}}
    | _, _ => none

def parseEvents (maxChan : Nat) : EventTable → List EventEntry → Option EventTable
  | t, [] => some t
  | t, e :: rest =>
    match parseEvent maxChan t.events.length e with
    | none => none
    | some slot => parseEvents maxChan
        ⟨t.events ++ [slot],if e.hardwareEvent then t.hwEvRings + 1 else t.hwEvRings,
          if e.hardwareEvent then t.swEvRings else t.swEvRings + 1⟩ rest

/- The count is an `int`: one past its range is a size no allocation serves. -/
def parseEvCfg (kcalloc : Bool) (config : ControllerConfig) : Except Errno EventTable :=
  if !kcalloc || decide (2 ^ 31 ≤ config.eventCfg.length) then .error .enomem
  else
    match parseEvents config.maxChannels ⟨[],0,0⟩ config.eventCfg with
    | none => .error .einval
    | some t => .ok t

structure Parsing where
  maxChan : Nat
  chans : ChanTable
  totalEvRings : Nat
  events : EventTable
  timeoutMs : Nat
  bounceBuf : Bool
  bufferLen : Nat
  dbAccess : Nat

def mhiTimeoutMs : Nat := 1000

def parseConfig (vzalloc kcalloc : Bool) (config : ControllerConfig) : Except Errno Parsing :=
  match parseChCfg vzalloc config with
  | .error e => .error e
  | .ok chans =>
    match parseEvCfg kcalloc config with
    | .error e => .error e
    | .ok events => .ok
      {maxChan := config.maxChannels
       chans := chans
       totalEvRings := config.eventCfg.length
       events := events
       timeoutMs := if config.timeoutMs = 0 then mhiTimeoutMs else config.timeoutMs
       bounceBuf := config.useBounceBuf
       bufferLen := if config.bufLen = 0 then mhiMaxMtu else config.bufLen
       dbAccess := dbAccessOf config.m2NoDb}

theorem filledFresh (e : ChannelEntry) : (fillSlot ChanSlot.zero e).chan = chanOf e.toChannelConfig := rfl

theorem entryParsed {maxChan t e out} (ok : parseEntry maxChan t e = some out) :
    configureChan maxChan e.toChannelConfig = some (chanOf e.toChannelConfig) ∧
      out.slots = Function.update t.slots e.num (fillSlot (t.slots e.num) e) := by
  unfold parseEntry at ok
  split at ok
  · cases ok
  · rename_i ch checked
    cases Option.some.inj ok
    rw [checked, (configuredChan checked).1]
    exact ⟨rfl,rfl⟩

theorem entriesParsed {maxChan t e rest out} (ok : parseEntries maxChan t (e :: rest) = some out) :
    ∃ mid, parseEntry maxChan t e = some mid ∧ parseEntries maxChan mid rest = some out := by
  unfold parseEntries at ok
  split at ok
  · cases ok
  · rename_i mid first
    exact ⟨mid,first,ok⟩

theorem entriesChecked {maxChan entries} {t out : ChanTable} (ok : parseEntries maxChan t entries = some out) :
    ∀ e ∈ entries, configureChan maxChan e.toChannelConfig = some (chanOf e.toChannelConfig) := by
  induction entries generalizing t with
  | nil => intro e member; cases member
  | cons e rest ih =>
    obtain ⟨mid,first,later⟩ := entriesParsed ok
    intro x member
    rcases List.mem_cons.mp member with rfl | further
    · exact (entryParsed first).1
    · exact ih later x further

theorem untouchedSlot {maxChan entries} {t out : ChanTable} (ok : parseEntries maxChan t entries = some out) :
    ∀ i, (∀ e ∈ entries, e.num ≠ i) → out.slots i = t.slots i := by
  induction entries generalizing t with
  | nil => intro i _; cases Option.some.inj ok; rfl
  | cons e rest ih =>
    obtain ⟨mid,first,later⟩ := entriesParsed ok
    intro i absent
    rw [ih later i fun x member => absent x (List.mem_cons_of_mem e member), (entryParsed first).2,
      Function.update_of_ne (absent e List.mem_cons_self).symm]

theorem filledSlot {maxChan entries} {t out : ChanTable} (ok : parseEntries maxChan t entries = some out)
    (distinct : (entries.map (·.num)).Nodup) : ∀ e ∈ entries, out.slots e.num = fillSlot (t.slots e.num) e := by
  induction entries generalizing t with
  | nil => intro e member; cases member
  | cons e rest ih =>
    obtain ⟨mid,first,later⟩ := entriesParsed ok
    rw [List.map_cons, List.nodup_cons] at distinct
    have apart : ∀ x ∈ rest, x.num ≠ e.num := by
      intro x member same
      exact distinct.1 (List.mem_map.mpr ⟨x,member,same⟩)
    intro x member
    rcases List.mem_cons.mp member with rfl | further
    · rw [untouchedSlot later x.num apart, (entryParsed first).2, Function.update_self]
    · rw [ih later distinct.2 x further, (entryParsed first).2, Function.update_of_ne (apart x further)]

theorem eventsParsed {maxChan entries} {t out : EventTable} (ok : parseEvents maxChan t entries = some out) :
    ∃ added, out.events = t.events ++ added ∧ List.Forall₂ (fun e s =>
      s.event.ring.elements = e.numElements ∧ s.event.offloadEv = e.offloadChannel) entries added := by
  induction entries generalizing t with
  | nil => cases Option.some.inj ok; exact ⟨[],(List.append_nil _).symm,.nil⟩
  | cons e rest ih =>
    unfold parseEvents at ok
    split at ok
    · cases ok
    · rename_i slot parsed
      obtain ⟨added,joined,each⟩ := ih ok
      refine ⟨slot :: added,by rw [joined, List.append_assoc]; rfl,.cons ?_ each⟩
      unfold parseEvent at parsed
      split at parsed
      · cases parsed
      · split at parsed
        · cases Option.some.inj parsed; exact ⟨rfl,rfl⟩
        · cases parsed

/- `mhi_write_reg_field` and `mhi_read_reg_field` on a 32-bit register; the value is
shifted in unmasked. -/
def mhiWriteRegField (reg mask shift val : Nat) : Nat := (reg &&& (2 ^ 32 - 1 - mask)) ||| ((val <<< shift) % 2 ^ 32)
def mhiReadRegField (reg mask shift : Nat) : Nat := (reg &&& mask) >>> shift

def mhicfgNerMask : Nat := 0xFF0000
def mhicfgNerShift : Nat := 16

structure Relied (config : ControllerConfig) (p : Parsing) : Prop where
  eventRings : ∀ i < p.maxChan, (p.chans.slots i).chan.configured = true →
    (p.chans.slots i).chan.erIndex < p.totalEvRings
  localRings : ∀ i < p.maxChan, (p.chans.slots i).chan.configured = true → (p.chans.slots i).chan.offloadCh = false →
    (p.chans.slots i).chan.treRing.elements ≤ (p.chans.slots i).chan.bufRing.elements
  chanAligned : ∀ i < p.maxChan, (p.chans.slots i).chan.configured = true → (p.chans.slots i).chan.offloadCh = false →
    (p.chans.slots i).chan.treRing.elements.isPowerOfTwo
  eventAligned : ∀ s ∈ p.events.events, s.event.offloadEv = false → s.event.ring.elements.isPowerOfTwo
  ner : ∀ reg, mhiReadRegField (mhiWriteRegField reg mhicfgNerMask mhicfgNerShift p.totalEvRings) mhicfgNerMask
    mhicfgNerShift = p.totalEvRings
  distinct : (config.chCfg.map (·.num)).Nodup

structure Consistent (config : ControllerConfig) : Prop where
  eventRings : ∀ e ∈ config.chCfg, e.eventRing < config.eventCfg.length
  localRings : ∀ e ∈ config.chCfg, e.offloadChannel = false → e.localElements = 0 ∨ e.numElements ≤ e.localElements
  chanAligned : ∀ e ∈ config.chCfg, e.offloadChannel = false → e.numElements &&& (e.numElements - 1) = 0
  eventAligned : ∀ e ∈ config.eventCfg, e.offloadChannel = false →
    e.numElements ≠ 0 ∧ e.numElements &&& (e.numElements - 1) = 0
  ner : config.eventCfg.length < 256
  distinct : (config.chCfg.map (·.num)).Nodup

theorem nerReadBack (reg val : Nat) :
    mhiReadRegField (mhiWriteRegField reg mhicfgNerMask mhicfgNerShift val) mhicfgNerMask mhicfgNerShift = val % 256 := by
  have apart : (2 ^ 32 - 1 - mhicfgNerMask) &&& mhicfgNerMask = 0 := by decide
  have low : mhicfgNerMask >>> 16 = 2 ^ 8 - 1 := by decide
  have shifted : (val <<< 16) % 2 ^ 32 / 2 ^ 16 = val % 2 ^ 16 := by
    rw [Nat.shiftLeft_eq, show (2:Nat) ^ 32 = 2 ^ 16 * 2 ^ 16 from rfl, Nat.mul_mod_mul_right]
    exact Nat.mul_div_cancel _ (by decide)
  unfold mhiReadRegField mhiWriteRegField mhicfgNerShift
  rw [Nat.and_or_distrib_right, Nat.and_assoc, apart, Nat.and_zero, Nat.zero_or, Nat.shiftRight_and_distrib, low,
    Nat.and_two_pow_sub_one_eq_mod, Nat.shiftRight_eq_div_pow, shifted]
  exact Nat.mod_mod_of_dvd val (by decide)

theorem nerFits (val : Nat) : (∀ reg, mhiReadRegField (mhiWriteRegField reg mhicfgNerMask mhicfgNerShift val)
    mhicfgNerMask mhicfgNerShift = val) ↔ val < 256 := by
  constructor
  · intro kept
    have same := kept 0
    rw [nerReadBack] at same
    omega
  · intro small reg
    rw [nerReadBack, Nat.mod_eq_of_lt small]

structure Accepted (config : ControllerConfig) (p : Parsing) : Prop where
  chans : parseEntries config.maxChannels ChanTable.zero config.chCfg = some p.chans
  events : parseEvents config.maxChannels ⟨[],0,0⟩ config.eventCfg = some p.events
  maxChan : p.maxChan = config.maxChannels
  total : p.totalEvRings = config.eventCfg.length

theorem configAccepted {vzalloc kcalloc config p} (ok : parseConfig vzalloc kcalloc config = .ok p) :
    Accepted config p := by
  unfold parseConfig at ok
  split at ok <;> try contradiction
  rename_i chans parsedChans
  split at ok <;> try contradiction
  rename_i events parsedEvents
  cases ok
  refine ⟨?_,?_,rfl,rfl⟩
  · unfold parseChCfg at parsedChans
    split at parsedChans <;> try contradiction
    split at parsedChans <;> try contradiction
    rename_i found
    cases parsedChans
    exact found
  · unfold parseEvCfg at parsedEvents
    split at parsedEvents <;> try contradiction
    split at parsedEvents <;> try contradiction
    rename_i found
    cases parsedEvents
    exact found

theorem checkedEntry {maxChan : Nat} {cfg : ChannelConfig} {ch : Chan} (ok : configureChan maxChan cfg = some ch) :
    cfg.num < maxChan ∧ cfg.numElements ≠ 0 := by
  unfold configureChan at ok
  split at ok <;> try contradiction
  split at ok <;> try contradiction
  omega

theorem slotsAreEntries {config p} (accepted : Accepted config p) (distinct : (config.chCfg.map (·.num)).Nodup)
    (property : Chan → Prop) :
    (∀ i < p.maxChan, (p.chans.slots i).chan.configured = true → property (p.chans.slots i).chan) ↔
      ∀ e ∈ config.chCfg, property (chanOf e.toChannelConfig) := by
  have held : ∀ e ∈ config.chCfg, (p.chans.slots e.num).chan = chanOf e.toChannelConfig := by
    intro e member
    rw [filledSlot accepted.chans distinct e member]
    exact filledFresh e
  constructor
  · intro every e member
    have checked := checkedEntry (entriesChecked accepted.chans e member)
    rw [← held e member]
    refine every e.num (by rw [accepted.maxChan]; exact checked.1) ?_
    rw [held e member]
    rfl
  · intro every i _ configured
    rcases Classical.em (∃ e ∈ config.chCfg, e.num = i) with ⟨e,member,rfl⟩ | none
    · rw [held e member]
      exact every e member
    · rw [untouchedSlot accepted.chans i fun e member same => none ⟨e,member,same⟩] at configured
      cases configured

theorem chansFit (e : ChannelEntry) :
    (chanOf e.toChannelConfig).treRing.elements ≤ (chanOf e.toChannelConfig).bufRing.elements ↔
      e.localElements = 0 ∨ e.numElements ≤ e.localElements := by
  show e.numElements ≤ (if e.localElements = 0 then e.numElements else e.localElements) ↔ _
  split
  · rename_i unset
    exact ⟨fun _ => .inl unset,fun _ => Nat.le_refl _⟩
  · rename_i given
    exact ⟨.inr,fun fits => fits.resolve_left given⟩

theorem eventsAligned {config p} (accepted : Accepted config p) :
    (∀ s ∈ p.events.events, s.event.offloadEv = false → s.event.ring.elements.isPowerOfTwo) ↔
      ∀ e ∈ config.eventCfg, e.offloadChannel = false → e.numElements.isPowerOfTwo := by
  obtain ⟨added,joined,each⟩ := eventsParsed accepted.events
  rw [joined, List.nil_append]
  refine (Rows.forallIff each ?_).symm
  intro e s same
  rw [same.1, same.2]

theorem acceptedSound {vzalloc kcalloc config p} (ok : parseConfig vzalloc kcalloc config = .ok p) :
    Relied config p ↔ Consistent config := by
  have accepted := configAccepted ok
  have nonzero : ∀ e ∈ config.chCfg, e.numElements ≠ 0 :=
    fun e member => (checkedEntry (entriesChecked accepted.chans e member)).2
  constructor
  · intro relied
    have slots := slotsAreEntries accepted relied.distinct
    have rings := (slots fun ch => ch.erIndex < p.totalEvRings).mp relied.eventRings
    have locals := (slots fun ch => ch.offloadCh = false → ch.treRing.elements ≤ ch.bufRing.elements).mp relied.localRings
    have aligned := (slots fun ch => ch.offloadCh = false → ch.treRing.elements.isPowerOfTwo).mp relied.chanAligned
    refine ⟨fun e member => ?_,fun e member own => (chansFit e).mp (locals e member own),fun e member own => ?_,
      fun e member own => ?_,?_,relied.distinct⟩
    · rw [← accepted.total]
      exact rings e member
    · exact (Nat.and_sub_one_eq_zero_iff_isPowerOfTwo (nonzero e member)).mpr (aligned e member own)
    · exact Nat.ne_zero_and_sub_one_eq_zero_iff_isPowerOfTwo.mpr ((eventsAligned accepted).mp relied.eventAligned e member own)
    · rw [← accepted.total]
      exact (nerFits _).mp relied.ner
  · intro consistent
    have slots := slotsAreEntries accepted consistent.distinct
    refine ⟨(slots fun ch => ch.erIndex < p.totalEvRings).mpr ?_,
      (slots fun ch => ch.offloadCh = false → ch.treRing.elements ≤ ch.bufRing.elements).mpr ?_,
      (slots fun ch => ch.offloadCh = false → ch.treRing.elements.isPowerOfTwo).mpr ?_,(eventsAligned accepted).mpr ?_,?_,
      consistent.distinct⟩
    · rw [accepted.total]
      exact consistent.eventRings
    · exact fun e member own => (chansFit e).mpr (consistent.localRings e member own)
    · exact fun e member own =>
        (Nat.and_sub_one_eq_zero_iff_isPowerOfTwo (nonzero e member)).mp (consistent.chanAligned e member own)
    · exact fun e member own => Nat.ne_zero_and_sub_one_eq_zero_iff_isPowerOfTwo.mp (consistent.eventAligned e member own)
    · rw [accepted.total]
      exact (nerFits _).mpr consistent.ner

namespace Sample

def upEntry (eventRing : Nat) : ChannelEntry :=
  ⟨⟨"DIAG",4,64,0,eventRing,.toDevice,ExecEnv.amss.bit,some .disable,false,false,false⟩,.invalid,0,false,false⟩
def controlEvent : EventEntry := ⟨32,0,1,uintMax,some .disable,some .ctrl,false,false,false⟩
def controllerConfig (eventRing : Nat) : ControllerConfig := ⟨128,0,0,[upEntry eventRing],[controlEvent],false,false⟩

end Sample

theorem sampleConfigSound : ∃ p, parseConfig true true (Sample.controllerConfig 0) = .ok p ∧
    Consistent (Sample.controllerConfig 0) ∧ Relied (Sample.controllerConfig 0) p := by
  have consistent : Consistent (Sample.controllerConfig 0) :=
    ⟨by decide,by decide,by decide,by decide,by decide,by decide⟩
  exact ⟨_,rfl,consistent,(@acceptedSound true true _ _ rfl).mpr consistent⟩

theorem ringPastTableAccepted : ∃ p, parseConfig true true (Sample.controllerConfig 5) = .ok p ∧
    ¬Relied (Sample.controllerConfig 5) p := by
  refine ⟨_,rfl,fun relied => ?_⟩
  have below := relied.eventRings 4 (by decide) rfl
  exact absurd below (by decide)

end MhiHost
