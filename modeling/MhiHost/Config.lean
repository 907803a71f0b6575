import MhiHost.Channel

/-! Channel configuration: the loop body of `parse_ch_cfg` and the ring that the
context allocation then gives the channel. The channel array comes zeroed. -/
namespace MhiHost
open Cyclic (Window)

structure ChannelConfig where
  name : String
  num : Nat
  numElements : Nat
  localElements : Nat
  eventRing : Nat
  dir : DmaDir
  eeMask : Nat
  doorbell : Option BrstMode
  offloadChannel : Bool
  doorbellModeSwitch : Bool
  autoQueue : Bool
  deriving DecidableEq, Repr

def Ring.zero : Ring := ⟨0,0,0,0,0,0,0,0,0⟩

def Chan.zero : Chan where
  name := ""
  chan := 0
  bufRing := Ring.zero
  treRing := Ring.zero
  bufMem := fun _ => BufInfo.zero
  treMem := fun _ => ⟨0,0,0⟩
  erIndex := 0
  intmod := 0
  dir := .bidirectional
  dbCfg := ⟨false,false,.disable,0⟩
  eeMask := 0
  chState := .disabled
  ccs := EvCc.invalid
  completion := 0
  mhiDev := none
  configured := false
  offloadCh := false
  preAlloc := false
  xferLog := []
  accepted := []
  freed := []

/- An offload channel keeps whatever doorbell mode it had, which is the
burst-disabled one. -/
def chanOf (cfg : ChannelConfig) : Chan :=
  {Chan.zero with
    name := cfg.name
    chan := cfg.num
    treRing := {Ring.zero with elements := cfg.numElements}
    bufRing := {Ring.zero with elements := if cfg.localElements = 0 then cfg.numElements else cfg.localElements}
    erIndex := cfg.eventRing
    dir := cfg.dir
    eeMask := cfg.eeMask
    dbCfg := {Chan.zero.dbCfg with
      resetReq := cfg.doorbellModeSwitch
      brstmode := if cfg.offloadChannel then .disable else cfg.doorbell.getD .disable}
    offloadCh := cfg.offloadChannel
    preAlloc := cfg.autoQueue
    configured := true}

/- One entry of the table; `none` is the `error_chan_cfg` exit. -/
def configureChan (maxChan : Nat) (cfg : ChannelConfig) : Option Chan :=
  if maxChan ≤ cfg.num then none
  else if cfg.numElements = 0 then none
  else if cfg.autoQueue && decide (cfg.dir ≠ .fromDevice) then none
  else if decide (cfg.dir = .bidirectional ∨ cfg.dir = .none) && !cfg.offloadChannel then none
  else if !cfg.offloadChannel && cfg.doorbell.isNone then none
  else some (chanOf cfg)

def layRing (r : Ring) (base iommuBase : Nat) : Ring :=
  {r with elSize := sizeofMhiTre, len := sizeofMhiTre * r.elements, base := base, iommuBase := iommuBase}

def treWindow (base n : Nat) (counted : 0 < n) : Window := ⟨base,sizeofMhiTre,n,by decide,counted⟩

theorem fourElements : 0 < 4 := by decide

theorem layOver {r : Ring} {base iommuBase : Nat} (placed : 0 < base)
    (host : base + sizeofMhiTre * r.elements < wordSpan) (bus : iommuBase + sizeofMhiTre * r.elements ≤ wordSpan)
    (counted : 0 < r.elements) : (layRing r base iommuBase).Over (treWindow base r.elements counted) :=
  ⟨rfl,rfl,rfl,rfl,placed,host,bus⟩

def Allocated (base len : Nat) : Prop := 0 < base ∧ base + len < wordSpan
instance (b l) : Decidable (Allocated b l) := by unfold Allocated; infer_instance

def dbAccessOf (m2NoDb : Bool) : Nat :=
  let both := PmState.mask [.m0,.m2]
  if m2NoDb then both &&& (2 ^ 32 - 1 - PmState.m2.bit) else both

theorem openedStates {m2NoDb : Bool} {pm : PmState} (opened : pm.within (dbAccessOf m2NoDb) = true) :
    pm = .m0 ∨ pm = .m2 := by
  cases m2NoDb <;> cases pm <;> first | exact .inl rfl | exact .inr rfl | exact absurd opened (by decide)

theorem toM2 {pm : PmState} (reached : mhiTrysetPmState pm .m2 = .m2) : pm = .m0 ∨ pm = .m2 := by
  cases pm <;> first | exact .inl rfl | exact .inr rfl | cases reached

theorem driftOpened {m2NoDb : Bool} {pm state : PmState} (other : state ≠ .m0)
    (opened : (mhiTrysetPmState pm state).within (dbAccessOf m2NoDb) = true) : pm.within (dbAccessOf m2NoDb) = true := by
  rcases trysetCases pm state with reached | stuck
  · rw [reached] at opened
    rcases openedStates opened with m0 | rfl
    · exact absurd m0 other
    · rcases toM2 reached with rfl | rfl
      · cases m2NoDb <;> rfl
      · exact opened
  · rw [stuck] at opened
    exact opened

theorem configuredChan {maxChan cfg ch} (ok : configureChan maxChan cfg = some ch) :
    ch = chanOf cfg ∧ 0 < cfg.numElements ∧ (cfg.autoQueue = true → cfg.dir = .fromDevice) := by
  unfold configureChan at ok
  split at ok <;> try contradiction
  split at ok <;> try contradiction
  split at ok <;> try contradiction
  rename_i inbound
  split at ok <;> try contradiction
  split at ok <;> try contradiction
  cases Option.some.inj ok
  exact ⟨rfl,by omega,by simpa using inbound⟩

def NamesOutstanding (wt : Window) (ch : Chan) (ev : MhiTre) : Prop :=
  ∃ cell ∈ Ring.outstanding wt ch.treRing, ev.getEvPtr = ch.treRing.iommuBase + (cell - ch.treRing.base)

theorem namedCell {wt : Window} {ch h t ev} (held : ch.treRing.Holds wt h t) (named : NamesOutstanding wt ch ev) :
    ∃ j, h ≤ j ∧ j < t ∧ mhiToVirtual ch.treRing ev.getEvPtr = wt.slot j := by
  obtain ⟨cell,member,pointer⟩ := named
  obtain ⟨j,low,high,rfl⟩ := Ring.memOutstanding held member
  exact ⟨j,low,high,by rw [pointer, Ring.toVirtualSlot held.spans]⟩

theorem afterCell {wt : Window} {r : Ring} (spans : r.Over wt) (tres : wt.size = sizeofMhiTre) (j : Nat) :
    xferGoal r (wt.slot j) = wt.slot (j + 1) := by
  have bound := wt.slotBound j
  have limit := spans.limit
  have base := spans.base
  have host := spans.host
  simp only [xferGoal,← tres]
  rw [Nat.mod_eq_of_lt (by omega), ← wt.nextSlot, Window.next, base, limit]

end MhiHost
