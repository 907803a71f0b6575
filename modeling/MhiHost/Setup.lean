import MhiHost.Host

/-! `mhi_init_dev_ctxt`: where every ring starts. The positions that the aligned
layout and the coherent allocation give the rings are its answers; the rings are
laid out there, event and command rings are emptied, transfer rings are not. -/
namespace MhiHost
open Cyclic (Window)

structure Place where
  host : Nat
  bus : Nat
  deriving DecidableEq, Repr

structure Layout where
  chan : Nat → Place
  chanWp : Nat → Nat
  event : Nat → Place
  cmd : Place

def cmdElPerRing : Nat := 128

def initChan (lay : Layout) (i : Nat) (ch : Chan) : Chan :=
  if ch.offloadCh then ch
  else
    let ring := if ch.configured then layRing ch.treRing (lay.chan i).host (lay.chan i).bus else ch.treRing
    {ch with treRing := {ring with dbAddr := lay.chanWp i}, chState := .disabled}

def emptyRing (r : Ring) : Ring := {r with rp := r.base, wp := r.base, ctxtWp := r.iommuBase}

def initEvent (lay : Layout) (i : Nat) (e : MhiEvent) : MhiEvent :=
  if e.offloadEv then e
  else
    let ring := layRing e.ring (lay.event i).host (lay.event i).bus
    {e with
      ring := emptyRing ring
      rbase := ring.iommuBase
      ctxtRp := ring.iommuBase
      dbCfg := {e.dbCfg with dbMode := true}}

def initCmd (lay : Layout) (r : Ring) : Ring :=
  emptyRing (layRing {r with elements := cmdElPerRing} lay.cmd.host lay.cmd.bus)

def mhiInitDevCtxt (h : Host) (lay : Layout) : Host :=
  {h with
    cntrl := {h.cntrl with devWake := 0, pendingPkts := 0}
    chans := fun i => if i < h.maxChan then initChan lay i (h.chans i) else h.chans i
    events := h.events.mapIdx (initEvent lay)
    cmdRing := initCmd lay h.cmdRing}

/- The channel table as `parse_ch_cfg` leaves it: zeroed but for its entries. An
offload channel has no ring to pre-fill; filling it would divide by its zero element
size. -/
def Parsed (h : Host) : Prop :=
  ∀ i < h.maxChan, h.chans i = Chan.zero ∨ ∃ cfg, cfg.num = i ∧ configureChan h.maxChan cfg = some (h.chans i) ∧
    (cfg.offloadChannel = false ∨ cfg.autoQueue = false)

def Laid (w : Nat → Window) (h : Host) (lay : Layout) : Prop :=
  ∀ i < h.maxChan, (h.chans i).configured = true → (h.chans i).offloadCh = false →
    (w i).size = sizeofMhiTre ∧ (layRing (h.chans i).treRing (lay.chan i).host (lay.chan i).bus).Over (w i)

namespace Sample

def config : ChannelConfig := ⟨"DIAG",0,4,0,0,.toDevice,ExecEnv.amss.bit ||| ExecEnv.sbl.bit,some .disable,false,false,false⟩
def event (hwRing : Bool) : MhiEvent :=
  ⟨{Ring.zero with elements := 4},fun _ => ⟨0,0,0⟩,0,0,⟨false,false,.disable,0⟩,.ctrl,hwRing,false,false⟩
def cntrl : Cntrl := ⟨.m0,dbAccessOf false,.amss,.m0,0,0,0x700,false,false,mhiMaxMtu,0,[]⟩

def host : Host where
  cntrl := cntrl
  regs := 0x100
  maxChan := 1
  chans := fun i => if i = 0 then chanOf config else Chan.zero
  cmdRing := Ring.zero
  cmdMem := fun _ => ⟨0,0,0⟩
  events := [event false,event true]
  transitionList := []
  rddmImage := false
  linkInfo := (0,0)
  devices := []
  nextDev := 0
  callbacks := []
  stateReqs := []

def layout : Layout := ⟨fun _ => ⟨0x1000,0x81000⟩,fun _ => 0x300,fun i => ⟨0x2000 + 0x100 * i,0x82000 + 0x100 * i⟩,⟨0x3000,0x83000⟩⟩
def window : Nat → Window := fun _ => treWindow 0x1000 4 (by decide)
def ready : Host := mhiInitDevCtxt host layout

theorem parsed : Parsed host := by
  intro i inside
  have zero : i = 0 := Nat.lt_one_iff.mp inside
  subst zero
  exact .inr ⟨config,rfl,rfl,.inl rfl⟩

theorem laid : Laid window host layout := by
  intro i inside _ _
  have zero : i = 0 := Nat.lt_one_iff.mp inside
  subst zero
  exact ⟨rfl,⟨rfl,rfl,rfl,rfl,by decide,by decide,by decide⟩⟩

end Sample

end MhiHost
