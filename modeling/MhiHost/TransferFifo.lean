import MhiHost.Fifo
import MhiHost.Runs

/-! The FIFO law of a channel that the client feeds: what the client was handed back,
followed by what the rings still hold, is what was accepted, across batches and
re-entrant callbacks, and each TRE announces the buffer of its local element. -/
namespace MhiHost.TransferFifo
open Cyclic (Window)

def Describes (t : MhiTre) (b : BufInfo) : Prop := t.ptr = b.pAddr ∧ t.dword0 = b.len

theorem describesShort {len : Nat} (fits : len ≤ mhiMaxMtu) (b : BufInfo) (d : Nat) (same : b.len = len) :
    Describes ⟨b.pAddr,MhiTre.dataDword0 len,d⟩ b := ⟨rfl,by rw [same]; exact MhiTre.dataDword0Exact fits⟩

structure InOrder (wt wb : Window) (ch : Chan) (h t : Nat) : Prop where
  fifo : Fifo Describes wt wb ch h t ch.accepted
  client : ch.preAlloc = false

section Steps
variable {wt wb : Window} {p : Port} {h t : Nat}

theorem queueKeeps {q} (held : InOrder wt wb p.chan h t) (same : wt.count = wb.count) (fits : q.len ≤ mhiMaxMtu) :
    ∃ t', t ≤ t' ∧ InOrder wt wb (mhiQueue p q).1.chan h t' := by
  obtain ⟨⟨t',added,le,grown,accepted⟩,preAlloc⟩ := held.fifo.queue (q := q) (Nat.le_of_eq same) (describesShort fits)
  exact ⟨t',le,accepted ▸ grown,preAlloc.trans held.client⟩

theorem xferLoopEnds {ev evTre devRp script} {g : Nat} (same : wt.count = wb.count)
    (fits : ∀ i, ∀ q ∈ (script i).calls, q.len ≤ mhiMaxMtu) (goal : devRp = wt.slot g) (fuel i : Nat)
    (held : InOrder wt wb p.chan h t) (ahead : h ≤ g) (inside : g ≤ t) (enough : g - h ≤ fuel) :
    ∃ p' t', xferLoop ev evTre devRp script fuel i p = some p' ∧ InOrder wt wb p'.chan g t' := by
  have own : p.chan.preAlloc = true → ∀ len, Fifo.Tells Describes len := by
    intro mine
    rw [held.client] at mine
    cases mine
  obtain ⟨p',ran,⟨⟨t',added,_,kept,accepted⟩,preAlloc⟩⟩ := held.fifo.xferLoop (Nat.le_of_eq same)
    (fun i q member => describesShort (fits i q member)) own goal ahead inside enough
  exact ⟨p',t',ran,accepted ▸ kept,preAlloc.trans held.client⟩

theorem resetOneKeeps (held : InOrder wt wb p.chan h t) (filled : h < t) :
    InOrder wt wb (resetOne [] p).chan (h + 1) t ∧ (resetOne [] p).chan.accepted = p.chan.accepted := by
  have client := held.client
  simp only [resetOne,client]
  exact ⟨⟨Fifo.retire (p := {p with cntrl := _}) held.fifo filled rfl,client⟩,rfl⟩

theorem resetLoopEmpties (fuel i : Nat) (held : InOrder wt wb p.chan h t) (enough : t - h ≤ fuel) :
    ∃ p', resetLoop (fun _ => []) fuel i p = some p' ∧ InOrder wt wb p'.chan t t ∧
      p'.chan.accepted = p.chan.accepted := by
  have ordered := held.fifo.tre.ordered
  induction fuel generalizing p h i with
  | zero =>
    have equal : h = t := by omega
    subst h
    exact ⟨p,by rw [resetLoop, if_pos ((Ring.emptyIff held.fifo.tre).mpr rfl)],held,rfl⟩
  | succ fuel ih =>
    by_cases empty : p.chan.treRing.rp = p.chan.treRing.wp
    · have equal := (Ring.emptyIff held.fifo.tre).mp empty
      subst h
      exact ⟨p,by rw [resetLoop, if_pos empty],held,rfl⟩
    · have filled : h < t := Nat.lt_of_le_of_ne ordered fun same => empty ((Ring.emptyIff held.fifo.tre).mpr same)
      obtain ⟨moved,accepted⟩ := resetOneKeeps held filled
      obtain ⟨p',ran,kept,same⟩ := ih (i + 1) moved (by omega) (by omega)
      exact ⟨p',by rw [resetLoop, if_neg empty]; exact ran,kept,same.trans accepted⟩

end Steps

theorem parseRuns {wt wb : Window} {p : Port} {h t : Nat} {ev script} (held : InOrder wt wb p.chan h t)
    (same : wt.count = wb.count) (tres : wt.size = sizeofMhiTre) (code : isXferCode ev.getEvCode = true)
    (named : NamesOutstanding wt p.chan ev) (fits : ∀ i, ∀ q ∈ (script i).calls, q.len ≤ mhiMaxMtu) :
    ∃ p' h' t', parseXferEvent ev script p = some p' ∧ InOrder wt wb p'.chan h' t' := by
  unfold parseXferEvent
  split
  · exact ⟨p,h,t,rfl,held⟩
  obtain ⟨j,low,high,cell⟩ := namedCell held.fifo.tre named
  have room := held.fifo.tre.room
  simp only [cell,afterCell held.fifo.tre.spans tres]
  obtain ⟨p',t',ran,kept⟩ := xferLoopEnds (g := j + 1) same fits rfl p.chan.treRing.elements 0 held
    (by omega) (by omega) (by rw [held.fifo.tre.spans.elements]; omega)
  exact ⟨p',j + 1,t',ran,kept⟩

/- What `parse_ch_cfg` (with no local element count) and the context allocation
leave behind for a channel that the client, not the core, feeds. -/
structure Configured (wt : Window) (ch : Chan) : Prop where
  laid : ch.treRing.Over wt
  tres : wt.size = sizeofMhiTre
  several : 2 ≤ wt.count
  locals : ch.bufRing.elements = wt.count
  noBus : ch.bufRing.iommuBase = 0
  offloadCh : ch.offloadCh = false
  preAlloc : ch.preAlloc = false

def bufWindow (base : Nat) (wt : Window) : Window := ⟨base,sizeofMhiBufInfo,wt.count,by decide,wt.counted⟩

theorem configuredOf {maxChan cfg ch} {base iommuBase : Nat} (ok : configureChan maxChan cfg = some ch)
    (several : 2 ≤ cfg.numElements) (noLocal : cfg.localElements = 0) (onHost : cfg.offloadChannel = false)
    (client : cfg.autoQueue = false) (placed : 0 < base)
    (host : base + sizeofMhiTre * cfg.numElements < wordSpan)
    (bus : iommuBase + sizeofMhiTre * cfg.numElements ≤ wordSpan) :
    Configured (treWindow base cfg.numElements (Nat.zero_lt_of_lt several)) {ch with treRing := layRing ch.treRing base iommuBase} := by
  obtain ⟨rfl,_,_⟩ := configuredChan ok
  have laid := layOver (r := (chanOf cfg).treRing) placed host bus (Nat.zero_lt_of_lt several)
  exact ⟨laid,rfl,several,by simp [chanOf,noLocal,treWindow],rfl,onHost,client⟩

structure Started (wt : Window) (vz : Nat) (ch : Chan) (p : Port) : Prop where
  config : Configured wt ch
  block : Allocated vz (sizeofMhiBufInfo * ch.bufRing.elements)
  fresh : ch.xferLog = [] ∧ ch.accepted = []
  init : mhiInitChanCtxt ch (some vz) = (p.chan,none)

theorem startFifo {wt vz ch p} (start : Started wt vz ch p) : InOrder wt (bufWindow vz wt) p.chan 0 0 := by
  obtain ⟨config,block,fresh,init⟩ := start
  have chan : (mhiInitChanCtxt ch (some vz)).1 = p.chan := congrArg Prod.fst init
  have laid : Fifo Describes wt (bufWindow vz wt) (mhiInitChanCtxt ch (some vz)).1 0 0 (handed ch) :=
    Fifo.fresh config.laid block rfl rfl config.locals.symm (by rw [config.noBus]; have bound := block.2; omega)
  have none : handed ch = (mhiInitChanCtxt ch (some vz)).1.accepted := by simp [handed,mhiInitChanCtxt,fresh.1,fresh.2]
  rw [none, chan] at laid
  refine ⟨laid,?_⟩
  rw [← chan]
  exact config.preAlloc

inductive Step (wt : Window) : Port → Port → Prop where
  | queue {p} (q : QueueReq) (fits : q.len ≤ mhiMaxMtu) : Step wt p (mhiQueue p q).1
  | event {p p'} (ev : MhiTre) (script : Nat → CbScript) (code : isXferCode ev.getEvCode = true)
      (named : NamesOutstanding wt p.chan ev) (fits : ∀ i, ∀ q ∈ (script i).calls, q.len ≤ mhiMaxMtu)
      (ran : parseXferEvent ev script p = some p') : Step wt p p'
  | controller {p} (c : Cntrl) : Step wt p {p with cntrl := c}
  | chState {p} (st : ChState) : Step wt p {p with chan := {p.chan with chState := st}}

theorem stepFifo {wt wb : Window} {p p' : Port} (same : wt.count = wb.count) (tres : wt.size = sizeofMhiTre)
    (step : Step wt p p') (held : ∃ h t, InOrder wt wb p.chan h t) : ∃ h t, InOrder wt wb p'.chan h t := by
  obtain ⟨h,t,held⟩ := held
  cases step with
  | queue q fits =>
    obtain ⟨t',_,kept⟩ := queueKeeps held same fits
    exact ⟨h,t',kept⟩
  | event ev script code named fits ran =>
    obtain ⟨out,h',t',ran',kept⟩ := parseRuns held same tres code named fits
    rw [ran] at ran'
    cases Option.some.inj ran'
    exact ⟨h',t',kept⟩
  | controller c => exact ⟨h,t,held⟩
  | chState st => exact ⟨h,t,held.fifo.of held.fifo.tre rfl rfl rfl rfl,held.client⟩

theorem runFifo {wt wb : Window} {p p' : Port} (same : wt.count = wb.count) (tres : wt.size = sizeofMhiTre)
    (run : Relation.ReflTransGen (Step wt) p p') (held : ∃ h t, InOrder wt wb p.chan h t) :
    ∃ h t, InOrder wt wb p'.chan h t :=
  Runs.keeps (I := fun p => ∃ h t, InOrder wt wb p.chan h t) (fun _ _ => stepFifo same tres) run held

structure Observed (wt wb : Window) (ch : Chan) : Prop where
  treAligned : wt.Aligned ch.treRing.rp ∧ wt.Aligned ch.treRing.wp
  bufAligned : wb.Aligned ch.bufRing.rp ∧ wb.Aligned ch.bufRing.wp
  level : (Ring.outstanding wt ch.treRing).length = (Ring.outstanding wb ch.bufRing).length
  bounded : (Ring.outstanding wt ch.treRing).length ≤ wt.count - 1
  described : List.Forall₂ (fun t b => Describes (ch.treMem t) (ch.bufMem b))
    (Ring.outstanding wt ch.treRing) (Ring.outstanding wb ch.bufRing)
  order : handed ch ++ (Ring.outstanding wb ch.bufRing).map (fun b => (ch.bufMem b).cbBuf) = ch.accepted

theorem observe {wt wb ch h t} (held : InOrder wt wb ch h t) : Observed wt wb ch := by
  have fifo := held.fifo
  have room := fifo.tre.room
  refine ⟨?_,?_,?_,?_,?_,?_⟩
  · rw [fifo.tre.rp, fifo.tre.wp]; exact ⟨wt.slotAligned h,wt.slotAligned t⟩
  · rw [fifo.buf.rp, fifo.buf.wp]; exact ⟨wb.slotAligned h,wb.slotAligned t⟩
  · rw [Ring.outstandingLength fifo.tre, Ring.outstandingLength fifo.buf]
  · rw [Ring.outstandingLength fifo.tre]; omega
  · have paired := fifo.paired
    rw [← Ring.outstandingView fifo.tre, ← Ring.outstandingView fifo.buf] at paired
    simpa only [List.forall₂_map_left_iff,List.forall₂_map_right_iff] using paired
  · have order := fifo.order
    rw [← Ring.outstandingView fifo.buf, List.map_map] at order
    simpa [Function.comp_def] using order

theorem resetRuns {wt wb : Window} {p : Port} {h t : Nat} (held : InOrder wt wb p.chan h t) :
    ∃ p', mhiResetDataChan (fun _ => []) p = some p' ∧ InOrder wt wb p'.chan t t ∧
      p'.chan.accepted = p.chan.accepted := by
  have room := held.fifo.tre.room
  exact resetLoopEmpties _ _ held (by rw [held.fifo.tre.spans.elements]; omega)

theorem transferRingFifo {wt vz ch p p'} (start : Started wt vz ch p)
    (run : Relation.ReflTransGen (Step wt) p p') :
    Observed wt (bufWindow vz wt) p'.chan ∧
    (∀ ev script, isXferCode ev.getEvCode = true → NamesOutstanding wt p'.chan ev →
      (∀ i, ∀ q ∈ (script i).calls, q.len ≤ mhiMaxMtu) → ∃ next, parseXferEvent ev script p' = some next) ∧
    ∃ last, mhiResetDataChan (fun _ => []) p' = some last ∧ Observed wt (bufWindow vz wt) last.chan ∧
      last.chan.accepted = p'.chan.accepted ∧ handed last.chan = p'.chan.accepted ∧
      Ring.outstanding wt last.chan.treRing = [] := by
  have same : wt.count = (bufWindow vz wt).count := rfl
  obtain ⟨h,t,held⟩ := runFifo same start.config.tres run ⟨0,0,startFifo start⟩
  refine ⟨observe held,?_,?_⟩
  · intro ev script code named fits
    obtain ⟨next,_,_,ran,_⟩ := parseRuns held same start.config.tres code named fits
    exact ⟨next,ran⟩
  · obtain ⟨last,ran,kept,accepted⟩ := resetRuns held
    have order := kept.fifo.order
    simp only [Window.viewEmpty,List.map_nil,List.append_nil] at order
    refine ⟨last,ran,observe kept,accepted,order.trans accepted,?_⟩
    apply List.eq_nil_of_length_eq_zero
    rw [Ring.outstandingLength kept.fifo.tre, Nat.sub_self]

def uplinkConfig : ChannelConfig := ⟨"DIAG",4,4,0,0,.toDevice,ExecEnv.amss.bit,some .disable,false,false,false⟩
def uplinkChan : Chan :=
  {(configureChan 128 uplinkConfig).getD Chan.zero with
    treRing := layRing ((configureChan 128 uplinkConfig).getD Chan.zero).treRing 0x1000 0x8000}
def idleCntrl : Cntrl := ⟨.m0,dbAccessOf false,.amss,.m0,0,0,0,false,false,mhiMaxMtu,0,[]⟩
def uplinkPort : Port := ⟨idleCntrl,(mhiInitChanCtxt uplinkChan (some 0x4000)).1⟩
def uplinkReq : QueueReq := ⟨.skb 0x20,0x10,100,MhiFlags.eot,⟨0x9000,0,true⟩⟩

def uplinkEvent : MhiTre := ⟨0x8000,EvCc.eot <<< 24 ||| 100,4 <<< 24 ||| PktType.txEvent <<< 16⟩
def uplinkScript : Nat → CbScript := fun _ => ⟨[{uplinkReq with cb := 0x11}],⟨0,0,false⟩⟩
def uplinkEnabled : Port := {uplinkPort with chan := {uplinkPort.chan with chState := .enabled}}
def uplinkQueued : Port := (mhiQueue uplinkEnabled uplinkReq).1
def uplinkDone : Port := (parseXferEvent uplinkEvent uplinkScript uplinkQueued).getD uplinkQueued

theorem uplinkStarted : Started (treWindow 0x1000 4 (by decide)) 0x4000 uplinkChan uplinkPort where
  config := configuredOf (show configureChan 128 uplinkConfig = some _ from rfl) (by decide) rfl rfl rfl
    (by decide) (by decide) (by decide)
  block := by decide
  fresh := ⟨rfl,rfl⟩
  init := rfl

theorem uplinkRun : Relation.ReflTransGen (Step (treWindow 0x1000 4 (by decide))) uplinkPort uplinkDone := by
  have enabled : Step (treWindow 0x1000 4 (by decide)) uplinkPort uplinkEnabled := .chState .enabled
  have queued : Step (treWindow 0x1000 4 (by decide)) uplinkEnabled uplinkQueued := .queue uplinkReq (by decide)
  have completed : Step (treWindow 0x1000 4 (by decide)) uplinkQueued uplinkDone :=
    .event uplinkEvent uplinkScript (by decide) ⟨0x1000,by decide,rfl⟩
      (fun _ q member => by simp only [uplinkScript,List.mem_singleton] at member; subst q; decide) rfl
  exact ((Relation.ReflTransGen.single enabled).tail queued).tail completed

theorem transferRingFifoUplink : handed uplinkDone.chan = [0x10] ∧ uplinkDone.chan.accepted = [0x10,0x11] ∧
    Observed (treWindow 0x1000 4 (by decide)) (bufWindow 0x4000 (treWindow 0x1000 4 (by decide))) uplinkDone.chan :=
  ⟨by decide,by decide,(transferRingFifo uplinkStarted uplinkRun).1⟩

end MhiHost.TransferFifo
