import MhiHost.UciWrite

/-! The receive buffers of a UCI node. `mhi_queue_inbound` puts as many on the downlink ring
as it takes; each completion moves one to `dl_pending` and each finished read one back. -/
namespace MhiHost.UciPool
open Cyclic (Window)
open NetRing (mhiGetFreeDescCount)
open Queueing (Call bufCall)
open TransferFifo (Started bufWindow)
open UciRead (Uci UciBuf sizeofUciBuf mtuOf mhiUciMatchTable unread returned held blocks Apart span)
open UciWrite (completed)
open Wire (Bytes)
open Relation (ReflTransGen)

inductive ReadError where
  | einval | eagain | erestartsys | enodev | eio | efault
  | queue (e : Errno)
  deriving DecidableEq, Repr

/- `left` buffers are still to be queued by `mhi_queue_inbound`; `returns` is what the calls
of `mhi_uci_read` returned, in that order. -/
structure Node (τ : Type) where
  uci : Uci τ
  port : Port
  left : Nat
  enabled : Bool
  refs : Nat
  returns : List (τ × Except ReadError Bytes)

section Code
variable {τ : Type}

def mhiDlXferCb (u : Uci τ) (r : MhiResult) (junk : Nat → UInt8) : Uci τ :=
  if r.transactionStatus = none ∨ r.transactionStatus = some .eoverflow then u.mhiDlXferCb r.bufAddr r.bytesXferd junk else u

namespace Node

def start (mtu : Nat) (port : Port) (bytes : Nat → UInt8) (ubuf : Nat → UciBuf) : Node τ :=
  ⟨Uci.start mtu bytes ubuf [],port,(mhiGetFreeDescCount port).toNat,true,1,[]⟩

variable (s : Node τ)

def inbound (buf : Nat) (port : Port) (junk : Nat → UInt8) : Node τ :=
  let node := buf + s.uci.mtu
  {s with
    uci := {s.uci.setUbuf node {s.uci.ubuf node with data := buf} junk with queued := s.uci.queued ++ [(buf,s.uci.mtu)]}
    port := port
    left := s.left - 1}

def completion (r : MhiResult) (junk : Nat → UInt8) : Node τ :=
  {s with uci := mhiDlXferCb {s.uci with queued := s.uci.queued.tail} r junk, port := completed s.port r}

def withUci (u : Uci τ) : Node τ := {s with uci := u}
def fail (t : τ) (e : ReadError) : Node τ := {s with uci := s.uci.unlock t [], returns := s.returns ++ [(t,.error e)]}

def noData : Bool := s.uci.curBuf.isNone && s.uci.dlPending.isEmpty

def take (t : τ) (count : Nat) : Node τ := if s.noData then s.fail t .eio else s.withUci (s.uci.take t count)

def check (t : τ) (count : Nat) (nonblock : Bool) : Node τ :=
  if s.noData then
    if nonblock then s.fail t .eagain else s.withUci (s.uci.at' t (.waiting count))
  else s.take t count

def woken (t : τ) (count : Nat) : Node τ := if s.enabled then s.take t count else s.fail t .enodev

def answer (t : τ) (node : Nat) (got : Bytes) : Node τ :=
  {s with uci := s.uci.finish t node got, returns := s.returns ++ [(t,.ok got)]}

def finish (t : τ) (node : Nat) (got : Bytes) (reply : DmaReply) : Node τ :=
  if s.uci.dlSize - got.length ≠ 0 then s.answer t node got
  else match mhiQueueBuf s.port (s.uci.ubuf node).data (s.uci.mtu - sizeofUciBuf) MhiFlags.eot reply with
    | (port,none) => {s with port := port}.answer t node got
    | (port,some e) => {s with port := port, uci := {s.uci with dlSize := 0, curBuf := none}}.fail t (.queue e)

end Node

/- `may` is asked of what a read ends with. The holders of a reference that was not the last
come and go; a failed transfer is one of any other status. -/
inductive Step (may : Node τ → Bytes → DmaReply → Prop) : Node τ → Node τ → Prop where
  | inbound {s} (buf : Nat) (reply : DmaReply) (port : Port) (junk : Nat → UInt8) (more : 0 < s.left)
      (fresh : ∀ b ∈ blocks s.uci, Apart s.uci.mtu buf b)
      (ran : mhiQueueBuf s.port buf s.uci.mtu MhiFlags.eot reply = (port,none)) : Step may s (s.inbound buf port junk)
  | dma {s} (buf len off : Nat) (v : UInt8) (junk : Nat → UciBuf) (queued : (buf,len) ∈ s.uci.queued) (inside : off < len) :
      Step may s (s.withUci (s.uci.dmaWrite (buf + off) v junk))
  | completion {s} (r : MhiResult) (junk : Nat → UInt8) (outstanding : s.port.chan.treRing.rp ≠ s.port.chan.treRing.wp)
      (named : r.bufAddr = (s.port.chan.bufMem s.port.chan.bufRing.rp).cbBuf)
      (fits : r.bytesXferd ≤ (s.port.chan.bufMem s.port.chan.bufRing.rp).len) : Step may s (s.completion r junk)
  | controller {s} (cntrl : Cntrl) : Step may s {s with port := {s.port with cntrl := cntrl}}
  | removed {s} : Step may s {s with enabled := false}
  | opened {s} : Step may s {s with refs := s.refs + 1}
  | released {s} (shared : 1 < s.refs) : Step may s {s with refs := s.refs - 1}
  | refused {s} (t : τ) : Step may s {s with returns := s.returns ++ [(t,.error .einval)]}
  | lock {s} (t : τ) (count : Nat) (nonblock : Bool) (filled : s.left = 0) (free : s.uci.reader = none) :
      Step may s (s.withUci (s.uci.at' t (.entered count nonblock)))
  | check {s} (t : τ) (count : Nat) (nonblock : Bool) (here : s.uci.reader = some (t,.entered count nonblock)) :
      Step may s (s.check t count nonblock)
  | wake {s} (t : τ) (count : Nat) (here : s.uci.reader = some (t,.waiting count))
      (ready : s.enabled = false ∨ s.uci.dlPending ≠ []) : Step may s (s.withUci (s.uci.at' t (.woken count)))
  | signal {s} (t : τ) (count : Nat) (here : s.uci.reader = some (t,.waiting count)) : Step may s (s.fail t .erestartsys)
  | woken {s} (t : τ) (count : Nat) (here : s.uci.reader = some (t,.woken count)) : Step may s (s.woken t count)
  | copy {s} (t : τ) (count node : Nat) (here : s.uci.reader = some (t,.taken count)) (cur : s.uci.curBuf = some node) :
      Step may s (s.withUci (s.uci.copy t node count))
  | fault {s} (t : τ) (count : Nat) (here : s.uci.reader = some (t,.taken count)) : Step may s (s.fail t .efault)
  | finish {s} (t : τ) (got : Bytes) (node : Nat) (reply : DmaReply) (here : s.uci.reader = some (t,.copied got))
      (cur : s.uci.curBuf = some node) (allowed : may s got reply) : Step may s (s.finish t node got reply)

structure Opening (wt wb : Window) (s : Node τ) : Prop where
  start : ∃ name driverData vz ch port bytes ubuf, (name,driverData) ∈ mhiUciMatchTable ∧ Started wt vz ch port ∧
    wb = bufWindow vz wt ∧ s = Node.start (mtuOf driverData) port bytes ubuf

end Code

/-! What is read and what is still to be read, apart from the histories. -/
section Memory
variable {τ : Type} {s u : Uci τ}

def base (s : Uci τ) : Uci τ := {s with reads := [], received := unread s}
def Sound (s : Uci τ) : Prop := UciRead.Inv (base s)

theorem rebased (inv : UciRead.Inv u) (same : u = {s with reads := u.reads, received := u.received}) :
    Sound s ∧ returned u ++ unread s = u.received := by
  generalize reads : u.reads = reads' at *
  generalize received : u.received = received' at *
  subst same
  exact ⟨⟨inv.room,inv.apart,inv.lens,inv.nodes,inv.size,inv.copying,rfl⟩,inv.stream⟩

def Keeps (s u : Uci τ) : Prop := ∃ more, u.received = s.received ++ more ∧ unread u = unread s ++ more

theorem keepsRefl (s : Uci τ) : Keeps s s := ⟨[],(List.append_nil _).symm,(List.append_nil _).symm⟩
theorem Keeps.trans {mid : Uci τ} (first : Keeps s mid) (second : Keeps mid u) : Keeps s u := by
  obtain ⟨more,received,rest⟩ := first
  obtain ⟨more',received',rest'⟩ := second
  refine ⟨more ++ more',?_,?_⟩
  · rw [received',received,List.append_assoc]
  · rw [rest',rest,List.append_assoc]

theorem phaseSound {reader : Option (τ × UciRead.Phase)} (sound : Sound s)
    (copying : ∀ t got, reader = some (t,.copied got) → UciRead.Copying s got) : Sound {s with reader := reader} := by
  have inv : UciRead.Inv {base s with reader := reader} := UciRead.phaseInv sound copying
  exact (rebased inv rfl).1

theorem dmaSound {buf len off : Nat} {v : UInt8} {junk : Nat → UciBuf} (sound : Sound s) (queued : (buf,len) ∈ s.queued)
    (inside : off < len) : Sound (s.dmaWrite (buf+off) v junk) ∧ Keeps s (s.dmaWrite (buf+off) v junk) := by
  have inv := UciRead.stepInv (.dma (s := base s) buf len off v junk queued inside) sound
  obtain ⟨sound',stream⟩ := @rebased _ (s.dmaWrite (buf+off) v junk) _ inv rfl
  refine ⟨sound',[],(List.append_nil _).symm,?_⟩
  rw [List.append_nil]
  exact stream

theorem completionSound {buf len n : Nat} {rest : List (Nat × Nat)} {junk : Nat → UInt8} (sound : Sound s)
    (queued : s.queued = (buf,len) :: rest) (fits : n ≤ len) :
    Sound ({s with queued := rest}.mhiDlXferCb buf n junk) ∧ Keeps s ({s with queued := rest}.mhiDlXferCb buf n junk) := by
  have inv := UciRead.stepInv (.completed (s := base s) [] buf len rest n junk queued fits) sound
  obtain ⟨sound',stream⟩ := @rebased _ ({s with queued := rest}.mhiDlXferCb buf n junk) _ inv rfl
  exact ⟨sound',span s.bytes buf n,rfl,stream⟩

theorem freedSound {b : Nat × Nat} {rest : List (Nat × Nat)} (sound : Sound s) (queued : s.queued = b :: rest) :
    Sound {s with queued := rest} ∧ Keeps s {s with queued := rest} := by
  have inv := UciRead.stepInv (.failed (s := base s) [] b.1 b.2 rest queued) sound
  obtain ⟨sound',stream⟩ := @rebased _ {s with queued := rest} _ inv rfl
  exact ⟨sound',keepsRefl s⟩

theorem phaseKeeps {reader : Option (τ × UciRead.Phase)} : Keeps s {s with reader := reader} :=
  ⟨[],(List.append_nil _).symm,(List.append_nil _).symm⟩

theorem unlockSound {t : τ} {got : Bytes} (sound : Sound s) : Sound (s.unlock t got) ∧ Keeps s (s.unlock t got) :=
  ⟨@phaseSound τ s none sound fun _ _ here => (nomatch here),[],(List.append_nil _).symm,(List.append_nil _).symm⟩

theorem takeSound {t : τ} {count : Nat} (sound : Sound s) : Sound (s.take t count) ∧ Keeps s (s.take t count) := by
  have inv := @UciRead.takeInv τ (base s) t count sound
  unfold Uci.take at inv ⊢
  cases cur : s.curBuf with
  | some node => exact ⟨phaseSound sound fun _ _ here => (nomatch here),phaseKeeps⟩
  | none =>
    cases list : s.dlPending with
    | nil => exact unlockSound sound
    | cons node rest =>
      have cur' : (base s).curBuf = none := cur
      have list' : (base s).dlPending = node :: rest := list
      rw [cur',list'] at inv
      obtain ⟨sound',stream⟩ := @rebased _
        ({s with dlPending := rest, curBuf := some node, dlSize := (s.ubuf node).len}.at' t (.taken count)) _ inv rfl
      refine ⟨sound',[],(List.append_nil _).symm,?_⟩
      rw [List.append_nil]
      exact stream

theorem copySound {t : τ} {node count : Nat} (sound : Sound s) (here : s.reader = some (t,.taken count))
    (cur : s.curBuf = some node) :
    Sound (s.copy t node count) ∧ Keeps s (s.copy t node count) := by
  have inv := UciRead.stepInv (.copy (s := base s) t count node here cur) sound
  exact ⟨(@rebased _ (s.copy t node count) _ inv rfl).1,phaseKeeps⟩

theorem finishSound {t : τ} {node : Nat} {got : Bytes} (sound : Sound s) (here : s.reader = some (t,.copied got))
    (cur : s.curBuf = some node) : Sound (s.finish t node got) ∧ got ++ unread (s.finish t node got) = unread s := by
  have inv := @UciRead.finishInv τ (base s) t node got sound here cur
  have same : (base s).finish t node got = {s.finish t node got with reads := [(t,got)], received := unread s} := by
    unfold Uci.finish
    dsimp only [base]
    by_cases whole : s.dlSize-got.length = 0
    · rw [if_pos whole,if_pos whole]
      rfl
    · rw [if_neg whole,if_neg whole]
      rfl
  rw [same] at inv
  obtain ⟨sound',stream⟩ := @rebased _ (s.finish t node got) _ inv rfl
  refine ⟨sound',?_⟩
  have returned : returned {s.finish t node got with reads := [(t,got)], received := unread s} = got := List.append_nil got
  rw [returned] at stream
  exact stream

theorem dropSound (sound : Sound s) : Sound {s with dlSize := 0, curBuf := none, reader := none} ∧
    unread s = UciRead.remainder s ++ unread {s with dlSize := 0, curBuf := none, reader := none} := by
  have fewer : ∀ node ∈ held {s with dlSize := 0, curBuf := none, reader := none}, node ∈ held s :=
    fun node member => List.mem_append_right _ member
  have parts : (blocks {s with dlSize := 0, curBuf := none, reader := none}).Sublist (blocks s) :=
    List.Sublist.append (List.Sublist.refl _) (List.Sublist.map _ (List.sublist_append_right _ _))
  exact ⟨⟨sound.room,List.Pairwise.sublist parts sound.apart,sound.lens,fun node member => sound.nodes node (fewer node member),
    (fun _ is => (nomatch is)),(fun _ _ here => (nomatch here)),rfl⟩,rfl⟩

theorem inboundSound {buf : Nat} {b : UciBuf} {junk : Nat → UInt8} (sound : Sound s) (fresh : ∀ c ∈ blocks s, Apart s.mtu buf c) :
    Sound {s.setUbuf (buf+s.mtu) b junk with queued := s.queued ++ [(buf,s.mtu)]} ∧
      Keeps s {s.setUbuf (buf+s.mtu) b junk with queued := s.queued ++ [(buf,s.mtu)]} := by
  have frame := @UciRead.ubufFrame τ s buf b junk (by decide)
  have others : ∀ node ∈ held s, Apart s.mtu buf (s.ubuf node).data :=
    fun node member => fresh _ (List.mem_append_right _ (List.mem_map.mpr ⟨node,member,rfl⟩))
  have inv := @UciRead.writeInv τ (base s) ((base s).setUbuf (buf+s.mtu) b junk) buf sound ⟨frame.bytes,frame.ubuf⟩ others rfl
  obtain ⟨written,stream⟩ := @rebased _ (s.setUbuf (buf+s.mtu) b junk) _ inv rfl
  have still : ∀ node ∈ held s, (s.setUbuf (buf+s.mtu) b junk).ubuf node = s.ubuf node :=
    fun node member => (UciRead.frameNode frame (sound.nodes node member).1 (others node member)).1
  have places : (held s).map (fun node => ((s.setUbuf (buf+s.mtu) b junk).ubuf node).data) =
      (held s).map fun node => (s.ubuf node).data :=
    List.map_congr_left fun node member => congrArg UciBuf.data (still node member)
  refine ⟨⟨written.room,?_,?_,written.nodes,written.size,written.copying,rfl⟩,[],(List.append_nil _).symm,?_⟩
  · show ((s.queued ++ [(buf,s.mtu)]).map Prod.fst ++ (held s).map fun node => ((s.setUbuf (buf+s.mtu) b junk).ubuf node).data).Pairwise _
    rw [places,List.map_append,List.append_assoc]
    refine (List.perm_middle.pairwise_iff fun apart => UciRead.apartSymm apart).mpr (List.pairwise_cons.mpr ⟨fresh,sound.apart⟩)
  · intro x member
    rcases List.mem_append.mp member with before | last
    · exact written.lens x before
    · rw [List.mem_singleton.mp last]
      exact Nat.le_refl _
  · rw [List.append_nil]
    exact stream

def Counts (u : Uci τ) (queued : List (Nat × Nat)) (n : Nat) : Prop := u.queued = queued ∧ (held u).length = n

theorem takeCounts {t : τ} {count : Nat} : Counts (s.take t count) s.queued (held s).length := by
  unfold Uci.take
  cases cur : s.curBuf with
  | some node => exact ⟨rfl,rfl⟩
  | none =>
    cases list : s.dlPending with
    | nil => exact ⟨rfl,rfl⟩
    | cons node rest =>
      refine ⟨rfl,?_⟩
      show (node :: rest).length = (s.curBuf.toList ++ s.dlPending).length
      rw [cur,list]
      rfl

theorem heldCur {node : Nat} (cur : s.curBuf = some node) : (held s).length = s.dlPending.length+1 := by
  rw [held,cur]
  rfl

theorem arrivedHeld {buf n : Nat} {junk : Nat → UInt8} : (held (s.mhiDlXferCb buf n junk)).length = (held s).length+1 := by
  show (s.curBuf.toList ++ (s.dlPending ++ [buf+s.mtu])).length = _
  rw [← List.append_assoc,List.length_append,List.length_singleton]
  rfl

theorem finishCounts {t : τ} {node : Nat} {got : Bytes} (cur : s.curBuf = some node) :
    (s.dlSize-got.length ≠ 0 → Counts (s.finish t node got) s.queued (held s).length) ∧
      (s.dlSize-got.length = 0 → Counts (s.finish t node got) (s.queued ++ [((s.ubuf node).data,s.mtu-sizeofUciBuf)]) ((held s).length-1)) := by
  have one := heldCur cur
  unfold Uci.finish
  dsimp only
  constructor
  · intro left
    rw [if_neg left]
    exact ⟨rfl,rfl⟩
  · intro whole
    rw [if_pos whole]
    refine ⟨rfl,?_⟩
    rw [one]
    exact congrArg List.length (List.nil_append s.dlPending)

end Memory

/-! The ring against the list of what is queued. -/
section Ring
variable {wt wb : Window} {p p' : Port} {queued : List (Nat × Nat)} {buf len flags : Nat} {reply : DmaReply}

def named (b : BufInfo) : Nat × Nat := (b.cbBuf,b.len)

structure Linked (wt wb : Window) (ch : Chan) (queued : List (Nat × Nat)) (h t : Nat) : Prop where
  tre : ch.treRing.Holds wt h t
  buf : ch.bufRing.Holds wb h t
  names : (wb.view ch.bufMem h t).map named = queued

theorem linkedLength {h t : Nat} (linked : Linked wt wb p.chan queued h t) : queued.length = t-h := by
  rw [← linked.names,List.length_map,Window.view,List.length_map,List.length_range]

theorem linkedQueue {h t : Nat} (linked : Linked wt wb p.chan queued h t) (wide : wt.count ≤ wb.count)
    (ran : mhiQueueBuf p buf len flags reply = (p',none)) : Linked wt wb p'.chan (queued ++ [(buf,len)]) h (t+1) := by
  have call := @bufCall p buf len flags reply
  rw [ran] at call
  have reached := call.passed rfl
  have space := Ring.spaceOf linked.tre (call.space reached)
  have tre := call.tre
  have bufs := call.buf
  have mem := call.mem
  rw [if_pos rfl] at tre bufs
  rw [reached,if_pos rfl] at mem
  obtain ⟨b,cb,size,written⟩ := mem
  refine ⟨?_,?_,?_⟩
  · rw [tre]
    exact (Ring.addHolds linked.tre space).rung _
  · rw [bufs]
    exact Ring.addHolds linked.buf (by omega)
  · rw [written,linked.buf.wp,wb.viewWrite _ _ linked.buf.ordered linked.buf.room,List.map_append,linked.names,List.map_singleton,named,cb,size]

theorem linkedRefused {h t : Nat} {e : Errno} (linked : Linked wt wb p.chan queued h t)
    (ran : mhiQueueBuf p buf len flags reply = (p',some e)) : Linked wt wb p'.chan queued h t := by
  have call := @bufCall p buf len flags reply
  rw [ran] at call
  have tre := call.tre
  have bufs := call.buf
  have mem := call.mem
  rw [if_neg (by simp)] at tre bufs
  refine ⟨?_,?_,?_⟩
  · rw [tre]
    exact linked.tre.rung _
  · rw [bufs]
    exact linked.buf
  · split at mem
    · obtain ⟨b,-,-,written⟩ := mem
      rw [written,linked.buf.wp,wb.viewUpdate _ _ linked.buf.room]
      exact linked.names
    · rw [mem]
      exact linked.names

theorem linkedRetire {h t : Nat} (linked : Linked wt wb p.chan queued h t) (outstanding : p.chan.treRing.rp ≠ p.chan.treRing.wp)
    (r : MhiResult) :
    ∃ rest, queued = named (p.chan.bufMem p.chan.bufRing.rp) :: rest ∧ Linked wt wb (completed p r).chan rest (h+1) t := by
  have filled : h < t := by
    have ordered := linked.tre.ordered
    rw [Ne,Ring.emptyIff linked.tre] at outstanding
    omega
  have names := linked.names
  rw [wb.viewPop _ filled,List.map_cons,← linked.buf.rp] at names
  exact ⟨_,names.symm,Ring.delHolds linked.tre filled,Ring.delHolds linked.buf filled,rfl⟩

end Ring

/-! What every step keeps. -/
section Runs
variable {τ : Type} {may : Node τ → Bytes → DmaReply → Prop} {wt wb : Window} {s s' : Node τ}

structure Inv (wt wb : Window) (s : Node τ) : Prop where
  sound : Sound s.uci
  rings : ∃ h t, Linked wt wb s.port.chan s.uci.queued h t
  bound : s.left+s.uci.queued.length+(held s.uci).length ≤ wt.count-1

inductive Effect (may : Node τ → Bytes → DmaReply → Prop) (s s' : Node τ) : Prop where
  | keeps (keeps : Keeps s.uci s'.uci)
  | answers (t : τ) (got : Bytes) (returns : s'.returns = s.returns ++ [(t,.ok got)])
  | loses (t : τ) (got : Bytes) (node : Nat) (reply : DmaReply) (here : s.uci.reader = some (t,.copied got))
      (cur : s.uci.curBuf = some node) (allowed : may s got reply) (whole : s.uci.dlSize-got.length = 0)
      (refused : (mhiQueueBuf s.port (s.uci.ubuf node).data (s.uci.mtu-sizeofUciBuf) MhiFlags.eot reply).2 ≠ none)
      (received : s'.uci.received = s.uci.received) (split : unread s.uci = UciRead.remainder s.uci ++ unread s'.uci)

theorem Inv.withUci {u : Uci τ} (inv : Inv wt wb s) (sound : Sound u)
    (counts : Counts u s.uci.queued (held s.uci).length) : Inv wt wb (s.withUci u) := by
  obtain ⟨same,length⟩ := counts
  refine ⟨sound,?_,?_⟩
  · show ∃ h t, Linked wt wb s.port.chan u.queued h t
    rw [same]
    exact inv.rings
  · show s.left+u.queued.length+(held u).length ≤ _
    rw [same,length]
    exact inv.bound

theorem failInv {t : τ} {e : ReadError} (inv : Inv wt wb s) : Inv wt wb (s.fail t e) ∧ Keeps s.uci (s.fail t e).uci := by
  obtain ⟨sound,keeps⟩ := @unlockSound τ s.uci t [] inv.sound
  exact ⟨⟨sound,inv.rings,inv.bound⟩,keeps⟩

theorem phaseInv {reader : Option (τ × UciRead.Phase)} (inv : Inv wt wb s)
    (copying : ∀ t got, reader = some (t,.copied got) → UciRead.Copying s.uci got) :
    Inv wt wb (s.withUci {s.uci with reader := reader}) ∧ Keeps s.uci (s.withUci {s.uci with reader := reader}).uci :=
  ⟨⟨phaseSound inv.sound copying,inv.rings,inv.bound⟩,phaseKeeps⟩

theorem takeInv {t : τ} {count : Nat} (inv : Inv wt wb s) : Inv wt wb (s.take t count) ∧ Keeps s.uci (s.take t count).uci := by
  unfold Node.take
  split
  · exact failInv inv
  · obtain ⟨sound,keeps⟩ := @takeSound τ s.uci t count inv.sound
    exact ⟨inv.withUci sound takeCounts,keeps⟩

theorem roomForCur {node : Nat} (inv : Inv wt wb s) (cur : s.uci.curBuf = some node) :
    mhiIsRingFull s.port.chan.treRing = false := by
  obtain ⟨h,t,linked⟩ := inv.rings
  have length := linkedLength linked
  have bound := inv.bound
  have one := heldCur cur
  rw [Bool.eq_false_iff,Ne,Ring.fullIff linked.tre]
  omega

theorem finishInv {t : τ} {node : Nat} {got : Bytes} {reply : DmaReply} (inv : Inv wt wb s) (wide : wt.count ≤ wb.count)
    (here : s.uci.reader = some (t,.copied got)) (cur : s.uci.curBuf = some node) (allowed : may s got reply) :
    Inv wt wb (s.finish t node got reply) ∧ Effect may s (s.finish t node got reply) := by
  obtain ⟨sound,-⟩ := finishSound inv.sound here cur
  obtain ⟨part,last⟩ := @finishCounts τ s.uci t node got cur
  obtain ⟨h,t',linked⟩ := inv.rings
  have bound := inv.bound
  have one := heldCur cur
  unfold Node.finish
  by_cases whole : s.uci.dlSize-got.length = 0
  · rw [if_neg (not_not.mpr whole)]
    obtain ⟨queued,length⟩ := last whole
    cases ran : mhiQueueBuf s.port (s.uci.ubuf node).data (s.uci.mtu-sizeofUciBuf) MhiFlags.eot reply with
    | mk port err =>
      cases err with
      | none =>
        refine ⟨⟨sound,⟨h,t'+1,?_⟩,?_⟩,.answers t got rfl⟩
        · show Linked wt wb port.chan (s.uci.finish t node got).queued h (t'+1)
          rw [queued]
          exact linkedQueue linked wide ran
        · show s.left+(s.uci.finish t node got).queued.length+(held (s.uci.finish t node got)).length ≤ _
          rw [queued,length,List.length_append,List.length_singleton]
          omega
      | some e =>
        obtain ⟨sound,split⟩ := dropSound inv.sound
        refine ⟨⟨sound,⟨h,t',linkedRefused linked ran⟩,?_⟩,.loses t got node reply here cur allowed whole ?_ rfl split⟩
        · have dropped : (held {s.uci with dlSize := 0, curBuf := none, reader := none}).length = s.uci.dlPending.length := rfl
          show s.left+s.uci.queued.length+(held {s.uci with dlSize := 0, curBuf := none, reader := none}).length ≤ _
          rw [dropped]
          omega
        · rw [ran]
          simp
  · rw [if_pos whole]
    obtain ⟨queued,length⟩ := part whole
    have stays := inv.withUci sound ⟨queued,length⟩
    exact ⟨⟨stays.sound,stays.rings,stays.bound⟩,.answers t got rfl⟩

theorem stepInv (wide : wt.count ≤ wb.count) (step : Step may s s') (inv : Inv wt wb s) : Inv wt wb s' ∧ Effect may s s' := by
  have kept : ∀ {s' : Node τ}, Inv wt wb s' ∧ Keeps s.uci s'.uci → Inv wt wb s' ∧ Effect may s s' :=
    fun both => ⟨both.1,.keeps both.2⟩
  obtain ⟨h,t,linked⟩ := inv.rings
  have bound := inv.bound
  cases step with
  | inbound buf reply port junk more fresh ran =>
    obtain ⟨sound,keeps⟩ := @inboundSound τ s.uci buf {s.uci.ubuf (buf+s.uci.mtu) with data := buf} junk inv.sound fresh
    refine kept ⟨⟨sound,⟨h,t+1,linkedQueue linked wide ran⟩,?_⟩,keeps⟩
    show s.left-1+(s.uci.queued ++ [(buf,s.uci.mtu)]).length+(held s.uci).length ≤ _
    rw [List.length_append,List.length_singleton]
    omega
  | dma buf len off v junk queued inside =>
    obtain ⟨sound,keeps⟩ := @dmaSound τ s.uci buf len off v junk inv.sound queued inside
    exact kept ⟨inv.withUci sound ⟨rfl,rfl⟩,keeps⟩
  | completion r junk outstanding named' fits =>
    obtain ⟨rest,queued,linked'⟩ := linkedRetire linked outstanding r
    have tail : s.uci.queued.tail = rest := congrArg List.tail queued
    have fewer : rest.length+1 = s.uci.queued.length := (congrArg List.length queued).symm
    unfold Node.completion mhiDlXferCb
    rw [tail]
    split
    · rw [named']
      obtain ⟨sound,keeps⟩ := @completionSound τ s.uci _ _ r.bytesXferd rest junk inv.sound queued fits
      refine kept ⟨⟨sound,⟨h+1,t,linked'⟩,?_⟩,keeps⟩
      have more := @arrivedHeld τ {s.uci with queued := rest} (s.port.chan.bufMem s.port.chan.bufRing.rp).cbBuf r.bytesXferd junk
      show s.left+rest.length+(held ({s.uci with queued := rest}.mhiDlXferCb _ r.bytesXferd junk)).length ≤ _
      rw [more]
      show s.left+rest.length+((held s.uci).length+1) ≤ _
      omega
    · obtain ⟨sound,keeps⟩ := freedSound inv.sound queued
      refine kept ⟨⟨sound,⟨h+1,t,linked'⟩,?_⟩,keeps⟩
      show s.left+rest.length+(held s.uci).length ≤ _
      omega
  | controller cntrl => exact kept ⟨⟨inv.sound,⟨h,t,linked.tre,linked.buf,linked.names⟩,bound⟩,keepsRefl _⟩
  | removed => exact kept ⟨⟨inv.sound,inv.rings,bound⟩,keepsRefl _⟩
  | opened => exact kept ⟨⟨inv.sound,inv.rings,bound⟩,keepsRefl _⟩
  | released shared => exact kept ⟨⟨inv.sound,inv.rings,bound⟩,keepsRefl _⟩
  | refused t => exact kept ⟨⟨inv.sound,inv.rings,bound⟩,keepsRefl _⟩
  | lock t count nonblock filled free => exact kept (phaseInv inv fun _ _ here => nomatch here)
  | check t count nonblock here =>
    unfold Node.check
    split
    · split
      · exact kept (failInv inv)
      · exact kept (phaseInv inv fun _ _ here => nomatch here)
    · exact kept (takeInv inv)
  | wake t count here ready => exact kept (phaseInv inv fun _ _ here => nomatch here)
  | signal t count here => exact kept (failInv inv)
  | woken t count here =>
    unfold Node.woken
    split
    · exact kept (takeInv inv)
    · exact kept (failInv inv)
  | copy t count node here cur =>
    obtain ⟨sound,keeps⟩ := copySound inv.sound here cur
    exact kept ⟨inv.withUci sound ⟨rfl,rfl⟩,keeps⟩
  | fault t count here => exact kept (failInv inv)
  | finish t got node reply here cur allowed => exact finishInv inv wide here cur allowed

theorem openingInv (opening : Opening wt wb s) : wt.count ≤ wb.count ∧ Inv wt wb s := by
  obtain ⟨name,driverData,vz,ch,port,bytes,ubuf,listed,started,rfl,rfl⟩ := opening.start
  have fifo := (TransferFifo.startFifo started).fifo
  refine ⟨Nat.le_refl _,?_,⟨0,0,fifo.tre,fifo.buf,?_⟩,?_⟩
  · have inv := UciRead.openedInv (τ := τ) ⟨name,driverData,bytes,ubuf,[],listed,List.Pairwise.nil,rfl⟩
    exact (rebased inv rfl).1
  · rw [Window.viewEmpty]
    rfl
  · have free : mhiGetFreeDescCount port = ((0+wt.count-1-0 : Nat) : Int) := Ring.availOf fifo.tre
    show (mhiGetFreeDescCount port).toNat+0+0 ≤ _
    rw [free,Int.toNat_natCast]
    omega

theorem runInv (opening : Opening wt wb s) (run : ReflTransGen (Step may) s s') : wt.count ≤ wb.count ∧ Inv wt wb s' := by
  obtain ⟨wide,inv⟩ := openingInv opening
  exact ⟨wide,Runs.keeps (fun _ _ step inv => (stepInv wide step inv).1) run inv⟩

end Runs

/-! A ring of two elements; its one buffer receives two bytes, which a read of eight returns. -/
section Sample

def downlinkConfig : ChannelConfig := ⟨"DIAG",5,2,0,0,.fromDevice,ExecEnv.amss.bit,some .disable,false,false,false⟩
def downlinkChan : Chan :=
  {(configureChan 128 downlinkConfig).getD Chan.zero with
    treRing := layRing ((configureChan 128 downlinkConfig).getD Chan.zero).treRing 0x1000 0x8000}
def downlinkPort : Port := ⟨TransferFifo.idleCntrl,(mhiInitChanCtxt downlinkChan (some 0x4000)).1⟩
def downlinkWindow : Window := treWindow 0x1000 2 (by decide)

theorem downlinkStarted : Started downlinkWindow 0x4000 downlinkChan downlinkPort where
  config := TransferFifo.configuredOf (show configureChan 128 downlinkConfig = some _ from rfl) (by decide) rfl rfl rfl
    (by decide) (by decide) (by decide)
  block := by decide
  fresh := ⟨rfl,rfl⟩
  init := rfl

def opened : Node Nat := Node.start 0x1000 downlinkPort (fun _ => 0) fun _ => ⟨0,0⟩
def openedRing : Port := (mhiQueueBuf downlinkPort 0x9000 0x1000 MhiFlags.eot ⟨0x9000,0,true⟩).1
def filled : Node Nat := opened.inbound 0x9000 openedRing fun _ => 0
def written (first second : UInt8) : Node Nat :=
  (filled.withUci (filled.uci.dmaWrite (0x9000 + 0) first fun _ => ⟨0,0⟩)).withUci
    ((filled.uci.dmaWrite (0x9000 + 0) first fun _ => ⟨0,0⟩).dmaWrite (0x9000 + 1) second fun _ => ⟨0,0⟩)
def received : Node Nat := (written 7 9).completion ⟨0x9000,some .fromDevice,2,none⟩ fun _ => 0
def locked : Node Nat := received.withUci (received.uci.at' 3 (.entered 8 false))
def taken : Node Nat := locked.check 3 8 false
def copied : Node Nat := taken.withUci (taken.uci.copy 3 (0x9000 + 0x1000) 8)

theorem openedOpening : Opening downlinkWindow (bufWindow 0x4000 downlinkWindow) opened :=
  ⟨"DIAG",0x1000,0x4000,downlinkChan,downlinkPort,_,_,by decide,downlinkStarted,rfl,rfl⟩

theorem receivedRun {may : Node Nat → Bytes → DmaReply → Prop} : ReflTransGen (Step may) opened received := by
  have inbound : Step may opened filled :=
    .inbound 0x9000 ⟨0x9000,0,true⟩ openedRing _ (by decide) (fun _ here => nomatch here) rfl
  have first : Step may filled _ := .dma 0x9000 0x1000 0 7 (fun _ => ⟨0,0⟩) (List.mem_singleton.mpr rfl) (by decide)
  have second : Step may _ (written 7 9) := .dma 0x9000 0x1000 1 9 (fun _ => ⟨0,0⟩) (List.mem_singleton.mpr rfl) (by decide)
  have completed : Step may (written 7 9) received := .completion _ _ (by decide) (by decide) (by decide)
  exact (((ReflTransGen.single inbound).tail first).tail second).tail completed

theorem copiedRun {may : Node Nat → Bytes → DmaReply → Prop} : ReflTransGen (Step may) opened copied := by
  have lock : Step may received locked := .lock 3 8 false (by decide) rfl
  have check : Step may locked taken := .check 3 8 false rfl
  have copy : Step may taken copied := .copy 3 8 (0x9000 + 0x1000) rfl rfl
  exact ((receivedRun.tail lock).tail check).tail copy

end Sample

section Bound
variable {τ : Type} {may : Node τ → Bytes → DmaReply → Prop} {wt wb : Window} {s s' : Node τ}

def onRing (wb : Window) (ch : Chan) : List (Nat × Nat) := (Ring.outstanding wb ch.bufRing).map fun cell => named (ch.bufMem cell)

def pool (wb : Window) (s : Node τ) : List Nat :=
  (onRing wb s.port.chan).map Prod.fst ++ (held s.uci).map fun node => (s.uci.ubuf node).data

theorem onRingQueued {h t : Nat} (linked : Linked wt wb s.port.chan s.uci.queued h t) : onRing wb s.port.chan = s.uci.queued := by
  have view := Ring.outstandingView linked.buf s.port.chan.bufMem
  rw [← linked.names,← view,List.map_map]
  rfl

theorem poolBounded (opening : Opening wt wb s) (run : ReflTransGen (Step may) s s') :
    (pool wb s').Nodup ∧ (pool wb s').length ≤ wt.count-1 ∧
      ∀ t got, s'.uci.reader = some (t,.copied got) → mhiIsRingFull s'.port.chan.treRing = false := by
  obtain ⟨-,inv⟩ := runInv opening run
  obtain ⟨h,t,linked⟩ := inv.rings
  have same : pool wb s' = blocks s'.uci := by
    unfold pool
    rw [onRingQueued linked]
    rfl
  refine ⟨?_,?_,fun t got here => ?_⟩
  · rw [same]
    refine List.Pairwise.imp ?_ inv.sound.apart
    intro a b apart equal
    have some : 0 < sizeofUciBuf := by decide
    unfold Apart at apart
    omega
  · have bound := inv.bound
    rw [same]
    show (s'.uci.queued.map Prod.fst ++ (held s'.uci).map _).length ≤ _
    rw [List.length_append,List.length_map,List.length_map]
    omega
  · obtain ⟨node,_,cur,-⟩ := inv.sound.copying t got here
    exact roomForCur inv cur

def wideConfig : ChannelConfig := {downlinkConfig with numElements := 4}
def wideChan : Chan :=
  {(configureChan 128 wideConfig).getD Chan.zero with
    treRing := layRing ((configureChan 128 wideConfig).getD Chan.zero).treRing 0x1000 0x8000}
def widePort : Port := ⟨TransferFifo.idleCntrl,(mhiInitChanCtxt wideChan (some 0x4000)).1⟩
def wideWindow : Window := treWindow 0x1000 4 fourElements

theorem wideStarted : Started wideWindow 0x4000 wideChan widePort where
  config := TransferFifo.configuredOf (show configureChan 128 wideConfig = some _ from rfl) (by decide) rfl rfl rfl
    (by decide) (by decide) (by decide)
  block := by decide
  fresh := ⟨rfl,rfl⟩
  init := rfl

def wideOpened : Node Nat := Node.start 0x1000 widePort (fun _ => 0) fun _ => ⟨0,0⟩
def stock (buf : Nat) (s : Node Nat) : Node Nat :=
  s.inbound buf (mhiQueueBuf s.port buf 0x1000 MhiFlags.eot ⟨buf,0,true⟩).1 fun _ => 0
def stocked : Node Nat := stock 0xd000 (stock 0xb000 (stock 0x9000 wideOpened))
def waiting : Node Nat := stocked.completion ⟨0x9000,some .fromDevice,2,none⟩ fun _ => 0
def reading : Node Nat := (waiting.withUci (waiting.uci.at' 3 (.entered 8 false))).check 3 8 false
def wideCopied : Node Nat := reading.withUci (reading.uci.copy 3 (0x9000 + 0x1000) 8)

theorem wideOpening : Opening wideWindow (bufWindow 0x4000 wideWindow) wideOpened :=
  ⟨"DIAG",0x1000,0x4000,wideChan,widePort,_,_,by decide,wideStarted,rfl,rfl⟩

theorem wideRun : ReflTransGen (Step fun _ _ _ => True) wideOpened wideCopied := by
  have stocks (buf : Nat) {s : Node Nat} (more : 0 < s.left) (fresh : ∀ b ∈ blocks s.uci, Apart s.uci.mtu buf b)
      (ran : mhiQueueBuf s.port buf s.uci.mtu MhiFlags.eot ⟨buf,0,true⟩ = ((mhiQueueBuf s.port buf 0x1000 MhiFlags.eot ⟨buf,0,true⟩).1,none)) :
      Step (fun _ _ _ => True) s (stock buf s) := .inbound buf _ _ _ more fresh ran
  have full : ReflTransGen (Step fun _ _ _ => True) wideOpened stocked :=
    ((ReflTransGen.single (stocks 0x9000 (by decide) (by unfold Apart; decide) rfl)).tail (stocks 0xb000 (by decide) (by unfold Apart; decide) rfl)).tail
      (stocks 0xd000 (by decide) (by unfold Apart; decide) rfl)
  have came : Step (fun _ _ _ => True) stocked waiting := .completion _ _ (by decide) (by decide) (by decide)
  have lock : Step (fun _ _ _ => True) waiting (waiting.withUci (waiting.uci.at' 3 (.entered 8 false))) :=
    .lock 3 8 false (by decide) rfl
  have check : Step (fun _ _ _ => True) (waiting.withUci (waiting.uci.at' 3 (.entered 8 false))) reading := .check 3 8 false rfl
  have copy : Step (fun _ _ _ => True) reading wideCopied := .copy 3 8 (0x9000 + 0x1000) rfl rfl
  exact (((full.tail came).tail lock).tail check).tail copy

theorem poolBoundedCopied : (pool (bufWindow 0x4000 wideWindow) wideCopied).Nodup ∧
    (pool (bufWindow 0x4000 wideWindow) wideCopied).length = 3 ∧ mhiIsRingFull wideCopied.port.chan.treRing = false := by
  obtain ⟨apart,-,room⟩ := poolBounded wideOpening wideRun
  exact ⟨apart,by decide,room 3 [0,0] rfl⟩

end Bound

/-! How long the queued buffers are. -/
section Capacity
variable {τ : Type} {wt wb : Window} {s s' : Node τ}

def Takes (p : Port) (reply : DmaReply) : Prop := mhiPmInErrorState p.cntrl.pmState = false ∧ reply.ok = true

/- The read leaves something of its packet, or the buffer does not get back to the ring. -/
def Unrecycled (s : Node τ) (got : Bytes) (reply : DmaReply) : Prop := got.length < s.uci.dlSize ∨ ¬Takes s.port reply

def Whole (mtu : Nat) (wb : Window) (s : Node τ) : Prop :=
  (∀ x ∈ onRing wb s.port.chan, x.2 = mtu ∧ ∀ off < x.2, ¬(x.1+mtu ≤ x.1+off ∧ x.1+off < x.1+mtu+sizeofUciBuf)) ∧
    ∀ ev, s.port.chan.treRing.rp ≠ s.port.chan.treRing.wp → ev.getEvLen ≤ mtu →
      (xferResult s.port ev s.port.chan.treRing.rp).bytesXferd = ev.getEvLen

structure Sized (mtu : Nat) (s : Node τ) : Prop where
  same : s.uci.mtu = mtu
  lens : ∀ x ∈ s.uci.queued, x.2 = mtu

theorem Sized.kept {mtu : Nat} (sized : Sized mtu s) (same : s'.uci.mtu = s.uci.mtu)
    (fewer : ∀ x ∈ s'.uci.queued, x ∈ s.uci.queued) :
    Sized mtu s' := ⟨same.trans sized.same,fun x member => sized.lens x (fewer x member)⟩

theorem takeSized {mtu count : Nat} {t : τ} (sized : Sized mtu s) : Sized mtu (s.take t count) := by
  unfold Node.take
  split
  · exact sized.kept rfl fun _ member => member
  · refine sized.kept ?_ ?_
    · show (s.uci.take t count).mtu = s.uci.mtu
      unfold Uci.take
      split
      · rfl
      · split <;> rfl
    · show ∀ x ∈ (s.uci.take t count).queued, x ∈ s.uci.queued
      rw [(@takeCounts τ s.uci t count).1]
      exact fun _ member => member

theorem recycled {node buf len : Nat} {reply : DmaReply} (inv : Inv wt wb s) (cur : s.uci.curBuf = some node) :
    (mhiQueueBuf s.port buf len MhiFlags.eot reply).2 = none ↔ Takes s.port reply := by
  rw [UciWrite.queueAccepts buf len MhiFlags.eot reply]
  exact and_iff_left (roomForCur inv cur)

theorem finishSized {mtu node : Nat} {t : τ} {got : Bytes} {reply : DmaReply} (inv : Inv wt wb s) (cur : s.uci.curBuf = some node)
    (unrecycled : Unrecycled s got reply) (sized : Sized mtu s) : Sized mtu (s.finish t node got reply) := by
  obtain ⟨part,-⟩ := @finishCounts τ s.uci t node got cur
  have mtuSame : (s.uci.finish t node got).mtu = s.uci.mtu := by
    unfold Uci.finish
    dsimp only
    split <;> rfl
  unfold Node.finish
  by_cases whole : s.uci.dlSize-got.length = 0
  · rw [if_neg (not_not.mpr whole)]
    cases ran : mhiQueueBuf s.port (s.uci.ubuf node).data (s.uci.mtu-sizeofUciBuf) MhiFlags.eot reply with
    | mk port err =>
      cases err with
      | none =>
        have takes := (recycled inv cur).mp (congrArg Prod.snd ran)
        rcases unrecycled with less | refuses
        · omega
        · exact absurd takes refuses
      | some e => exact sized.kept rfl fun _ member => member
  · rw [if_pos whole]
    refine sized.kept mtuSame ?_
    show ∀ x ∈ (s.uci.finish t node got).queued, x ∈ s.uci.queued
    rw [(part whole).1]
    exact fun _ member => member

theorem stepSized {mtu : Nat} (inv : Inv wt wb s) (step : Step Unrecycled s s') (sized : Sized mtu s) : Sized mtu s' := by
  cases step with
  | inbound buf reply port junk more fresh ran =>
    refine ⟨sized.same,fun x member => ?_⟩
    rcases List.mem_append.mp member with before | last
    · exact sized.lens x before
    · rw [List.mem_singleton.mp last]
      exact sized.same
  | completion r junk outstanding named fits =>
    have popped : ∀ x ∈ s.uci.queued.tail, x ∈ s.uci.queued := fun _ => List.mem_of_mem_tail
    unfold Node.completion mhiDlXferCb
    split
    · exact sized.kept rfl popped
    · exact sized.kept rfl popped
  | check t count nonblock here =>
    unfold Node.check
    split
    · split
      · exact sized.kept rfl fun _ member => member
      · exact sized.kept rfl fun _ member => member
    · exact takeSized sized
  | woken t count here =>
    unfold Node.woken
    split
    · exact takeSized sized
    · exact sized.kept rfl fun _ member => member
  | finish t got node reply here cur allowed => exact finishSized inv cur allowed sized
  | _ => exact sized.kept rfl fun _ member => member

theorem sizedWhole {mtu : Nat} (inv : Inv wt wb s) (small : mtu ≤ mhiMaxMtu) (sized : Sized mtu s) : Whole mtu wb s := by
  obtain ⟨h,t,linked⟩ := inv.rings
  refine ⟨?_,?_⟩
  · rw [onRingQueued linked]
    intro x member
    have len := sized.lens x member
    refine ⟨len,fun off below => ?_⟩
    omega
  · intro ev outstanding fits
    obtain ⟨rest,queued,-⟩ := linkedRetire linked outstanding ⟨0,none,0,none⟩
    have len : (s.port.chan.bufMem s.port.chan.bufRing.rp).len = mtu :=
      sized.lens _ (queued ▸ List.mem_cons_self)
    unfold xferResult
    dsimp only
    unfold mhiMaxMtu at small
    rw [if_pos rfl,len,Nat.mod_eq_of_lt (by omega)]
    exact Nat.min_eq_left fits

theorem capacityConstant (opening : Opening wt wb s) (run : ReflTransGen (Step Unrecycled) s s') :
    Whole s'.uci.mtu wb s' ∧ ∀ t got node reply, s'.uci.reader = some (t,.copied got) → s'.uci.curBuf = some node →
      ¬Unrecycled s' got reply → ¬Whole s'.uci.mtu wb (s'.finish t node got reply) := by
  obtain ⟨wide,first⟩ := openingInv opening
  have opened : Sized s.uci.mtu s ∧ s.uci.mtu ≤ mhiMaxMtu := by
    obtain ⟨name,driverData,vz,ch,port,bytes,ubuf,listed,started,block,rfl⟩ := opening.start
    exact ⟨⟨rfl,fun _ member => nomatch member⟩,Nat.min_le_right _ _⟩
  have turn : ∀ a b : Node τ, Step Unrecycled a b → Inv wt wb a ∧ Sized s.uci.mtu a → Inv wt wb b ∧ Sized s.uci.mtu b :=
    fun _ _ step both => ⟨(stepInv wide step both.1).1,stepSized both.1 step both.2⟩
  have both := Runs.keeps turn run ⟨first,opened.1⟩
  obtain ⟨inv,sized⟩ := both
  have same := sized.same
  refine ⟨?_,?_⟩
  · rw [same]
    exact sizedWhole inv opened.2 sized
  · intro t got node reply here cur recycles whole
    have used : s'.uci.dlSize-got.length = 0 := by
      have none : ¬got.length < s'.uci.dlSize := fun less => recycles (.inl less)
      omega
    have takes : Takes s'.port reply := not_not.mp fun refuses => recycles (.inr refuses)
    have ran := (@recycled τ wt wb s' node (s'.uci.ubuf node).data (s'.uci.mtu-sizeofUciBuf) reply inv cur).mpr takes
    have back : (s'.finish t node got reply).uci.queued =
        s'.uci.queued ++ [((s'.uci.ubuf node).data,s'.uci.mtu-sizeofUciBuf)] := by
      unfold Node.finish
      rw [if_neg (not_not.mpr used)]
      cases queued : mhiQueueBuf s'.port (s'.uci.ubuf node).data (s'.uci.mtu-sizeofUciBuf) MhiFlags.eot reply with
      | mk port err =>
        rw [queued] at ran
        cases ran
        exact ((finishCounts cur).2 used).1
    obtain ⟨h,t',linked⟩ := (@finishInv τ (fun _ _ _ => True) wt wb s' t node got reply inv wide here cur trivial).1.rings
    have short := (whole.1 ((s'.uci.ubuf node).data,s'.uci.mtu-sizeofUciBuf) (by
      rw [onRingQueued linked,back]
      exact List.mem_append_right _ List.mem_cons_self)).1
    have room := inv.sound.room
    have some : 0 < sizeofUciBuf := by decide
    dsimp only at short
    change sizeofUciBuf ≤ s'.uci.mtu at room
    omega

/- The buffer that held two bytes comes back 32 bytes shorter. -/
theorem capacityShrinks : ReflTransGen (Step fun _ _ _ => True) opened (copied.finish 3 (0x9000+0x1000) [7,9] ⟨0x9000,0,true⟩) ∧
    onRing (bufWindow 0x4000 downlinkWindow) filled.port.chan = [(0x9000,0x1000)] ∧
    onRing (bufWindow 0x4000 downlinkWindow) (copied.finish 3 (0x9000+0x1000) [7,9] ⟨0x9000,0,true⟩).port.chan =
    [(0x9000,0xfe0)] ∧
    (xferResult (copied.finish 3 (0x9000+0x1000) [7,9] ⟨0x9000,0,true⟩).port ⟨0x1010,EvCc.eot <<< 24 ||| 0x1000,0⟩
      (copied.finish 3 (0x9000+0x1000) [7,9] ⟨0x9000,0,true⟩).port.chan.treRing.rp).bytesXferd = 0xfe0 :=
  ⟨copiedRun.tail (.finish 3 [7,9] (0x9000+0x1000) ⟨0x9000,0,true⟩ rfl rfl trivial),by decide,by decide,by decide⟩

theorem capacityConstantFilled : Whole 0x1000 (bufWindow 0x4000 downlinkWindow) filled ∧
    ¬Whole 0x1000 (bufWindow 0x4000 downlinkWindow) (copied.finish 3 (0x9000+0x1000) [7,9] ⟨0x9000,0,true⟩) := by
  have inbound : Step Unrecycled opened filled :=
    .inbound 0x9000 ⟨0x9000,0,true⟩ openedRing _ (by decide) (fun _ here => nomatch here) rfl
  have recycles : ¬Unrecycled copied [7,9] ⟨0x9000,0,true⟩ := by
    unfold Unrecycled Takes
    decide
  exact ⟨(capacityConstant openedOpening (.single inbound)).1,
    (capacityConstant openedOpening copiedRun).2 3 [7,9] (0x9000+0x1000) ⟨0x9000,0,true⟩ rfl rfl recycles⟩

end Capacity

/-! A read that fails. -/
section Failures
variable {τ : Type} {may : Node τ → Bytes → DmaReply → Prop} {wt wb : Window} {s₀ s s' : Node τ}

def Careful (s : Node τ) (got : Bytes) (reply : DmaReply) : Prop :=
  s.uci.dlSize = 0 ∨ got.length < s.uci.dlSize ∨ Takes s.port reply

theorem takeReturns {t : τ} {count : Nat} : ∃ more, (s.take t count).returns = s.returns ++ more := by
  unfold Node.take
  split
  · exact ⟨_,rfl⟩
  · exact ⟨[],(List.append_nil _).symm⟩

theorem finishReturns {t : τ} {node : Nat} {got : Bytes} {reply : DmaReply} :
    ∃ more, (s.finish t node got reply).returns = s.returns ++ more := by
  unfold Node.finish
  split
  · exact ⟨_,rfl⟩
  · split <;> exact ⟨_,rfl⟩

theorem stepReturns (step : Step may s s') : ∃ more, s'.returns = s.returns ++ more := by
  cases step with
  | refused t => exact ⟨_,rfl⟩
  | check t count nonblock here =>
    unfold Node.check
    split
    · split
      · exact ⟨_,rfl⟩
      · exact ⟨[],(List.append_nil _).symm⟩
    · exact takeReturns
  | signal t count here => exact ⟨_,rfl⟩
  | woken t count here =>
    unfold Node.woken
    split
    · exact takeReturns
    · exact ⟨_,rfl⟩
  | fault t count here => exact ⟨_,rfl⟩
  | finish t got node reply here cur allowed => exact finishReturns
  | _ => exact ⟨[],(List.append_nil _).symm⟩

def Failing (returns : List (τ × Except ReadError Bytes)) : Prop := ∀ r ∈ returns, ∃ e, r.2 = .error e

theorem remainderLength {u : Uci τ} {node : Nat} (cur : u.curBuf = some node) : (UciRead.remainder u).length = u.dlSize := by
  unfold UciRead.remainder
  rw [cur]
  exact UciRead.spanLength _ _ _

theorem answersApart {more : List (τ × Except ReadError Bytes)} {t : τ} {got : Bytes} (returns : s'.returns = s.returns ++ more)
    (answered : s'.returns = s.returns ++ [(t,.ok got)]) : ¬Failing more := by
  intro failing
  have own : more = [(t,.ok got)] := List.append_cancel_left (returns.symm.trans answered)
  obtain ⟨e,is⟩ := failing (t,.ok got) (own ▸ List.mem_cons_self)
  cases is

theorem carefulKeeps (wide : wt.count ≤ wb.count) (inv : Inv wt wb s) (step : Step Careful s s')
    {more : List (τ × Except ReadError Bytes)} (returns : s'.returns = s.returns ++ more) (failing : Failing more) :
    Keeps s.uci s'.uci := by
  cases (stepInv wide step inv).2 with
  | keeps keeps => exact keeps
  | answers t got answered => exact absurd failing (answersApart returns answered)
  | loses t got node reply here cur allowed whole refused received split =>
    rcases allowed with empty | less | takes
    · have nothing : UciRead.remainder s.uci = [] := List.eq_nil_of_length_eq_zero ((remainderLength cur).trans empty)
      refine ⟨[],received.trans (List.append_nil _).symm,?_⟩
      rw [split,nothing,List.append_nil]
      rfl
    · omega
    · exact absurd ((recycled inv cur).mpr takes) refused

theorem runKeeps (wide : wt.count ≤ wb.count) (inv : Inv wt wb s) (run : ReflTransGen (Step Careful) s s') :
    Inv wt wb s' ∧ ∃ more, s'.returns = s.returns ++ more ∧ (Failing more → Keeps s.uci s'.uci) := by
  induction run with
  | refl => exact ⟨inv,[],(List.append_nil _).symm,fun _ => keepsRefl _⟩
  | tail _ step ih =>
    obtain ⟨before,more,returns,keeps⟩ := ih
    obtain ⟨last,returned⟩ := stepReturns step
    refine ⟨(stepInv wide step before).1,more ++ last,?_,fun failing => ?_⟩
    · rw [returned,returns,List.append_assoc]
    · have first := keeps fun r member => failing r (List.mem_append_left _ member)
      exact first.trans (carefulKeeps wide before step returned fun r member => failing r (List.mem_append_right _ member))

theorem finishDrops {t : τ} {node : Nat} {got : Bytes} {reply : DmaReply} (inv : Inv wt wb s) (cur : s.uci.curBuf = some node)
    (used : s.uci.dlSize-got.length = 0) (refuses : ¬Takes s.port reply) :
    (s.finish t node got reply).uci.received = s.uci.received ∧
      unread s.uci = UciRead.remainder s.uci ++ unread (s.finish t node got reply).uci := by
  have refused := fun ran => refuses ((@recycled τ wt wb s node (s.uci.ubuf node).data (s.uci.mtu-sizeofUciBuf) reply inv cur).mp ran)
  unfold Node.finish
  rw [if_neg (not_not.mpr used)]
  cases ran : mhiQueueBuf s.port (s.uci.ubuf node).data (s.uci.mtu-sizeofUciBuf) MhiFlags.eot reply with
  | mk port err =>
    cases err with
    | none => exact absurd (congrArg Prod.snd ran) refused
    | some e => exact ⟨rfl,(dropSound inv.sound).2⟩

theorem failedReadKeeps (opening : Opening wt wb s₀) (reach : ReflTransGen (Step may) s₀ s) :
    (∀ s' errs, ReflTransGen (Step Careful) s s' → s'.returns = s.returns ++ errs → Failing errs → Keeps s.uci s'.uci) ∧
      ∀ t got node reply e, s.uci.reader = some (t,.copied got) → s.uci.curBuf = some node →
        (s.finish t node got reply).returns = s.returns ++ [(t,.error e)] →
          (Keeps s.uci (s.finish t node got reply).uci ↔ Careful s got reply) := by
  obtain ⟨wide,inv⟩ := runInv opening reach
  refine ⟨fun s' errs run returns failing => ?_,fun t got node reply e here cur returns => ⟨fun keeps => ?_,fun careful => ?_⟩⟩
  · obtain ⟨-,more,returned,keeps⟩ := runKeeps wide inv run
    have own : errs = more := List.append_cancel_left (returns.symm.trans returned)
    exact keeps (own ▸ failing)
  · by_contra careless
    obtain ⟨filled,used,refuses⟩ : s.uci.dlSize ≠ 0 ∧ ¬got.length < s.uci.dlSize ∧ ¬Takes s.port reply :=
      ⟨fun empty => careless (.inl empty),fun less => careless (.inr (.inl less)),fun takes => careless (.inr (.inr takes))⟩
    obtain ⟨same,split⟩ := @finishDrops τ wt wb s t node got reply inv cur (by omega) refuses
    obtain ⟨more,received,rest⟩ := keeps
    rw [same] at received
    have nothing : more = [] := List.self_eq_append_right.mp received
    rw [nothing,List.append_nil] at rest
    rw [← rest] at split
    have lengths := congrArg List.length split
    rw [List.length_append,remainderLength cur,rest] at lengths
    omega
  · have failing : Failing [((t,.error e) : τ × Except ReadError Bytes)] :=
      fun r member => ⟨e,congrArg Prod.snd (List.mem_singleton.mp member)⟩
    exact carefulKeeps wide inv (.finish t got node reply here cur careful) returns failing

theorem failedReadLoses : ReflTransGen (Step fun _ _ _ => True) opened (copied.finish 3 (0x9000+0x1000) [7,9] ⟨0,0,false⟩) ∧
    (copied.finish 3 (0x9000+0x1000) [7,9] ⟨0,0,false⟩).returns = [(3,.error (.queue .enomem))] ∧
    unread received.uci = [7,9] ∧ unread (copied.finish 3 (0x9000+0x1000) [7,9] ⟨0,0,false⟩).uci = [] :=
  ⟨copiedRun.tail (.finish 3 [7,9] (0x9000+0x1000) ⟨0,0,false⟩ rfl rfl trivial),by decide,by decide,by decide⟩

theorem failedReadKeepsFault : Keeps received.uci (taken.fail 3 .efault).uci := by
  have reach : ReflTransGen (Step fun _ _ _ => True) opened received := receivedRun
  have lock : Step Careful received locked := .lock 3 8 false (by decide) rfl
  have check : Step Careful locked taken := .check 3 8 false rfl
  have fault : Step Careful taken (taken.fail 3 .efault) := .fault 3 8 rfl
  exact (failedReadKeeps openedOpening reach).1 _ [(3,.error .efault)] (((ReflTransGen.single lock).tail check).tail fault) rfl
    fun r member => ⟨.efault,congrArg Prod.snd (List.mem_singleton.mp member)⟩

end Failures

end MhiHost.UciPool
