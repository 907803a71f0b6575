import MhiHost.Internal
import MhiHost.Runs
import MhiHost.Wire
import Mathlib.Data.List.Basic
import Mathlib.Data.List.Perm.Basic

/-! Reading a UCI node. A received buffer waits on `dl_pending`, is then the reader's
`cur_buf` until its last byte is copied, and is queued again. Memory is flat: a buffer
and, behind its `mtu` bytes, its `uci_buf` are one allocation, the device may write
anywhere in what is queued, and a write that hits a `uci_buf` leaves it arbitrary.
Only the thread that holds `read_lock` has a state of its own. -/
namespace MhiHost.UciRead
open Wire (Bytes)
open Relation (ReflTransGen)

def mhiUciMatchTable : List (String × Nat) :=
  [("LOOPBACK",0x1000),("SAHARA",0x4000),("EDL",0x4000),("DIAG",0x1000),("MBIM",0x1000),("QMI",0x1000),("DUN",0x1000)]

def mtuOf (driverData : Nat) : Nat := min driverData mhiMaxMtu

structure UciBuf where
  data : Nat
  len : Nat
  deriving DecidableEq, Repr

def sizeofUciBuf : Nat := 32

inductive Phase where
  | entered (count : Nat) (nonblock : Bool)
  | waiting (count : Nat)
  | woken (count : Nat)
  | taken (count : Nat)
  | copied (got : Bytes)
  deriving DecidableEq, Repr

structure Uci (τ : Type) where
  mtu : Nat
  bytes : Nat → UInt8
  ubuf : Nat → UciBuf
  queued : List (Nat × Nat)
  dlPending : List Nat
  curBuf : Option Nat
  dlSize : Nat
  reader : Option (τ × Phase)
  reads : List (τ × Bytes)
  received : Bytes

def span (bytes : Nat → UInt8) (addr n : Nat) : Bytes := (List.range n).map fun i => bytes (addr + i)

section Memory
variable {τ : Type}

namespace Uci

def start (mtu : Nat) (bytes : Nat → UInt8) (ubuf : Nat → UciBuf) (bufs : List Nat) : Uci τ :=
  ⟨mtu,bytes,ubuf,bufs.map (·,mtu),[],none,0,none,[],[]⟩

/- One byte of a transfer; `junk` is what it makes of a `uci_buf` it falls into. -/
def dmaWrite (s : Uci τ) (addr : Nat) (v : UInt8) (junk : Nat → UciBuf) : Uci τ :=
  {s with
    bytes := Function.update s.bytes addr v
    ubuf := fun u => if u ≤ addr ∧ addr < u + sizeofUciBuf then junk u else s.ubuf u}

def setUbuf (s : Uci τ) (u : Nat) (b : UciBuf) (junk : Nat → UInt8) : Uci τ :=
  {s with
    ubuf := Function.update s.ubuf u b
    bytes := fun a => if u ≤ a ∧ a < u + sizeofUciBuf then junk a else s.bytes a}

def mhiDlXferCb (s : Uci τ) (buf bytesXferd : Nat) (junk : Nat → UInt8) : Uci τ :=
  let node := buf + s.mtu
  let filled := s.setUbuf node ⟨buf,bytesXferd⟩ junk
  {filled with dlPending := s.dlPending ++ [node], received := s.received ++ span s.bytes buf bytesXferd}

def at' (s : Uci τ) (t : τ) (phase : Phase) : Uci τ := {s with reader := some (t,phase)}
def unlock (s : Uci τ) (t : τ) (got : Bytes) : Uci τ := {s with reader := none, reads := s.reads ++ [(t,got)]}

def take (s : Uci τ) (t : τ) (count : Nat) : Uci τ :=
  match s.curBuf with
  | some _ => s.at' t (.taken count)
  | none =>
    match s.dlPending with
    | [] => s.unlock t []
    | node :: rest =>
      {s with dlPending := rest, curBuf := some node, dlSize := (s.ubuf node).len}.at' t (.taken count)

def check (s : Uci τ) (t : τ) (count : Nat) (nonblock : Bool) : Uci τ :=
  if s.curBuf.isNone && s.dlPending.isEmpty then
    if nonblock then s.unlock t [] else s.at' t (.waiting count)
  else s.take t count

def copy (s : Uci τ) (t : τ) (node count : Nat) : Uci τ :=
  let b := s.ubuf node
  s.at' t (.copied (span s.bytes (b.data + (b.len - s.dlSize)) (min count s.dlSize)))

/- The buffer goes back to the device without the room its `uci_buf` takes. -/
def finish (s : Uci τ) (t : τ) (node : Nat) (got : Bytes) : Uci τ :=
  let left := s.dlSize - got.length
  let s := {s with dlSize := left}
  let s := if left = 0 then
      {s with curBuf := none, queued := s.queued ++ [((s.ubuf node).data,s.mtu - sizeofUciBuf)]} else s
  s.unlock t got

end Uci

/- Reads of any count by any thread, in the order they get `read_lock`. A wait that ends
without data is a signal or a removed device. A failed transfer's buffer is freed. -/
inductive Step : Uci τ → Uci τ → Prop where
  | dma {s} (buf len off : Nat) (v : UInt8) (junk : Nat → UciBuf) (queued : (buf,len) ∈ s.queued) (inside : off < len) :
      Step s (s.dmaWrite (buf + off) v junk)
  | completed {s} (front : List (Nat × Nat)) (buf len : Nat) (back : List (Nat × Nat)) (bytesXferd : Nat) (junk : Nat → UInt8)
      (queued : s.queued = front ++ (buf,len) :: back) (fits : bytesXferd ≤ len) :
      Step s ({s with queued := front ++ back}.mhiDlXferCb buf bytesXferd junk)
  | failed {s} (front : List (Nat × Nat)) (buf len : Nat) (back : List (Nat × Nat))
      (queued : s.queued = front ++ (buf,len) :: back) : Step s {s with queued := front ++ back}
  | lock {s} (t : τ) (count : Nat) (nonblock : Bool) (free : s.reader = none) : Step s (s.at' t (.entered count nonblock))
  | check {s} (t : τ) (count : Nat) (nonblock : Bool) (here : s.reader = some (t,.entered count nonblock)) :
      Step s (s.check t count nonblock)
  | wake {s} (t : τ) (count : Nat) (here : s.reader = some (t,.waiting count)) (data : s.dlPending ≠ []) :
      Step s (s.at' t (.woken count))
  | giveUp {s} (t : τ) (count : Nat) (here : s.reader = some (t,.waiting count)) : Step s (s.unlock t [])
  | take {s} (t : τ) (count : Nat) (here : s.reader = some (t,.woken count)) : Step s (s.take t count)
  | copy {s} (t : τ) (count node : Nat) (here : s.reader = some (t,.taken count)) (cur : s.curBuf = some node) :
      Step s (s.copy t node count)
  | finish {s} (t : τ) (got : Bytes) (node : Nat) (here : s.reader = some (t,.copied got)) (cur : s.curBuf = some node) :
      Step s (s.finish t node got)

def Apart (mtu a b : Nat) : Prop := a + mtu + sizeofUciBuf ≤ b ∨ b + mtu + sizeofUciBuf ≤ a

structure Opened (s : Uci τ) : Prop where
  start : ∃ name driverData bytes ubuf bufs, (name,driverData) ∈ mhiUciMatchTable ∧
    bufs.Pairwise (Apart (mtuOf driverData)) ∧ s = Uci.start (mtuOf driverData) bytes ubuf bufs

def returned (s : Uci τ) : Bytes := (s.reads.map Prod.snd).flatten

def payload (s : Uci τ) (node : Nat) : Bytes := span s.bytes (s.ubuf node).data (s.ubuf node).len
def remainder (s : Uci τ) : Bytes :=
  match s.curBuf with
  | none => []
  | some node => span s.bytes ((s.ubuf node).data + ((s.ubuf node).len - s.dlSize)) s.dlSize
def unread (s : Uci τ) : Bytes := remainder s ++ (s.dlPending.map (payload s)).flatten

theorem spanLength (bytes : Nat → UInt8) (addr n : Nat) : (span bytes addr n).length = n := by
  rw [span,List.length_map,List.length_range]

theorem spanAppend (bytes : Nat → UInt8) (addr m n : Nat) :
    span bytes addr (m+n) = span bytes addr m ++ span bytes (addr+m) n := by
  simp only [span,List.range_add,List.map_append,List.map_map]
  refine congrArg _ (List.map_congr_left ?_)
  intro i _
  show bytes (addr+(m+i)) = bytes (addr+m+i)
  rw [Nat.add_assoc]

theorem spanSame {bytes bytes' : Nat → UInt8} {addr n : Nat} (same : ∀ i < n, bytes' (addr+i) = bytes (addr+i)) :
    span bytes' addr n = span bytes addr n :=
  List.map_congr_left fun i member => same i (List.mem_range.mp member)

def held (s : Uci τ) : List Nat := s.curBuf.toList ++ s.dlPending
def blocks (s : Uci τ) : List Nat := s.queued.map Prod.fst ++ (held s).map fun node => (s.ubuf node).data

def Copying (s : Uci τ) (got : Bytes) : Prop :=
  ∃ node k, s.curBuf = some node ∧ k ≤ s.dlSize ∧
    got = span s.bytes ((s.ubuf node).data+((s.ubuf node).len-s.dlSize)) k

structure Inv (s : Uci τ) : Prop where
  room : sizeofUciBuf ≤ s.mtu
  apart : (blocks s).Pairwise (Apart s.mtu)
  lens : ∀ x ∈ s.queued, x.2 ≤ s.mtu
  nodes : ∀ node ∈ held s, (s.ubuf node).data+s.mtu = node ∧ (s.ubuf node).len ≤ s.mtu
  size : ∀ node, s.curBuf = some node → s.dlSize ≤ (s.ubuf node).len
  copying : ∀ t got, s.reader = some (t,.copied got) → Copying s got
  stream : returned s ++ unread s = s.received

theorem apartSymm {mtu a b : Nat} (apart : Apart mtu a b) : Apart mtu b a := apart.symm

structure Frame (s s' : Uci τ) (b : Nat) : Prop where
  bytes : ∀ c, Apart s.mtu b c → ∀ i < s.mtu, s'.bytes (c+i) = s.bytes (c+i)
  ubuf : ∀ c, Apart s.mtu b c → s'.ubuf (c+s.mtu) = s.ubuf (c+s.mtu)

theorem dmaFrame {s : Uci τ} {buf off : Nat} (v : UInt8) (junk : Nat → UciBuf) (inside : off < s.mtu) :
    Frame s (s.dmaWrite (buf+off) v junk) buf := by
  constructor
  · intro c apart i low
    refine Function.update_of_ne ?_ _ _
    unfold Apart at apart
    omega
  · intro c apart
    refine if_neg ?_
    unfold Apart at apart
    omega

theorem ubufFrame {s : Uci τ} {buf : Nat} (b : UciBuf) (junk : Nat → UInt8) (sized : 0 < sizeofUciBuf) :
    Frame s (s.setUbuf (buf+s.mtu) b junk) buf := by
  constructor
  · intro c apart i low
    refine if_neg ?_
    unfold Apart at apart
    omega
  · intro c apart
    refine Function.update_of_ne ?_ _ _
    unfold Apart at apart
    omega

theorem frameNode {s s' : Uci τ} {b node : Nat} (frame : Frame s s' b) (placed : (s.ubuf node).data+s.mtu = node)
    (apart : Apart s.mtu b (s.ubuf node).data) : s'.ubuf node = s.ubuf node ∧
      ∀ o n, o+n ≤ s.mtu → span s'.bytes ((s.ubuf node).data+o) n = span s.bytes ((s.ubuf node).data+o) n := by
  have same := frame.ubuf _ apart
  rw [placed] at same
  refine ⟨same,?_⟩
  intro o n fits
  refine spanSame fun i low => ?_
  rw [Nat.add_assoc]
  exact frame.bytes _ apart (o+i) (by omega)

theorem writeInv {s s' : Uci τ} {b : Nat} (inv : Inv s) (frame : Frame s s' b)
    (apart : ∀ node ∈ held s, Apart s.mtu b (s.ubuf node).data)
    (same : s' = {s with bytes := s'.bytes, ubuf := s'.ubuf}) : Inv s' := by
  have node : ∀ x ∈ held s, s'.ubuf x = s.ubuf x ∧
      ∀ o n, o+n ≤ s.mtu → span s'.bytes ((s.ubuf x).data+o) n = span s.bytes ((s.ubuf x).data+o) n :=
    fun x member => frameNode frame (inv.nodes x member).1 (apart x member)
  have cur : ∀ x, s.curBuf = some x → x ∈ held s := by
    intro x is
    rw [held,is]
    exact List.mem_cons_self
  have pending : ∀ x ∈ s.dlPending, x ∈ held s := fun x member => List.mem_append_right _ member
  generalize bytes : s'.bytes = bytes' at *
  generalize ubuf : s'.ubuf = ubuf' at *
  subst same
  have left : remainder {s with bytes := bytes', ubuf := ubuf'} = remainder s := by
    unfold remainder
    cases is : s.curBuf with
    | none => rfl
    | some x =>
      obtain ⟨kept,spans⟩ := node x (cur x is)
      have size := inv.size x is
      have fits := (inv.nodes x (cur x is)).2
      show span bytes' ((ubuf' x).data+((ubuf' x).len-s.dlSize)) s.dlSize = _
      rw [kept]
      exact spans _ _ (by omega)
  have rest : s.dlPending.map (payload {s with bytes := bytes', ubuf := ubuf'}) = s.dlPending.map (payload s) := by
    refine List.map_congr_left ?_
    intro x member
    obtain ⟨kept,spans⟩ := node x (pending x member)
    have fits := (inv.nodes x (pending x member)).2
    show span bytes' (ubuf' x).data (ubuf' x).len = span s.bytes (s.ubuf x).data (s.ubuf x).len
    rw [kept]
    exact spans 0 _ (by omega)
  refine ⟨inv.room,?_,inv.lens,?_,?_,?_,?_⟩
  · have places : (held s).map (fun x => (ubuf' x).data) = (held s).map fun x => (s.ubuf x).data :=
      List.map_congr_left fun x member => by rw [(node x member).1]
    show (s.queued.map Prod.fst ++ (held s).map fun x => (ubuf' x).data).Pairwise (Apart s.mtu)
    rw [places]
    exact inv.apart
  · intro x member
    show (ubuf' x).data+s.mtu = x ∧ (ubuf' x).len ≤ s.mtu
    rw [(node x member).1]
    exact inv.nodes x member
  · intro x is
    show s.dlSize ≤ (ubuf' x).len
    rw [(node x (cur x is)).1]
    exact inv.size x is
  · intro t got here
    obtain ⟨x,k,is,short,copied⟩ := inv.copying t got here
    obtain ⟨kept,spans⟩ := node x (cur x is)
    have size := inv.size x is
    have fits := (inv.nodes x (cur x is)).2
    refine ⟨x,k,is,short,?_⟩
    show got = span bytes' ((ubuf' x).data+((ubuf' x).len-s.dlSize)) k
    rw [kept,copied]
    exact (spans _ _ (by omega)).symm
  · show returned s ++ (remainder {s with bytes := bytes', ubuf := ubuf'} ++
      (s.dlPending.map (payload {s with bytes := bytes', ubuf := ubuf'})).flatten) = s.received
    rw [left,rest]
    exact inv.stream

section Steps
variable {s : Uci τ}

theorem dropInv {front back : List (Nat × Nat)} {buf len : Nat} (inv : Inv s) (queued : s.queued = front ++ (buf,len) :: back) :
    Inv {s with queued := front ++ back} ∧ len ≤ s.mtu ∧ ∀ c ∈ blocks {s with queued := front ++ back}, Apart s.mtu buf c := by
  have moved : (blocks s).Perm (buf :: blocks {s with queued := front ++ back}) := by
    show (s.queued.map Prod.fst ++ _).Perm (buf :: ((front ++ back).map Prod.fst ++ _))
    rw [queued,List.map_append,List.map_append,List.map_cons,← List.cons_append]
    exact List.Perm.append_right _ List.perm_middle
  have rest := (moved.pairwise_iff fun apart => apartSymm apart).mp inv.apart
  rw [List.pairwise_cons] at rest
  have fewer : ∀ x ∈ front ++ back, x ∈ s.queued := by
    intro x member
    rw [queued]
    rcases List.mem_append.mp member with before | after
    · exact List.mem_append_left _ before
    · exact List.mem_append_right _ (List.mem_cons_of_mem _ after)
  refine ⟨⟨inv.room,rest.2,fun x member => inv.lens x (fewer x member),inv.nodes,inv.size,inv.copying,inv.stream⟩,?_,rest.1⟩
  refine inv.lens (buf,len) ?_
  rw [queued]
  exact List.mem_append_right _ List.mem_cons_self

theorem arriveInv {buf n : Nat} (inv : Inv s) (here : s.ubuf (buf+s.mtu) = ⟨buf,n⟩) (fits : n ≤ s.mtu)
    (apart : ∀ c ∈ blocks s, Apart s.mtu buf c) :
    Inv {s with dlPending := s.dlPending ++ [buf+s.mtu], received := s.received ++ span s.bytes buf n} := by
  have grown : s.curBuf.toList ++ (s.dlPending ++ [buf+s.mtu]) = held s ++ [buf+s.mtu] := (List.append_assoc _ _ _).symm
  refine ⟨inv.room,?_,inv.lens,?_,inv.size,inv.copying,?_⟩
  · show (s.queued.map Prod.fst ++ (s.curBuf.toList ++ (s.dlPending ++ [buf+s.mtu])).map _).Pairwise _
    rw [grown,List.map_append,← List.append_assoc,List.pairwise_append]
    refine ⟨inv.apart,List.pairwise_singleton _ _,?_⟩
    intro c member d last
    have same : d = buf := by simpa [here] using last
    rw [same]
    exact apartSymm (apart c member)
  · intro node member
    have either : node ∈ held s ++ [buf+s.mtu] := grown ▸ member
    rcases List.mem_append.mp either with before | last
    · exact inv.nodes node before
    · rw [List.mem_singleton.mp last]
      show (s.ubuf (buf+s.mtu)).data+s.mtu = _ ∧ (s.ubuf (buf+s.mtu)).len ≤ s.mtu
      rw [here]
      exact ⟨rfl,fits⟩
  · have stream := inv.stream
    show returned s ++ (remainder s ++ ((s.dlPending ++ [buf+s.mtu]).map (payload s)).flatten) = s.received ++ span s.bytes buf n
    have new : payload s (buf+s.mtu) = span s.bytes buf n := by rw [payload,here]
    rw [List.map_append,List.flatten_append,List.map_singleton,List.flatten_singleton,new,← stream,unread]
    simp only [List.append_assoc]

theorem completedInv {front back : List (Nat × Nat)} {buf len n : Nat} (junk : Nat → UInt8) (inv : Inv s)
    (queued : s.queued = front ++ (buf,len) :: back) (fits : n ≤ len) :
    Inv ({s with queued := front ++ back}.mhiDlXferCb buf n junk) := by
  obtain ⟨dropped,bound,apart⟩ := dropInv inv queued
  have frame := @ubufFrame _ {s with queued := front ++ back} buf ⟨buf,n⟩ junk (by decide)
  have others : ∀ node ∈ held {s with queued := front ++ back}, Apart s.mtu buf (s.ubuf node).data := fun node member =>
    apart _ (List.mem_append_right _ (List.mem_map.mpr ⟨node,member,rfl⟩))
  have written := writeInv dropped frame others rfl
  have still : ∀ node ∈ held {s with queued := front ++ back},
      ({s with queued := front ++ back}.setUbuf (buf+s.mtu) ⟨buf,n⟩ junk).ubuf node = s.ubuf node :=
    fun node member => (frameNode frame (dropped.nodes node member).1 (others node member)).1
  have places : blocks ({s with queued := front ++ back}.setUbuf (buf+s.mtu) ⟨buf,n⟩ junk) =
      blocks {s with queued := front ++ back} := by
    refine congrArg (fun l => (front ++ back).map Prod.fst ++ l) (List.map_congr_left ?_)
    intro node member
    rw [still node member]
  have here : ({s with queued := front ++ back}.setUbuf (buf+s.mtu) ⟨buf,n⟩ junk).ubuf (buf+s.mtu) = ⟨buf,n⟩ :=
    Function.update_self ..
  have arrived := arriveInv written here (Nat.le_trans fits bound) (by
    rw [places]
    exact apart)
  have kept : span ({s with queued := front ++ back}.setUbuf (buf+s.mtu) ⟨buf,n⟩ junk).bytes buf n = span s.bytes buf n := by
    refine spanSame fun i low => if_neg ?_
    show ¬(buf+s.mtu ≤ buf+i ∧ _)
    omega
  rw [kept] at arrived
  exact arrived

theorem phaseInv {reader : Option (τ × Phase)} (inv : Inv s)
    (copying : ∀ t got, reader = some (t,.copied got) → Copying s got) : Inv {s with reader := reader} :=
  ⟨inv.room,inv.apart,inv.lens,inv.nodes,inv.size,copying,inv.stream⟩

theorem unlockInv {t : τ} (inv : Inv s) : Inv (s.unlock t []) := by
  refine ⟨inv.room,inv.apart,inv.lens,inv.nodes,inv.size,(fun _ _ here => nomatch here),?_⟩
  show ((s.reads ++ [(t,[])]).map Prod.snd).flatten ++ unread s = s.received
  rw [List.map_append,List.flatten_append]
  exact (congrArg (· ++ unread s) (List.append_nil _)).trans inv.stream

theorem takeInv {t : τ} {count : Nat} (inv : Inv s) : Inv (s.take t count) := by
  unfold Uci.take
  cases cur : s.curBuf with
  | some node => exact phaseInv inv fun _ _ here => nomatch here
  | none =>
    cases list : s.dlPending with
    | nil => exact unlockInv inv
    | cons node rest =>
      have same : held s = node :: rest := by rw [held,cur,list]; rfl
      refine ⟨inv.room,?_,inv.lens,?_,?_,(fun _ _ here => nomatch here),?_⟩
      · have apart := inv.apart
        rw [blocks,same] at apart
        exact apart
      · have nodes := inv.nodes
        rw [same] at nodes
        exact nodes
      · intro x is
        cases Option.some.inj is
        exact Nat.le_refl _
      · have stream := inv.stream
        rw [unread,remainder,cur,list] at stream
        show returned s ++ (span s.bytes ((s.ubuf node).data+((s.ubuf node).len-(s.ubuf node).len)) (s.ubuf node).len ++
          (rest.map (payload s)).flatten) = s.received
        rw [Nat.sub_self]
        exact stream

theorem finishInv {t : τ} {node : Nat} {got : Bytes} (inv : Inv s) (here : s.reader = some (t,.copied got))
    (cur : s.curBuf = some node) : Inv (s.finish t node got) := by
  obtain ⟨x,k,is,short,copied⟩ := inv.copying t got here
  rw [cur] at is
  cases Option.some.inj is
  have length : got.length = k := by rw [copied,spanLength]
  have size := inv.size node cur
  have split : remainder s = got ++ span s.bytes ((s.ubuf node).data+((s.ubuf node).len-(s.dlSize-k))) (s.dlSize-k) := by
    have whole := spanAppend s.bytes ((s.ubuf node).data+((s.ubuf node).len-s.dlSize)) k (s.dlSize-k)
    have sum : k+(s.dlSize-k) = s.dlSize := by omega
    have place : (s.ubuf node).data+((s.ubuf node).len-s.dlSize)+k =
        (s.ubuf node).data+((s.ubuf node).len-(s.dlSize-k)) := by omega
    rw [sum,place,← copied] at whole
    rw [remainder,cur]
    exact whole
  have stream := inv.stream
  rw [unread,split] at stream
  have logged : ((s.reads ++ [(t,got)]).map Prod.snd).flatten = returned s ++ got := by
    rw [List.map_append,List.flatten_append,List.map_singleton,List.flatten_singleton]
    rfl
  unfold Uci.finish
  rw [length]
  dsimp only
  split
  · rename_i whole
    have rest : held s = node :: s.dlPending := by rw [held,cur]; rfl
    refine ⟨inv.room,?_,?_,?_,(fun _ is => nomatch is),(fun _ _ here => nomatch here),?_⟩
    · show ((s.queued ++ [((s.ubuf node).data,s.mtu-sizeofUciBuf)]).map Prod.fst ++ s.dlPending.map _).Pairwise _
      have apart := inv.apart
      rw [blocks,rest] at apart
      rw [List.map_append,List.append_assoc]
      exact apart
    · intro y among
      rcases List.mem_append.mp among with before | last
      · exact inv.lens y before
      · rw [List.mem_singleton.mp last]
        exact Nat.sub_le _ _
    · intro y among
      exact inv.nodes y (by rw [rest]; exact List.mem_cons_of_mem _ among)
    · show ((s.reads ++ [(t,got)]).map Prod.snd).flatten ++ ([] ++ (s.dlPending.map (payload s)).flatten) = s.received
      rw [logged,← stream,whole]
      simp [span]
  · refine ⟨inv.room,inv.apart,inv.lens,inv.nodes,?_,(fun _ _ here => nomatch here),?_⟩
    · intro y is
      have same : node = y := Option.some.inj (cur.symm.trans is)
      subst same
      exact Nat.le_trans (Nat.sub_le _ _) size
    · show ((s.reads ++ [(t,got)]).map Prod.snd).flatten ++ (remainder {s with dlSize := s.dlSize-k} ++
        (s.dlPending.map (payload s)).flatten) = s.received
      have left : remainder {s with dlSize := s.dlSize-k} =
          span s.bytes ((s.ubuf node).data+((s.ubuf node).len-(s.dlSize-k))) (s.dlSize-k) := by rw [remainder,cur]
      rw [logged,left,← stream]
      simp only [List.append_assoc]

theorem stepInv {s' : Uci τ} (step : Step s s') (inv : Inv s) : Inv s' := by
  cases step with
  | dma buf len off v junk queued inside =>
    obtain ⟨front,back,split⟩ := List.append_of_mem queued
    obtain ⟨_,bound,apart⟩ := dropInv inv split
    refine writeInv inv (dmaFrame v junk (Nat.lt_of_lt_of_le inside bound)) ?_ rfl
    intro node member
    exact apart _ (List.mem_append_right _ (List.mem_map.mpr ⟨node,member,rfl⟩))
  | completed front buf len back n junk queued fits => exact completedInv junk inv queued fits
  | failed front buf len back queued => exact (dropInv inv queued).1
  | lock t count nonblock free => exact phaseInv inv fun _ _ here => nomatch here
  | check t count nonblock here =>
    unfold Uci.check
    split
    · split
      · exact unlockInv inv
      · exact phaseInv inv fun _ _ here => nomatch here
    · exact takeInv inv
  | wake t count here data => exact phaseInv inv fun _ _ here => nomatch here
  | giveUp t count here => exact unlockInv inv
  | take t count here => exact takeInv inv
  | copy t count node here cur =>
    refine phaseInv inv ?_
    intro u got is
    cases is
    exact ⟨node,min count s.dlSize,cur,Nat.min_le_right _ _,rfl⟩
  | finish t got node here cur => exact finishInv inv here cur

theorem openedInv (opened : Opened s) : Inv s := by
  obtain ⟨name,driverData,bytes,ubuf,bufs,listed,apart,rfl⟩ := opened.start
  have room : sizeofUciBuf ≤ mtuOf driverData := by
    have each : ∀ x ∈ mhiUciMatchTable, sizeofUciBuf ≤ mtuOf x.2 := by decide
    exact each _ listed
  refine ⟨room,?_,?_,(fun _ member => nomatch member),(fun _ is => nomatch is),(fun _ _ here => nomatch here),rfl⟩
  · show ((bufs.map (·,mtuOf driverData)).map Prod.fst ++ []).Pairwise (Apart (mtuOf driverData))
    rw [List.append_nil,List.map_map]
    simpa [Function.comp_def] using apart
  · intro x member
    obtain ⟨b,_,rfl⟩ := List.mem_map.mp member
    exact Nat.le_refl _

end Steps

theorem readsFaithful {s s' : Uci τ} (opened : Opened s) (run : ReflTransGen Step s s') :
    returned s' <+: s'.received ∧ returned s' ++ unread s' = s'.received := by
  have kept := Runs.keeps (I := Inv) (fun _ _ step inv => stepInv step inv) run (openedInv opened)
  exact ⟨⟨unread s',kept.stream⟩,kept.stream⟩

end Memory

namespace Sample

def opened : Uci Nat := Uci.start 0x1000 (fun _ => 0) (fun _ => ⟨0,0⟩) [0]
def filled : Uci Nat := (opened.dmaWrite 0 7 fun _ => ⟨0,0⟩).dmaWrite 1 9 fun _ => ⟨0,0⟩
def arrived : Uci Nat := {filled with queued := []}.mhiDlXferCb 0 2 fun _ => 0
def first : Uci Nat := (((arrived.at' 1 (.entered 1 true)).check 1 1 true).copy 1 0x1000 1).finish 1 0x1000 [7]
def second : Uci Nat := (((first.at' 2 (.entered 8 false)).check 2 8 false).copy 2 0x1000 8).finish 2 0x1000 [9]

theorem isOpened : Opened opened :=
  ⟨"DUN",0x1000,_,_,[0],by decide,List.pairwise_singleton _ _,rfl⟩

theorem steps : ReflTransGen Step opened second := by
  have received : ReflTransGen Step opened arrived :=
    ((ReflTransGen.single (.dma 0 0x1000 0 7 _ List.mem_cons_self (by decide))).tail
      (.dma 0 0x1000 1 9 _ List.mem_cons_self (by decide))).tail
      (.completed [] 0 0x1000 [] 2 _ rfl (by decide))
  have one : ReflTransGen Step opened first :=
    (((received.tail (.lock 1 1 true rfl)).tail (.check 1 1 true rfl)).tail
      (.copy 1 1 0x1000 rfl rfl)).tail (.finish 1 [7] 0x1000 rfl rfl)
  exact (((one.tail (.lock 2 8 false rfl)).tail (.check 2 8 false rfl)).tail
    (.copy 2 8 0x1000 rfl rfl)).tail (.finish 2 [9] 0x1000 rfl rfl)

end Sample

theorem twoReadersSplit : returned Sample.second = [7,9] ∧ Sample.second.curBuf = none ∧
    returned Sample.second <+: Sample.second.received :=
  ⟨by decide,rfl,(readsFaithful Sample.isOpened Sample.steps).1⟩

end MhiHost.UciRead
