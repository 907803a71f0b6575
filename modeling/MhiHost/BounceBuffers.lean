import MhiHost.Channel
import MhiHost.Runs
import MhiHost.SharedMemory

/-! The two ways in which `main.c` lends a client's buffer to the device: the buffer itself,
or a bounce buffer in its place. Both are followed over the same transfers, each with its
own memory, and what the device and the clients may look at is the same. -/
namespace MhiHost.BounceBuffers
open Relation (ReflTransGen)
open Wire (Bytes)
open SharedMemory

structure Memory where
  mem : Mem
  pool : Mem

def mapNoBb (m : Memory) (d : DmaReply) (b : BufInfo) : Memory × BufInfo × Option Errno := (m,mhiMapSingleNoBb d b)

def mapUseBb (m : Memory) (d : DmaReply) (b : BufInfo) : Memory × BufInfo × Option Errno :=
  let out := mhiMapSingleUseBb d b
  (if out.2 = none ∧ b.dir = .toDevice then {m with pool := store m.pool out.1.bbAddr (load m.mem b.vAddr b.len)} else m,out)

def mhiUnmapSingleNoBb (m : Memory) (_ : BufInfo) : Memory := m

def mhiUnmapSingleUseBb (m : Memory) (b : BufInfo) : Memory :=
  if b.dir = .fromDevice then {m with mem := store m.mem b.vAddr (load m.pool b.bbAddr b.len)} else m

def fetchNoBb (m : Memory) (b : BufInfo) (off n : Nat) : Bytes := load m.mem (b.vAddr+off) n
def fetchUseBb (m : Memory) (b : BufInfo) (off n : Nat) : Bytes := load m.pool (b.bbAddr+off) n
def putNoBb (m : Memory) (b : BufInfo) (off : Nat) (bs : Bytes) : Memory := {m with mem := store m.mem (b.vAddr+off) bs}
def putUseBb (m : Memory) (b : BufInfo) (off : Nat) (bs : Bytes) : Memory := {m with pool := store m.pool (b.bbAddr+off) bs}

structure Loan where
  direct : BufInfo
  bounce : BufInfo
  known : Nat → Prop

/- `stale` are the bytes of the clients that a copy back has brought in without the device
having written them. -/
structure Pair where
  direct : Memory
  bounce : Memory
  loans : List Loan
  stale : Nat → Prop

def Within (x a n : Nat) : Prop := a ≤ x ∧ x < a+n
instance (x a n : Nat) : Decidable (Within x a n) := inferInstanceAs (Decidable (_ ∧ _))

def Beside (l k : Loan) : Prop := (Apart l.direct.vAddr l.direct.len k.direct.vAddr k.direct.len ∨
    l.direct.dir = .toDevice ∧ k.direct.dir = .toDevice) ∧ Apart l.bounce.bbAddr l.direct.len k.bounce.bbAddr k.direct.len

def lent (b : BufInfo) (p a : DmaReply) (stale : Nat → Prop) : Loan :=
  ⟨(mhiMapSingleNoBb p b).1,(mhiMapSingleUseBb a b).1,fun k => b.dir = .toDevice ∧ ¬stale (b.vAddr+k)⟩

inductive Step : Pair → Pair → Prop where
  | map (s : Pair) (b : BufInfo) (p a : DmaReply) (given : p.ok = true ∧ a.ok = true)
      (clear : ∀ loan ∈ s.loans, Beside (lent b p a s.stale) loan) : Step s
      {s with
        direct := (mapNoBb s.direct p b).1
        bounce := (mapUseBb s.bounce a b).1
        loans := lent b p a s.stale :: s.loans}
  | refused (s : Pair) (b : BufInfo) (p a : DmaReply) (refused : p.ok = false ∧ a.ok = false) : Step s
      {s with direct := (mapNoBb s.direct p b).1, bounce := (mapUseBb s.bounce a b).1}
  | put (s : Pair) (pre post : List Loan) (loan : Loan) (off : Nat) (bs : Bytes) (here : s.loans = pre ++ loan :: post)
      (open' : loan.direct.dir = .fromDevice) (fits : off+bs.length ≤ loan.direct.len) : Step s
      {s with
        direct := putNoBb s.direct loan.direct off bs
        bounce := putUseBb s.bounce loan.bounce off bs
        loans := pre ++ {loan with known := fun k => loan.known k ∨ Within k off bs.length} :: post}
  | unmap (s : Pair) (pre post : List Loan) (loan : Loan) (here : s.loans = pre ++ loan :: post) : Step s
      {direct := mhiUnmapSingleNoBb s.direct loan.direct
       bounce := mhiUnmapSingleUseBb s.bounce loan.bounce
       loans := pre ++ post
       stale := fun x => if loan.direct.dir = .fromDevice ∧ Within x loan.direct.vAddr loan.direct.len
         then ¬loan.known (x-loan.direct.vAddr) else s.stale x}
  | client (s : Pair) (a : Nat) (bs : Bytes)
      (own : ∀ loan ∈ s.loans, Apart a bs.length loan.direct.vAddr loan.direct.len) : Step s
      {s with
        direct := {s.direct with mem := store s.direct.mem a bs}
        bounce := {s.bounce with mem := store s.bounce.mem a bs}
        stale := fun x => s.stale x ∧ ¬Within x a bs.length}

/- A byte that a client may look at. -/
def Visible (s : Pair) (x : Nat) : Prop :=
  ¬s.stale x ∧ ∀ loan ∈ s.loans, loan.direct.dir = .fromDevice → ¬Within x loan.direct.vAddr loan.direct.len

def Right (direct bounce : Memory) (loan : Loan) : Prop :=
  ∀ k, k < loan.direct.len → loan.known k → bounce.pool (loan.bounce.bbAddr+k) = direct.mem (loan.direct.vAddr+k)

structure Agree (s : Pair) : Prop where
  same : ∀ loan ∈ s.loans, loan.bounce.vAddr = loan.direct.vAddr ∧ loan.bounce.len = loan.direct.len ∧
    loan.bounce.dir = loan.direct.dir
  beside : s.loans.Pairwise Beside
  device : ∀ loan ∈ s.loans, Right s.direct s.bounce loan
  client : ∀ x, Visible s x → s.bounce.mem x = s.direct.mem x

section Agree
variable {s t : Pair} {d d' b b' : Memory}

theorem besideSymm {l k : Loan} (beside : Beside l k) : Beside k l := by
  obtain ⟨clients,pools⟩ := beside
  exact ⟨clients.imp Or.symm And.symm,pools.symm⟩

theorem Agree.apart (agree : Agree s) {pre post : List Loan} {loan : Loan} (here : s.loans = pre ++ loan :: post) :
    (∀ other ∈ pre ++ post, Beside loan other) ∧ (pre ++ post).Pairwise Beside := by
  have beside := agree.beside
  rw [here,List.pairwise_middle besideSymm] at beside
  exact List.pairwise_cons.mp beside

theorem Right.kept {loan : Loan} (right : Right d b loan)
    (direct : ∀ k < loan.direct.len, d'.mem (loan.direct.vAddr+k) = d.mem (loan.direct.vAddr+k))
    (bounce : ∀ k < loan.direct.len, b'.pool (loan.bounce.bbAddr+k) = b.pool (loan.bounce.bbAddr+k)) : Right d' b' loan := by
  intro k short known
  rw [direct k short,bounce k short]
  exact right k short known

section Map
variable {m : Memory} {a p : DmaReply} {buf : BufInfo}

theorem mapMem : (mapUseBb m a buf).1.mem = m.mem := by
  unfold mapUseBb
  dsimp only
  split <;> rfl

theorem mapRefused (refused : a.ok = false) : (mapUseBb m a buf).1 = m := by simp [mapUseBb,mhiMapSingleUseBb,refused]

theorem mapPool {x : Nat} (out : ¬Within x (mhiMapSingleUseBb a buf).1.bbAddr buf.len) :
    (mapUseBb m a buf).1.pool x = m.pool x := by
  unfold mapUseBb
  dsimp only
  split
  · refine storeOutside ?_
    rw [loadLength]
    exact out
  · rfl

theorem mapCopied {k : Nat} (given : a.ok = true) (sending : buf.dir = .toDevice) (short : k < buf.len) :
    (mapUseBb m a buf).1.pool ((mhiMapSingleUseBb a buf).1.bbAddr+k) = m.mem (buf.vAddr+k) := by
  have mapped : (mhiMapSingleUseBb a buf).2 = none := by simp [mhiMapSingleUseBb,given]
  simp only [mapUseBb,mapped,sending,and_self,if_true]
  exact storeLoaded short

theorem mapSame : ((mhiMapSingleNoBb p buf).1.vAddr = buf.vAddr ∧ (mhiMapSingleNoBb p buf).1.len = buf.len ∧
    (mhiMapSingleNoBb p buf).1.dir = buf.dir) ∧ (mhiMapSingleUseBb a buf).1.vAddr = buf.vAddr ∧
    (mhiMapSingleUseBb a buf).1.len = buf.len ∧ (mhiMapSingleUseBb a buf).1.dir = buf.dir := by
  constructor
  · unfold mhiMapSingleNoBb
    split <;> exact ⟨rfl,rfl,rfl⟩
  · unfold mhiMapSingleUseBb
    split <;> exact ⟨rfl,rfl,rfl⟩

end Map

theorem mapAgrees {b : BufInfo} {p a : DmaReply} (given : a.ok = true)
    (clear : ∀ loan ∈ s.loans, Beside (lent b p a s.stale) loan) (agree : Agree s) :
    Agree {s with
      direct := (mapNoBb s.direct p b).1
      bounce := (mapUseBb s.bounce a b).1
      loans := lent b p a s.stale :: s.loans} := by
  obtain ⟨same,beside,device,client⟩ := agree
  obtain ⟨⟨place,len,dir⟩,place',len',dir'⟩ := @mapSame a p b
  refine ⟨?_,List.pairwise_cons.mpr ⟨clear,beside⟩,?_,?_⟩
  · exact List.forall_mem_cons.mpr ⟨⟨place'.trans place.symm,len'.trans len.symm,dir'.trans dir.symm⟩,same⟩
  · refine List.forall_mem_cons.mpr ⟨?_,fun loan inside => (device loan inside).kept (fun _ _ => rfl) fun k short => mapPool ?_⟩
    · rintro k short ⟨sending,fresh⟩
      simp only [lent,len] at short
      have shown : Visible s (b.vAddr+k) := by
        refine ⟨fresh,fun loan inside from' within => ?_⟩
        rcases (clear loan inside).1 with apart | ⟨-,other⟩
        · unfold Apart at apart
          unfold Within at within
          simp only [lent,place,len] at apart
          omega
        · rw [from'] at other
          cases other
      simp only [lent,place,mapNoBb]
      rw [mapCopied given sending short]
      exact client _ shown
    · have aside := (clear loan inside).2
      unfold Apart at aside
      unfold Within
      simp only [lent,len] at aside
      omega
  · rintro x ⟨fresh,free⟩
    dsimp only
    rw [mapMem]
    exact client x ⟨fresh,fun loan inside => free loan (List.mem_cons_of_mem _ inside)⟩

theorem putAgrees {pre post : List Loan} {loan : Loan} {off : Nat} {bs : Bytes} (here : s.loans = pre ++ loan :: post)
    (open' : loan.direct.dir = .fromDevice) (fits : off+bs.length ≤ loan.direct.len) (agree : Agree s) :
    Agree {s with
      direct := putNoBb s.direct loan.direct off bs
      bounce := putUseBb s.bounce loan.bounce off bs
      loans := pre ++ {loan with known := fun k => loan.known k ∨ Within k off bs.length} :: post} := by
  obtain ⟨others,rest⟩ := agree.apart here
  obtain ⟨same,-,device,client⟩ := agree
  rw [here] at same device
  simp only [List.forall_mem_append,List.forall_mem_cons] at same device
  have right (other : Loan) (inside : other ∈ pre ++ post) (before : Right s.direct s.bounce other) :
      Right (putNoBb s.direct loan.direct off bs) (putUseBb s.bounce loan.bounce off bs) other := by
    obtain ⟨clients,pools⟩ := others other inside
    refine before.kept (fun k short => storeOutside ?_) fun k short => storeOutside ?_
    · rcases clients with apart | ⟨sending,-⟩
      · unfold Apart at apart
        omega
      · rw [open'] at sending
        cases sending
    · unfold Apart at pools
      omega
  refine ⟨?_,?_,?_,?_⟩
  · simp only [List.forall_mem_append,List.forall_mem_cons]
    exact same
  · rw [List.pairwise_middle besideSymm]
    exact List.pairwise_cons.mpr ⟨others,rest⟩
  · simp only [List.forall_mem_append,List.forall_mem_cons]
    refine ⟨fun other inside => right other (List.mem_append_left _ inside) (device.1 other inside),?_,
      fun other inside => right other (List.mem_append_right _ inside) (device.2.2 other inside)⟩
    intro k short known
    simp only [putNoBb,putUseBb] at short ⊢
    by_cases written : Within k off bs.length
    · obtain ⟨j,rfl⟩ := Nat.exists_eq_add_of_le written.1
      have inside : j < bs.length := by
        have bound := written.2
        omega
      rw [← Nat.add_assoc,← Nat.add_assoc]
      exact storeSame inside
    · have before := device.2.1 k short (known.resolve_right written)
      unfold Within at written
      rw [storeOutside (by omega),storeOutside (by omega)]
      exact before
  · rintro x ⟨fresh,free⟩
    have out := free _ (List.mem_append_right _ List.mem_cons_self) open'
    have shown : Visible s x := by
      refine ⟨fresh,?_⟩
      rw [here]
      simp only [List.forall_mem_append,List.forall_mem_cons] at free ⊢
      exact free
    unfold Within at out
    dsimp only [putNoBb,putUseBb] at out ⊢
    rw [storeOutside (by omega)]
    exact client x shown

theorem unmapAgrees {pre post : List Loan} {loan : Loan} (here : s.loans = pre ++ loan :: post) (agree : Agree s) :
    Agree {direct := mhiUnmapSingleNoBb s.direct loan.direct
           bounce := mhiUnmapSingleUseBb s.bounce loan.bounce
           loans := pre ++ post
           stale := fun x => if loan.direct.dir = .fromDevice ∧ Within x loan.direct.vAddr loan.direct.len
             then ¬loan.known (x-loan.direct.vAddr) else s.stale x} := by
  obtain ⟨-,rest⟩ := agree.apart here
  obtain ⟨same,-,device,client⟩ := agree
  rw [here] at same device
  simp only [List.forall_mem_append,List.forall_mem_cons] at same device
  obtain ⟨⟨place,len,dir⟩,mine⟩ := (⟨same.2.1,device.2.1⟩ : _ ∧ _)
  have pool : (mhiUnmapSingleUseBb s.bounce loan.bounce).pool = s.bounce.pool := by
    unfold mhiUnmapSingleUseBb
    split <;> rfl
  refine ⟨?_,rest,?_,?_⟩
  · exact List.forall_mem_append.mpr ⟨same.1,same.2.2⟩
  · refine List.forall_mem_append.mpr ⟨fun other inside => ?_,fun other inside => ?_⟩
    · exact (device.1 other inside).kept (fun _ _ => rfl) fun k _ => by rw [pool]
    · exact (device.2.2 other inside).kept (fun _ _ => rfl) fun k _ => by rw [pool]
  · rintro x ⟨fresh,free⟩
    dsimp only at fresh free ⊢
    by_cases back : loan.direct.dir = .fromDevice ∧ Within x loan.direct.vAddr loan.direct.len
    · rw [if_pos back,not_not] at fresh
      obtain ⟨k,rfl⟩ := Nat.exists_eq_add_of_le back.2.1
      have short : k < loan.direct.len := by
        have bound := back.2.2
        omega
      rw [Nat.add_sub_cancel_left] at fresh
      rw [mhiUnmapSingleUseBb,dir,if_pos back.1,place,len]
      dsimp only
      rw [storeLoaded short]
      exact mine k short fresh
    · rw [if_neg back] at fresh
      have shown : Visible s x := by
        refine ⟨fresh,?_⟩
        rw [here]
        simp only [List.forall_mem_append,List.forall_mem_cons] at free ⊢
        exact ⟨free.1,fun from' within => back ⟨from',within⟩,free.2⟩
      unfold mhiUnmapSingleUseBb
      rw [dir,place,len]
      split
      · rename_i from'
        dsimp only
        rw [storeOutside]
        · exact client x shown
        · rw [loadLength]
          exact fun within => back ⟨from',within⟩
      · exact client x shown

theorem clientAgrees {a : Nat} {bs : Bytes} (own : ∀ loan ∈ s.loans, Apart a bs.length loan.direct.vAddr loan.direct.len)
    (agree : Agree s) :
    Agree {s with
      direct := {s.direct with mem := store s.direct.mem a bs}
      bounce := {s.bounce with mem := store s.bounce.mem a bs}
      stale := fun x => s.stale x ∧ ¬Within x a bs.length} := by
  obtain ⟨same,beside,device,client⟩ := agree
  refine ⟨same,beside,fun loan inside => (device loan inside).kept (fun k short => storeOutside ?_) fun _ _ => rfl,?_⟩
  · have apart := own loan inside
    unfold Apart at apart
    omega
  · rintro x ⟨fresh,free⟩
    dsimp only at fresh ⊢
    by_cases written : Within x a bs.length
    · obtain ⟨k,rfl⟩ := Nat.exists_eq_add_of_le written.1
      have inside : k < bs.length := by
        have bound := written.2
        omega
      exact storeSame inside
    · rw [storeOutside written,storeOutside written]
      exact client x ⟨fun old => fresh ⟨old,written⟩,free⟩

theorem stepAgrees (step : Step s t) (agree : Agree s) : Agree t := by
  cases step with
  | map b p a given clear => exact mapAgrees given.2 clear agree
  | refused b p a refused =>
    rw [mapRefused refused.2]
    exact agree
  | put pre post loan off bs here open' fits => exact putAgrees here open' fits agree
  | unmap pre post loan here => exact unmapAgrees here agree
  | client a bs own => exact clientAgrees own agree

end Agree

structure Starts (s : Pair) : Prop where
  same : s.bounce.mem = s.direct.mem
  idle : s.loans = []

/- Through any transfers, what the device fetches from a loan and what a client reads are the
same with bounce buffers as without, but for bytes that the device was lent and has not
written. -/
theorem bounceTransparent {s t : Pair} (start : Starts s) (run : ReflTransGen Step s t) :
    (∀ loan ∈ t.loans, ∀ off n, off+n ≤ loan.direct.len → (∀ k, Within k off n → loan.known k) →
      fetchUseBb t.bounce loan.bounce off n = fetchNoBb t.direct loan.direct off n) ∧
    ∀ a n, (∀ x, Within x a n → Visible t x) → load t.bounce.mem a n = load t.direct.mem a n := by
  have begun : Agree s := by
    obtain ⟨same,idle⟩ := start
    exact ⟨by simp [idle],by simp [idle],by simp [idle],fun x _ => congrFun same x⟩
  obtain ⟨-,-,device,client⟩ := Runs.keeps (fun _ _ step agree => stepAgrees step agree) run begun
  refine ⟨fun loan inside off n fits known => loadSame fun k short => ?_,fun a n shown => loadSame fun k short => ?_⟩
  · rw [Nat.add_assoc,Nat.add_assoc]
    exact device loan inside (off+k) (by omega) (known _ ⟨by omega,by omega⟩)
  · exact client _ (shown _ ⟨by omega,by omega⟩)

namespace Sample

def buf : BufInfo := {BufInfo.zero with len := 2, dir := .fromDevice}
def placed (handle vaddr : Nat) : DmaReply := ⟨handle,vaddr,true⟩
def begun : Pair := ⟨⟨fun _ => 0,fun _ => 0⟩,⟨fun _ => 0,fun _ => 1⟩,[],fun _ => False⟩
def loan : Loan := lent buf (placed 0 0) (placed 10 10) begun.stale
def mapped : Pair := {begun with loans := [loan]}
def written : Loan := {loan with known := fun k => loan.known k ∨ Within k 0 1}

def received : Pair := {mapped with
  direct := putNoBb begun.direct loan.direct 0 [5]
  bounce := putUseBb begun.bounce loan.bounce 0 [5]
  loans := [written]}
def returned : Pair := ⟨received.direct,mhiUnmapSingleUseBb received.bounce loan.bounce,[],
  fun x => if loan.direct.dir = .fromDevice ∧ Within x 0 2 then ¬written.known (x-0) else False⟩

theorem returns : ReflTransGen Step begun returned :=
  ((ReflTransGen.refl.tail (Step.map begun buf (placed 0 0) (placed 10 10) ⟨rfl,rfl⟩ nofun)).tail
    (Step.put mapped [] [] loan 0 [5] rfl rfl (by decide))).tail
    (Step.unmap received [] [] written rfl)

theorem bounceTransparentSample : (∀ loan ∈ returned.loans, ∀ off n, off+n ≤ loan.direct.len →
    (∀ k, Within k off n → loan.known k) →
      fetchUseBb returned.bounce loan.bounce off n = fetchNoBb returned.direct loan.direct off n) ∧
    ∀ a n, (∀ x, Within x a n → Visible returned x) → load returned.bounce.mem a n = load returned.direct.mem a n :=
  bounceTransparent ⟨rfl,rfl⟩ returns

example : returned.bounce.mem 1 = 1 ∧ returned.direct.mem 1 = 0 := by decide

end Sample

end MhiHost.BounceBuffers
