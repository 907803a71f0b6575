import MhiHost.ParseConfig
import MhiHost.Power
import Mathlib.Data.Finset.Card
import Mathlib.Data.Finset.Option

/-! Channels and transfer devices: `mhi_create_devices`, `mhi_destroy_device` and the
release that the last reference runs. A device is known by its address; `devs` holds
the ones allocated and not yet freed. Only the references this driver takes are counted.
Following a null channel pointer, or a freed device, is a fault. -/
namespace MhiHost

structure XferDev where
  ulChan : Option Nat
  dlChan : Option Nat
  refs : Nat
  onBus : Bool
  deriving DecidableEq, Repr

structure Registry where
  maxChan : Nat
  chans : Nat → Chan
  devs : Nat → Option XferDev
  nextDev : Nat
  fault : Bool

def Chan.own (ch : Chan) (d : Option Nat) : Chan := {ch with mhiDev := d}

namespace Registry

def setDev (r : Registry) (d : Nat) (x : Option XferDev) : Registry := {r with devs := Function.update r.devs d x}
def setMhiDev (r : Registry) (c : Nat) (d : Option Nat) : Registry :=
  {r with chans := Function.update r.chans c ((r.chans c).own d)}
def fail (r : Registry) : Registry := {r with fault := true}

def forget (r : Registry) (c : Option Nat) : Registry :=
  match c with
  | none => r
  | some c => r.setMhiDev c none

def mhiReleaseDevice (r : Registry) (d : Nat) (x : XferDev) : Registry :=
  ((r.forget x.ulChan).forget x.dlChan).setDev d none

def putDevice (r : Registry) (d : Nat) : Registry :=
  match r.devs d with
  | none => r.fail
  | some x => if x.refs - 1 = 0 then r.mhiReleaseDevice d x else r.setDev d (some {x with refs := x.refs - 1})

def putVia (r : Registry) (c : Option Nat) : Registry :=
  match c with
  | none => r
  | some c =>
    match (r.chans c).mhiDev with
    | none => r.fail
    | some d => r.putDevice d

def deviceDel (r : Registry) (d : Nat) : Registry :=
  match r.devs d with
  | none => r.fail
  | some x => r.setDev d (some {x with onBus := false})

def destroyDevice (r : Registry) (d : Nat) : Registry :=
  match r.devs d with
  | none => r.fail
  | some x =>
    let r := r.putVia x.ulChan
    match r.devs d with
    | none => r.fail
    | some x => ((r.putVia x.dlChan).deviceDel d).putDevice d

end Registry

def XferDev.attach (x : XferDev) (dir : DmaDir) (c : Nat) : XferDev :=
  if dir = .toDevice then {x with ulChan := some c, refs := x.refs + 1}
  else {x with dlChan := some c, refs := x.refs + 1}

namespace Registry

def attach (r : Registry) (d c : Nat) : Registry :=
  match r.devs d with
  | none => r.fail
  | some x => (r.setDev d (some (x.attach (r.chans c).dir c))).setMhiDev c (some d)

def paired (r : Registry) (i : Nat) : Bool :=
  decide (i + 1 < r.maxChan) && (r.chans (i + 1)).configured && decide ((r.chans (i + 1)).name = (r.chans i).name)

def opens (ee : ExecEnv) (r : Registry) (i : Nat) : Bool :=
  (r.chans i).configured && (r.chans i).mhiDev.isNone && !((r.chans i).eeMask &&& ee.bit == 0)

def deviceAdd (r : Registry) (d : Nat) (added : Bool) : Registry :=
  let r := {r with nextDev := d + 1}
  if !added then r.putDevice d
  else
    match r.devs d with
    | none => r.fail
    | some x => r.setDev d (some {x with onBus := true})

def createLoop (ee : ExecEnv) (reply : CreateReply) : Nat → Nat → Registry → Registry
  | 0, _, r => r
  | fuel+1, i, r =>
    if r.maxChan ≤ i then r
    else if !opens ee r i then createLoop ee reply fuel (i + 1) r
    else if !reply.alloc i then r
    else
      let d := r.nextDev
      let made := r.setDev d (some ⟨none,none,1,false⟩)
      match (r.chans i).dir with
      | .bidirectional | .none => made.putDevice d
      | _ =>
        if r.paired i then
          createLoop ee reply fuel (i + 2) (((made.attach d i).attach d (i + 1)).deviceAdd d (reply.add i))
        else createLoop ee reply fuel (i + 1) ((made.attach d i).deviceAdd d (reply.add i))

def createDevices (ee : ExecEnv) (reply : CreateReply) (r : Registry) : Registry :=
  createLoop ee reply r.maxChan 0 r

def boundTo (r : Registry) (d : Nat) : Finset Nat :=
  (Finset.range r.maxChan).filter fun c => (r.chans c).mhiDev = some d

structure Bindings (r : Registry) : Prop where
  links : ∀ c d x, r.devs d = some x → ((r.chans c).mhiDev = some d ↔ x.ulChan = some c ∨ x.dlChan = some c)
  refs : ∀ d x, r.devs d = some x → x.refs = 1 + (r.boundTo d).card

def Covered (ee : ExecEnv) (r : Registry) : Prop :=
  ∀ c < r.maxChan, (r.chans c).configured = true → (r.chans c).eeMask &&& ee.bit ≠ 0 →
    ∃ d x, (r.chans c).mhiDev = some d ∧ r.devs d = some x

def taken (ee : ExecEnv) (r : Registry) : Nat → Bool
  | 0 => false
  | i+1 => !taken ee r i && opens ee r i && r.paired i

/- A channel the pass makes a device for has a direction; the neighbour it takes along
has no device yet, and fills the device's other end. -/
def Clear (ee : ExecEnv) (r : Registry) : Prop :=
  ∀ i < r.maxChan, taken ee r i = false → opens ee r i = true →
    ((r.chans i).dir = .toDevice ∨ (r.chans i).dir = .fromDevice) ∧
    (r.paired i = true → (r.chans (i + 1)).mhiDev = none ∧
      decide ((r.chans (i + 1)).dir = .toDevice) = !decide ((r.chans i).dir = .toDevice))
instance (ee r) : Decidable (Clear ee r) := by unfold Clear; infer_instance

end Registry

def granted (binds : Nat → Bool) : CreateReply := ⟨fun _ => true,fun _ => true,binds⟩

namespace Registry

def ends (c : Option Nat) : Nat := if c.isSome then 1 else 0

structure Linked (r : Registry) : Prop where
  links : ∀ c d x, r.devs d = some x → ((r.chans c).mhiDev = some d ↔ x.ulChan = some c ∨ x.dlChan = some c)
  refs : ∀ d x, r.devs d = some x → x.refs = 1 + (ends x.ulChan + ends x.dlChan)
  apart : ∀ d x c, r.devs d = some x → ¬(x.ulChan = some c ∧ x.dlChan = some c)
  inside : ∀ c d, (r.chans c).mhiDev = some d → c < r.maxChan
  alive : ∀ c d, (r.chans c).mhiDev = some d → ∃ x, r.devs d = some x
  fresh : ∀ d, r.nextDev ≤ d → r.devs d = none
  safe : r.fault = false

theorem boundEnds {r : Registry} (linked : r.Linked) {d x} (live : r.devs d = some x) :
    r.boundTo d = x.ulChan.toFinset ∪ x.dlChan.toFinset := by
  ext c
  rw [boundTo, Finset.mem_filter, Finset.mem_range, Finset.mem_union, Option.mem_toFinset, Option.mem_toFinset,
    linked.links c d x live]
  constructor
  · exact fun held => held.2
  · exact fun held => ⟨linked.inside c d ((linked.links c d x live).mpr held),held⟩

theorem endsCard (c : Option Nat) : c.toFinset.card = ends c := by cases c <;> rfl

theorem bindings {r : Registry} (linked : r.Linked) : r.Bindings := by
  refine ⟨linked.links,?_⟩
  intro d x live
  have disjoint : Disjoint x.ulChan.toFinset x.dlChan.toFinset := by
    rw [Finset.disjoint_left]
    intro c up down
    exact linked.apart d x c live ⟨Option.mem_toFinset.mp up,Option.mem_toFinset.mp down⟩
  rw [boundEnds linked live, Finset.card_union_of_disjoint disjoint, endsCard, endsCard]
  exact linked.refs d x live

theorem putKept {r : Registry} {d x} (live : r.devs d = some x) (more : 1 < x.refs) :
    r.putDevice d = r.setDev d (some {x with refs := x.refs - 1}) := by
  unfold putDevice
  rw [live]
  exact if_neg (by omega)

theorem putLast {r : Registry} {d x} (live : r.devs d = some x) (last : x.refs = 1) :
    r.putDevice d = r.mhiReleaseDevice d x := by
  unfold putDevice
  rw [live]
  exact if_pos (by omega)

theorem setDevSelf (r : Registry) (d : Nat) (x : Option XferDev) : (r.setDev d x).devs d = x := Function.update_self ..

theorem setDevTwice (r : Registry) (d : Nat) (x y : Option XferDev) : (r.setDev d x).setDev d y = r.setDev d y := by
  unfold setDev
  rw [Function.update_idem]

theorem setDevSame {r : Registry} {d x} (live : r.devs d = x) : r.setDev d x = r := by
  unfold setDev
  rw [← live, Function.update_eq_self]

theorem putEnd {r : Registry} {d x c} (live : r.devs d = some x) (own : ∀ i, c = some i → (r.chans i).mhiDev = some d)
    (more : ends c < x.refs) : r.putVia c = r.setDev d (some {x with refs := x.refs - ends c}) := by
  cases c with
  | none => exact (setDevSame live).symm
  | some i =>
    unfold putVia
    simp only [own i rfl]
    exact putKept live more

theorem destroyed {r : Registry} (linked : r.Linked) {d x} (live : r.devs d = some x) :
    ∃ left, r.destroyDevice d = (r.setDev d (some {x with refs := 1, onBus := false})).mhiReleaseDevice d left ∧
      left.ulChan = x.ulChan ∧ left.dlChan = x.dlChan := by
  have refs := linked.refs d x live
  have up : ∀ i, x.ulChan = some i → (r.chans i).mhiDev = some d := fun i is => (linked.links i d x live).mpr (.inl is)
  have down : ∀ i, x.dlChan = some i → (r.chans i).mhiDev = some d := fun i is => (linked.links i d x live).mpr (.inr is)
  refine ⟨{x with refs := 1, onBus := false},?_,rfl,rfl⟩
  unfold destroyDevice
  simp only [live]
  rw [putEnd live up (by omega)]
  simp only [setDevSelf]
  rw [putEnd (setDevSelf _ _ _) down (by show ends x.dlChan < x.refs - ends x.ulChan; omega), setDevTwice]
  unfold deviceDel
  simp only [setDevSelf]
  rw [setDevTwice]
  have one : x.refs - ends x.ulChan - ends x.dlChan = 1 := by omega
  rw [putLast (setDevSelf _ _ _) one, one]

theorem forgotten (r : Registry) (e : Option Nat) (c : Nat) :
    (r.forget e).chans c = if e = some c then (r.chans c).own none else r.chans c := by
  cases e with
  | none => rfl
  | some i =>
    show Function.update r.chans i _ c = _
    rcases Decidable.eq_or_ne c i with rfl | other
    · rw [Function.update_self, if_pos rfl]
    · rw [Function.update_of_ne other, if_neg fun same => other (Option.some.inj same).symm]

theorem forgetRest (r : Registry) (e : Option Nat) :
    (r.forget e).devs = r.devs ∧ (r.forget e).maxChan = r.maxChan ∧ (r.forget e).nextDev = r.nextDev ∧
      (r.forget e).fault = r.fault := by
  cases e <;> exact ⟨rfl,rfl,rfl,rfl⟩

theorem releasedChans (r : Registry) (d : Nat) (x : XferDev) (c : Nat) :
    (r.mhiReleaseDevice d x).chans c =
      if x.ulChan = some c ∨ x.dlChan = some c then (r.chans c).own none else r.chans c := by
  show ((r.forget x.ulChan).forget x.dlChan).chans c = _
  rw [forgotten, forgotten]
  rcases Decidable.em (x.ulChan = some c) with up | notUp <;> rcases Decidable.em (x.dlChan = some c) with down | notDown
  · rw [if_pos up, if_pos down, if_pos (.inl up)]
    rfl
  · rw [if_pos up, if_neg notDown, if_pos (.inl up)]
  · rw [if_neg notUp, if_pos down, if_pos (.inr down)]
  · rw [if_neg notUp, if_neg notDown, if_neg (not_or.mpr ⟨notUp,notDown⟩)]

theorem destroyedView {r : Registry} (linked : r.Linked) {d x} (live : r.devs d = some x) :
    (r.destroyDevice d).chans = (fun c =>
        if x.ulChan = some c ∨ x.dlChan = some c then (r.chans c).own none else r.chans c) ∧
      (r.destroyDevice d).devs = Function.update r.devs d none ∧ (r.destroyDevice d).maxChan = r.maxChan ∧
      (r.destroyDevice d).nextDev = r.nextDev ∧ (r.destroyDevice d).fault = r.fault := by
  obtain ⟨left,ran,up,down⟩ := destroyed linked live
  rw [ran]
  have first := forgetRest (r.setDev d (some {x with refs := 1, onBus := false})) left.ulChan
  have second := forgetRest ((r.setDev d (some {x with refs := 1, onBus := false})).forget left.ulChan) left.dlChan
  refine ⟨?_,?_,?_,?_,?_⟩
  · funext c
    rw [releasedChans, up, down]
    rfl
  · show Function.update (Registry.devs _) d none = _
    rw [second.1, first.1]
    exact Function.update_idem ..
  · exact second.2.1.trans first.2.1
  · exact second.2.2.1.trans first.2.2.1
  · exact second.2.2.2.trans first.2.2.2

theorem destroyDrops {r : Registry} {h : Host} (linked : r.Linked) {d x} (live : r.devs d = some x)
    (same : r.chans = h.chans) (b : Bool) : (r.destroyDevice d).chans = (dropDevice h ⟨d,x.ulChan,x.dlChan,b⟩).chans := by
  rw [(destroyedView linked live).1, same]
  rfl

theorem destroyKeeps {r : Registry} (linked : r.Linked) {d x} (live : r.devs d = some x) : (r.destroyDevice d).Linked := by
  obtain ⟨chans,devs,maxChan,nextDev,fault⟩ := destroyedView linked live
  have other : ∀ {e y}, (r.destroyDevice d).devs e = some y → e ≠ d ∧ r.devs e = some y := by
    intro e y held
    rw [devs] at held
    rcases Decidable.eq_or_ne e d with rfl | apart
    · rw [Function.update_self] at held; cases held
    · rw [Function.update_of_ne apart] at held
      exact ⟨apart,held⟩
  have kept : ∀ c, ((r.destroyDevice d).chans c).mhiDev = none ∧ (r.chans c).mhiDev = some d ∨
      ((r.destroyDevice d).chans c).mhiDev = (r.chans c).mhiDev ∧ (r.chans c).mhiDev ≠ some d := by
    intro c
    rw [chans]
    dsimp only
    split
    · rename_i own
      exact .inl ⟨rfl,(linked.links c d x live).mpr own⟩
    · rename_i foreign
      exact .inr ⟨rfl,fun own => foreign ((linked.links c d x live).mp own)⟩
  have before : ∀ {c e}, ((r.destroyDevice d).chans c).mhiDev = some e → (r.chans c).mhiDev = some e ∧ e ≠ d := by
    intro c e held
    rcases kept c with ⟨gone,_⟩ | ⟨stays,foreign⟩
    · rw [gone] at held; cases held
    · rw [stays] at held
      exact ⟨held,fun same => foreign (by rw [held, same])⟩
  refine ⟨?_,?_,?_,?_,?_,?_,?_⟩
  · intro c e y held
    obtain ⟨apart,was⟩ := other held
    rw [← linked.links c e y was]
    constructor
    · exact fun bound => (before bound).1
    · intro bound
      rcases kept c with ⟨_,own⟩ | ⟨stays,_⟩
      · rw [own] at bound
        exact absurd (Option.some.inj bound).symm apart
      · rw [stays, bound]
  · exact fun e y held => linked.refs e y (other held).2
  · exact fun e y c held => linked.apart e y c (other held).2
  · intro c e bound
    rw [maxChan]
    exact linked.inside c e (before bound).1
  · intro c e bound
    obtain ⟨was,apart⟩ := before bound
    obtain ⟨y,held⟩ := linked.alive c e was
    exact ⟨y,by rw [devs, Function.update_of_ne apart, held]⟩
  · intro e past
    rw [nextDev] at past
    rw [devs]
    rcases Decidable.eq_or_ne e d with rfl | apart
    · exact Function.update_self ..
    · rw [Function.update_of_ne apart]
      exact linked.fresh e past
  · rw [fault]
    exact linked.safe

structure Grown (r r' : Registry) (x : XferDev) : Prop where
  devs : r'.devs = Function.update r.devs r.nextDev (some x)
  bound : ∀ c, (r'.chans c).mhiDev = if x.ulChan = some c ∨ x.dlChan = some c then some r.nextDev else (r.chans c).mhiDev
  same : ∀ c, r'.chans c = (r.chans c).own (r'.chans c).mhiDev
  maxChan : r'.maxChan = r.maxChan
  nextDev : r'.nextDev = r.nextDev + 1
  fault : r'.fault = r.fault

structure Free (r : Registry) (x : XferDev) : Prop where
  ends : ∀ c, x.ulChan = some c ∨ x.dlChan = some c → (r.chans c).mhiDev = none ∧ c < r.maxChan
  apart : ∀ c, ¬(x.ulChan = some c ∧ x.dlChan = some c)
  refs : x.refs = 1 + (Registry.ends x.ulChan + Registry.ends x.dlChan)

theorem grownLinked {r r' : Registry} {x} (linked : r.Linked) (grown : Grown r r' x) (free : Free r x) : r'.Linked := by
  have cases : ∀ {d y}, r'.devs d = some y → d = r.nextDev ∧ y = x ∨ d ≠ r.nextDev ∧ r.devs d = some y := by
    intro d y held
    rw [grown.devs] at held
    rcases Decidable.eq_or_ne d r.nextDev with rfl | other
    · rw [Function.update_self] at held
      exact .inl ⟨rfl,(Option.some.inj held).symm⟩
    · rw [Function.update_of_ne other] at held
      exact .inr ⟨other,held⟩
  have unborn : ∀ c, (r.chans c).mhiDev ≠ some r.nextDev := by
    intro c bound
    obtain ⟨y,held⟩ := linked.alive c _ bound
    rw [linked.fresh _ (Nat.le_refl _)] at held
    cases held
  refine ⟨?_,?_,?_,?_,?_,?_,?_⟩
  · intro c d y held
    rw [grown.bound]
    rcases cases held with ⟨rfl,rfl⟩ | ⟨other,was⟩
    · split
      · rename_i own
        exact iff_of_true rfl own
      · rename_i foreign
        exact iff_of_false (unborn c) foreign
    · rw [← linked.links c d y was]
      split
      · rename_i own
        rw [(free.ends c own).1]
        exact iff_of_false (fun same => other (Option.some.inj same).symm) (fun bound => nomatch bound)
      · exact Iff.rfl
  · intro d y held
    rcases cases held with ⟨_,rfl⟩ | ⟨_,was⟩
    · exact free.refs
    · exact linked.refs d y was
  · intro d y c held
    rcases cases held with ⟨_,rfl⟩ | ⟨_,was⟩
    · exact free.apart c
    · exact linked.apart d y c was
  · intro c d bound
    rw [grown.bound] at bound
    rw [grown.maxChan]
    split at bound
    · rename_i own
      exact (free.ends c own).2
    · exact linked.inside c d bound
  · intro c d bound
    rw [grown.bound] at bound
    rw [grown.devs]
    split at bound
    · cases Option.some.inj bound
      exact ⟨x,Function.update_self ..⟩
    · obtain ⟨y,held⟩ := linked.alive c d bound
      refine ⟨y,?_⟩
      rw [Function.update_of_ne, held]
      rintro rfl
      exact unborn c bound
  · intro d past
    rw [grown.nextDev] at past
    rw [grown.devs, Function.update_of_ne (by omega)]
    exact linked.fresh d (by omega)
  · rw [grown.fault]
    exact linked.safe

theorem attached {r : Registry} {d x} (live : r.devs d = some x) (c : Nat) :
    r.attach d c = (r.setDev d (some (x.attach (r.chans c).dir c))).setMhiDev c (some d) := by
  unfold attach
  rw [live]

theorem attachedLive {r : Registry} {d x} (live : r.devs d = some x) (c : Nat) :
    (r.attach d c).devs d = some (x.attach (r.chans c).dir c) := by
  rw [attached live]
  exact setDevSelf ..

theorem added {r : Registry} {d x} (live : r.devs d = some x) :
    r.deviceAdd d true = {r with nextDev := d + 1, devs := Function.update r.devs d (some {x with onBus := true})} := by
  unfold deviceAdd
  simp only [Bool.not_true,Bool.false_eq_true,if_false,live]
  rfl

def lone (dir : DmaDir) (i : Nat) : XferDev :=
  if dir = .toDevice then ⟨some i,none,2,true⟩ else ⟨none,some i,2,true⟩
def pair (dir : DmaDir) (i : Nat) : XferDev :=
  if dir = .toDevice then ⟨some i,some (i + 1),3,true⟩ else ⟨some (i + 1),some i,3,true⟩

def madeLone (r : Registry) (i : Nat) : Registry :=
  ((r.setDev r.nextDev (some ⟨none,none,1,false⟩)).attach r.nextDev i).deviceAdd r.nextDev true
def madePair (r : Registry) (i : Nat) : Registry :=
  (((r.setDev r.nextDev (some ⟨none,none,1,false⟩)).attach r.nextDev i).attach r.nextDev (i + 1)).deviceAdd r.nextDev true

theorem loneMade (r : Registry) (i : Nat) : r.madeLone i =
    {r with
      chans := Function.update r.chans i ((r.chans i).own (some r.nextDev))
      devs := Function.update r.devs r.nextDev (some (lone (r.chans i).dir i))
      nextDev := r.nextDev + 1} := by
  unfold madeLone
  rw [added (attachedLive (setDevSelf _ _ _) i), attached (setDevSelf _ _ _)]
  unfold setMhiDev setDev lone XferDev.attach
  dsimp only
  rw [Function.update_idem, Function.update_idem]
  rcases Decidable.em ((r.chans i).dir = .toDevice) with up | down
  · rw [if_pos up, if_pos up]
  · rw [if_neg down, if_neg down]

theorem pairMade {r : Registry} {i : Nat}
    (opposite : decide ((r.chans (i + 1)).dir = .toDevice) = !decide ((r.chans i).dir = .toDevice)) : r.madePair i =
    {r with
      chans := Function.update (Function.update r.chans i ((r.chans i).own (some r.nextDev))) (i + 1)
        ((r.chans (i + 1)).own (some r.nextDev))
      devs := Function.update r.devs r.nextDev (some (pair (r.chans i).dir i))
      nextDev := r.nextDev + 1} := by
  have other : i + 1 ≠ i := Nat.succ_ne_self i
  unfold madePair
  rw [added (attachedLive (attachedLive (setDevSelf _ _ _) i) (i + 1)), attached (attachedLive (setDevSelf _ _ _) i),
    attached (setDevSelf _ _ _)]
  unfold setMhiDev setDev pair XferDev.attach
  dsimp only
  rw [Function.update_idem, Function.update_idem, Function.update_idem]
  simp only [Function.update_of_ne other]
  rcases Decidable.em ((r.chans i).dir = .toDevice) with up | down
  · rw [decide_eq_true up] at opposite
    have second : ¬(r.chans (i + 1)).dir = .toDevice := of_decide_eq_false opposite
    rw [if_pos up, if_pos up, if_neg second]
  · rw [decide_eq_false down] at opposite
    have second : (r.chans (i + 1)).dir = .toDevice := of_decide_eq_true opposite
    rw [if_neg down, if_neg down, if_pos second]

theorem loneEnds (dir : DmaDir) (i c : Nat) : (lone dir i).ulChan = some c ∨ (lone dir i).dlChan = some c ↔ c = i := by
  unfold lone
  split <;> simp [eq_comm]

theorem pairEnds (dir : DmaDir) (i c : Nat) :
    (pair dir i).ulChan = some c ∨ (pair dir i).dlChan = some c ↔ c = i ∨ c = i + 1 := by
  unfold pair
  split <;> simp [eq_comm,or_comm]

theorem ownedSame {before after : Nat → Chan} (same : ∀ c, after c = (before c).own (after c).mhiDev) (i : Nat)
    (d : Option Nat) (c : Nat) : Function.update after i ((before i).own d) c =
      (before c).own (Function.update after i ((before i).own d) c).mhiDev := by
  rcases Decidable.eq_or_ne c i with rfl | other
  · rw [Function.update_self]
    rfl
  · rw [Function.update_of_ne other]
    exact same c

theorem ownedDev (before after : Nat → Chan) (i : Nat) (d : Option Nat) (c : Nat) :
    (Function.update after i ((before i).own d) c).mhiDev = if c = i then d else (after c).mhiDev := by
  rcases Decidable.eq_or_ne c i with rfl | other
  · rw [Function.update_self, if_pos rfl]
    rfl
  · rw [Function.update_of_ne other, if_neg other]

theorem loneGrown (r : Registry) (i : Nat) : Grown r (r.madeLone i) (lone (r.chans i).dir i) := by
  rw [loneMade]
  refine ⟨rfl,?_,ownedSame (fun _ => rfl) i _,rfl,rfl,rfl⟩
  intro c
  simp only [loneEnds,ownedDev]

theorem pairGrown {r : Registry} {i : Nat}
    (opposite : decide ((r.chans (i + 1)).dir = .toDevice) = !decide ((r.chans i).dir = .toDevice)) :
    Grown r (r.madePair i) (pair (r.chans i).dir i) := by
  rw [pairMade opposite]
  refine ⟨rfl,?_,ownedSame (ownedSame (fun _ => rfl) i _) (i + 1) _,rfl,rfl,rfl⟩
  intro c
  simp only [pairEnds,ownedDev]
  rcases Decidable.eq_or_ne c (i + 1) with second | other
  · rw [if_pos second, if_pos (.inr second)]
  · simp only [if_neg other,or_iff_left other]

theorem loneFree {r : Registry} {i : Nat} (dir : DmaDir) (unbound : (r.chans i).mhiDev = none) (inside : i < r.maxChan) :
    Free r (lone dir i) := by
  unfold lone
  split
  · refine ⟨?_,?_,rfl⟩
    · rintro c (same | same)
      · cases same; exact ⟨unbound,inside⟩
      · cases same
    · rintro c ⟨_,same⟩
      cases same
  · refine ⟨?_,?_,rfl⟩
    · rintro c (same | same)
      · cases same
      · cases same; exact ⟨unbound,inside⟩
    · rintro c ⟨same,_⟩
      cases same

theorem pairFree {r : Registry} {i : Nat} (dir : DmaDir) (unbound : (r.chans i).mhiDev = none)
    (neighbour : (r.chans (i + 1)).mhiDev = none) (inside : i + 1 < r.maxChan) : Free r (pair dir i) := by
  have low : i < r.maxChan := Nat.lt_of_succ_lt inside
  unfold pair
  split
  · refine ⟨?_,?_,rfl⟩
    · rintro c (same | same)
      · cases same; exact ⟨unbound,low⟩
      · cases same; exact ⟨neighbour,inside⟩
    · rintro c ⟨up,down⟩
      cases up
      exact Nat.succ_ne_self i (Option.some.inj down)
  · refine ⟨?_,?_,rfl⟩
    · rintro c (same | same)
      · cases same; exact ⟨neighbour,inside⟩
      · cases same; exact ⟨unbound,low⟩
    · rintro c ⟨up,down⟩
      cases down
      exact Nat.succ_ne_self i (Option.some.inj up)

/- A pass that started from `r0` and stands before channel `i`. -/
structure Along (ee : ExecEnv) (r0 : Registry) (i : Nat) (r : Registry) : Prop where
  linked : r.Linked
  maxChan : r.maxChan = r0.maxChan
  same : ∀ c, r.chans c = (r0.chans c).own (r.chans c).mhiDev
  ahead : ∀ c, i ≤ c → (r.chans c).mhiDev = (r0.chans c).mhiDev
  free : taken ee r0 i = false
  behind : ∀ c < i, (r.chans c).configured = true → (r.chans c).eeMask &&& ee.bit ≠ 0 → (r.chans c).mhiDev ≠ none

theorem alongStart {r : Registry} (ee : ExecEnv) (linked : r.Linked) : Along ee r 0 r :=
  ⟨linked,rfl,fun _ => rfl,fun _ _ => rfl,rfl,fun _ low => absurd low (Nat.not_lt_zero _)⟩

section Pass
variable {ee : ExecEnv} {r0 r r' : Registry} {i : Nat}

theorem chanAhead (along : Along ee r0 i r) {c : Nat} (later : i ≤ c) : r.chans c = r0.chans c := by
  rw [along.same c, along.ahead c later]
  rfl

theorem opensAhead (along : Along ee r0 i r) : opens ee r i = opens ee r0 i := by
  unfold opens
  rw [chanAhead along (Nat.le_refl i)]

theorem pairedAhead (along : Along ee r0 i r) : r.paired i = r0.paired i := by
  unfold paired
  rw [chanAhead along (Nat.le_refl i), chanAhead along (Nat.le_succ i), along.maxChan]

theorem alongSkip (along : Along ee r0 i r) (closed : opens ee r i = false) : Along ee r0 (i + 1) r := by
  refine ⟨along.linked,along.maxChan,along.same,fun c later => along.ahead c (Nat.le_of_succ_le later),?_,?_⟩
  · show (!taken ee r0 i && opens ee r0 i && r0.paired i) = false
    rw [← opensAhead along, closed, Bool.and_false, Bool.false_and]
  · intro c low configured wanted
    rcases Nat.lt_succ_iff_lt_or_eq.mp low with below | rfl
    · exact along.behind c below configured wanted
    · intro unbound
      rw [opens, configured, unbound] at closed
      simp [wanted] at closed

theorem alongGrown {x : XferDev} {next : Nat} (along : Along ee r0 i r) (grown : Grown r r' x) (unbound : Free r x)
    (own : ∀ c, x.ulChan = some c ∨ x.dlChan = some c ↔ i ≤ c ∧ c < next) (forward : i < next)
    (free : taken ee r0 next = false) : Along ee r0 next r' := by
  refine ⟨grownLinked along.linked grown unbound,grown.maxChan.trans along.maxChan,?_,?_,free,?_⟩
  · intro c
    rw [grown.same c, along.same c]
    rfl
  · intro c later
    rw [grown.bound c, if_neg fun mine => absurd ((own c).mp mine).2 (by omega)]
    exact along.ahead c (by omega)
  · intro c low configured wanted
    rw [grown.same c] at configured wanted
    rw [grown.bound c]
    rcases Nat.lt_or_ge c i with below | above
    · rw [if_neg fun mine => absurd ((own c).mp mine).1 (by omega)]
      exact along.behind c below configured wanted
    · rw [if_pos ((own c).mpr ⟨above,low⟩)]
      exact fun absent => nomatch absent

theorem opensUnbound (open' : opens ee r i = true) : (r.chans i).mhiDev = none := by
  simp only [opens,Bool.and_eq_true,Option.isNone_iff_eq_none] at open'
  exact open'.1.2

theorem alongLone (along : Along ee r0 i r) (open' : opens ee r i = true) (alone : r.paired i = false)
    (inside : i < r.maxChan) : Along ee r0 (i + 1) (r.madeLone i) := by
  have unbound := opensUnbound open'
  refine alongGrown along (loneGrown r i) (loneFree _ unbound inside) ?_ (Nat.lt_succ_self i) ?_
  · intro c
    rw [loneEnds]
    omega
  · show (!taken ee r0 i && opens ee r0 i && r0.paired i) = false
    rw [← pairedAhead along, alone, Bool.and_false]

theorem alongPair (along : Along ee r0 i r) (open' : opens ee r i = true) (together : r.paired i = true)
    (neighbour : (r.chans (i + 1)).mhiDev = none)
    (opposite : decide ((r.chans (i + 1)).dir = .toDevice) = !decide ((r.chans i).dir = .toDevice)) :
    Along ee r0 (i + 2) (r.madePair i) := by
  have unbound := opensUnbound open'
  have inside : i + 1 < r.maxChan := by
    simp only [paired,Bool.and_eq_true,decide_eq_true_eq] at together
    exact together.1.1
  refine alongGrown along (pairGrown opposite) (pairFree _ unbound neighbour inside) ?_ (by omega) ?_
  · intro c
    rw [pairEnds]
    omega
  · have second : taken ee r0 (i + 1) = true := by
      show (!taken ee r0 i && opens ee r0 i && r0.paired i) = true
      rw [along.free, ← opensAhead along, ← pairedAhead along, open', together]
      rfl
    show (!taken ee r0 (i + 1) && opens ee r0 (i + 1) && r0.paired (i + 1)) = false
    rw [second]
    rfl

theorem alongLoop {binds : Nat → Bool} (clear : Clear ee r0) (fuel : Nat) (along : Along ee r0 i r)
    (enough : r.maxChan ≤ i + fuel) :
    ∃ stop, r.maxChan ≤ stop ∧ Along ee r0 stop (createLoop ee (granted binds) fuel i r) := by
  induction fuel generalizing i r with
  | zero => exact ⟨i,enough,along⟩
  | succ fuel ih =>
    unfold createLoop
    split
    · rename_i done
      exact ⟨i,done,along⟩
    rename_i more
    have inside : i < r.maxChan := Nat.lt_of_not_le more
    split
    · rename_i closed
      exact ih (alongSkip along (by simpa using closed)) (by omega)
    rename_i opened
    have open' : opens ee r i = true := by simpa using opened
    rw [if_neg (show ¬(!(granted binds).alloc i) = true from Bool.false_ne_true)]
    have fit := clear i (by rw [← along.maxChan]; exact inside) along.free (by rw [← opensAhead along]; exact open')
    rw [← chanAhead along (Nat.le_refl i), ← chanAhead along (Nat.le_succ i), ← pairedAhead along] at fit
    have step : ∃ next r', i < next ∧ r'.maxChan = r.maxChan ∧ Along ee r0 next r' ∧
        (if r.paired i = true then createLoop ee (granted binds) fuel (i + 2) (r.madePair i)
          else createLoop ee (granted binds) fuel (i + 1) (r.madeLone i)) = createLoop ee (granted binds) fuel next r' := by
      split
      · rename_i together
        obtain ⟨neighbour,opposite⟩ := fit.2 together
        exact ⟨i + 2,r.madePair i,by omega,(pairGrown opposite).maxChan,
          alongPair along open' together neighbour opposite,rfl⟩
      · rename_i alone
        exact ⟨i + 1,r.madeLone i,by omega,(loneGrown r i).maxChan,alongLone along open' (by simpa using alone) inside,rfl⟩
    obtain ⟨next,r',forward,width,further,runs⟩ := step
    obtain ⟨stop,last,done⟩ := ih (i := next) (r := r') further (by omega)
    refine ⟨stop,by omega,?_⟩
    dsimp only
    split
    · rename_i wrong
      rcases fit.1 with up | down
      · rw [wrong] at up; cases up
      · rw [wrong] at down; cases down
    · rename_i wrong
      rcases fit.1 with up | down
      · rw [wrong] at up; cases up
      · rw [wrong] at down; cases down
    · rw [← runs] at done
      exact done

end Pass

theorem passKeeps {ee : ExecEnv} {r : Registry} {binds : Nat → Bool} (linked : r.Linked) (clear : Clear ee r) :
    (createDevices ee (granted binds) r).Linked ∧ Covered ee (createDevices ee (granted binds) r) := by
  obtain ⟨stop,last,along⟩ := @alongLoop ee r r 0 binds clear r.maxChan (alongStart ee linked) (Nat.le_add_left _ _)
  refine ⟨along.linked,?_⟩
  intro c inside configured wanted
  have low : c < stop := by
    have width : (createDevices ee (granted binds) r).maxChan = r.maxChan := along.maxChan
    omega
  have bound := along.behind c low configured wanted
  obtain ⟨d,named⟩ := Option.ne_none_iff_exists'.mp bound
  obtain ⟨x,live⟩ := along.linked.alive c d named
  exact ⟨d,x,named,live⟩

structure Shadows (r : Registry) (h : Host) : Prop where
  chans : r.chans = h.chans
  maxChan : r.maxChan = h.maxChan
  nextDev : r.nextDev = h.nextDev

theorem attachRefs (x : XferDev) (dir : DmaDir) (c : Nat) : (x.attach dir c).refs = x.refs + 1 := by
  unfold XferDev.attach
  split <;> rfl

theorem addShadows {r : Registry} {h : Host} {d x} (live : r.devs d = some x) (more : 1 < x.refs) (chans : r.chans = h.chans)
    (maxChan : r.maxChan = h.maxChan) (next : d = h.nextDev) (reply : CreateReply) (i : Nat) (ul dl : Option Nat) :
    Shadows (r.deviceAdd d (reply.add i)) (addDevice h i reply ul dl) := by
  unfold addDevice
  cases ok : reply.add i with
  | true =>
    rw [added live, if_pos rfl]
    exact ⟨chans,maxChan,by rw [next]⟩
  | false =>
    unfold deviceAdd
    rw [if_neg Bool.false_ne_true]
    show Shadows (Registry.putDevice {r with nextDev := d + 1} d) _
    rw [@putKept {r with nextDev := d + 1} d x live more]
    exact ⟨chans,maxChan,congrArg (· + 1) next⟩

theorem addEe (h : Host) (i : Nat) (reply : CreateReply) (ul dl : Option Nat) :
    (addDevice h i reply ul dl).cntrl.ee = h.cntrl.ee := by
  unfold addDevice
  split <;> rfl

section Shadow
variable {h : Host} {r : Registry} (reply : CreateReply) (i : Nat) (ul dl : Option Nat)

theorem loneShadows (shadows : Shadows r h) :
    Shadows (((r.setDev r.nextDev (some ⟨none,none,1,false⟩)).attach r.nextDev i).deviceAdd r.nextDev (reply.add i))
      (addDevice (takeChan h i) i reply ul dl) := by
  have device : (r.setDev r.nextDev (some ⟨none,none,1,false⟩)).devs r.nextDev = some ⟨none,none,1,false⟩ := setDevSelf ..
  have next : r.nextDev = (takeChan h i).nextDev := shadows.nextDev
  refine addShadows (attachedLive device i) (by rw [attachRefs]; decide) ?_ ?_ next reply i ul dl
  · rw [attached device]
    show Function.update r.chans i ((r.chans i).own (some r.nextDev)) =
      Function.update h.chans i ((h.chans i).own (some h.nextDev))
    rw [shadows.chans, shadows.nextDev]
  · rw [attached device]
    exact shadows.maxChan

theorem pairShadows (shadows : Shadows r h) :
    Shadows ((((r.setDev r.nextDev (some ⟨none,none,1,false⟩)).attach r.nextDev i).attach r.nextDev (i + 1)).deviceAdd
        r.nextDev (reply.add i))
      (addDevice (takeChan (takeChan h i) (i + 1)) i reply ul dl) := by
  have device : (r.setDev r.nextDev (some ⟨none,none,1,false⟩)).devs r.nextDev = some ⟨none,none,1,false⟩ := setDevSelf ..
  have first := attachedLive device i
  have next : r.nextDev = (takeChan (takeChan h i) (i + 1)).nextDev := shadows.nextDev
  refine addShadows (attachedLive first (i + 1)) (by rw [attachRefs, attachRefs]; decide) ?_ ?_ next reply i ul dl
  · rw [attached first, attached device]
    show Function.update (Function.update r.chans i ((r.chans i).own (some r.nextDev))) (i + 1)
        ((Function.update r.chans i ((r.chans i).own (some r.nextDev)) (i + 1)).own (some r.nextDev)) =
      Function.update (Function.update h.chans i ((h.chans i).own (some h.nextDev))) (i + 1)
        ((Function.update h.chans i ((h.chans i).own (some h.nextDev)) (i + 1)).own (some h.nextDev))
    rw [shadows.chans, shadows.nextDev]
  · rw [attached first, attached device]
    exact shadows.maxChan

end Shadow

theorem loopShadows {h : Host} {r : Registry} (reply : CreateReply) (fuel i : Nat) (shadows : Shadows r h) :
    (createLoop h.cntrl.ee reply fuel i r).chans = (createFrom reply fuel i h).chans := by
  induction fuel generalizing i h r with
  | zero => exact shadows.chans
  | succ fuel ih =>
    have same : r.paired i = pairedWith h i := by
      unfold paired pairedWith
      rw [shadows.chans, shadows.maxChan]
    unfold createLoop createFrom
    rw [shadows.maxChan]
    split
    · exact shadows.chans
    dsimp only
    have opened : (!opens h.cntrl.ee r i) = (!(h.chans i).configured || (h.chans i).mhiDev.isSome ||
        ((h.chans i).eeMask &&& h.cntrl.ee.bit == 0)) := by
      unfold opens
      rw [shadows.chans, Bool.not_and, Bool.not_and, Bool.not_not, Option.not_isNone]
    rw [opened]
    split
    · exact ih (i + 1) shadows
    split
    · exact shadows.chans
    rw [same, shadows.chans]
    have freed : ((r.setDev r.nextDev (some ⟨none,none,1,false⟩)).putDevice r.nextDev).chans = h.chans := by
      rw [putLast (setDevSelf _ _ _) rfl]
      exact shadows.chans
    have pass : ∀ ul dl up down, (if pairedWith h i = true then createLoop h.cntrl.ee reply fuel (i + 2)
          ((((r.setDev r.nextDev (some ⟨none,none,1,false⟩)).attach r.nextDev i).attach r.nextDev (i + 1)).deviceAdd
            r.nextDev (reply.add i))
        else createLoop h.cntrl.ee reply fuel (i + 1)
          (((r.setDev r.nextDev (some ⟨none,none,1,false⟩)).attach r.nextDev i).deviceAdd r.nextDev (reply.add i))).chans =
        (if pairedWith h i = true then
          createFrom reply fuel (i + 2) (addDevice (takeChan (takeChan h i) (i + 1)) i reply up down)
        else createFrom reply fuel (i + 1) (addDevice (takeChan h i) i reply ul dl)).chans := by
      intro ul dl up down
      split
      · have kept := ih (i + 2) (pairShadows reply i up down shadows)
        rw [addEe] at kept
        exact kept
      · have kept := ih (i + 1) (loneShadows reply i ul dl shadows)
        rw [addEe] at kept
        exact kept
    cases way : (h.chans i).dir with
    | bidirectional => exact freed
    | none => exact freed
    | toDevice => exact pass _ _ _ _
    | fromDevice => exact pass _ _ _ _

theorem createShadows {h : Host} {r : Registry} (reply : CreateReply) (shadows : Shadows r h) :
    (createDevices h.cntrl.ee reply r).chans = (mhiCreateDevices h reply).chans := by
  unfold createDevices mhiCreateDevices
  rw [shadows.maxChan]
  exact loopShadows reply h.maxChan 0 shadows

def fresh (config : ControllerConfig) (table : ChanTable) : Registry :=
  ⟨config.maxChannels,fun i => (table.slots i).chan,fun _ => none,0,false⟩

theorem unboundEntries {maxChan entries} {t out : ChanTable} (ok : parseEntries maxChan t entries = some out)
    (before : ∀ i, (t.slots i).chan.mhiDev = none) : ∀ i, (out.slots i).chan.mhiDev = none := by
  induction entries generalizing t with
  | nil => cases Option.some.inj ok; exact before
  | cons e rest ih =>
    obtain ⟨mid,first,later⟩ := entriesParsed ok
    refine ih later ?_
    intro i
    rw [(entryParsed first).2]
    rcases Decidable.eq_or_ne i e.num with rfl | other
    · rw [Function.update_self]
      exact before e.num
    · rw [Function.update_of_ne other]
      exact before i

theorem freshLinked {config table} (ok : parseChCfg true config = .ok table) : (fresh config table).Linked := by
  have parsed : parseEntries config.maxChannels ChanTable.zero config.chCfg = some table := by
    unfold parseChCfg at ok
    rw [if_neg (by decide)] at ok
    split at ok
    · cases ok
    · rename_i found
      cases ok
      exact found
  have unbound := unboundEntries parsed (fun _ => rfl)
  have single : ∀ c d, ¬((fresh config table).chans c).mhiDev = some d := by
    intro c d bound
    have free : ((fresh config table).chans c).mhiDev = none := unbound c
    rw [free] at bound
    cases bound
  exact ⟨(fun _ _ _ live => nomatch live),(fun _ _ live => nomatch live),(fun _ _ _ live => nomatch live),
    fun c d bound => absurd bound (single c d),fun c d bound => absurd bound (single c d),fun _ _ => rfl,rfl⟩

/- Passes under any environment, and destructions of devices on the bus; the flag names
the environment of a pass that has just ended. Every pass finds the registry clear. -/
inductive ClearRun (start : Registry) : Option ExecEnv → Registry → Prop where
  | start : ClearRun start none start
  | pass {last r} (ee : ExecEnv) (binds : Nat → Bool) (before : ClearRun start last r) (clear : Clear ee r) :
      ClearRun start (some ee) (createDevices ee (granted binds) r)
  | destroy {last r d x} (before : ClearRun start last r) (live : r.devs d = some x) :
      ClearRun start none (r.destroyDevice d)

theorem runLinked {start : Registry} {last r} (linked : start.Linked) (run : ClearRun start last r) :
    r.Linked ∧ ∀ ee, last = some ee → Covered ee r := by
  induction run with
  | start => exact ⟨linked,(fun _ named => nomatch named)⟩
  | pass ee binds before clear ih =>
    have kept := @passKeeps _ _ binds ih.1 clear
    refine ⟨kept.1,?_⟩
    intro named same
    cases Option.some.inj same
    exact kept.2
  | destroy before live ih => exact ⟨destroyKeeps ih.1 live,(fun _ named => nomatch named)⟩

end Registry

open Registry in
theorem boundThroughout {config : ControllerConfig} {table : ChanTable} (ok : parseChCfg true config = .ok table)
    {last : Option ExecEnv} {r : Registry} (run : ClearRun (fresh config table) last r) :
    r.Bindings ∧ r.fault = false ∧ ∀ ee, last = some ee → Covered ee r := by
  obtain ⟨linked,covered⟩ := runLinked (freshLinked ok) run
  exact ⟨bindings linked,linked.safe,covered⟩

namespace Sample
open Registry

def loopEntry (num : Nat) (dir : DmaDir) (eeMask : Nat) : ChannelEntry :=
  ⟨⟨"LOOPBACK",num,64,0,0,dir,eeMask,some .disable,false,false,false⟩,.invalid,0,false,false⟩
def loopConfig (upMask : Nat) : ControllerConfig :=
  ⟨2,0,0,[loopEntry 0 .toDevice upMask,loopEntry 1 .fromDevice (ExecEnv.amss.bit ||| ExecEnv.sbl.bit)],[controlEvent],false,false⟩
def loopTable (upMask : Nat) : ChanTable := (parseEntries 2 ChanTable.zero (loopConfig upMask).chCfg).getD ChanTable.zero
def loopFresh (upMask : Nat) : Registry := fresh (loopConfig upMask) (loopTable upMask)

def bothMasks : Nat := ExecEnv.amss.bit ||| ExecEnv.sbl.bit
def inSbl (upMask : Nat) : Registry := createDevices .sbl (granted fun _ => false) (loopFresh upMask)
def inAmss (r : Registry) : Registry := createDevices .amss (granted fun _ => false) r

end Sample

open Registry in
theorem loopbackBound : parseChCfg true (Sample.loopConfig Sample.bothMasks) = .ok (Sample.loopTable Sample.bothMasks) ∧
    (Sample.inAmss ((Sample.inSbl Sample.bothMasks).destroyDevice 0)).Bindings ∧
    Covered .amss (Sample.inAmss ((Sample.inSbl Sample.bothMasks).destroyDevice 0)) := by
  have sbl : ClearRun (Sample.loopFresh Sample.bothMasks) (some .sbl) (Sample.inSbl Sample.bothMasks) :=
    .pass .sbl _ .start (by decide)
  have gone : ClearRun (Sample.loopFresh Sample.bothMasks) none ((Sample.inSbl Sample.bothMasks).destroyDevice 0) :=
    .destroy sbl rfl
  have amss : ClearRun (Sample.loopFresh Sample.bothMasks) (some .amss)
      (Sample.inAmss ((Sample.inSbl Sample.bothMasks).destroyDevice 0)) := .pass .amss _ gone (by decide)
  have held := @boundThroughout (Sample.loopConfig Sample.bothMasks) (Sample.loopTable Sample.bothMasks) rfl _ _ amss
  exact ⟨rfl,held.1,held.2.2 .amss rfl⟩

open Registry in
theorem neighbourTakenOver : parseChCfg true (Sample.loopConfig ExecEnv.amss.bit) = .ok (Sample.loopTable ExecEnv.amss.bit) ∧
    ¬(Sample.inAmss (Sample.inSbl ExecEnv.amss.bit)).Bindings := by
  refine ⟨rfl,fun held => ?_⟩
  have stale := (held.links 1 0 ⟨none,some 1,2,true⟩ rfl).mpr (.inr rfl)
  exact absurd stale (by decide)

end MhiHost
