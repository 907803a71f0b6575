import MhiHost.Wire

/-! Socket buffers and Ethernet frames as the network drivers see them. -/
namespace MhiHost
open Wire (Bytes)

structure Skb where
  headroom : Nat
  data : Bytes
  deriving DecidableEq, Repr

namespace Skb
def pull (skb : Skb) (n : Nat) : Skb := ⟨skb.headroom+n,skb.data.drop n⟩
def push (skb : Skb) (header : Bytes) : Skb := ⟨skb.headroom-header.length,header ++ skb.data⟩
end Skb

def ethAlen : Nat := 6
def ethHlen : Nat := 14
def vlanEthHlen : Nat := 18
def ethPIp : Nat := 0x0800
def ethPIpv6 : Nat := 0x86dd
def ethP8021q : Nat := 0x8100
def ethP8021ad : Nat := 0x88a8

def isIpProto (proto : Nat) : Bool := decide (proto = ethPIp ∨ proto = ethPIpv6)
def ethTypeVlan (proto : Nat) : Bool := decide (proto = ethP8021q ∨ proto = ethP8021ad)

/- `__vlan_get_tag`: the TCI, if the frame begins with a VLAN header. -/
def vlanGetTag (data : Bytes) : Option Nat :=
  if ethTypeVlan (Wire.readBe (Wire.field data 12 2)) then some (Wire.readBe (Wire.field data 14 2)) else none

def hProto (data : Bytes) : Nat := Wire.readBe (Wire.field data 12 2)
def hVlanEncapsulatedProto (data : Bytes) : Nat := Wire.readBe (Wire.field data 16 2)

def datagramProtocol (first : UInt8) : Option Nat :=
  if first.toNat &&& 0xf0 = 0x40 then some ethPIp
  else if first.toNat &&& 0xf0 = 0x60 then some ethPIpv6 else none

def Nibble46 (first : UInt8) : Prop := first.toNat / 16 = 4 ∨ first.toNat / 16 = 6

def protocolOf (first : UInt8) : Nat := if first.toNat / 16 = 4 then ethPIp else ethPIpv6

theorem protocolRead {first : UInt8} (nibble : Nibble46 first) : datagramProtocol first = some (protocolOf first) := by
  have masked : ∀ n < 256, n &&& 0xf0 = 16 * (n / 16) := by decide +kernel
  have mask := masked first.toNat first.toNat_lt
  rcases nibble with four | six
  · rw [datagramProtocol,protocolOf,mask,four]
    rfl
  · rw [datagramProtocol,protocolOf,mask,six]
    rfl

theorem protocolUnread {first : UInt8} (other : ¬Nibble46 first) : datagramProtocol first = none := by
  have masked : ∀ n < 256, n &&& 0xf0 = 16 * (n / 16) := by decide +kernel
  obtain ⟨four,six⟩ := not_or.mp other
  rw [datagramProtocol,masked first.toNat first.toNat_lt,if_neg (by omega),if_neg (by omega)]

theorem nibbleProtocol {first : UInt8} (nibble : Nibble46 first) : ∃ protocol, datagramProtocol first = some protocol :=
  ⟨_,protocolRead nibble⟩

structure Packet where
  protocol : Nat
  mac : Bytes
  tag : Option Nat
  payload : Bytes
  deriving DecidableEq, Repr

def ethZeroAddr : Bytes := List.replicate ethAlen 0
def ethHeader (devAddr : Bytes) (protocol : Nat) : Bytes := devAddr ++ ethZeroAddr ++ Wire.be 2 protocol

structure IpFrame where
  dest : Bytes
  source : Bytes
  tag : Option (Nat × Nat)
  proto : Nat
  payload : Bytes
  destLength : dest.length = ethAlen
  sourceLength : source.length = ethAlen
  tagged : ∀ tpid tci, tag = some (tpid,tci) → ethTypeVlan tpid = true ∧ tci < 2 ^ 16
  ip : isIpProto proto = true
  datagram : ∃ first rest, payload = first :: rest ∧ Nibble46 first

namespace IpFrame
def tci (f : IpFrame) : Option Nat := f.tag.map Prod.snd
def vlan (f : IpFrame) : Bytes :=
  match f.tag with
  | some (tpid,tci) => Wire.be 2 tpid ++ Wire.be 2 tci
  | none => []
def header (f : IpFrame) : Bytes := f.dest ++ f.source ++ f.vlan ++ Wire.be 2 f.proto
def bytes (f : IpFrame) : Bytes := f.header ++ f.payload
theorem payloadPos (f : IpFrame) : 0 < f.payload.length := by
  obtain ⟨first,rest,shape,_⟩ := f.datagram
  rw [shape]
  exact Nat.succ_pos _

theorem bytesLength (f : IpFrame) : f.bytes.length = f.header.length+f.payload.length := List.length_append

theorem addresses (f : IpFrame) : (f.dest ++ f.source).length = 12 := by
  rw [List.length_append,f.destLength,f.sourceLength]
  rfl

theorem protoFits {proto : Nat} (ip : isIpProto proto = true) : proto < 2 ^ 16 := by
  rcases of_decide_eq_true ip with rfl | rfl <;> decide

theorem tpidFits {tpid : Nat} (vlan : ethTypeVlan tpid = true) : tpid < 2 ^ 16 := by
  rcases of_decide_eq_true vlan with rfl | rfl <;> decide

theorem ipNoVlan {proto : Nat} (ip : isIpProto proto = true) : ethTypeVlan proto = false := by
  rcases of_decide_eq_true ip with rfl | rfl <;> rfl

theorem untaggedFields {f : IpFrame} (untagged : f.tag = none) : f.header.length = ethHlen ∧
    vlanGetTag f.bytes = none ∧ hProto f.bytes = f.proto := by
  have shape : f.bytes = (f.dest ++ f.source) ++ (Wire.be 2 f.proto ++ f.payload) := by
    rw [bytes,header,vlan,untagged,List.append_nil,List.append_assoc]
  have proto : hProto f.bytes = f.proto := by
    rw [hProto,shape,Wire.readBeAt f.addresses]
    exact Nat.mod_eq_of_lt (protoFits f.ip)
  refine ⟨?_,?_,proto⟩
  · rw [header,vlan,untagged,List.append_nil,List.length_append,f.addresses,Wire.beLength]
    rfl
  · have plain : ethTypeVlan (hProto f.bytes) = false := by
      rw [proto]
      exact ipNoVlan f.ip
    rw [vlanGetTag,← hProto,plain]
    rfl

theorem taggedFields {f : IpFrame} {tpid tci : Nat} (tag : f.tag = some (tpid,tci)) : f.header.length = vlanEthHlen ∧
    vlanGetTag f.bytes = some tci ∧ hVlanEncapsulatedProto f.bytes = f.proto := by
  obtain ⟨vlanType,fits⟩ := f.tagged tpid tci tag
  have typed : (f.dest ++ f.source ++ Wire.be 2 tpid).length = 14 := by
    rw [List.length_append,f.addresses,Wire.beLength]
  have whole : (f.dest ++ f.source ++ Wire.be 2 tpid ++ Wire.be 2 tci).length = 16 := by
    rw [List.length_append,typed,Wire.beLength]
  have shape : f.bytes = f.dest ++ f.source ++ (Wire.be 2 tpid ++ (Wire.be 2 tci ++ (Wire.be 2 f.proto ++ f.payload))) := by
    rw [bytes,header,vlan,tag]
    simp only [List.append_assoc]
  have first : Wire.readBe (Wire.field f.bytes 12 2) = tpid := by
    rw [shape,Wire.readBeAt f.addresses]
    exact Nat.mod_eq_of_lt (tpidFits vlanType)
  have second : Wire.readBe (Wire.field f.bytes 14 2) = tci := by
    rw [shape,← List.append_assoc,Wire.readBeAt typed]
    exact Nat.mod_eq_of_lt fits
  have third : Wire.readBe (Wire.field f.bytes 16 2) = f.proto := by
    rw [shape,← List.append_assoc,← List.append_assoc,Wire.readBeAt whole]
    exact Nat.mod_eq_of_lt (protoFits f.ip)
  refine ⟨?_,?_,third⟩
  · rw [header,vlan,tag,← List.append_assoc,List.length_append,whole,Wire.beLength]
    rfl
  · rw [vlanGetTag,first,second,vlanType]
    rfl

theorem headerPulled (f : IpFrame) (room : Nat) :
    Skb.pull ⟨room,f.bytes⟩ f.header.length = ⟨room+f.header.length,f.payload⟩ := by
  have rest : f.bytes.drop f.header.length = f.payload := List.drop_left
  rw [Skb.pull,rest]

theorem untaggedPulled {f : IpFrame} (untagged : f.tag = none) (room : Nat) : ¬f.bytes.length ≤ ethHlen ∧ f.tci = none ∧
    Skb.pull ⟨room,f.bytes⟩ ethHlen = ⟨room+f.header.length,f.payload⟩ := by
  have header := (untaggedFields untagged).1
  have filled := f.payloadPos
  have length := f.bytesLength
  have pulled := f.headerPulled room
  refine ⟨by omega,?_,?_⟩
  · rw [tci,untagged]
    rfl
  · rw [← header,pulled]

theorem taggedPulled {f : IpFrame} {tpid tci : Nat} (tag : f.tag = some (tpid,tci)) (room : Nat) :
    ¬f.bytes.length ≤ ethHlen ∧ vlanEthHlen < f.bytes.length ∧ f.tci = some tci ∧
      Skb.pull ⟨room,f.bytes⟩ vlanEthHlen = ⟨room+f.header.length,f.payload⟩ := by
  have header := (taggedFields tag).1
  have eth : ethHlen < vlanEthHlen := by decide
  have filled := f.payloadPos
  have length := f.bytesLength
  have pulled := f.headerPulled room
  refine ⟨by omega,by omega,?_,?_⟩
  · rw [IpFrame.tci,tag]
    rfl
  · rw [← header,pulled]

def oneByte (tag : Option (Nat × Nat)) (tagged : ∀ tpid tci, tag = some (tpid,tci) → ethTypeVlan tpid = true ∧ tci < 2 ^ 16) :
    IpFrame where
  dest := [2,0x50,0xf4,0,0,0]
  source := [2,0x50,0xf4,0,0,1]
  tag := tag
  proto := ethPIp
  payload := [0x45]
  destLength := rfl
  sourceLength := rfl
  tagged := tagged
  ip := rfl
  datagram := ⟨0x45,[],rfl,.inl rfl⟩

end IpFrame

end MhiHost
