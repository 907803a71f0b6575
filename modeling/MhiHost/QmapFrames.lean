import MhiHost.Qmap

/-! Well-formed QMAP frames, laid end to end. -/
namespace MhiHost.QmapFrames
open Qmap
open Wire (Bytes)

/- `content` is what `pkt_len` counts: for data, the datagram and its padding. -/
structure Frame where
  command : Bool
  padLen : Nat
  muxId : Nat
  extension : Option Bytes
  content : Bytes
  padSmall : padLen < 64
  muxSmall : muxId < 256
  extensionLength : ∀ header, extension = some header → header.length = sizeofQmapV5CsumHdr
  contentSmall : content.length < 2 ^ 16
  padded : command = false → padLen < content.length
  datagram : command = false → ∃ first rest, content = first :: rest ∧ Nibble46 first

namespace Frame

def header (f : Frame) : QmapHdr := ⟨f.padLen,f.extension.isSome.toNat,f.command.toNat,f.muxId,f.content.length⟩
def bytes (f : Frame) : Bytes := f.header.bytes ++ (f.extension.getD [] ++ f.content)
def payload (f : Frame) : Bytes := f.content.take (f.content.length-f.padLen)
def tag (f : Frame) : Option Nat := if f.muxId ≠ qmapDefaultMuxId then some f.muxId else none

def packets (devAddr : Bytes) (f : Frame) : List Packet :=
  if f.command then []
  else [⟨protocolOf (Wire.peek f.content 0),ethHeader devAddr (protocolOf (Wire.peek f.content 0)),f.tag,f.payload⟩]

theorem headerLength (f : Frame) : f.header.bytes.length = sizeofQmapHdr := rfl

theorem headerSize (f : Frame) : (f.header.bytes ++ f.extension.getD []).length = hdrSize f.header := by
  rw [List.length_append,headerLength,hdrSize]
  cases given : f.extension with
  | none =>
    have next : f.header.nextHdr = 0 := by rw [header,given]; rfl
    rw [next]
    rfl
  | some bytes =>
    have next : f.header.nextHdr = 1 := by rw [header,given]; rfl
    rw [next,if_pos rfl,Option.getD_some,f.extensionLength bytes given]

theorem bytesLength (f : Frame) : f.bytes.length = f.content.length+hdrSize f.header := by
  rw [bytes,← List.append_assoc,List.length_append,headerSize,Nat.add_comm]

theorem headerRead (f : Frame) (rest : Bytes) : qmapHdr (f.bytes ++ rest) = f.header := by
  have length : Wire.readBe (Wire.field (f.bytes ++ rest) 2 2) = f.content.length := by
    have found := @Wire.readBeAt [UInt8.ofNat (f.padLen % 64+64 * (f.header.nextHdr % 2)+128 * (f.header.cdBit % 2)),
      UInt8.ofNat f.muxId] 2 rfl 2 f.content.length (f.extension.getD [] ++ f.content ++ rest)
    rw [← Nat.mod_eq_of_lt f.contentSmall]
    simp only [bytes,QmapHdr.bytes,List.append_assoc] at found ⊢
    exact found
  have second : (Wire.peek (f.bytes ++ rest) 1).toNat = f.muxId := UInt8.toNat_ofNat_of_lt' f.muxSmall
  have next : f.header.nextHdr ≤ 1 := Bool.toNat_le _
  have cd : f.header.cdBit ≤ 1 := Bool.toNat_le _
  have pad := f.padSmall
  have first : (Wire.peek (f.bytes ++ rest) 0).toNat = f.padLen+64 * f.header.nextHdr+128 * f.header.cdBit := by
    have flags : (Wire.peek (f.bytes ++ rest) 0).toNat =
        (UInt8.ofNat (f.padLen % 64+64 * (f.header.nextHdr % 2)+128 * (f.header.cdBit % 2))).toNat := rfl
    rw [flags,UInt8.toNat_ofNat_of_lt' (show _ < 256 by omega)]
    omega
  have padRead : (f.padLen+64 * f.header.nextHdr+128 * f.header.cdBit) % 64 = f.padLen := by omega
  have nextRead : (f.padLen+64 * f.header.nextHdr+128 * f.header.cdBit) / 64 % 2 = f.header.nextHdr := by omega
  have cdRead : (f.padLen+64 * f.header.nextHdr+128 * f.header.cdBit) / 128 = f.header.cdBit := by omega
  unfold qmapHdr
  rw [length,second,first,padRead,nextRead,cdRead]
  rfl

end Frame

section Loop
variable {alloc : Nat → Bool} {devAddr : Bytes}

theorem loopNil : rxLoop alloc devAddr [] = [] := by
  rw [rxLoop]
  rfl

theorem stoppedAt (f : Frame) {rest : Bytes} (short : (f.bytes ++ rest).length ≤ sizeofQmapHdr) : f.command = true ∧
    rest = [] := by
  have header : sizeofQmapHdr ≤ hdrSize f.header := by
    unfold hdrSize
    split <;> decide
  rw [List.length_append,f.bytesLength] at short
  refine ⟨?_,List.length_eq_zero_iff.mp (by omega)⟩
  cases kind : f.command with
  | true => rfl
  | false =>
    have filled := f.padded kind
    omega

theorem frameTaken (granted : ∀ n, alloc n = true) (f : Frame) (rest : Bytes) :
    rxLoop alloc devAddr (f.bytes ++ rest) = f.packets devAddr ++ rxLoop alloc devAddr rest := by
  by_cases short : (f.bytes ++ rest).length ≤ sizeofQmapHdr
  · obtain ⟨command,rfl⟩ := stoppedAt f short
    rw [rxLoop,dif_pos short,loopNil,Frame.packets,if_pos command]
    rfl
  have whole : (f.bytes ++ rest).length = f.content.length+hdrSize f.header+rest.length := by
    rw [List.length_append,f.bytesLength]
  have received : ¬(f.bytes ++ rest).length < f.header.pktLen+hdrSize f.header := by
    rw [whole]
    exact Nat.not_lt.mpr (Nat.le_add_right _ _)
  have past : (f.bytes ++ rest).drop (f.header.pktLen+hdrSize f.header) = rest := by
    have end_ : f.header.pktLen+hdrSize f.header = f.bytes.length := f.bytesLength.symm
    rw [end_,List.drop_left]
  rw [rxLoop,dif_neg short]
  simp only [f.headerRead,if_neg received,past]
  cases kind : f.command with
  | true =>
    have cd : f.header.cdBit = 1 := by rw [Frame.header,kind]; rfl
    rw [if_pos cd,Frame.packets,if_pos kind]
    rfl
  | false =>
    have cd : ¬f.header.cdBit = 1 := by rw [Frame.header,kind]; exact Nat.zero_ne_one
    obtain ⟨first,others,content,nibble⟩ := f.datagram kind
    have behind : (f.bytes ++ rest).drop (hdrSize f.header) = f.content ++ rest := by
      rw [← f.headerSize,Frame.bytes,← List.append_assoc,List.append_assoc _ _ rest,List.drop_left]
    have read : Wire.peek (f.bytes ++ rest) (hdrSize f.header) = first := by
      rw [← f.headerSize,Frame.bytes,← List.append_assoc,List.append_assoc _ _ rest]
      rw [show (f.header.bytes ++ f.extension.getD []).length = (f.header.bytes ++ f.extension.getD []).length+0 from rfl,
        Wire.peekAppend,content]
      rfl
    have inside := f.padded kind
    have small := f.contentSmall
    have length : (f.header.pktLen+2 ^ 32-f.header.padLen) % 2 ^ 32 = f.content.length-f.padLen := by
      show (f.content.length+2 ^ 32-f.padLen) % 2 ^ 32 = _
      omega
    have body : (f.content ++ rest).take (f.content.length-f.padLen) = f.payload := by
      rw [Frame.payload,List.take_append_of_le_length (Nat.sub_le _ _)]
    have peeked : Wire.peek f.content 0 = first := by
      rw [content]
      rfl
    simp only [if_neg cd,granted,read,protocolRead nibble,behind,length,body]
    rw [Frame.packets,kind,peeked]
    rfl

end Loop

theorem framesReceived {alloc : Nat → Bool} (granted : ∀ n, alloc n = true) (devAddr : Bytes) (room : Nat) :
    (∀ frames : List Frame, qmiWwanRxFixup alloc devAddr ⟨room,frames.flatMap Frame.bytes⟩ =
      frames.flatMap (Frame.packets devAddr)) ∧
    ∀ xs ys : List Frame, qmiWwanRxFixup alloc devAddr ⟨room,(xs ++ ys).flatMap Frame.bytes⟩ =
      qmiWwanRxFixup alloc devAddr ⟨room,xs.flatMap Frame.bytes⟩ ++ qmiWwanRxFixup alloc devAddr ⟨room,ys.flatMap Frame.bytes⟩ := by
  have each : ∀ frames : List Frame, qmiWwanRxFixup alloc devAddr ⟨room,frames.flatMap Frame.bytes⟩ =
      frames.flatMap (Frame.packets devAddr) := by
    intro frames
    induction frames with
    | nil => exact loopNil
    | cons f frames ih =>
      unfold qmiWwanRxFixup at *
      rw [List.flatMap_cons,List.flatMap_cons,frameTaken granted,ih]
  refine ⟨each,fun xs ys => ?_⟩
  rw [each,each,each,List.flatMap_append]

def paddedFrame : Frame where
  command := false
  padLen := 2
  muxId := 5
  extension := some [2,0,0,0]
  content := [0x45,1,0,0]
  padSmall := by decide
  muxSmall := by decide
  extensionLength := by rintro _ ⟨rfl⟩; rfl
  contentSmall := by decide
  padded := fun _ => by decide
  datagram := fun _ => ⟨_,_,rfl,.inl rfl⟩

def emptyCommand : Frame where
  command := true
  padLen := 63
  muxId := 0
  extension := none
  content := []
  padSmall := by decide
  muxSmall := by decide
  extensionLength := nofun
  contentSmall := by decide
  padded := nofun
  datagram := nofun

def bareFrame : Frame where
  command := false
  padLen := 0
  muxId := qmapDefaultMuxId
  extension := none
  content := [0x60]
  padSmall := by decide
  muxSmall := by decide
  extensionLength := nofun
  contentSmall := by decide
  padded := fun _ => by decide
  datagram := fun _ => ⟨_,_,rfl,.inr rfl⟩

theorem threeFramesReceived : qmiWwanRxFixup (fun _ => true) [2,0x50,0xf4,0,0,0]
      ⟨0,[paddedFrame,emptyCommand,bareFrame].flatMap Frame.bytes⟩ =
    [⟨ethPIp,ethHeader [2,0x50,0xf4,0,0,0] ethPIp,some 5,[0x45,1]⟩,⟨ethPIpv6,ethHeader [2,0x50,0xf4,0,0,0] ethPIpv6,none,[0x60]⟩] :=
  (framesReceived (fun _ => rfl) [2,0x50,0xf4,0,0,0] 0).1 [paddedFrame,emptyCommand,bareFrame]

end MhiHost.QmapFrames
