import Noxtor.Common

/-!
# Frames

`frame_header_encode` and `frame_header_decode` of `network.c`, and `nox_next_chunk_size`
of `stdin_handler.c`.

A frame is a header of 13 bytes in network order followed by the payload.  The main fact
is the round trip: a header with a legal type and length is read back as it was written.
-/

namespace Noxtor
namespace App

open ByteString

def noxMsgText : UInt8 := 1
def noxMsgFile : UInt8 := 2
def noxMsgCtrl : UInt8 := 4

/-- `struct frame_header`. -/
structure FrameHeader where
  magic : UInt32
  type : UInt8
  seq : UInt32
  len : UInt32
deriving DecidableEq

/-- `frame_header_encode`. -/
def frameHeaderEncode (hdr : FrameHeader) : Bytes :=
  be32 hdr.magic ++ [hdr.type] ++ be32 hdr.seq ++ be32 hdr.len

/-- `frame_header_decode`, on a buffer of at least 13 bytes. -/
def frameHeaderDecode : Bytes → Except NoxErr FrameHeader
  | m0 :: m1 :: m2 :: m3 :: ty :: s0 :: s1 :: s2 :: s3 :: l0 :: l1 :: l2 :: l3 :: _ =>
      let hdr : FrameHeader :=
        { magic := ofBe32 m0 m1 m2 m3, type := ty,
          seq := ofBe32 s0 s1 s2 s3, len := ofBe32 l0 l1 l2 l3 }
      if hdr.magic ≠ noxFrameMagic then .error .proto
      else if hdr.type < noxMsgText ∨ hdr.type > noxMsgCtrl then .error .proto
      else if hdr.len.toNat > frameMaxPayload then .error .proto
      else .ok hdr
  | _ => .error .proto

/-- The bytes of a frame: the header and the payload, as the two parts of the `writev`. -/
def frameBytes (type : UInt8) (seq : UInt32) (payload : Bytes) : Bytes :=
  frameHeaderEncode
    { magic := noxFrameMagic, type := type, seq := seq,
      len := UInt32.ofNat payload.length } ++ payload

@[simp] theorem frameHeaderEncode_length
    (hdr : FrameHeader) :
    (frameHeaderEncode hdr).length = frameHeaderWireSize := by
  simp [frameHeaderEncode, frameHeaderWireSize]

@[simp] theorem frameBytes_length
    (type : UInt8) (seq : UInt32) (payload : Bytes) :
    (frameBytes type seq payload).length = frameHeaderWireSize + payload.length := by
  simp [frameBytes]

/-- A legal header is read back as it was written, whatever follows it. -/
theorem frameHeaderDecode_encode
    (hdr : FrameHeader) (rest : Bytes)
    (hmagic : hdr.magic = noxFrameMagic)
    (htype : noxMsgText ≤ hdr.type ∧ hdr.type ≤ noxMsgCtrl)
    (hlen : hdr.len.toNat ≤ frameMaxPayload) :
    frameHeaderDecode (frameHeaderEncode hdr ++ rest) = .ok hdr := by
  have h1 : ¬ (hdr.type < noxMsgText ∨ hdr.type > noxMsgCtrl) := by
    rintro (h | h)
    · exact absurd htype.1 (UInt8.not_le.mpr h)
    · exact absurd htype.2 (UInt8.not_le.mpr h)
  have h2 : ¬ hdr.len.toNat > frameMaxPayload := by omega
  simp only [frameHeaderEncode, be32, List.cons_append, List.nil_append, frameHeaderDecode,
    ofBe32_be32]
  rw [if_neg (by simp [hmagic]), if_neg h1, if_neg h2]

/-- What a decoded header satisfies. -/
theorem frameHeaderDecode_ok
    {wire : Bytes} {hdr : FrameHeader}
    (h : frameHeaderDecode wire = .ok hdr) :
    hdr.magic = noxFrameMagic ∧ noxMsgText ≤ hdr.type ∧ hdr.type ≤ noxMsgCtrl ∧
      hdr.len.toNat ≤ frameMaxPayload := by
  unfold frameHeaderDecode at h
  split at h
  · dsimp only at h
    split at h
    · cases h
    · split at h
      · cases h
      · split at h
        · cases h
        · rename_i hm ht hl
          cases h
          rw [not_or] at ht
          exact ⟨by simpa using hm, UInt8.not_lt.mp ht.1, UInt8.not_lt.mp ht.2, by
            simpa using hl⟩
  · cases h

/-- The loop of `nox_next_chunk_size`: step back over UTF-8 continuation bytes. -/
def chunkBackoff (msg : Bytes) (offset : Nat) : Nat → Nat
  | 0 => 0
  | size + 1 =>
      if (msg.getD (offset + (size + 1)) 0) &&& 0xC0 = 0x80 then chunkBackoff msg offset size
      else size + 1

/-- `nox_next_chunk_size`. -/
def noxNextChunkSize (msg : Bytes) (offset totalLen : Nat) : Nat :=
  if offset ≥ totalLen then 0
  else if totalLen - offset ≤ 4000 then totalLen - offset
  else if offset > 2 ^ 64 - 1 - 4000 then 4000
  else
    let size := chunkBackoff msg offset 4000
    if size = 0 then 1 else size

theorem chunkBackoff_le
    (msg : Bytes) (offset size : Nat) :
    chunkBackoff msg offset size ≤ size := by
  induction size with
  | zero =>
      exact Nat.le_refl 0
  | succ size ih =>
      unfold chunkBackoff
      split
      · omega
      · exact Nat.le_refl _

/-- A chunk is never empty, never longer than 4000 bytes and never beyond the end. -/
theorem noxNextChunkSize_bounds
    (msg : Bytes) {offset totalLen : Nat}
    (h : offset < totalLen) :
    1 ≤ noxNextChunkSize msg offset totalLen ∧
      noxNextChunkSize msg offset totalLen ≤ 4000 ∧
      offset + noxNextChunkSize msg offset totalLen ≤ totalLen := by
  have hb := chunkBackoff_le msg offset 4000
  unfold noxNextChunkSize
  dsimp only
  split
  · omega
  split
  · omega
  split
  · omega
  split
  · omega
  · omega

end App
end Noxtor
