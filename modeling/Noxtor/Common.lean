import Noxtor.Lib.ByteString

/-!
# Constants, error codes and cryptographic primitives

The constants of `common.h`, `noise.h`, `network.h` and `types.h`, the error codes
`nox_err_t`, and the primitives the program takes from libsodium.

A primitive is a function of the bytes it is given.  The only facts built in are the
sizes libsodium documents: an AEAD ciphertext is the plaintext plus a 16-byte tag,
in both directions.  Everything else a result relies on is a hypothesis of that
result.
-/

namespace Noxtor

open ByteString

def noxMacLen : Nat := 16
def noxMaxMsgLen : Nat := 4096
def noxOnionLen : Nat := 62
def noxOnionB32Len : Nat := 56
def noxContactNameLen : Nat := 64
def noxPathMax : Nat := 512
def noxHsPayloadV1Len : Nat := 127
def noxHsPayloadV1Ver : UInt8 := 1
def noxFrameMagic : UInt32 := 0xDEADC0DE
def noxMaxFileSize : Nat := 100 * 1024 * 1024 * 1024
def noiseMaxHandshakeLen : Nat := 256
def noiseMaxPayloadLen : Nat := noxMaxMsgLen + noxMacLen
def frameHeaderWireSize : Nat := 13
def frameMaxPayload : Nat := 4096 + noxMacLen
def txBufCapacity : Nat := 13 + 4096 + noxMacLen
def recvBufCapacity : Nat := 13 + 4096 + noxMacLen
abbrev noxMaxPeers : Nat := 16

def noxHandshakeTimeoutSec : Int := 30
def noxTofuTimeoutSec : Int := 120
def noxFileChunkTimeoutSec : Int := 60
def noxPeerIdleTimeoutSec : Int := 3600
def noxHalfframeTimeoutSec : Int := 60

/-- A 32-byte key, `uint8_t[NOX_KEY_LEN]`. -/
abbrev Key := Block 32

/-- The failures of `nox_err_t`; `NOX_OK` is the absence of one. -/
inductive NoxErr where
  | alloc
  | crypto
  | io
  | proto
  | auth
  | locked
  | pin
  | config
  | tor
  | net
  | db
  | overflow
  | state
  | notFound
  | landlockUnsupported
deriving DecidableEq, Repr

/-- A pair of pointer and length: `null n` is a NULL pointer passed with length `n`. -/
inductive Buf where
  | null (len : Nat)
  | data (bytes : Bytes)
deriving DecidableEq

namespace Buf

/-- The length argument. -/
def len : Buf → Nat
  | null n => n
  | data b => b.length

/-- The bytes behind the pointer. -/
def bytes : Buf → Bytes
  | null _ => []
  | data b => b

/-- Is the pointer NULL? -/
def isNull : Buf → Bool
  | null _ => true
  | data _ => false

@[simp] theorem len_data (b : Bytes) : (data b).len = b.length := rfl
@[simp] theorem bytes_data (b : Bytes) : (data b).bytes = b := rfl
@[simp] theorem isNull_data (b : Bytes) : (data b).isNull = false := rfl
@[simp] theorem len_null (n : Nat) : (null n).len = n := rfl
@[simp] theorem bytes_null (n : Nat) : (null n).bytes = [] := rfl
@[simp] theorem isNull_null (n : Nat) : (null n).isNull = true := rfl

end Buf

/-- A Curve25519 key pair. -/
structure KeyPair where
  priv : Key
  pub : Key
deriving DecidableEq

/--
The libsodium functions the program calls.

`scalarmult` returns `none` where `crypto_scalarmult_curve25519` returns -1, and
`aeadDecrypt` returns `none` where the tag does not verify.
-/
structure Primitives where
  blake2b : Bytes → Block 64
  generichash : Bytes → Block 32
  sha3 : Bytes → Block 32
  scalarmult : Key → Key → Option Key
  aeadEncrypt : Key → Block 12 → Bytes → Bytes → Bytes
  aeadDecrypt : Key → Block 12 → Bytes → Bytes → Option Bytes
  signDetached : Key → Bytes → Block 64
  signVerify : Block 64 → Bytes → Key → Bool
  aeadEncrypt_length : ∀ k n ad pt,
    (aeadEncrypt k n ad pt).length = pt.length + 16
  aeadDecrypt_length : ∀ k n ad ct pt,
    aeadDecrypt k n ad ct = some pt → ct.length = pt.length + 16

/-- The tag of `samplePrimitives`: the nonce and the first bytes of the key. -/
def sampleTag (k : Key) (n : Block 12) : Bytes :=
  n.toList ++ k.toList.take 4

@[simp] theorem sampleTag_length
    (k : Key) (n : Block 12) :
    (sampleTag k n).length = 16 := by
  simp [sampleTag]

/--
Primitives that are easy to evaluate.  A public key equals its private key and
`scalarmult` adds the two keys byte by byte, so that Diffie-Hellman commutes; opening
undoes sealing and refuses another key or nonce.
-/
def samplePrimitives : Primitives where
  blake2b data := Block.ofBytes 64 data
  generichash data := Block.ofBytes 32 data
  sha3 data := Block.ofBytes 32 data
  scalarmult priv pub :=
    if pub = Block.zero 32 then none
    else some (List.Vector.map₂ (· + ·) priv pub)
  aeadEncrypt k n _ pt := pt ++ sampleTag k n
  aeadDecrypt k n _ ct :=
    if 16 ≤ ct.length ∧ ct.drop (ct.length - 16) = sampleTag k n then
      some (ct.take (ct.length - 16))
    else none
  signDetached _ msg := Block.ofBytes 64 msg
  signVerify sig msg _ := sig = Block.ofBytes 64 msg
  aeadEncrypt_length k n ad pt := by
    simp
  aeadDecrypt_length k n ad ct pt h := by
    split at h
    · rename_i hct
      rw [Option.some.injEq] at h
      rw [← h, List.length_take]
      omega
    · cases h

/-- The key pair of `samplePrimitives` whose bytes are all `b`. -/
def samplePair (b : UInt8) : KeyPair :=
  { priv := ⟨List.replicate 32 b, List.length_replicate⟩,
    pub := ⟨List.replicate 32 b, List.length_replicate⟩ }

theorem samplePrimitives_open_seal
    (k : Key) (n : Block 12) (ad pt : Bytes) :
    samplePrimitives.aeadDecrypt k n ad (samplePrimitives.aeadEncrypt k n ad pt) = some pt := by
  simp [samplePrimitives]

end Noxtor
