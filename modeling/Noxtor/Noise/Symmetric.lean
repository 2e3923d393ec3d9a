import Noxtor.Noise.Cipher

/-!
# SymmetricState

HMAC, HKDF and the `symmetric_*` functions of `noise.c`.

`sodium_malloc` may fail.  `HkdfAlloc` records, for one call of `hkdf_blake2b`, which
of its groups of allocations succeed: the two buffers of the call itself and the four
blocks of each of its three HMAC computations.
-/

namespace Noxtor
namespace Noise

open ByteString

/-- `struct noise_symmetric_state`. -/
structure SymmetricState where
  ck : Block 64
  h : Block 64
  cs : CipherState
deriving DecidableEq

/-- Outcome of the allocations inside one `hkdf_blake2b` call. -/
structure HkdfAlloc where
  bufs : Bool
  tempKey : Bool
  out1 : Bool
  out2 : Bool
deriving DecidableEq

/-- Every allocation succeeds. -/
def HkdfAlloc.Ok (a : HkdfAlloc) : Prop :=
  a.bufs = true ∧ a.tempKey = true ∧ a.out1 = true ∧ a.out2 = true

instance (a : HkdfAlloc) : Decidable a.Ok :=
  inferInstanceAs (Decidable (_ ∧ _))

def sampleAlloc : HkdfAlloc :=
  { bufs := true, tempKey := true, out1 := true, out2 := true }

/-- `BLAKE2B_BLOCK_SIZE`. -/
def blake2bBlockSize : Nat := 128

section Symmetric

variable (P : Primitives)

/-- `noise_hmac_blake2b_64`: keys longer than one block are refused. -/
def noiseHmacBlake2b64 (alloc : Bool) (key data : Bytes) : Except NoxErr (Block 64) :=
  if !alloc then .error .alloc
  else if key.length > blake2bBlockSize then .error .crypto
  else
    let k := Block.ofBytes blake2bBlockSize key
    let ipad := k.toList.map (· ^^^ 0x36)
    let opad := k.toList.map (· ^^^ 0x5c)
    let inner := P.blake2b (ipad ++ data)
    .ok (P.blake2b (opad ++ inner.toList))

/-- `hkdf_blake2b`: both outputs, or an error with both outputs zeroed. -/
def hkdfBlake2b (alloc : HkdfAlloc) (ck : Block 64) (ikm : Bytes) :
    Except NoxErr (Block 64 × Block 64) :=
  if !alloc.bufs then .error .alloc
  else
    match noiseHmacBlake2b64 P alloc.tempKey ck.toList ikm with
    | .error err => .error err
    | .ok tempKey =>
        match noiseHmacBlake2b64 P alloc.out1 tempKey.toList [0x01] with
        | .error err => .error err
        | .ok out1 =>
            match noiseHmacBlake2b64 P alloc.out2 tempKey.toList (out1.toList ++ [0x02]) with
            | .error err => .error err
            | .ok out2 => .ok (out1, out2)

/-- `symmetric_init`. -/
def symmetricInit (protocolName : Bytes) : SymmetricState :=
  let h :=
    if protocolName.length ≤ 64 then Block.ofBytes 64 protocolName
    else P.blake2b protocolName
  { ck := h, h := h, cs := cipherInit }

/-- `symmetric_mix_hash`. -/
def symmetricMixHash (ss : SymmetricState) (data : Bytes) : SymmetricState :=
  { ss with h := P.blake2b (ss.h.toList ++ data) }

/--
`symmetric_mix_key`.  The first output of HKDF is written over `ck`, so a failure
leaves `ck` zeroed.
-/
def symmetricMixKey (alloc : HkdfAlloc) (ikm : Bytes) :
    EStateM NoxErr SymmetricState Unit := fun ss =>
  match hkdfBlake2b P alloc ss.ck ikm with
  | .error err => .error err { ss with ck := Block.zero 64 }
  | .ok (out1, tempK) =>
      .ok () { ss with ck := out1, cs := cipherInitKey (Block.ofBytes 32 tempK.toList) }

/-- `symmetric_encrypt_and_hash`. -/
def symmetricEncryptAndHash (ss : SymmetricState) (plaintext : Buf) :
    Option Bytes × SymmetricState :=
  match cipherEncrypt P ss.cs ss.h.toList plaintext true with
  | (none, cs) => (none, { ss with cs := cs })
  | (some ct, cs) => (some ct, symmetricMixHash P { ss with cs := cs } ct)

/-- `symmetric_decrypt_and_hash`: a failed decryption destroys the transcript hash. -/
def symmetricDecryptAndHash (ss : SymmetricState) (ciphertext : Bytes) (outCap : Nat) :
    Option Bytes × SymmetricState :=
  if ss.cs.hasKey ∧ ciphertext.length < noxMacLen then (none, ss)
  else if ss.cs.hasKey ∧ ciphertext.length - noxMacLen > outCap then (none, ss)
  else if ¬ ss.cs.hasKey ∧ ciphertext.length > outCap then (none, ss)
  else
    match cipherDecrypt P ss.cs ss.h.toList (.data ciphertext) true with
    | (none, cs) => (none, { ss with cs := cs, h := Block.zero 64 })
    | (some pt, cs) => (some pt, symmetricMixHash P { ss with cs := cs } ciphertext)

/-- `symmetric_split`: the two transport keys; the handshake state is destroyed. -/
def symmetricSplit (alloc : HkdfAlloc) :
    EStateM NoxErr SymmetricState (CipherState × CipherState) := fun ss =>
  match hkdfBlake2b P alloc ss.ck [] with
  | .error err => .error err ss
  | .ok (tempK1, tempK2) =>
      .ok (cipherInitKey (Block.ofBytes 32 tempK1.toList),
          cipherInitKey (Block.ofBytes 32 tempK2.toList))
        { ck := Block.zero 64, h := Block.zero 64, cs := cipherInit }

end Symmetric

section Facts

variable (P : Primitives)

/-- HMAC of a key that fits one block. -/
def hmac64 (key : Block 64) (data : Bytes) : Block 64 :=
  P.blake2b
    ((Block.ofBytes blake2bBlockSize key.toList).toList.map (· ^^^ 0x5c) ++
      (P.blake2b
        ((Block.ofBytes blake2bBlockSize key.toList).toList.map (· ^^^ 0x36) ++ data)).toList)

/-- The two outputs of HKDF. -/
def hkdf64 (ck : Block 64) (ikm : Bytes) : Block 64 × Block 64 :=
  (hmac64 P (hmac64 P ck ikm) [0x01],
    hmac64 P (hmac64 P ck ikm)
      ((hmac64 P (hmac64 P ck ikm) [0x01]).toList ++ [0x02]))

theorem noiseHmacBlake2b64_ok
    (key : Block 64) (data : Bytes) :
    noiseHmacBlake2b64 P true key.toList data = .ok (hmac64 P key data) := by
  simp [noiseHmacBlake2b64, hmac64, blake2bBlockSize]

theorem noiseHmacBlake2b64_failed
    (key data : Bytes) :
    noiseHmacBlake2b64 P false key data = .error .alloc := by
  rfl

/-- `hkdf_blake2b` succeeds exactly when its allocations do. -/
theorem hkdfBlake2b_eq
    (alloc : HkdfAlloc) (ck : Block 64) (ikm : Bytes) :
    hkdfBlake2b P alloc ck ikm =
      if alloc.Ok then .ok (hkdf64 P ck ikm) else .error .alloc := by
  obtain ⟨b, t, o1, o2⟩ := alloc
  cases b with
  | false =>
      simp [hkdfBlake2b, HkdfAlloc.Ok]
  | true =>
      cases t with
      | false =>
          simp [hkdfBlake2b, HkdfAlloc.Ok, noiseHmacBlake2b64_failed]
      | true =>
          cases o1 with
          | false =>
              simp [hkdfBlake2b, HkdfAlloc.Ok, noiseHmacBlake2b64_failed,
                noiseHmacBlake2b64_ok]
          | true =>
              cases o2 with
              | false =>
                  simp [hkdfBlake2b, HkdfAlloc.Ok, noiseHmacBlake2b64_failed,
                    noiseHmacBlake2b64_ok]
              | true =>
                  simp [hkdfBlake2b, HkdfAlloc.Ok, noiseHmacBlake2b64_ok, hkdf64]

end Facts

end Noise
end Noxtor
