import Noxtor.Common

/-!
# CipherState and transport encryption

`cipher_encrypt`, `cipher_decrypt`, `noise_encrypt` and `noise_decrypt` of `noise.c`.

A function that returns a length or -1 returns the output bytes or `none`; the cipher
state after the call is the second component, also when the call fails.
-/

namespace Noxtor
namespace Noise

open ByteString

/-- `struct noise_cipher_state`. -/
structure CipherState where
  k : Key
  n : UInt64
  hasKey : Bool
deriving DecidableEq

/-- `UINT64_MAX`, the nonce that is never used. -/
def uint64Max : UInt64 := 0xFFFFFFFFFFFFFFFF

/-- `cipher_init`. -/
def cipherInit : CipherState :=
  { k := Block.zero 32, n := 0, hasKey := false }

/-- `cipher_init_key`. -/
def cipherInitKey (key : Key) : CipherState :=
  { k := key, n := 0, hasKey := true }

/-- `encode_nonce`: four zero bytes, then the counter with the low byte first. -/
def encodeNonce (n : UInt64) : Block 12 :=
  ⟨List.replicate 4 0 ++ le64 n, rfl⟩

/-- The nonce determines the counter. -/
theorem encodeNonce_injective
    {m n : UInt64} (h : encodeNonce m = encodeNonce n) :
    m = n := by
  have hlist := congrArg List.Vector.toList h
  have hlow : le64 m = le64 n := List.append_cancel_left hlist
  exact le64_injective hlow

section Cipher

variable (P : Primitives)

/--
`cipher_encrypt`.  `out` tells whether the output pointer is non-NULL.

The counter is advanced by the fetch-and-add before the exhaustion test, and set back
to `UINT64_MAX` when the test fails.
-/
def cipherEncrypt (cs : CipherState) (ad : Bytes) (plaintext : Buf) (out : Bool) :
    Option Bytes × CipherState :=
  if plaintext.len > noxMaxMsgLen then (none, cs)
  else if plaintext.len > 0 ∧ plaintext.isNull then (none, cs)
  else if !out then (none, cs)
  else if !cs.hasKey then (some plaintext.bytes, cs)
  else if cs.n ≥ uint64Max then (none, { cs with n := uint64Max })
  else
    (some (P.aeadEncrypt cs.k (encodeNonce cs.n) ad plaintext.bytes),
      { cs with n := cs.n + 1 })

/-- `cipher_decrypt`: a failed tag check leaves the counter alone. -/
def cipherDecrypt (cs : CipherState) (ad : Bytes) (ciphertext : Buf) (out : Bool) :
    Option Bytes × CipherState :=
  if !out then (none, cs)
  else if ciphertext.len > 0 ∧ ciphertext.isNull then (none, cs)
  else if ciphertext.len > noiseMaxPayloadLen then (none, cs)
  else if !cs.hasKey then (some ciphertext.bytes, cs)
  else if ciphertext.len < noxMacLen then (none, cs)
  else if cs.n ≥ uint64Max then (none, cs)
  else
    match P.aeadDecrypt cs.k (encodeNonce cs.n) ad ciphertext.bytes with
    | none => (none, cs)
    | some pt => (some pt, { cs with n := cs.n + 1 })

end Cipher

/-- `struct noise_session`. -/
structure NoiseSession where
  tx : CipherState
  rx : CipherState
  remoteStatic : Key
deriving DecidableEq

section Transport

variable (P : Primitives)

/-- `noise_encrypt`; a NULL session is `none`. -/
def noiseEncrypt (session : Option NoiseSession) (plaintext : Buf) (out : Bool) :
    Option Bytes × Option NoiseSession :=
  match session with
  | none => (none, none)
  | some s =>
      if !out then (none, some s)
      else if plaintext.len > noxMaxMsgLen then (none, some s)
      else if plaintext.len > 0 ∧ plaintext.isNull then (none, some s)
      else
        ((cipherEncrypt P s.tx [] plaintext out).1,
          some { s with tx := (cipherEncrypt P s.tx [] plaintext out).2 })

/-- `noise_decrypt`; a NULL session is `none`. -/
def noiseDecrypt (session : Option NoiseSession) (ciphertext : Buf) (out : Bool) :
    Option Bytes × Option NoiseSession :=
  match session with
  | none => (none, none)
  | some s =>
      if !out then (none, some s)
      else if ciphertext.len > noiseMaxPayloadLen then (none, some s)
      else if ciphertext.len < noxMacLen then (none, some s)
      else if ciphertext.len > 0 ∧ ciphertext.isNull then (none, some s)
      else
        ((cipherDecrypt P s.rx [] ciphertext out).1,
          some { s with rx := (cipherDecrypt P s.rx [] ciphertext out).2 })

end Transport

section Facts

variable {P : Primitives}

theorem uint64Max_toNat : uint64Max.toNat = 2 ^ 64 - 1 := by
  rfl

/-- Below the reserved value the counter does not wrap. -/
theorem toNat_succ_of_lt
    {n : UInt64} (h : n < uint64Max) :
    (n + 1).toNat = n.toNat + 1 := by
  have hn : n.toNat < 2 ^ 64 - 1 := by
    have h' := UInt64.lt_iff_toNat_lt.mp h
    rwa [uint64Max_toNat] at h'
  rw [UInt64.toNat_add]
  have h1 : (1 : UInt64).toNat = 1 := rfl
  rw [h1]
  omega

/--
What `noise_encrypt` does with a proper plaintext on a keyed session: either the
counter is exhausted and nothing is produced, or one nonce is used.
-/
theorem noiseEncrypt_cases
    {s : NoiseSession} (hk : s.tx.hasKey = true)
    {pt : Bytes} (hpt : pt.length ≤ noxMaxMsgLen) :
    (s.tx.n < uint64Max ∧
      noiseEncrypt P (some s) (.data pt) true =
        (some (P.aeadEncrypt s.tx.k (encodeNonce s.tx.n) [] pt),
          some { s with tx := { s.tx with n := s.tx.n + 1 } })) ∨
    (uint64Max ≤ s.tx.n ∧
      noiseEncrypt P (some s) (.data pt) true =
        (none, some { s with tx := { s.tx with n := uint64Max } })) := by
  have hlen : ¬ pt.length > noxMaxMsgLen := by omega
  by_cases hn : uint64Max ≤ s.tx.n
  · right
    refine ⟨hn, ?_⟩
    simp [noiseEncrypt, cipherEncrypt, hlen, hk, hn]
  · left
    refine ⟨by simpa using hn, ?_⟩
    simp [noiseEncrypt, cipherEncrypt, hlen, hk, hn]

/--
What `noise_decrypt` does on a keyed session: it fails and changes nothing, or it
returns the plaintext of the current nonce and advances the counter by one.
-/
theorem noiseDecrypt_cases
    {s : NoiseSession} (hk : s.rx.hasKey = true) (ct : Bytes) :
    noiseDecrypt P (some s) (.data ct) true = (none, some s) ∨
    (∃ pt, s.rx.n < uint64Max ∧
      P.aeadDecrypt s.rx.k (encodeNonce s.rx.n) [] ct = some pt ∧
      noiseDecrypt P (some s) (.data ct) true =
        (some pt, some { s with rx := { s.rx with n := s.rx.n + 1 } })) := by
  unfold noiseDecrypt
  by_cases h1 : ct.length > noiseMaxPayloadLen
  · left; simp [h1]
  by_cases h2 : ct.length < noxMacLen
  · left; simp [h1, h2]
  by_cases hn : uint64Max ≤ s.rx.n
  · left; simp [h1, h2, cipherDecrypt, hk, hn]
  cases hd : P.aeadDecrypt s.rx.k (encodeNonce s.rx.n) [] ct with
  | none =>
      left
      simp [h1, h2, cipherDecrypt, hk, hn, hd]
  | some pt =>
      right
      refine ⟨pt, by simpa using hn, rfl, ?_⟩
      simp [h1, h2, cipherDecrypt, hk, hn, hd]

/-- A call of `noise_decrypt` that fails leaves the session as it was. -/
theorem noiseDecrypt_none
    {s : Option NoiseSession} {ct : Buf} {out : Bool}
    (h : (noiseDecrypt P s ct out).1 = none) :
    (noiseDecrypt P s ct out).2 = s := by
  cases s with
  | none =>
      rfl
  | some s =>
      unfold noiseDecrypt at h ⊢
      dsimp only at h ⊢
      split_ifs at h ⊢
      · rfl
      · rfl
      · rfl
      · rfl
      · have hcs : (cipherDecrypt P s.rx [] ct out).2 = s.rx := by
          unfold cipherDecrypt at h ⊢
          split_ifs at h ⊢ <;> first | rfl | cases h | skip
          cases hd : P.aeadDecrypt s.rx.k (encodeNonce s.rx.n) [] ct.bytes with
          | none =>
              rfl
          | some pt =>
              rw [hd] at h
              cases h
        rw [hcs]

/-- What a call of `noise_decrypt` that succeeds has been given, on a keyed session. -/
theorem noiseDecrypt_accepts
    {s : NoiseSession} (hk : s.rx.hasKey = true) {buf : Buf} {out : Bool} {pt : Bytes}
    (h : (noiseDecrypt P (some s) buf out).1 = some pt) :
    ∃ ct, buf = .data ct ∧ out = true ∧ s.rx.n < uint64Max ∧
      P.aeadDecrypt s.rx.k (encodeNonce s.rx.n) [] ct = some pt := by
  cases out with
  | false =>
      cases h
  | true =>
      cases buf with
      | null len =>
          simp only [noiseDecrypt, Buf.len_null, Buf.isNull_null, and_true] at h
          split_ifs at h with h1 h2 h3 h4
          · simp [noxMacLen] at h3 h4
            omega
      | data ct =>
          rcases noiseDecrypt_cases (P := P) hk ct with heq | ⟨pt', hlt, hd, heq⟩
          · rw [heq] at h
            cases h
          · rw [heq] at h
            cases h
            exact ⟨ct, rfl, rfl, hlt, hd⟩

end Facts

end Noise
end Noxtor
