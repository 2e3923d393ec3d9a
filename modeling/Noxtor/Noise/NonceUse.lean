import Noxtor.Noise.Cipher
import Mathlib.Data.List.Nodup

/-!
# The nonces of a sending key

Any sequence of `cipher_encrypt` and `noise_encrypt` calls on one session, with any
arguments.  `aeadNonce` is the nonce that a call passes to the AEAD, if it gets that far.

The counter only grows, a call passes the counter it finds, and at `UINT64_MAX` nothing is
passed any more: so no nonce is passed twice.
-/

namespace Noxtor
namespace Noise

open ByteString

/-- The arguments of a call are refused before the counter is looked at. -/
def BadArgs (plaintext : Buf) (out : Bool) : Prop :=
  plaintext.len > noxMaxMsgLen ∨ (plaintext.len > 0 ∧ plaintext.isNull = true) ∨ out = false

instance (plaintext : Buf) (out : Bool) : Decidable (BadArgs plaintext out) :=
  inferInstanceAs (Decidable (_ ∨ _ ∨ _))

/-- The nonce that `cipher_encrypt` passes to the AEAD, on a state with a key. -/
def aeadNonce (cs : CipherState) (plaintext : Buf) (out : Bool) : Option (Block 12) :=
  if BadArgs plaintext out then none
  else if cs.n ≥ uint64Max then none
  else some (encodeNonce cs.n)

/-- A call on the sending side of a session; `noise` with `null` passes a NULL session. -/
inductive SealCall where
  | cipher (ad : Bytes) (plaintext : Buf) (out : Bool)
  | noise (null : Bool) (plaintext : Buf) (out : Bool)
deriving DecidableEq

namespace SealCall

/-- The arguments that the call hands to `cipher_encrypt`. -/
def ad : SealCall → Bytes
  | cipher ad _ _ => ad
  | noise _ _ _ => []

def plaintext : SealCall → Buf
  | cipher _ pt _ => pt
  | noise _ pt _ => pt

/-- The call is refused for its arguments. -/
def Rejected : SealCall → Prop
  | cipher _ pt out => BadArgs pt out
  | noise null pt out => null = true ∨ BadArgs pt out

/-- The nonce that the call passes to the AEAD. -/
def nonce (cs : CipherState) : SealCall → Option (Block 12)
  | cipher _ pt out => aeadNonce cs pt out
  | noise null pt out => if null then none else aeadNonce cs pt out

end SealCall

section Run

variable (P : Primitives)

/-- One call: what it returns, and the session it leaves. -/
def sealStep (s : NoiseSession) : SealCall → Option Bytes × NoiseSession
  | .cipher ad pt out =>
      ((cipherEncrypt P s.tx ad pt out).1, { s with tx := (cipherEncrypt P s.tx ad pt out).2 })
  | .noise null pt out =>
      let r := noiseEncrypt P (if null then none else some s) pt out
      (r.1, r.2.getD s)

/-- The session after a sequence of calls. -/
def sealRun (s : NoiseSession) : List SealCall → NoiseSession
  | [] => s
  | c :: cs => sealRun (sealStep P s c).2 cs

/-- The calls of a sequence, each with the session in which it is made. -/
def sealTrace (s : NoiseSession) : List SealCall → List (NoiseSession × SealCall)
  | [] => []
  | c :: cs => (s, c) :: sealTrace (sealStep P s c).2 cs

/-- The nonces that a sequence of calls passes to the AEAD. -/
def noncesUsed (s : NoiseSession) (calls : List SealCall) : List (Block 12) :=
  (sealTrace P s calls).filterMap fun t => t.2.nonce t.1.tx

end Run

section Step

variable {P : Primitives} {s : NoiseSession}

theorem eq_uint64Max
    {n : UInt64} (h : ¬ n < uint64Max) :
    n = uint64Max := by
  apply UInt64.toNat_inj.mp
  have h1 := UInt64.le_iff_toNat_le.mp (UInt64.not_lt.mp h)
  have h2 := n.toNat_lt
  rw [uint64Max_toNat] at h1 ⊢
  omega

/-- What `cipher_encrypt` does on a state with a key. -/
theorem cipherEncrypt_keyed
    {cs : CipherState} (hk : cs.hasKey = true) (ad : Bytes) (pt : Buf) (out : Bool) :
    cipherEncrypt P cs ad pt out =
      if BadArgs pt out then (none, cs)
      else if cs.n ≥ uint64Max then (none, { cs with n := uint64Max })
      else (some (P.aeadEncrypt cs.k (encodeNonce cs.n) ad pt.bytes), { cs with n := cs.n + 1 }) := by
  unfold cipherEncrypt BadArgs
  by_cases h1 : pt.len > noxMaxMsgLen
  · simp [h1]
  by_cases h2 : pt.len > 0 ∧ pt.isNull = true
  · simp [h1, h2]
  cases out with
  | false =>
      simp [h1, h2]
  | true =>
      simp [h1, h2, hk]

theorem noiseEncrypt_eq
    (pt : Buf) (out : Bool) :
    noiseEncrypt P (some s) pt out =
      if BadArgs pt out then (none, some s)
      else ((cipherEncrypt P s.tx [] pt out).1,
        some { s with tx := (cipherEncrypt P s.tx [] pt out).2 }) := by
  unfold noiseEncrypt BadArgs
  cases out with
  | false =>
      simp
  | true =>
      by_cases h1 : pt.len > noxMaxMsgLen
      · simp [h1]
      by_cases h2 : pt.len > 0 ∧ pt.isNull = true
      · simp [h1, h2]
      · simp [h1, h2]

/--
What a call does on a session with a sending key: refused for its arguments, or out of
nonces, or one nonce is used.
-/
theorem sealStep_cases
    (hk : s.tx.hasKey = true) (c : SealCall) :
    (c.Rejected ∧ c.nonce s.tx = none ∧ sealStep P s c = (none, s)) ∨
    (¬ c.Rejected ∧ s.tx.n = uint64Max ∧ c.nonce s.tx = none ∧ sealStep P s c = (none, s)) ∨
    (¬ c.Rejected ∧ s.tx.n < uint64Max ∧ c.nonce s.tx = some (encodeNonce s.tx.n) ∧
      sealStep P s c =
        (some (P.aeadEncrypt s.tx.k (encodeNonce s.tx.n) c.ad c.plaintext.bytes),
          { s with tx := { s.tx with n := s.tx.n + 1 } })) := by
  have hcipher := cipherEncrypt_keyed (P := P) hk c.ad c.plaintext
  have hend : ¬ s.tx.n < uint64Max → s.tx.n = uint64Max := eq_uint64Max
  cases c with
  | cipher ad pt out =>
      simp only [SealCall.ad, SealCall.plaintext] at hcipher
      simp only [SealCall.Rejected, SealCall.nonce, sealStep, hcipher, aeadNonce, SealCall.ad,
        SealCall.plaintext]
      by_cases hbad : BadArgs pt out
      · left
        simp [hbad]
      by_cases hlt : s.tx.n < uint64Max
      · right
        right
        simp [hbad, hlt, UInt64.not_le.mpr hlt]
      · right
        left
        simp [hbad, hend hlt]
        rw [← hend hlt]
  | noise null pt out =>
      simp only [SealCall.ad, SealCall.plaintext] at hcipher
      cases null with
      | true =>
          left
          exact ⟨Or.inl rfl, rfl, rfl⟩
      | false =>
          simp only [SealCall.Rejected, SealCall.nonce, sealStep, aeadNonce, SealCall.ad,
            SealCall.plaintext, Bool.false_eq_true, if_false, false_or, noiseEncrypt_eq, hcipher]
          by_cases hbad : BadArgs pt out
          · left
            simp [hbad]
          by_cases hlt : s.tx.n < uint64Max
          · right
            right
            simp [hbad, hlt, UInt64.not_le.mpr hlt]
          · right
            left
            simp [hbad, hend hlt]
            rw [← hend hlt]

/-- A call keeps the key. -/
theorem sealStep_key
    (hk : s.tx.hasKey = true) (c : SealCall) :
    (sealStep P s c).2.tx.hasKey = true ∧ (sealStep P s c).2.tx.k = s.tx.k ∧
      s.tx.n.toNat ≤ (sealStep P s c).2.tx.n.toNat := by
  rcases sealStep_cases (P := P) hk c with ⟨-, -, h⟩ | ⟨-, -, -, h⟩ | ⟨-, hlt, -, h⟩
  · rw [h]
    exact ⟨hk, rfl, Nat.le_refl _⟩
  · rw [h]
    exact ⟨hk, rfl, Nat.le_refl _⟩
  · rw [h]
    refine ⟨hk, rfl, ?_⟩
    show s.tx.n.toNat ≤ (s.tx.n + 1).toNat
    rw [toNat_succ_of_lt hlt]
    exact Nat.le_succ _

end Step

section Runs

variable {P : Primitives}

/-- The states of a sequence of calls all have the key they started with. -/
theorem sealTrace_key
    {s : NoiseSession} (hk : s.tx.hasKey = true) (calls : List SealCall) :
    ∀ t ∈ sealTrace P s calls, t.1.tx.hasKey = true ∧ t.1.tx.k = s.tx.k := by
  induction calls generalizing s with
  | nil =>
      intro t ht
      cases ht
  | cons c calls ih =>
      intro t ht
      obtain ⟨hk', hkey, -⟩ := sealStep_key (P := P) hk c
      rcases List.mem_cons.mp ht with rfl | ht
      · exact ⟨hk, rfl⟩
      · obtain ⟨h1, h2⟩ := ih hk' t ht
        exact ⟨h1, h2.trans hkey⟩

/-- Every nonce is one of the counters from the start up to `UINT64_MAX`. -/
theorem noncesUsed_range
    {s : NoiseSession} (hk : s.tx.hasKey = true) (calls : List SealCall) :
    ∀ x ∈ noncesUsed P s calls,
      ∃ m : UInt64, x = encodeNonce m ∧ s.tx.n.toNat ≤ m.toNat ∧ m < uint64Max := by
  induction calls generalizing s with
  | nil =>
      intro x hx
      cases hx
  | cons c calls ih =>
      intro x hx
      obtain ⟨hk', -, hle⟩ := sealStep_key (P := P) hk c
      have htail : ∀ y ∈ noncesUsed P (sealStep P s c).2 calls,
          ∃ m : UInt64, y = encodeNonce m ∧ s.tx.n.toNat ≤ m.toNat ∧ m < uint64Max := by
        intro y hy
        obtain ⟨m, rfl, hm, hlt⟩ := ih hk' y hy
        exact ⟨m, rfl, Nat.le_trans hle hm, hlt⟩
      unfold noncesUsed sealTrace at hx
      rw [List.filterMap_cons] at hx
      rcases sealStep_cases (P := P) hk c with ⟨-, hn, -⟩ | ⟨-, -, hn, -⟩ | ⟨-, hlt, hn, -⟩
      · rw [hn] at hx
        exact htail x hx
      · rw [hn] at hx
        exact htail x hx
      · rw [hn] at hx
        rcases List.mem_cons.mp hx with rfl | hx
        · exact ⟨s.tx.n, rfl, Nat.le_refl _, hlt⟩
        · exact htail x hx

/-- No nonce is passed twice. -/
theorem noncesUsed_nodup
    {s : NoiseSession} (hk : s.tx.hasKey = true) (calls : List SealCall) :
    (noncesUsed P s calls).Nodup := by
  induction calls generalizing s with
  | nil =>
      exact List.nodup_nil
  | cons c calls ih =>
      obtain ⟨hk', -, -⟩ := sealStep_key (P := P) hk c
      have htail := ih hk'
      unfold noncesUsed sealTrace
      rw [List.filterMap_cons]
      rcases sealStep_cases (P := P) hk c with ⟨-, hn, -⟩ | ⟨-, -, hn, -⟩ | ⟨-, hlt, hn, hstep⟩
      · rw [hn]
        exact htail
      · rw [hn]
        exact htail
      · rw [hn]
        apply List.nodup_cons.mpr
        refine ⟨?_, htail⟩
        intro hmem
        -- A later nonce encodes a larger counter.
        obtain ⟨m, hm, hle, -⟩ := noncesUsed_range hk' calls _ hmem
        rw [hstep] at hle
        have hsucc := toNat_succ_of_lt hlt
        have hle' : (s.tx.n + 1).toNat ≤ m.toNat := hle
        rw [encodeNonce_injective hm] at hsucc hle'
        omega

/-- Past the last nonce every call fails and the counter stays. -/
theorem sealRun_exhausted
    {s : NoiseSession} (hk : s.tx.hasKey = true) (hmax : s.tx.n = uint64Max)
    (calls : List SealCall) :
    (∀ t ∈ sealTrace P s calls, (sealStep P t.1 t.2).1 = none) ∧
      (sealRun P s calls).tx.n = uint64Max := by
  induction calls with
  | nil =>
      exact ⟨fun t ht => absurd ht List.not_mem_nil, hmax⟩
  | cons c calls ih =>
      have hstep : sealStep P s c = (none, s) := by
        rcases sealStep_cases (P := P) hk c with ⟨-, -, h⟩ | ⟨-, -, -, h⟩ | ⟨-, hlt, -, -⟩
        · exact h
        · exact h
        · rw [hmax] at hlt
          exact absurd hlt (UInt64.lt_irrefl _)
      unfold sealTrace sealRun
      rw [hstep]
      constructor
      · intro t ht
        rcases List.mem_cons.mp ht with rfl | ht
        · rw [hstep]
        · exact ih.1 t ht
      · exact ih.2

theorem sealRun_append
    (s : NoiseSession) (calls calls' : List SealCall) :
    sealRun P s (calls ++ calls') = sealRun P (sealRun P s calls) calls' := by
  induction calls generalizing s with
  | nil =>
      rfl
  | cons c calls ih =>
      exact ih _

theorem sealRun_key
    {s : NoiseSession} (hk : s.tx.hasKey = true) (calls : List SealCall) :
    (sealRun P s calls).tx.hasKey = true := by
  induction calls generalizing s with
  | nil =>
      exact hk
  | cons c calls ih =>
      exact ih (sealStep_key hk c).1

end Runs

/-- What one call of a sequence does with the nonces of the key `k`. -/
structure SealCallOk (P : Primitives) (k : Key) (s : NoiseSession) (c : SealCall) : Prop where
  passed : (sealStep P s c).1 =
    (c.nonce s.tx).map fun nonce => P.aeadEncrypt k nonce c.ad c.plaintext.bytes
  rejected : c.Rejected → c.nonce s.tx = none ∧ (sealStep P s c).1 = none ∧ (sealStep P s c).2 = s
  successful : (sealStep P s c).1 ≠ none →
    c.nonce s.tx = some (encodeNonce s.tx.n) ∧ (sealStep P s c).2.tx.n.toNat = s.tx.n.toNat + 1

theorem sealCallOk
    {P : Primitives} {s : NoiseSession} (hk : s.tx.hasKey = true) (c : SealCall) :
    SealCallOk P s.tx.k s c := by
  rcases sealStep_cases (P := P) hk c with
    ⟨-, hn, h⟩ | ⟨hrej, -, hn, h⟩ | ⟨hrej, hlt, hn, h⟩
  · constructor
    · rw [h, hn]
      rfl
    · intro _
      rw [h]
      exact ⟨hn, rfl, rfl⟩
    · intro hok
      rw [h] at hok
      exact absurd rfl hok
  · constructor
    · rw [h, hn]
      rfl
    · intro hrej'
      exact absurd hrej' hrej
    · intro hok
      rw [h] at hok
      exact absurd rfl hok
  · constructor
    · rw [h, hn]
      rfl
    · intro hrej'
      exact absurd hrej' hrej
    · intro _
      rw [h]
      exact ⟨hn, toNat_succ_of_lt hlt⟩

/--
Any sequence of calls on a session with a sending key, from any counter: the nonces passed to
the AEAD are distinct and never `UINT64_MAX`; a call refused for its arguments passes none, a
successful one uses up exactly one; and once the counter is at `UINT64_MAX` every call fails
and it stays there.
-/
theorem nonces_unique_until_exhausted
    (P : Primitives) (s : NoiseSession) (calls : List SealCall) (hk : s.tx.hasKey = true) :
    (noncesUsed P s calls).Nodup ∧
    encodeNonce uint64Max ∉ noncesUsed P s calls ∧
    (∀ t ∈ sealTrace P s calls, SealCallOk P s.tx.k t.1 t.2) ∧
    ∀ before after, calls = before ++ after → (sealRun P s before).tx.n = uint64Max →
      (∀ t ∈ sealTrace P (sealRun P s before) after, (sealStep P t.1 t.2).1 = none) ∧
        (sealRun P s calls).tx.n = uint64Max := by
  refine ⟨noncesUsed_nodup hk calls, ?_, ?_, ?_⟩
  · intro hmem
    obtain ⟨m, hm, -, hlt⟩ := noncesUsed_range hk calls _ hmem
    rw [← encodeNonce_injective hm] at hlt
    exact UInt64.lt_irrefl _ hlt
  · intro t ht
    obtain ⟨hk', hkey⟩ := sealTrace_key hk calls t ht
    rw [← hkey]
    exact sealCallOk hk' t.2
  · rintro before after rfl hmax
    rw [sealRun_append]
    exact sealRun_exhausted (sealRun_key hk before) hmax after

/-- A session whose next nonce is the last one. -/
def lastNonceSession : NoiseSession :=
  { tx := { k := (samplePair 1).pub, n := uint64Max - 1, hasKey := true }
    rx := { k := (samplePair 2).pub, n := 0, hasKey := true }
    remoteStatic := (samplePair 3).pub }

/-- A refused call, the last nonce, and two calls that come too late. -/
theorem nonces_unique_at_the_end :
    (noncesUsed samplePrimitives lastNonceSession
      [.noise false (.null 5) true, .noise false (.data [1]) true, .noise false (.data [2]) true,
        .cipher [7] (.data []) true]).Nodup ∧
    noncesUsed samplePrimitives lastNonceSession
      [.noise false (.null 5) true, .noise false (.data [1]) true, .noise false (.data [2]) true,
        .cipher [7] (.data []) true] = [encodeNonce (uint64Max - 1)] := by
  constructor
  · exact (nonces_unique_until_exhausted samplePrimitives lastNonceSession _ rfl).1
  · decide +kernel

end Noise
end Noxtor
