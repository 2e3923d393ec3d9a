import Noxtor.Noise.Success

/-!
# Turns of the handshake object

What every call of `handshake_read`, `handshake_write` and `handshake_split` does to the
message counter, whatever its arguments: the steps a message is made of keep the role and
the counter, and a call that succeeds counts one message.
-/

namespace Noxtor
namespace Noise

open ByteString

/-- The fields that say whose turn it is. -/
def NoiseHandshake.turn (hs : NoiseHandshake) : Bool × Nat × Bool × Bool :=
  (hs.initiator, hs.msgIndex, hs.splitDone, hs.failed)

/-- The computation changes neither the role, nor the message counter, nor a flag. -/
def KeepsTurn {α : Type} (x : HsM α) : Prop :=
  ∀ hs, match x hs with
    | .ok _ hs' => hs'.turn = hs.turn
    | .error _ hs' => hs'.turn = hs.turn

section Turns

variable {P : Primitives} {α β : Type}

theorem keepsTurn_bind
    {x : HsM α} {f : α → HsM β}
    (hx : KeepsTurn x) (hf : ∀ a, KeepsTurn (f a)) :
    KeepsTurn (x >>= f) := by
  intro hs
  have h1 := hx hs
  cases hxs : x hs with
  | error err hs1 =>
      rw [hxs] at h1
      rw [hsM_bind_error hxs]
      exact h1
  | ok a hs1 =>
      rw [hxs] at h1
      have h2 := hf a hs1
      rw [hsM_bind_ok hxs rfl]
      cases hfa : f a hs1 with
      | error err hs2 =>
          rw [hfa] at h2
          exact h2.trans h1
      | ok b hs2 =>
          rw [hfa] at h2
          exact h2.trans h1

theorem keepsTurn_pure
    (a : α) :
    KeepsTurn (pure a : HsM α) := by
  intro hs
  exact rfl

theorem keepsTurn_modify
    {f : NoiseHandshake → NoiseHandshake}
    (hf : ∀ hs, (f hs).turn = hs.turn) :
    KeepsTurn (modify f : HsM Unit) := by
  intro hs
  exact hf hs

theorem keepsTurn_reject
    (c : Prop) [Decidable c] (err : NoxErr) :
    KeepsTurn (hsReject c err) := by
  intro hs
  unfold hsReject
  by_cases hc : c <;> simp [hc]

theorem keepsTurn_mixHash
    (data : Bytes) :
    KeepsTurn (hsMixHash P data) :=
  keepsTurn_modify fun _ => rfl

theorem keepsTurn_mixDh
    (alloc : HkdfAlloc) (priv pub : NoiseHandshake → Key) :
    KeepsTurn (hsMixDh P alloc priv pub) := by
  intro hs
  unfold hsMixDh
  cases noiseDh P (priv hs) (pub hs) with
  | error err =>
      exact rfl
  | ok dhOut =>
      cases hmix : symmetricMixKey P alloc dhOut.toList hs.ss <;> simp [hmix, NoiseHandshake.turn]

theorem keepsTurn_encrypt
    (plaintext : NoiseHandshake → Buf) :
    KeepsTurn (hsEncrypt P plaintext) := by
  intro hs
  unfold hsEncrypt
  rcases symmetricEncryptAndHash P hs.ss (plaintext hs) with ⟨_ | ct, ss⟩ <;> exact rfl

theorem keepsTurn_decrypt
    (ciphertext : Bytes) (outCap : Nat) :
    KeepsTurn (hsDecrypt P ciphertext outCap) := by
  intro hs
  unfold hsDecrypt
  rcases symmetricDecryptAndHash P hs.ss ciphertext outCap with ⟨_ | pt, ss⟩ <;> exact rfl

theorem keepsTurn_sendEphemeral
    (eph : KeyPair) :
    KeepsTurn (hsSendEphemeral P eph) :=
  keepsTurn_bind (keepsTurn_modify fun _ => rfl) fun _ =>
    keepsTurn_bind (keepsTurn_mixHash _) fun _ => keepsTurn_pure _

theorem keepsTurn_recvEphemeral
    (re : Key) :
    KeepsTurn (hsRecvEphemeral P re) :=
  keepsTurn_bind (keepsTurn_modify fun _ => rfl) fun _ => keepsTurn_mixHash _

theorem keepsTurn_recvStatic
    (ciphertext : Bytes) :
    KeepsTurn (hsRecvStatic P ciphertext) :=
  keepsTurn_bind (keepsTurn_decrypt _ _) fun _ => keepsTurn_modify fun _ => rfl

theorem keepsTurn_writeMsg0
    (call : HsCall) (payload : Buf) (outLen : Nat) :
    KeepsTurn (writeMsg0 P call payload outLen) :=
  keepsTurn_bind (keepsTurn_reject _ _) fun _ =>
    keepsTurn_bind (keepsTurn_sendEphemeral _) fun _ =>
      keepsTurn_bind (keepsTurn_encrypt _) fun _ => keepsTurn_pure _

theorem keepsTurn_writeMsg1
    (call : HsCall) (payload : Buf) (outLen : Nat) :
    KeepsTurn (writeMsg1 P call payload outLen) :=
  keepsTurn_bind (keepsTurn_reject _ _) fun _ =>
    keepsTurn_bind (keepsTurn_sendEphemeral _) fun _ =>
      keepsTurn_bind (keepsTurn_mixDh _ _ _) fun _ =>
        keepsTurn_bind (keepsTurn_encrypt _) fun _ =>
          keepsTurn_bind (keepsTurn_mixDh _ _ _) fun _ =>
            keepsTurn_bind (keepsTurn_encrypt _) fun _ =>
              keepsTurn_bind (keepsTurn_modify fun _ => rfl) fun _ => keepsTurn_pure _

theorem keepsTurn_writeMsg2
    (call : HsCall) (payload : Buf) (outLen : Nat) :
    KeepsTurn (writeMsg2 P call payload outLen) :=
  keepsTurn_bind (keepsTurn_reject _ _) fun _ =>
    keepsTurn_bind (keepsTurn_encrypt _) fun _ =>
      keepsTurn_bind (keepsTurn_mixDh _ _ _) fun _ =>
        keepsTurn_bind (keepsTurn_encrypt _) fun _ =>
          keepsTurn_bind (keepsTurn_modify fun _ => rfl) fun _ => keepsTurn_pure _

theorem keepsTurn_readMsg0
    (msg : Bytes) (outCap : Nat) :
    KeepsTurn (readMsg0 P msg outCap) :=
  keepsTurn_bind (keepsTurn_reject _ _) fun _ =>
    keepsTurn_bind (keepsTurn_recvEphemeral _) fun _ => keepsTurn_decrypt _ _

theorem keepsTurn_readMsg1
    (call : HsCall) (msg : Bytes) (outCap : Nat) :
    KeepsTurn (readMsg1 P call msg outCap) :=
  keepsTurn_bind (keepsTurn_reject _ _) fun _ =>
    keepsTurn_bind (keepsTurn_recvEphemeral _) fun _ =>
      keepsTurn_bind (keepsTurn_mixDh _ _ _) fun _ =>
        keepsTurn_bind (keepsTurn_recvStatic _) fun _ =>
          keepsTurn_bind (keepsTurn_mixDh _ _ _) fun _ => keepsTurn_decrypt _ _

theorem keepsTurn_readMsg2
    (call : HsCall) (msg : Bytes) (outCap : Nat) :
    KeepsTurn (readMsg2 P call msg outCap) :=
  keepsTurn_bind (keepsTurn_reject _ _) fun _ =>
    keepsTurn_bind (keepsTurn_recvStatic _) fun _ =>
      keepsTurn_bind (keepsTurn_mixDh _ _ _) fun _ => keepsTurn_decrypt _ _

theorem keepsTurn_wipeE
    {x : HsM Bytes} (hx : KeepsTurn x) :
    KeepsTurn (hsWipeE x) :=
  keepsTurn_bind hx fun _ =>
    keepsTurn_bind (keepsTurn_modify fun _ => rfl) fun _ => keepsTurn_pure _

/-- A turn counts one message and stays open, or fails for good. -/
theorem hsTurn_cases
    {x : HsM Bytes} (hx : KeepsTurn x) (hs : NoiseHandshake) :
    (∃ out hs', hsTurn x hs = .ok out hs' ∧
      hs'.turn = (hs.initiator, hs.msgIndex + 1, hs.splitDone, hs.failed)) ∨
    (∃ err hs', hsTurn x hs = .error err (hsFail hs') ∧ hs'.turn = hs.turn) := by
  have h1 := hx hs
  cases hxs : x hs with
  | error err hs1 =>
      rw [hxs] at h1
      exact Or.inr ⟨err, hs1, by simp only [hsTurn, hxs], h1⟩
  | ok a hs1 =>
      rw [hxs] at h1
      refine Or.inl ⟨a, { hs1 with msgIndex := hs1.msgIndex + 1 }, by simp only [hsTurn, hxs], ?_⟩
      simp only [NoiseHandshake.turn, Prod.mk.injEq] at h1 ⊢
      exact ⟨h1.1, congrArg (· + 1) h1.2.1, h1.2.2⟩

/-- A turn that succeeds counts one message. -/
theorem hsTurn_index
    {x : HsM Bytes} (hx : KeepsTurn x) {hs hs' : NoiseHandshake} {out : Bytes}
    (h : hsTurn x hs = .ok out hs') :
    hs'.initiator = hs.initiator ∧ hs'.msgIndex = hs.msgIndex + 1 := by
  obtain ⟨out1, hs1, h1, hturn⟩ | ⟨err, hs1, h1, -⟩ := hsTurn_cases hx hs
  · rw [h1] at h
    cases h
    simp only [NoiseHandshake.turn, Prod.mk.injEq] at hturn
    exact ⟨hturn.1, hturn.2.1⟩
  · rw [h1] at h
    cases h

/-- `handshake_read` counts the message it accepts. -/
theorem handshakeRead_index
    {call : HsCall} {msg : Buf} {out : Option Nat} {hs hs' : NoiseHandshake} {pl : Bytes}
    (h : handshakeRead P call msg out hs = .ok pl hs') :
    hs'.initiator = hs.initiator ∧ hs'.msgIndex = hs.msgIndex + 1 := by
  unfold handshakeRead at h
  split at h
  · split at h
    · cases h
    · unfold readTurn at h
      split at h
      · exact hsTurn_index (keepsTurn_wipeE (keepsTurn_readMsg1 _ _ _)) h
      · exact hsTurn_index (keepsTurn_readMsg0 _ _) h
      · exact hsTurn_index (keepsTurn_wipeE (keepsTurn_readMsg2 _ _ _)) h
      · cases h
  · cases h

theorem writeTurn_index
    {call : HsCall} {payload : Buf} {outLen : Nat} {hs hs' : NoiseHandshake} {msg : Bytes}
    (h : writeTurn P call payload outLen hs = .ok msg hs') :
    hs'.initiator = hs.initiator ∧ hs'.msgIndex = hs.msgIndex + 1 := by
  unfold writeTurn at h
  split at h
  · exact hsTurn_index (keepsTurn_writeMsg0 _ _ _) h
  · exact hsTurn_index (keepsTurn_writeMsg2 _ _ _) h
  · exact hsTurn_index (keepsTurn_writeMsg1 _ _ _) h
  · cases h

/-- `handshake_write` counts the message it produces. -/
theorem handshakeWrite_index
    {call : HsCall} {payload : Buf} {out : Option Nat} {hs hs' : NoiseHandshake} {msg : Bytes}
    (h : handshakeWrite P call payload out hs = .ok msg hs') :
    hs'.initiator = hs.initiator ∧ hs'.msgIndex = hs.msgIndex + 1 := by
  cases out with
  | none =>
      cases h
  | some outLen =>
      simp only [handshakeWrite] at h
      by_cases hdone : (hs.splitDone || hs.failed) = true
      · rw [if_pos hdone] at h
        cases h
      · rw [if_neg hdone] at h
        generalize (if payload.isNull = true then Buf.null 0 else payload) = pl at h
        by_cases hlen : pl.len > noiseMaxHandshakeLen
        · rw [if_pos hlen] at h
          cases h
        · rw [if_neg hlen] at h
          exact writeTurn_index h

/-- The session that comes out of a handshake belongs to its remote key. -/
theorem handshakeSplit_remote
    {alloc : HkdfAlloc} {hs hs' : NoiseHandshake} {session : NoiseSession}
    (h : handshakeSplit P alloc hs = .ok session hs') :
    session.remoteStatic = hs.rs := by
  unfold handshakeSplit at h
  split at h
  · cases h
  · split at h
    · cases h
    · split at h
      · cases h
      · cases h
        rfl

end Turns

end Noise
end Noxtor
