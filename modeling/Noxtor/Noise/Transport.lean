import Noxtor.Noise.Cipher
import Mathlib.Logic.Function.Basic

/-!
# Two sessions joined by a pair of ordered links

A `Channel` is the pair of transport sessions a handshake leaves behind, together with
the ciphertexts that are under way in each direction.  Sending encrypts on one side,
delivering decrypts the oldest ciphertext on the other; the two directions may be
interleaved in any order.

The invariant of one direction, `LinkOk`, relates the two counters, what was received
and what is under way to what was sent.
-/

namespace Noxtor
namespace Noise

open ByteString

/-- Both sessions, the ciphertexts under way and the plaintexts received.  The index
is the sending side; `true` is the initiator. -/
structure Channel where
  session : Bool → NoiseSession
  flight : Bool → List Bytes
  got : Bool → List Bytes

/-- One action on a channel. -/
inductive ChannelOp where
  | send (side : Bool) (pt : Bytes)
  | deliver (side : Bool)
deriving DecidableEq

namespace ChannelOp

/-- The plaintexts that `side` sends in a schedule. -/
def sentBy (side : Bool) : List ChannelOp → List Bytes
  | [] => []
  | send b pt :: ops => if b = side then pt :: sentBy side ops else sentBy side ops
  | deliver _ :: ops => sentBy side ops

theorem sentBy_append
    (side : Bool) (ops ops' : List ChannelOp) :
    sentBy side (ops ++ ops') = sentBy side ops ++ sentBy side ops' := by
  induction ops with
  | nil =>
      rfl
  | cons op ops ih =>
      cases op with
      | send b pt =>
          by_cases hb : b = side <;> simp [sentBy, hb, ih]
      | deliver b =>
          simp [sentBy, ih]

end ChannelOp

section Channel

variable (P : Primitives)

/-- A call that fails makes the step fail. -/
def Channel.step (c : Channel) : ChannelOp → Option Channel
  | .send b pt =>
      match noiseEncrypt P (some (c.session b)) (.data pt) true with
      | (some ct, some s) =>
          some { c with session := Function.update c.session b s
                        flight := Function.update c.flight b (c.flight b ++ [ct]) }
      | _ => none
  | .deliver b =>
      match c.flight b with
      | [] => some c
      | ct :: rest =>
          match noiseDecrypt P (some (c.session (!b))) (.data ct) true with
          | (some pt, some s) =>
              some { session := Function.update c.session (!b) s
                     flight := Function.update c.flight b rest
                     got := Function.update c.got b (c.got b ++ [pt]) }
          | _ => none

/-- A whole schedule. -/
def Channel.run (c : Channel) : List ChannelOp → Option Channel
  | [] => some c
  | op :: ops => (c.step P op).bind fun c' => c'.run ops

/-- The channel of two fresh sessions. -/
def Channel.ofSessions (initiator responder : NoiseSession) : Channel :=
  { session := fun b => if b then initiator else responder
    flight := fun _ => []
    got := fun _ => [] }

/-- Ciphertexts of consecutive nonces from `n` on. -/
def sealFrom (k : Key) : Nat → List Bytes → List Bytes
  | _, [] => []
  | n, pt :: pts =>
      P.aeadEncrypt k (encodeNonce (UInt64.ofNat n)) [] pt :: sealFrom k (n + 1) pts

theorem sealFrom_append
    (k : Key) (n : Nat) (pts pts' : List Bytes) :
    sealFrom P k n (pts ++ pts') =
      sealFrom P k n pts ++ sealFrom P k (n + pts.length) pts' := by
  induction pts generalizing n with
  | nil =>
      simp [sealFrom]
  | cons pt pts ih =>
      simp only [List.cons_append, sealFrom, ih, List.length_cons]
      congr 3
      omega

/--
One direction after `sent` was sent: the keys agree, both counters count, and what is
under way is what was sent and not yet received.
-/
structure LinkOk (tx rx : CipherState) (flight got sent : List Bytes) : Prop where
  txKey : tx.hasKey = true
  rxKey : rx.hasKey = true
  sameKey : tx.k = rx.k
  txCount : tx.n.toNat = sent.length
  rxCount : rx.n.toNat = got.length
  pending : ∃ rest, sent = got ++ rest ∧ flight = sealFrom P tx.k got.length rest

/-- Both directions, and every plaintext sent so far is short enough. -/
def Channel.Ok (c : Channel) (sent : Bool → List Bytes) : Prop :=
  ∀ b, LinkOk P (c.session b).tx (c.session (!b)).rx (c.flight b) (c.got b) (sent b) ∧
    ∀ pt ∈ sent b, pt.length ≤ noxMaxMsgLen

end Channel

section Facts

variable {P : Primitives}

theorem channelOk_ofSessions
    {sI sR : NoiseSession} {k1 k2 : Key}
    (hI : sI.tx = cipherInitKey k1 ∧ sI.rx = cipherInitKey k2)
    (hR : sR.tx = cipherInitKey k2 ∧ sR.rx = cipherInitKey k1) :
    (Channel.ofSessions sI sR).Ok P (fun _ => []) := by
  intro b
  refine ⟨?_, by simp⟩
  cases b with
  | true =>
      show LinkOk P sI.tx sR.rx [] [] []
      rw [hI.1, hR.2]
      exact ⟨rfl, rfl, rfl, rfl, rfl, [], rfl, rfl⟩
  | false =>
      show LinkOk P sR.tx sI.rx [] [] []
      rw [hI.2, hR.1]
      exact ⟨rfl, rfl, rfl, rfl, rfl, [], rfl, rfl⟩

theorem toNat_lt_uint64Max
    {n : UInt64} {m : Nat} (hn : n.toNat = m) (hm : m + 1 < 2 ^ 64) :
    n < uint64Max := by
  rw [UInt64.lt_iff_toNat_lt, uint64Max_toNat]
  omega

/-- Sending: below the counter limit the encryption succeeds and the direction stays in
order. -/
theorem channelStep_send
    {c : Channel} {sent : Bool → List Bytes} (hok : c.Ok P sent)
    (b : Bool) {pt : Bytes} (hpt : pt.length ≤ noxMaxMsgLen)
    (hroom : (sent b).length + 1 < 2 ^ 64) :
    ∃ c', c.step P (.send b pt) = some c' ∧
      c'.Ok P (Function.update sent b (sent b ++ [pt])) := by
  obtain ⟨hlink, hshort⟩ := hok b
  have hn := toNat_lt_uint64Max hlink.txCount hroom
  rcases noiseEncrypt_cases (P := P) hlink.txKey hpt with ⟨-, henc⟩ | ⟨hmax, -⟩
  · refine ⟨_, by simp only [Channel.step, henc]; rfl, ?_⟩
    intro b'
    by_cases hb : b' = b
    · subst hb
      have hne : (!b') ≠ b' := by cases b' <;> simp
      simp only [Function.update_self, Function.update_of_ne hne]
      refine ⟨?_, ?_⟩
      · obtain ⟨rest, hsent, hflight⟩ := hlink.pending
        refine ⟨hlink.txKey, hlink.rxKey, hlink.sameKey, ?_, hlink.rxCount, ?_⟩
        · rw [toNat_succ_of_lt hn, hlink.txCount]
          simp
        · refine ⟨rest ++ [pt], by simp [hsent], ?_⟩
          have hlen : (c.got b').length + rest.length = (sent b').length := by
            rw [hsent, List.length_append]
          rw [sealFrom_append, hlen, ← hlink.txCount, hflight]
          simp [sealFrom]
      · intro q hq
        rcases List.mem_append.mp hq with hq | hq
        · exact hshort q hq
        · rw [List.mem_singleton.mp hq]
          exact hpt
    · -- the other direction keeps its state; only the transmit half of `b` has moved
      have hbb : b' = !b := by cases b <;> cases b' <;> simp_all
      subst hbb
      have h := hok (!b)
      simp only [Bool.not_not] at h
      simp only [Bool.not_not, Function.update_self, Function.update_of_ne hb]
      exact ⟨⟨h.1.txKey, h.1.rxKey, h.1.sameKey, h.1.txCount, h.1.rxCount, h.1.pending⟩, h.2⟩
  · exact absurd hn (by simpa using hmax)

/-- Delivering: the oldest ciphertext opens to the oldest plaintext not yet received. -/
theorem channelStep_deliver
    (haead : ∀ k n ad pt, P.aeadDecrypt k n ad (P.aeadEncrypt k n ad pt) = some pt)
    {c : Channel} {sent : Bool → List Bytes} (hok : c.Ok P sent)
    (b : Bool) (hroom : (sent b).length < 2 ^ 64) :
    ∃ c', c.step P (.deliver b) = some c' ∧ c'.Ok P sent := by
  obtain ⟨hlink, hshort⟩ := hok b
  obtain ⟨rest, hsent, hflight⟩ := hlink.pending
  cases rest with
  | nil =>
      refine ⟨c, ?_, hok⟩
      simp [Channel.step, hflight, sealFrom]
  | cons pt rest =>
      have hn : (c.session (!b)).rx.n < uint64Max := by
        refine toNat_lt_uint64Max hlink.rxCount ?_
        rw [hsent] at hroom
        simp only [List.length_append, List.length_cons] at hroom
        omega
      have hnonce : UInt64.ofNat (c.got b).length = (c.session (!b)).rx.n := by
        rw [← hlink.rxCount, UInt64.ofNat_toNat]
      have hfl : c.flight b =
          P.aeadEncrypt (c.session (!b)).rx.k (encodeNonce (c.session (!b)).rx.n) [] pt ::
            sealFrom P (c.session b).tx.k ((c.got b).length + 1) rest := by
        rw [hflight, sealFrom, hnonce, hlink.sameKey]
      have hmem : pt ∈ sent b := by
        rw [hsent]
        simp
      have hdec : noiseDecrypt P (some (c.session (!b)))
          (.data (P.aeadEncrypt (c.session (!b)).rx.k
            (encodeNonce (c.session (!b)).rx.n) [] pt)) true =
          (some pt, some { c.session (!b) with
            rx := { (c.session (!b)).rx with n := (c.session (!b)).rx.n + 1 } }) := by
        have hptLen := hshort pt hmem
        have hlen := P.aeadEncrypt_length (c.session (!b)).rx.k
          (encodeNonce (c.session (!b)).rx.n) [] pt
        have hmax : noiseMaxPayloadLen = noxMaxMsgLen + 16 := rfl
        have hmac : noxMacLen = 16 := rfl
        have h1 : ¬ pt.length + 16 > noiseMaxPayloadLen := by omega
        have h2 : ¬ pt.length + 16 < noxMacLen := by omega
        have h3 : ¬ uint64Max ≤ (c.session (!b)).rx.n := by simpa using hn
        simp [noiseDecrypt, cipherDecrypt, hlen, h1, h2, h3, hlink.rxKey, haead]
      refine ⟨_, by simp only [Channel.step, hfl, hdec]; rfl, ?_⟩
      intro b'
      by_cases hb : b' = b
      · subst hb
        have hne : b' ≠ !b' := by cases b' <;> simp
        simp only [Function.update_self, Function.update_of_ne hne]
        refine ⟨⟨hlink.txKey, hlink.rxKey, hlink.sameKey, hlink.txCount, ?_, ?_⟩, hshort⟩
        · rw [toNat_succ_of_lt hn, hlink.rxCount]
          simp
        · exact ⟨rest, by simp [hsent], by simp⟩
      · have hbb : b' = !b := by cases b <;> cases b' <;> simp_all
        subst hbb
        have h := hok (!b)
        have hne : b ≠ !b := by cases b <;> simp
        simp only [Bool.not_not] at h
        simp only [Bool.not_not, Function.update_self, Function.update_of_ne hb,
          Function.update_of_ne hne]
        exact ⟨⟨h.1.txKey, h.1.rxKey, h.1.sameKey, h.1.txCount, h.1.rxCount, h.1.pending⟩, h.2⟩

/-- A whole schedule keeps both directions in order, as long as no counter runs out. -/
theorem channelRun_ok
    (haead : ∀ k n ad pt, P.aeadDecrypt k n ad (P.aeadEncrypt k n ad pt) = some pt)
    (ops : List ChannelOp) {c : Channel} {sent : Bool → List Bytes} (hok : c.Ok P sent)
    (hshort : ∀ b, ∀ pt ∈ ChannelOp.sentBy b ops, pt.length ≤ noxMaxMsgLen)
    (hroom : ∀ b, (sent b ++ ChannelOp.sentBy b ops).length < 2 ^ 64) :
    ∃ c', c.run P ops = some c' ∧ c'.Ok P (fun b => sent b ++ ChannelOp.sentBy b ops) := by
  induction ops generalizing c sent with
  | nil =>
      refine ⟨c, rfl, ?_⟩
      simpa [ChannelOp.sentBy] using hok
  | cons op ops ih =>
      cases op with
      | send b pt =>
          have hpt : pt.length ≤ noxMaxMsgLen := hshort b pt (by simp [ChannelOp.sentBy])
          have hb := hroom b
          simp only [ChannelOp.sentBy, if_true, List.length_append, List.length_cons] at hb
          obtain ⟨c1, hstep, hok1⟩ := channelStep_send hok b hpt (by omega)
          have hsent : ∀ b',
              Function.update sent b (sent b ++ [pt]) b' ++ ChannelOp.sentBy b' ops =
                sent b' ++ ChannelOp.sentBy b' (.send b pt :: ops) := by
            intro b'
            by_cases hbb : b = b'
            · subst hbb
              simp [ChannelOp.sentBy]
            · simp [ChannelOp.sentBy, hbb, Function.update_of_ne (Ne.symm hbb)]
          have hshort' : ∀ b', ∀ q ∈ ChannelOp.sentBy b' ops, q.length ≤ noxMaxMsgLen := by
            intro b' q hq
            refine hshort b' q ?_
            by_cases hbb : b = b' <;> simp [ChannelOp.sentBy, hbb, hq]
          obtain ⟨c2, hrun, hok2⟩ := ih hok1 hshort' (fun b' => by rw [hsent b']; exact hroom b')
          refine ⟨c2, by simp [Channel.run, hstep, hrun], ?_⟩
          simpa only [hsent] using hok2
      | deliver b =>
          have hb := hroom b
          simp only [List.length_append] at hb
          obtain ⟨c1, hstep, hok1⟩ := channelStep_deliver haead hok b (by omega)
          obtain ⟨c2, hrun, hok2⟩ := ih hok1 hshort hroom
          exact ⟨c2, by simp [Channel.run, hstep, hrun], hok2⟩

/-- The plaintexts received are the first ones sent; the others are still under way. -/
theorem channelOk_got
    {c : Channel} {sent : Bool → List Bytes} (hok : c.Ok P sent) (b : Bool) :
    c.got b <+: sent b ∧ (c.got b).length + (c.flight b).length = (sent b).length := by
  obtain ⟨rest, hsent, hflight⟩ := (hok b).1.pending
  have hlen : ∀ (n : Nat) (pts : List Bytes),
      (sealFrom P (c.session b).tx.k n pts).length = pts.length := by
    intro n pts
    induction pts generalizing n with
    | nil =>
        rfl
    | cons pt pts ih =>
        simp [sealFrom, ih]
  refine ⟨⟨rest, hsent.symm⟩, ?_⟩
  rw [hflight, hlen, hsent, List.length_append]

theorem noiseDecrypt_tx
    (s : NoiseSession) (ct : Buf) (out : Bool) :
    ∃ s', (noiseDecrypt P (some s) ct out).2 = some s' ∧ s'.tx = s.tx := by
  unfold noiseDecrypt
  dsimp only
  repeat' split
  all_goals exact ⟨_, rfl, rfl⟩

/-- A step that succeeds costs its sender one nonce and the other side none. -/
theorem channelStep_count
    {c c' : Channel} {op : ChannelOp} (b : Bool)
    (hk : (c.session b).tx.hasKey = true)
    (hshort : ∀ pt ∈ ChannelOp.sentBy b [op], pt.length ≤ noxMaxMsgLen)
    (hstep : c.step P op = some c') :
    (c'.session b).tx.hasKey = true ∧
      (c'.session b).tx.n.toNat =
        (c.session b).tx.n.toNat + (ChannelOp.sentBy b [op]).length := by
  cases op with
  | send b' pt =>
      by_cases hb : b' = b
      · subst hb
        have hpt : pt.length ≤ noxMaxMsgLen := hshort pt (by simp [ChannelOp.sentBy])
        rcases noiseEncrypt_cases (P := P) hk hpt with ⟨hn, henc⟩ | ⟨-, henc⟩
        · simp only [Channel.step, henc, Option.some.injEq] at hstep
          subst hstep
          simp [ChannelOp.sentBy, hk, toNat_succ_of_lt hn]
        · simp [Channel.step, henc] at hstep
      · simp only [Channel.step] at hstep
        split at hstep
        · rw [Option.some.injEq] at hstep
          subst hstep
          simp [ChannelOp.sentBy, hb, hk, Function.update_of_ne (Ne.symm hb)]
        · cases hstep
  | deliver b' =>
      simp only [Channel.step] at hstep
      split at hstep
      · rw [Option.some.injEq] at hstep
        subst hstep
        simp [ChannelOp.sentBy, hk]
      · rename_i ct rest _
        obtain ⟨s', hs', htx⟩ :=
          noiseDecrypt_tx (P := P) (c.session (!b')) (.data ct) true
        split at hstep
        · rename_i pt s hdec
          rw [hdec, Option.some.injEq] at hs'
          rw [Option.some.injEq] at hstep
          subst hstep hs'
          by_cases hb : b = !b'
          · subst hb
            simp [ChannelOp.sentBy, htx, hk]
          · simp [ChannelOp.sentBy, Function.update_of_ne hb, hk]
        · cases hstep

theorem channelRun_count
    (ops : List ChannelOp) (b : Bool) {c c' : Channel}
    (hk : (c.session b).tx.hasKey = true)
    (hshort : ∀ pt ∈ ChannelOp.sentBy b ops, pt.length ≤ noxMaxMsgLen)
    (hrun : c.run P ops = some c') :
    (c'.session b).tx.n.toNat =
      (c.session b).tx.n.toNat + (ChannelOp.sentBy b ops).length := by
  induction ops generalizing c with
  | nil =>
      simp only [Channel.run, Option.some.injEq] at hrun
      subst hrun
      simp [ChannelOp.sentBy]
  | cons op ops ih =>
      simp only [Channel.run, Option.bind_eq_some_iff] at hrun
      obtain ⟨c1, hstep, hrun⟩ := hrun
      have hsplit := ChannelOp.sentBy_append b [op] ops
      rw [List.singleton_append] at hsplit
      rw [hsplit] at hshort ⊢
      obtain ⟨hk1, hcount⟩ := channelStep_count b hk
        (fun pt hpt => hshort pt (List.mem_append_left _ hpt)) hstep
      have h := ih hk1 (fun pt hpt => hshort pt (List.mem_append_right _ hpt)) hrun
      rw [h, hcount, List.length_append]
      omega

/-- A schedule with `2 ^ 64` sends on one side does not go through. -/
theorem channelRun_exhausted
    {ops : List ChannelOp} {b : Bool} {c : Channel}
    (hk : (c.session b).tx.hasKey = true)
    (hshort : ∀ pt ∈ ChannelOp.sentBy b ops, pt.length ≤ noxMaxMsgLen)
    (hmany : 2 ^ 64 ≤ (ChannelOp.sentBy b ops).length) :
    c.run P ops = none := by
  cases hrun : c.run P ops with
  | none =>
      rfl
  | some c' =>
      have hcount := channelRun_count ops b hk hshort hrun
      have hlt := (c'.session b).tx.n.toNat_lt
      omega

end Facts

end Noise
end Noxtor
