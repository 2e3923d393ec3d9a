import Noxtor.App.FrameTurns

/-!
# What the wire can do to the records

The honest peer sends a list of typed records, the `n`-th encrypted under nonce `n`.  The
wire delivers what it likes, but a payload opens under a nonce only if it is the ciphertext
that the peer made with this nonce.

The header travels in the clear, so the type of a record is what the wire says.  Where the
wire leaves the types alone and no plaintext is empty, what is handed on is a prefix of what
was sent.
-/

namespace Noxtor
namespace App

open ByteString Noise

/-- What the honest peer puts into the frame of the record with nonce `n`. -/
def sealedAt (P : Primitives) (k : Key) (n : UInt64) (pt : Bytes) : Bytes :=
  P.aeadEncrypt k (encodeNonce n) [] pt

/--
The AEAD against an attacker without the key: what the honest peer encrypted opens to its
plaintext, and nothing else opens.
-/
structure OnlyHonest (P : Primitives) (k : Key) (sent : List (UInt8 × Bytes)) : Prop where
  correct : ∀ (n : UInt64) (r : UInt8 × Bytes), sent[n.toNat]? = some r →
    P.aeadDecrypt k (encodeNonce n) [] (sealedAt P k n r.2) = some r.2
  genuine : ∀ (n : UInt64) (ct pt : Bytes), P.aeadDecrypt k (encodeNonce n) [] ct = some pt →
    ∃ r, sent[n.toNat]? = some r ∧ ct = sealedAt P k n r.2

/--
If the record at the head has the expected sequence number and carries the ciphertext of the
next record that was sent, then it has the type it was sent with, and is not empty.
-/
def TypeKept (P : Primitives) (sent : List (UInt8 × Bytes)) (u : View) : Prop :=
  ∀ fh payload, Receives u fh payload → fh.seq = u.ps.rxSeq →
    ∀ s ∈ u.ps.session, ∀ r ∈ sent[s.rx.n.toNat]?, payload = sealedAt P s.rx.k s.rx.n r.2 →
      fh.type = r.1 ∧ r.2 ≠ []

instance (P : Primitives) (sent : List (UInt8 × Bytes)) (u : View) :
    Decidable (TypeKept P sent u) :=
  decidableForallReceives u _

/--
What has been handed on since `base` is a prefix of what was sent; while the session lives,
the nonce counts it.
-/
structure PrefixInv (k : Key) (sent base : List (UInt8 × Bytes)) (a : RxView) : Prop where
  handed : ∃ d, a.delivered = base ++ d ∧ d <+: sent
  counted : ∀ cs, a.rx = some cs →
    cs.k = k ∧ cs.n.toNat ≤ sent.length ∧ a.delivered = base ++ sent.take cs.n.toNat

section Turn

variable {P : Primitives} {E : Env} {i : Slot} {fd : Int} {u : View} {k : Key}
  {sent base : List (UInt8 × Bytes)}

/-- Without a session only what was handed on counts. -/
theorem PrefixInv.of_delivered
    {a b : RxView} (h : PrefixInv k sent base a) (hd : b.delivered = a.delivered)
    (hrx : b.rx = none ∨ b.rx = a.rx) :
    PrefixInv k sent base b := by
  constructor
  · rw [hd]
    exact h.handed
  · intro cs hcs
    rcases hrx with hrx | hrx
    · rw [hrx] at hcs
      cases hcs
    · rw [hd]
      exact h.counted cs (hrx ▸ hcs)

/-- A payload that opens is the next record, and was made with the nonce of the session. -/
theorem opened_next
    (hideal : OnlyHonest P k sent) {s : NoiseSession} (hs : u.ps.session = some s)
    (hk : s.rx.hasKey = true) (hkey : s.rx.k = k) {payload pt : Bytes}
    (hopen : opened P u payload = some pt) :
    ∃ r, sent[s.rx.n.toNat]? = some r ∧ payload = sealedAt P s.rx.k s.rx.n r.2 ∧ pt = r.2 ∧
      (s.rx.n + 1).toNat = s.rx.n.toNat + 1 := by
  unfold opened at hopen
  rw [hs] at hopen
  rcases noiseDecrypt_cases (P := P) hk payload with heq | ⟨pt', hlt, hd, heq⟩
  · rw [heq] at hopen
    cases hopen
  rw [heq] at hopen
  cases hopen
  rw [hkey] at hd ⊢
  obtain ⟨r, hr, rfl⟩ := hideal.genuine _ _ _ hd
  rw [hideal.correct _ r hr] at hd
  exact ⟨r, hr, rfl, (Option.some.inj hd).symm, toNat_succ_of_lt hlt⟩

/-- One more record, taken in order. -/
theorem PrefixInv.next
    {a b : RxView} (h : PrefixInv k sent base a) {cs : CipherState} (hcs : a.rx = some cs)
    {r : UInt8 × Bytes} (hr : sent[cs.n.toNat]? = some r)
    (hsucc : (cs.n + 1).toNat = cs.n.toNat + 1) (hd : b.delivered = a.delivered ++ [r])
    (hrx : b.rx = none ∨ b.rx = some { cs with n := cs.n + 1 }) :
    PrefixInv k sent base b := by
  obtain ⟨hkey, -, hdel⟩ := h.counted cs hcs
  have hlt : cs.n.toNat < sent.length := (List.getElem?_eq_some_iff.mp hr).1
  have htake : sent.take (cs.n.toNat + 1) = sent.take cs.n.toNat ++ [r] := by
    rw [List.take_add_one, hr]
    rfl
  have hall : b.delivered = base ++ sent.take (cs.n.toNat + 1) := by
    rw [hd, hdel, htake, List.append_assoc]
  constructor
  · exact ⟨_, hall, List.take_prefix _ sent⟩
  · intro cs' hcs'
    rcases hrx with hrx | hrx
    · rw [hrx] at hcs'
      cases hcs'
    · rw [hrx] at hcs'
      cases hcs'
      refine ⟨hkey, ?_, ?_⟩
      · show (cs.n + 1).toNat ≤ _
        omega
      · show b.delivered = base ++ sent.take (cs.n + 1).toNat
        rw [hsucc]
        exact hall

/-- A turn keeps the prefix, unless the wire has changed the type of the next record. -/
theorem RxTurn.prefixInv
    {b : RxView} (h : RxTurn P E u (rxView i u) b) (hideal : OnlyHonest P k sent)
    (hkeyed : Keyed u) (hfine : TypeKept P sent u)
    (hinv : PrefixInv k sent base (rxView i u)) :
    PrefixInv k sent base b := by
  obtain ⟨s, hs, hk⟩ := hkeyed
  have hrx : (rxView i u).rx = some s.rx := by
    simp [rxView, hs]
  have hkey := (hinv.counted s.rx hrx).1
  have hnext : ∀ {fh payload pt type}, Expected u fh payload type →
      opened P u payload = some pt →
      ∃ r, sent[s.rx.n.toNat]? = some r ∧ r = (type, pt) ∧ pt ≠ [] ∧
        (s.rx.n + 1).toNat = s.rx.n.toNat + 1 := by
    intro fh payload pt type hexp hopen
    obtain ⟨r, hr, hpay, hpt, hsucc⟩ := opened_next hideal hs hk hkey hopen
    obtain ⟨htype, hne⟩ := hfine fh payload hexp.1 hexp.2.1 s hs r hr hpay
    refine ⟨r, hr, ?_, by rwa [hpt], hsucc⟩
    rw [← hexp.2.2, htype, hpt]
  cases h with
  | quiet recv h =>
      exact hinv.of_delivered rfl (Or.inr rfl)
  | mismatch h hseq =>
      exact hinv.of_delivered rfl (Or.inl rfl)
  | refused h hseq hwhy =>
      exact hinv.of_delivered rfl (Or.inr rfl)
  | emptyText h hopen =>
      obtain ⟨r, -, -, hne, -⟩ := hnext h hopen
      exact absurd rfl hne
  | text h hopen hpt =>
      obtain ⟨r, hr, rfl, -, hsucc⟩ := hnext h hopen
      apply hinv.next hrx hr hsucc rfl
      right
      simp [RxView.advanced, RxView.nonceUsed, RxView.counted, RxView.handOn, RxView.consumed, hrx]
  | lastText h hopen hpt =>
      obtain ⟨r, hr, rfl, -, hsucc⟩ := hnext h hopen
      exact hinv.next hrx hr hsucc rfl (Or.inl rfl)
  | forgedFile h hlen hopen hb =>
      obtain ⟨st, rfl, -⟩ := hb
      exact hinv.of_delivered rfl (Or.inr rfl)
  | emptyFile h hopen hb =>
      obtain ⟨r, -, -, hne, -⟩ := hnext h hopen
      exact absurd rfl hne
  | file h hopen hpt hb =>
      obtain ⟨r, hr, rfl, -, hsucc⟩ := hnext h hopen
      obtain ⟨st, rfl, -⟩ := hb
      apply hinv.next hrx hr hsucc rfl
      right
      simp [RxView.advanced, RxView.nonceUsed, RxView.counted, RxView.handOn, RxView.consumed, hrx]

/-- The same for the slot, whether or not it still has its session. -/
theorem prefixInv_frameStep
    (hideal : OnlyHonest P k sent) (hset : Settled u)
    (hinv : PrefixInv k sent base (rxView i u)) (hfine : TypeKept P sent u) :
    PrefixInv k sent base (rxView i (frameStep P E i fd u).view) := by
  rcases hset.2 with hnone | hlive
  · obtain ⟨recv, hq⟩ := frameStep_quiet (P := P) (E := E) (i := i) fd hset.1
      (Or.inl (not_receives_of_no_session hnone))
    rw [hq]
    exact hinv.of_delivered rfl (Or.inr rfl)
  · exact (frameStep_turn fd hlive.hs hlive.keyed hlive.state).prefixInv hideal hlive.keyed hfine hinv

end Turn

/-- A session that has just been established, with the peer's key `k` for this direction. -/
structure FreshSession (v : View) (k : Key) : Prop where
  live : LiveSession v
  first : ∃ s, v.ps.session = some s ∧ s.rx.k = k ∧ s.rx.n = 0

/--
Whatever bytes arrive, in whatever pieces: if the wire never changes the type of the next
record and that record is never empty, what is handed on is a prefix of what was sent.
-/
theorem typed_record_integrity
    (P : Primitives) (E : Env) (i : Slot) (fd : Int) (k : Key) (sent : List (UInt8 × Bytes))
    (chunks : List Bytes) (v : View)
    (hideal : OnlyHonest P k sent) (hstart : FreshSession v k)
    (hfine : ∀ u ∈ rxTurns P E i fd chunks v, TypeKept P sent u) :
    ∃ d, delivered i (rxRun P E i fd chunks v).sh.log = delivered i v.sh.log ++ d ∧
      d <+: sent := by
  obtain ⟨s, hs, hk, hn⟩ := hstart.first
  have hv : Settled v ∧ PrefixInv k sent (delivered i v.sh.log) (rxView i v) := by
    refine ⟨⟨hstart.live.hs, Or.inr hstart.live⟩, ⟨[], ?_, List.nil_prefix⟩, ?_⟩
    · exact (List.append_nil _).symm
    · intro cs hcs
      have hrx : (rxView i v).rx = some s.rx := by
        simp [rxView, hs]
      cases hrx.symm.trans hcs
      rw [hn]
      exact ⟨hk, Nat.zero_le _, (List.append_nil _).symm⟩
  have hrun := rxTurns_inv (P := P) (E := E) (i := i)
    (I := fun u => Settled u ∧ PrefixInv k sent (delivered i v.sh.log) (rxView i u))
    (F := TypeKept P sent)
    (fun _ _ h => ⟨⟨h.1.1, h.1.2.imp id fun h => ⟨h.hs, h.keyed, h.state, h.fd⟩⟩,
      h.2.of_delivered rfl (Or.inr rfl)⟩)
    (fun _ h hf => ⟨h.1.frameStep fd, prefixInv_frameStep hideal h.1 h.2 hf⟩) hv hfine
  exact hrun.2.2.handed

/--
`samplePrimitives`, with an `aeadDecrypt` that opens only what is in `sent`, under the nonce
of its place.
-/
def honestPrimitives (sent : List (UInt8 × Bytes)) : Primitives :=
  { samplePrimitives with
    aeadDecrypt := fun k n ad ct =>
      (samplePrimitives.aeadDecrypt k n ad ct).filter fun pt =>
        (List.range sent.length).any fun j =>
          n = encodeNonce (UInt64.ofNat j) ∧ (sent[j]?).map Prod.snd = some pt
    aeadDecrypt_length := fun k n ad ct pt h =>
      samplePrimitives.aeadDecrypt_length k n ad ct pt (Option.filter_eq_some_iff.mp h).1 }

theorem samplePrimitives_opens
    {k : Key} {n : Block 12} {ad ct pt : Bytes}
    (h : samplePrimitives.aeadDecrypt k n ad ct = some pt) :
    ct = samplePrimitives.aeadEncrypt k n ad pt := by
  simp only [samplePrimitives] at h ⊢
  split at h
  · rename_i hct
    cases h
    rw [← hct.2, List.take_append_drop]
  · cases h

/-- The primitives behave as the hypothesis on the AEAD asks. -/
theorem honestPrimitives_onlyHonest
    {sent : List (UInt8 × Bytes)} (hlen : sent.length < 2 ^ 64) (k : Key) :
    OnlyHonest (honestPrimitives sent) k sent := by
  constructor
  · intro n r hr
    have hlt : n.toNat < sent.length := (List.getElem?_eq_some_iff.mp hr).1
    apply Option.filter_eq_some_iff.mpr
    refine ⟨samplePrimitives_open_seal _ _ _ _, ?_⟩
    simp only [List.any_eq_true, List.mem_range]
    refine ⟨n.toNat, hlt, ?_⟩
    simp [hr]
  · intro n ct pt h
    obtain ⟨hopen, hany⟩ := Option.filter_eq_some_iff.mp h
    simp only [List.any_eq_true, List.mem_range, decide_eq_true_eq] at hany
    obtain ⟨j, hj, hn, hpt⟩ := hany
    obtain ⟨r, hr, rfl⟩ := Option.map_eq_some_iff.mp hpt
    have hnj : n.toNat = j := by
      rw [encodeNonce_injective hn]
      exact Nat.mod_eq_of_lt (by omega)
    refine ⟨r, by rw [hnj, hr], ?_⟩
    exact samplePrimitives_opens hopen

/-- A text and a chunk of a file. -/
def sampleSent : List (UInt8 × Bytes) :=
  [(noxMsgText, [0x68, 0x69]), (noxMsgFile, [0x61])]

theorem sampleView_fresh : FreshSession sampleView (samplePair 2).pub :=
  ⟨sampleView_live, sampleSession, rfl, rfl, rfl⟩

/-- The wire replays the first record, forges one and delivers the second one. -/
def replayedChunks : List Bytes :=
  [sampleRecord noxMsgText 0 [0x68, 0x69] ++ sampleForgery noxMsgText 1,
    frameBytes noxMsgText 1 (samplePrimitives.aeadEncrypt (samplePair 2).pub
      (encodeNonce 0) [] [0x68, 0x69]),
    sampleRecord noxMsgFile 1 [0x61]]

theorem typed_record_integrity_replayed :
    ∃ d, delivered 0 (rxRun (honestPrimitives sampleSent) sampleEnv 0 5 replayedChunks
        sampleView).sh.log = delivered 0 sampleView.sh.log ++ d ∧ d <+: sampleSent :=
  typed_record_integrity (honestPrimitives sampleSent) sampleEnv 0 5 (samplePair 2).pub
    sampleSent replayedChunks sampleView (honestPrimitives_onlyHonest (by decide) _)
    sampleView_fresh (by decide +kernel)

/-- The wire turns the TEXT record into a FILE record, and the file side gets it. -/
theorem typed_record_integrity_flipped :
    OnlyHonest (honestPrimitives sampleSent) (samplePair 2).pub sampleSent ∧
    FreshSession sampleView (samplePair 2).pub ∧
    delivered 0 sampleView.sh.log = [] ∧
    delivered 0 (rxRun (honestPrimitives sampleSent) sampleEnv 0 5
      [sampleRecord noxMsgFile 0 [0x68, 0x69]] sampleView).sh.log =
        [(noxMsgFile, [0x68, 0x69])] ∧
    ¬ [(noxMsgFile, ([0x68, 0x69] : Bytes))] <+: sampleSent :=
  ⟨honestPrimitives_onlyHonest (by decide) _, sampleView_fresh, rfl, by decide +kernel, by decide⟩

end App
end Noxtor
