import Noxtor.App.FrameTurns

/-!
# The receive counters

The sender numbers its frames and encrypts them under the same number.  The receiver counts
twice: `session->rx.n` in `cipher_decrypt` and `rx_seq` in the frame loop.  The two stay in
step as long as no FILE frame with the expected number fails its check and no TEXT frame with
the expected number opens to the empty plaintext.
-/

namespace Noxtor
namespace App

open ByteString Noise

/-- While there is a session, `rx_seq` is its receive counter modulo 2^32. -/
def InStep (v : View) : Prop :=
  ∀ s, v.ps.session = some s → v.ps.rxSeq.toNat = s.rx.n.toNat % 2 ^ 32

section Statement

variable (P : Primitives) (E : Env) (i : Slot) (fd : Int)

/--
If the session survives the turn that is taken in `u`, the counters are in step after it; a
record whose AEAD check fails has moved neither of them, and one whose check succeeds has
moved both by one.
-/
def LockstepTurn (u : View) : Prop :=
  ∀ s s', u.ps.session = some s → (frameStep P E i fd u).view.ps.session = some s' →
    InStep (frameStep P E i fd u).view ∧
    ∀ fh payload, Receives u fh payload →
      (opened P u payload = none →
        (frameStep P E i fd u).view.ps.rxSeq = u.ps.rxSeq ∧ s'.rx.n = s.rx.n) ∧
      (opened P u payload ≠ none →
        (frameStep P E i fd u).view.ps.rxSeq = u.ps.rxSeq + 1 ∧ s'.rx.n = s.rx.n + 1)

/--
The record at the head of the buffer, if it has the expected sequence number, is neither a
FILE frame of at least 16 bytes that fails its check nor an empty TEXT frame that passes it.
-/
def RxFine (u : View) : Prop :=
  ∀ fh payload, Receives u fh payload → fh.seq = u.ps.rxSeq →
    (fh.type = noxMsgFile → noxMacLen ≤ payload.length → opened P u payload ≠ none) ∧
    (fh.type = noxMsgText → opened P u payload ≠ some [])

instance (u : View) : Decidable (RxFine P u) :=
  decidableForallReceives u _

end Statement

section Turn

variable {P : Primitives} {E : Env} {i : Slot} {fd : Int} {u : View}

/-- A check that succeeds is made below the reserved nonce. -/
theorem opened_below
    {s : NoiseSession} {payload pt : Bytes} (hses : u.ps.session = some s)
    (hk : s.rx.hasKey = true) (hopen : opened P u payload = some pt) :
    (s.rx.n + 1).toNat = s.rx.n.toNat + 1 := by
  unfold opened at hopen
  rw [hses] at hopen
  rcases noiseDecrypt_cases (P := P) hk payload with heq | ⟨pt', hlt, -, -⟩
  · rw [heq] at hopen
    cases hopen
  · exact toNat_succ_of_lt hlt

theorem succ_inStep
    {seq : UInt32} {n : Nat} (h : seq.toNat = n % 2 ^ 32) :
    (seq + 1).toNat = (n + 1) % 2 ^ 32 := by
  rw [UInt32.toNat_add, h]
  show (n % 2 ^ 32 + 1) % 2 ^ 32 = _
  omega

/-- What the counters of a receiving side do, when its session survives. -/
def Counters (a b : RxView) (nonces : UInt64) (seqs : UInt32) : Prop :=
  ∀ cs cs', a.rx = some cs → b.rx = some cs' → cs'.n = cs.n + nonces ∧ b.rxSeq = a.rxSeq + seqs

theorem Counters.none
    {a b : RxView} (hrx : b.rx = a.rx) (hseq : b.rxSeq = a.rxSeq) :
    Counters a b 0 0 := by
  intro cs cs' h h'
  rw [hrx, h] at h'
  cases h'
  constructor
  · exact (UInt64.add_zero cs.n).symm
  · rw [hseq]
    exact (UInt32.add_zero a.rxSeq).symm

theorem Counters.nonceUsed
    {a b : RxView} {seqs : UInt32} (h : Counters a b 0 seqs) :
    Counters a b.nonceUsed 1 seqs := by
  intro cs cs' hcs hcs'
  obtain ⟨cs1, hcs1, rfl⟩ := Option.map_eq_some_iff.mp hcs'
  obtain ⟨hn, hseq⟩ := h cs cs1 hcs hcs1
  constructor
  · show cs1.n + 1 = cs.n + 1
    rw [hn]
    exact congrArg (· + 1) (UInt64.add_zero cs.n)
  · exact hseq

theorem Counters.counted
    {a b : RxView} {nonces : UInt64} (h : Counters a b nonces 0) :
    Counters a b.counted nonces 1 := by
  intro cs cs' hcs hcs'
  obtain ⟨hn, hseq⟩ := h cs cs' hcs hcs'
  constructor
  · exact hn
  · show b.rxSeq + 1 = a.rxSeq + 1
    rw [hseq]
    exact congrArg (· + 1) (UInt32.add_zero a.rxSeq)

theorem StateMoved.counters
    {a b c : RxView} {nonces : UInt64} {seqs : UInt32} (h : StateMoved b c) (hc : Counters a b nonces seqs) :
    Counters a c nonces seqs := by
  obtain ⟨st, rfl, -⟩ := h
  exact hc

/-- How a record that leaves the session alive has moved the counters, by type and check. -/
inductive RecordOutcome (P : Primitives) (u : View) (fh : FrameHeader) (payload : Bytes)
    (a b : RxView) : Prop
  | refused (hopen : opened P u payload = none)
      (htype : fh.type = noxMsgText ∨ payload.length < noxMacLen) (hmove : Counters a b 0 0)
  | emptyText (hopen : opened P u payload = some []) (htype : fh.type = noxMsgText)
      (hmove : Counters a b 1 0)
  | forgedFile (hopen : opened P u payload = none) (htype : fh.type = noxMsgFile)
      (hlen : noxMacLen ≤ payload.length) (hmove : Counters a b 0 1)
  | taken (hopen : opened P u payload ≠ none)
      (hfull : fh.type = noxMsgText → opened P u payload ≠ some []) (hmove : Counters a b 1 1)

/-- A record that leaves the session alive has the expected number and one of the outcomes. -/
theorem RxTurn.outcome
    {a b : RxView} (h : RxTurn P E u a b) (hmem : ∀ t, E.malloc t = true)
    (halive : b.rx ≠ none) {fh : FrameHeader} {payload : Bytes} (hrec : Receives u fh payload) :
    fh.seq = u.ps.rxSeq ∧ RecordOutcome P u fh payload a b := by
  cases h with
  | quiet recv h =>
      rcases h with h | h
      · exact absurd hrec (h fh payload)
      · rw [hmem] at h
        cases h
  | mismatch h hseq =>
      exact absurd rfl halive
  | refused h hseq hwhy =>
      obtain ⟨rfl, rfl⟩ := h.unique hrec
      rcases hwhy with hfail | ⟨hopen, htype⟩
      · rw [hmem] at hfail
        cases hfail
      · exact ⟨hseq, .refused hopen htype (.none rfl rfl)⟩
  | emptyText h hopen =>
      obtain ⟨rfl, rfl⟩ := h.1.unique hrec
      exact ⟨h.2.1, .emptyText hopen h.2.2 (Counters.none rfl rfl).nonceUsed⟩
  | @text _ _ pt h hopen hpt =>
      obtain ⟨rfl, rfl⟩ := h.1.unique hrec
      have hmove : Counters a ((a.consumed fh).handOn noxMsgText pt).advanced 1 1 :=
        (Counters.none rfl rfl).nonceUsed.counted
      refine ⟨h.2.1, .taken (by rw [hopen]; simp) (fun _ => ?_) hmove⟩
      rw [hopen]
      exact fun h => hpt (Option.some.inj h)
  | lastText h hopen hpt =>
      exact absurd rfl halive
  | forgedFile h hlen hopen hb =>
      obtain ⟨rfl, rfl⟩ := h.1.unique hrec
      exact ⟨h.2.1, .forgedFile hopen h.2.2 hlen (hb.counters (Counters.none rfl rfl).counted)⟩
  | emptyFile h hopen hb =>
      obtain ⟨rfl, rfl⟩ := h.1.unique hrec
      refine ⟨h.2.1, .taken (by rw [hopen]; simp) (fun htype => ?_)
        (hb.counters (Counters.none rfl rfl).nonceUsed.counted)⟩
      rw [h.2.2] at htype
      cases htype
  | file h hopen hpt hb =>
      obtain ⟨rfl, rfl⟩ := h.1.unique hrec
      refine ⟨h.2.1, .taken (by rw [hopen]; simp) (fun htype => ?_)
        (hb.counters (Counters.none rfl rfl).nonceUsed.counted)⟩
      rw [h.2.2] at htype
      cases htype

/-- The moves of the counters, as the slot shows them. -/
theorem Counters.session
    {u' : View} {s s' : NoiseSession} {nonces : UInt64} {seqs : UInt32}
    (h : Counters (rxView i u) (rxView i u') nonces seqs)
    (hs : u.ps.session = some s) (hs' : u'.ps.session = some s') :
    s'.rx.n = s.rx.n + nonces ∧ u'.ps.rxSeq = u.ps.rxSeq + seqs :=
  h s.rx s'.rx (by simp [rxView, hs]) (by simp [rxView, hs'])

/-- Counters that did not move are in step. -/
theorem InStep.same
    {u' : View} {s s' : NoiseSession} (hstep : InStep u) (hs : u.ps.session = some s)
    (hs' : u'.ps.session = some s') (hn : s'.rx.n = s.rx.n) (hseq : u'.ps.rxSeq = u.ps.rxSeq) :
    InStep u' := by
  intro s'' hs''
  cases hs'.symm.trans hs''
  rw [hn, hseq]
  exact hstep s hs

/-- Counters that both moved by one are in step. -/
theorem InStep.next
    {u' : View} {s s' : NoiseSession} (hstep : InStep u) (hs : u.ps.session = some s)
    (hs' : u'.ps.session = some s') (hn : s'.rx.n = s.rx.n + 1)
    (hseq : u'.ps.rxSeq = u.ps.rxSeq + 1) (hbelow : (s.rx.n + 1).toNat = s.rx.n.toNat + 1) :
    InStep u' := by
  intro s'' hs''
  cases hs'.symm.trans hs''
  rw [hn, hseq, hbelow]
  exact succ_inStep (hstep s hs)

theorem lockstepTurn_of_fine
    (hmem : ∀ t, E.malloc t = true) (hlive : LiveSession u) (hstep : InStep u)
    (hfine : RxFine P u) :
    LockstepTurn P E i fd u := by
  intro s s' hs hs'
  obtain ⟨s1, hs1, hk⟩ := hlive.keyed
  cases hs.symm.trans hs1
  have hturn := frameStep_turn (P := P) (E := E) (i := i) fd hlive.hs hlive.keyed
    hlive.state
  have hquiet := frameStep_quiet (P := P) (E := E) (i := i) fd hlive.hs
  generalize (frameStep P E i fd u).view = u' at hs' hturn hquiet ⊢
  have halive : (rxView i u').rx ≠ none := by
    simp [rxView, hs']
  by_cases hrec : ∃ fh payload, Receives u fh payload
  · obtain ⟨fh, payload, hrec⟩ := hrec
    obtain ⟨hseq, hout⟩ := hturn.outcome hmem halive hrec
    have hall : ∀ {Q : FrameHeader → Bytes → Prop}, Q fh payload →
        ∀ fh' payload', Receives u fh' payload' → Q fh' payload' := by
      intro Q hQ fh' payload' h'
      obtain ⟨rfl, rfl⟩ := hrec.unique h'
      exact hQ
    cases hout with
    | refused hopen htype hmove =>
        obtain ⟨hn, hsq⟩ := hmove.session hs hs'
        rw [UInt64.add_zero] at hn
        rw [UInt32.add_zero] at hsq
        exact ⟨hstep.same hs hs' hn hsq, hall ⟨fun _ => ⟨hsq, hn⟩, fun h => absurd hopen h⟩⟩
    | emptyText hopen htype hmove =>
        exact absurd hopen ((hfine fh payload hrec hseq).2 htype)
    | forgedFile hopen htype hlen hmove =>
        exact absurd hopen ((hfine fh payload hrec hseq).1 htype hlen)
    | taken hopen hfull hmove =>
        obtain ⟨hn, hsq⟩ := hmove.session hs hs'
        obtain ⟨pt, hpt⟩ := Option.ne_none_iff_exists'.mp hopen
        exact ⟨hstep.next hs hs' hn hsq (opened_below hs hk hpt),
          hall ⟨fun h => absurd h hopen, fun _ => ⟨hsq, hn⟩⟩⟩
  · have hno : ∀ fh payload, ¬ Receives u fh payload :=
      fun fh payload h => hrec ⟨fh, payload, h⟩
    obtain ⟨recv, hq⟩ := hquiet (Or.inl hno)
    have hmove : Counters (rxView i u) (rxView i u') 0 0 := by
      rw [hq]
      exact .none rfl rfl
    obtain ⟨hn, hsq⟩ := hmove.session hs hs'
    rw [UInt64.add_zero] at hn
    rw [UInt32.add_zero] at hsq
    exact ⟨hstep.same hs hs' hn hsq, fun fh payload h => absurd h (hno fh payload)⟩

theorem uint32_ne_succ
    (x : UInt32) :
    x ≠ x + 1 := by
  intro h
  have h1 := congrArg UInt32.toNat h
  rw [UInt32.toNat_add] at h1
  have h2 := x.toNat_lt
  have h3 : (1 : UInt32).toNat = 1 := rfl
  omega

/-- A FILE frame that fails its check, or an empty TEXT frame, breaks the step. -/
theorem fine_of_lockstepTurn
    (hmem : ∀ t, E.malloc t = true) (hlive : LiveSession u) (h : LockstepTurn P E i fd u) :
    RxFine P u := by
  obtain ⟨s, hs, hk⟩ := hlive.keyed
  intro fh payload hrec hseq
  constructor
  · intro htype hlen hopen
    have hmax := (headOf_frame hrec.1).2.2.2.1
    have hmoved := fileFrame_refused (P := P) (E := E) (i := i) (v := consumed fh u)
      ⟨hlen, hmax⟩ (hmem _) hopen
    unfold LockstepTurn at h
    rw [frameStep_file hrec (hmem _) hseq htype] at h
    dsimp only [LoopStep.view] at h
    generalize fileFrame P E i payload (consumed fh u) = u' at h hmoved
    obtain ⟨st, heq, -⟩ := hmoved
    have hrx : u'.ps.session.map NoiseSession.rx = some s.rx := by
      have h1 := congrArg RxView.rx heq
      rw [show (rxView i u').rx = u'.ps.session.map NoiseSession.rx from rfl] at h1
      rw [h1]
      simp [rxView, RxView.counted, consumed, hs]
    have hcount : u'.ps.rxSeq = u.ps.rxSeq + 1 := congrArg RxView.rxSeq heq
    obtain ⟨s', hs', -⟩ := Option.map_eq_some_iff.mp hrx
    have hkept := (((h s s' hs hs').2 fh payload hrec).1 hopen).1
    exact uint32_ne_succ u.ps.rxSeq (hkept.symm.trans hcount)
  · intro htype hopen
    have hkey : Keyed (consumed fh u) := hlive.keyed
    have hmoved := textFrame_empty (P := P) (E := E) (i := i) hkey (hmem _) hopen
    unfold LockstepTurn at h
    rw [frameStep_text hrec (hmem _) hseq htype] at h
    dsimp only [LoopStep.view] at h
    generalize textFrame P E i payload (consumed fh u) = u' at h hmoved
    have hrx : u'.ps.session.map NoiseSession.rx = some { s.rx with n := s.rx.n + 1 } := by
      have h1 := congrArg RxView.rx hmoved
      rw [show (rxView i u').rx = u'.ps.session.map NoiseSession.rx from rfl] at h1
      rw [h1]
      simp [rxView, RxView.nonceUsed, consumed, hs]
    have hkept : u'.ps.rxSeq = u.ps.rxSeq := congrArg RxView.rxSeq hmoved
    obtain ⟨s', hs', -⟩ := Option.map_eq_some_iff.mp hrx
    have hcount := (((h s s' hs hs').2 fh payload hrec).2 (by rw [hopen]; simp)).1
    exact uint32_ne_succ u.ps.rxSeq (hkept.symm.trans hcount)

/-- The slot is settled, and its counters are in step. -/
def SettledInStep (v : View) : Prop :=
  Settled v ∧ InStep v

/-- A turn in which the counters keep in step leaves them in step. -/
theorem SettledInStep.frameStep
    (h : SettledInStep u) (hturn : LockstepTurn P E i fd u) :
    SettledInStep (frameStep P E i fd u).view := by
  refine ⟨h.1.frameStep fd, ?_⟩
  intro s' hs'
  rcases h.1.2 with hnone | hlive
  · obtain ⟨recv, hq⟩ := frameStep_quiet (P := P) (E := E) (i := i) fd h.1.1
      (Or.inl (not_receives_of_no_session hnone))
    have h1 := congrArg RxView.rx hq
    simp [rxView, hnone, hs'] at h1
  · obtain ⟨s, hs, -⟩ := hlive.keyed
    exact (hturn s s' hs hs').1 s' hs'

/-- The two directions, for a slot that may have lost its session. -/
theorem lockstepTurn_iff
    (hmem : ∀ t, E.malloc t = true) (h : SettledInStep u) :
    LockstepTurn P E i fd u ↔ RxFine P u := by
  rcases h.1.2 with hnone | hlive
  · constructor
    · intro _ fh payload hrec
      exact absurd hrec (not_receives_of_no_session hnone fh payload)
    · intro _ s s' hs
      rw [hnone] at hs
      cases hs
  · exact ⟨fine_of_lockstepTurn hmem hlive, lockstepTurn_of_fine hmem hlive h.2⟩

end Turn

/--
In a live session whose counters are in step, the counters stay in step and move as they
should in every turn of a run, if and only if every turn of the run is fine.
-/
theorem receive_lockstep
    (P : Primitives) (E : Env) (i : Slot) (fd : Int) (chunks : List Bytes) (v : View)
    (hmem : ∀ t, E.malloc t = true) (hlive : LiveSession v) (hstart : InStep v) :
    (∀ u ∈ rxTurns P E i fd chunks v, LockstepTurn P E i fd u) ↔
      ∀ u ∈ rxTurns P E i fd chunks v, RxFine P u := by
  have hv : SettledInStep v := ⟨⟨hlive.hs, Or.inr hlive⟩, hstart⟩
  have hdeliver : ∀ chunk u, SettledInStep u → SettledInStep (deliver chunk u) :=
    fun _ _ h => ⟨⟨h.1.1, h.1.2.imp id fun h => ⟨h.hs, h.keyed, h.state, h.fd⟩⟩, h.2⟩
  constructor
  · intro hturns u hu
    have hinv := rxTurns_inv (F := LockstepTurn P E i fd) hdeliver
      (fun _ h hturn => h.frameStep hturn) hv hturns
    exact (lockstepTurn_iff hmem (hinv.1 u hu)).mp (hturns u hu)
  · intro hfine u hu
    have hinv := rxTurns_inv (F := RxFine P) hdeliver
      (fun _ h hf => h.frameStep ((lockstepTurn_iff hmem h).mpr hf)) hv hfine
    exact (lockstepTurn_iff hmem (hinv.1 u hu)).mpr (hfine u hu)

theorem sampleView_inStep : InStep sampleView := by
  intro s hs
  cases hs
  rfl

/-- A text, a file record, a forged text and another text, in three pieces. -/
def tamperedChunks : List Bytes :=
  [sampleRecord noxMsgText 0 [0x68, 0x69] ++ (sampleRecord noxMsgFile 1 [0x61]).take 7,
    (sampleRecord noxMsgFile 1 [0x61]).drop 7 ++ sampleForgery noxMsgText 2,
    sampleRecord noxMsgText 2 [0x68, 0x6f]]

/-- A run with a forged text is fine, so the counters keep in step. -/
theorem receive_lockstep_tampered :
    (∀ u ∈ rxTurns samplePrimitives sampleEnv 0 5 tamperedChunks sampleView,
      LockstepTurn samplePrimitives sampleEnv 0 5 u) ∧
    (rxRun samplePrimitives sampleEnv 0 5 tamperedChunks sampleView).ps.rxSeq = 3 := by
  constructor
  · apply (receive_lockstep samplePrimitives sampleEnv 0 5 tamperedChunks sampleView
      (fun _ => rfl) sampleView_live sampleView_inStep).mpr
    decide +kernel
  · decide +kernel

/--
A forged FILE frame moves `rx_seq` and not the nonce; the next frame of the honest peer then
ends the session.
-/
theorem receive_lockstep_forged_file :
    LiveSession sampleView ∧ InStep sampleView ∧
    (∃ u ∈ rxTurns samplePrimitives sampleEnv 0 5 [sampleForgery noxMsgFile 0] sampleView,
      ¬ LockstepTurn samplePrimitives sampleEnv 0 5 u) ∧
    (rxRun samplePrimitives sampleEnv 0 5 [sampleForgery noxMsgFile 0] sampleView).ps.rxSeq = 1 ∧
    (rxRun samplePrimitives sampleEnv 0 5 [sampleForgery noxMsgFile 0] sampleView).ps.session =
      some sampleSession ∧
    (rxRun samplePrimitives sampleEnv 0 5
      [sampleForgery noxMsgFile 0, sampleRecord noxMsgText 0 [0x68, 0x69]] sampleView).ps.session =
      none := by
  refine ⟨sampleView_live, sampleView_inStep,
    ⟨deliver (sampleForgery noxMsgFile 0) sampleView, by decide +kernel, ?_⟩,
    by decide +kernel, by decide +kernel, by decide +kernel⟩
  intro h
  have hses : (frameStep samplePrimitives sampleEnv 0 5
      (deliver (sampleForgery noxMsgFile 0) sampleView)).view.ps.session = some sampleSession := by
    decide +kernel
  have hseq : (frameStep samplePrimitives sampleEnv 0 5
      (deliver (sampleForgery noxMsgFile 0) sampleView)).view.ps.rxSeq.toNat = 1 := by
    decide +kernel
  have hstep := (h sampleSession sampleSession rfl hses).1 sampleSession hses
  rw [hseq] at hstep
  exact absurd hstep (by decide)

end App
end Noxtor
