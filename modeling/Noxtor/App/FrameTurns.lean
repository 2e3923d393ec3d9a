import Noxtor.App.ReceiveSide

/-!
# The turns of the frame loop

A slot that has left the handshake receives records: TEXT and FILE frames.  `headOf` is the
framing half of a turn of the loop, and `RxTurn` is everything a turn can do to the receiving
side of a live session.

A run delivers the bytes of the wire in chunks of any size, with a call of
`process_peer_frames` after each; `rxTurns` lists the views in which it takes a turn.
-/

namespace Noxtor
namespace App

open ByteString Noise

/-- What a turn of the loop finds at the head of `recv_buf`. -/
inductive Head where
  | incomplete
  | bad
  | frame (fh : FrameHeader) (payload : Bytes)
deriving DecidableEq

/-- The framing of `process_peer_frames`. -/
def headOf (recv : Bytes) : Head :=
  if recv.length < frameHeaderWireSize then .incomplete
  else
    match frameHeaderDecode recv with
    | .error _ => .bad
    | .ok fh =>
        if fh.len.toNat = 0 ∨ fh.len.toNat > 4096 + noxMacLen then .bad
        else if recv.length < frameHeaderWireSize + fh.len.toNat then .incomplete
        else .frame fh ((recv.drop frameHeaderWireSize).take fh.len.toNat)

/-- A TEXT or FILE frame. -/
def FrameHeader.isRecord (fh : FrameHeader) : Prop :=
  fh.type = noxMsgText ∨ fh.type = noxMsgFile

instance (fh : FrameHeader) : Decidable fh.isRecord :=
  inferInstanceAs (Decidable (_ ∨ _))

/-- A complete TEXT or FILE frame is at the head of the buffer of a slot with a session. -/
def Receives (v : View) (fh : FrameHeader) (payload : Bytes) : Prop :=
  headOf v.ps.recv = .frame fh payload ∧ fh.isRecord ∧ v.ps.session ≠ none

/-- The frame at the head is one frame. -/
theorem Receives.unique
    {v : View} {fh fh' : FrameHeader} {payload payload' : Bytes}
    (h : Receives v fh payload) (h' : Receives v fh' payload') :
    fh' = fh ∧ payload' = payload := by
  have heq := h'.1.symm.trans h.1
  cases heq
  exact ⟨rfl, rfl⟩

/-- The record that is received, if there is one. -/
def recordAt (v : View) : Option (FrameHeader × Bytes) :=
  match headOf v.ps.recv with
  | .frame fh payload => if fh.isRecord ∧ v.ps.session ≠ none then some (fh, payload) else none
  | _ => none

theorem mem_recordAt
    {v : View} {fh : FrameHeader} {payload : Bytes} :
    (fh, payload) ∈ recordAt v ↔ Receives v fh payload := by
  unfold recordAt Receives
  cases headOf v.ps.recv with
  | incomplete =>
      simp
  | bad =>
      simp
  | frame fh' payload' =>
      by_cases h : fh'.isRecord ∧ v.ps.session ≠ none
      · simp only [if_pos h, Option.mem_some, Prod.mk.injEq, Head.frame.injEq]
        constructor
        · rintro ⟨rfl, rfl⟩
          exact ⟨⟨rfl, rfl⟩, h⟩
        · rintro ⟨⟨rfl, rfl⟩, -⟩
          exact ⟨rfl, rfl⟩
      · simp only [if_neg h, Option.not_mem_none, Head.frame.injEq, false_iff]
        rintro ⟨⟨rfl, rfl⟩, h'⟩
        exact h h'

/-- The frame with header `fh` is out of the buffer and its payload in memory of its own. -/
def consumed (fh : FrameHeader) (v : View) : View :=
  v.tickOn.setPs fun ps => { ps with recv := ps.recv.drop (frameHeaderWireSize + fh.len.toNat) }

theorem headOf_frame
    {recv payload : Bytes} {fh : FrameHeader} (h : headOf recv = .frame fh payload) :
    frameHeaderDecode recv = .ok fh ∧ payload.length = fh.len.toNat ∧ 0 < payload.length ∧
      payload.length ≤ 4096 + noxMacLen ∧ frameHeaderWireSize + payload.length ≤ recv.length := by
  unfold headOf at h
  split at h
  · cases h
  split at h
  · cases h
  split at h
  · cases h
  split at h
  · cases h
  rename_i hdec hlen hall
  cases h
  rw [not_or] at hlen
  have hpay : ((recv.drop frameHeaderWireSize).take fh.len.toNat).length = fh.len.toNat := by
    rw [List.length_take, List.length_drop]
    omega
  rw [hpay]
  exact ⟨hdec, rfl, by omega, by omega, by omega⟩

/-- A property of the record at the head can be looked up. -/
instance decidableExistsReceives (v : View) (Q : FrameHeader → Bytes → Prop)
    [∀ fh payload, Decidable (Q fh payload)] :
    Decidable (∃ fh payload, Receives v fh payload ∧ Q fh payload) :=
  decidable_of_iff (∃ r ∈ recordAt v, Q r.1 r.2)
    ⟨fun ⟨r, hr, hq⟩ => ⟨r.1, r.2, mem_recordAt.mp hr, hq⟩,
      fun ⟨fh, payload, hr, hq⟩ => ⟨(fh, payload), mem_recordAt.mpr hr, hq⟩⟩

/-- The same for all records at the head, of which there is one at most. -/
instance decidableForallReceives (v : View) (Q : FrameHeader → Bytes → Prop)
    [∀ fh payload, Decidable (Q fh payload)] :
    Decidable (∀ fh payload, Receives v fh payload → Q fh payload) :=
  decidable_of_iff (∀ r ∈ recordAt v, Q r.1 r.2)
    ⟨fun h fh payload hr => h (fh, payload) (mem_recordAt.mpr hr),
      fun h r hr => h r.1 r.2 (mem_recordAt.mp hr)⟩

section Turn

variable {P : Primitives} {E : Env} {i : Slot} {fd : Int} {v : View}

/-- A turn, by what is at the head of the buffer. -/
theorem frameStep_eq
    (fd : Int) (v : View) :
    frameStep P E i fd v =
      match headOf v.ps.recv with
      | .incomplete => .stop v
      | .bad => .stop (dropRecv v)
      | .frame fh payload =>
          if fh.isRecord ∧ v.ps.session = none then .stop v
          else if E.malloc v.sh.tick then handleFrame P E i fd fh payload (consumed fh v)
          else .stop (dropRecv v.tickOn) := by
  unfold frameStep headOf
  by_cases hshort : v.ps.recv.length < frameHeaderWireSize
  · simp only [hshort, if_true]
  simp only [hshort, if_false]
  cases frameHeaderDecode v.ps.recv with
  | error err =>
      rfl
  | ok fh =>
      dsimp only
      by_cases hlen : fh.len.toNat = 0 ∨ fh.len.toNat > 4096 + noxMacLen
      · simp only [hlen, if_true]
      by_cases hall : v.ps.recv.length < frameHeaderWireSize + fh.len.toNat
      · simp only [hlen, hall, if_true, if_false]
      simp only [hlen, hall, if_false, FrameHeader.isRecord, sodiumMalloc]
      cases E.malloc v.sh.tick <;> rfl

theorem frameStep_incomplete
    (h : headOf v.ps.recv = .incomplete) :
    frameStep P E i fd v = .stop v := by
  rw [frameStep_eq, h]

theorem frameStep_bad
    (h : headOf v.ps.recv = .bad) :
    frameStep P E i fd v = .stop (dropRecv v) := by
  rw [frameStep_eq, h]

/-- A record for a live session, once its payload is in memory. -/
theorem frameStep_record
    {fh : FrameHeader} {payload : Bytes} (h : Receives v fh payload)
    (hmem : E.malloc v.sh.tick = true) :
    frameStep P E i fd v = sessionFrame P E i fh payload (consumed fh v) := by
  obtain ⟨hhead, hrec, hses⟩ := h
  have hctrl : fh.type ≠ noxMsgCtrl := by
    rcases hrec with h | h <;> rw [h] <;> decide
  have hlive : (consumed fh v).ps.session ≠ none := hses
  rw [frameStep_eq, hhead]
  dsimp only
  rw [if_neg (fun h => hses h.2), if_pos hmem]
  unfold handleFrame
  rw [if_neg hctrl, if_pos ⟨hrec, hlive⟩]

theorem frameStep_noMemory
    {fh : FrameHeader} {payload : Bytes} (h : Receives v fh payload)
    (hmem : E.malloc v.sh.tick = false) :
    frameStep P E i fd v = .stop (dropRecv v.tickOn) := by
  obtain ⟨hhead, hrec, hses⟩ := h
  rw [frameStep_eq, hhead]
  dsimp only
  rw [if_neg (fun h => hses h.2), if_neg (by rw [hmem]; decide)]

/-- The sequence number decides: a mismatch ends the loop. -/
theorem frameStep_mismatch
    (fd : Int) {fh : FrameHeader} {payload : Bytes} (h : Receives v fh payload)
    (hmem : E.malloc v.sh.tick = true) (hseq : fh.seq ≠ v.ps.rxSeq)
    (hst : v.ps.state.InSession) :
    ∃ message, frameStep P E i fd v =
      .stop (tornDown i ((consumed fh v).uiPrintError message [])) := by
  have hseq' : fh.seq ≠ (consumed fh v).ps.rxSeq := hseq
  rw [frameStep_record h hmem]
  unfold sessionFrame
  rw [if_pos hseq', smDispatch_seqMismatch (by exact hst)]
  exact ⟨_, rfl⟩

theorem frameStep_text
    {fh : FrameHeader} {payload : Bytes} (h : Receives v fh payload)
    (hmem : E.malloc v.sh.tick = true) (hseq : fh.seq = v.ps.rxSeq)
    (htype : fh.type = noxMsgText) :
    frameStep P E i fd v = .next (textFrame P E i payload (consumed fh v)) := by
  have hseq' : ¬ fh.seq ≠ (consumed fh v).ps.rxSeq := not_not_intro hseq
  rw [frameStep_record h hmem]
  unfold sessionFrame
  rw [if_neg hseq', if_pos htype]

theorem frameStep_file
    {fh : FrameHeader} {payload : Bytes} (h : Receives v fh payload)
    (hmem : E.malloc v.sh.tick = true) (hseq : fh.seq = v.ps.rxSeq)
    (htype : fh.type = noxMsgFile) :
    frameStep P E i fd v = .next (fileFrame P E i payload (consumed fh v)) := by
  have hseq' : ¬ fh.seq ≠ (consumed fh v).ps.rxSeq := not_not_intro hseq
  rw [frameStep_record h hmem]
  unfold sessionFrame
  rw [if_neg hseq', if_neg (by rw [htype]; decide)]

end Turn

section Quiet

variable {P : Primitives} {E : Env} {i : Slot} {fd : Int} {v : View}

/-- A frame that is not a record is dropped once the handshake is over. -/
theorem handleFrame_skip
    {fh : FrameHeader} {payload : Bytes} (hhs : v.ps.hs = none)
    (hrec : ¬ (fh.isRecord ∧ v.ps.session ≠ none)) :
    handleFrame P E i fd fh payload v = .next v := by
  unfold handleFrame
  split
  · rw [hhs]
  · exact if_neg hrec

/-- A turn without a record, and one without memory for the payload, only touch the buffer. -/
theorem frameStep_quiet
    (fd : Int) (hhs : v.ps.hs = none)
    (h : (∀ fh payload, ¬ Receives v fh payload) ∨ E.malloc v.sh.tick = false) :
    ∃ recv, rxView i (frameStep P E i fd v).view = { rxView i v with recv := recv } := by
  cases hhead : headOf v.ps.recv with
  | incomplete =>
      rw [frameStep_incomplete hhead]
      exact ⟨v.ps.recv, rfl⟩
  | bad =>
      rw [frameStep_bad hhead]
      exact ⟨[], rfl⟩
  | frame fh payload =>
      rw [frameStep_eq, hhead]
      dsimp only
      split
      · exact ⟨v.ps.recv, rfl⟩
      rename_i hwait
      split
      · rename_i hmem
        have hrec : ¬ (fh.isRecord ∧ v.ps.session ≠ none) := by
          intro hrec
          rcases h with h | h
          · exact h fh payload ⟨hhead, hrec⟩
          · rw [hmem] at h
            cases h
        rw [handleFrame_skip (v := consumed fh v) hhs hrec]
        exact ⟨_, rfl⟩
      · exact ⟨[], rfl⟩

/-- Without a session there are no records. -/
theorem not_receives_of_no_session
    (h : v.ps.session = none) (fh : FrameHeader) (payload : Bytes) :
    ¬ Receives v fh payload :=
  fun hrec => hrec.2.2 h

end Quiet

/-- The record at the head has the expected sequence number, and its type is `type`. -/
def Expected (v : View) (fh : FrameHeader) (payload : Bytes) (type : UInt8) : Prop :=
  Receives v fh payload ∧ fh.seq = v.ps.rxSeq ∧ fh.type = type

/-- The frame with header `fh` is out of the buffer. -/
def RxView.consumed (a : RxView) (fh : FrameHeader) : RxView :=
  { a with recv := a.recv.drop (frameHeaderWireSize + fh.len.toNat) }

/--
Everything that a turn of the loop can do to the receiving side of a live session: nothing
but drop bytes, end the session, or take one record in one of the ways that TEXT and FILE
frames have.
-/
inductive RxTurn (P : Primitives) (E : Env) (v : View) (a : RxView) : RxView → Prop
  | quiet (recv : Bytes)
      (h : (∀ fh payload, ¬ Receives v fh payload) ∨ E.malloc v.sh.tick = false) :
      RxTurn P E v a { a with recv := recv }
  | mismatch {fh : FrameHeader} {payload : Bytes}
      (h : Receives v fh payload) (hseq : fh.seq ≠ v.ps.rxSeq) :
      RxTurn P E v a a.torn
  | refused {fh : FrameHeader} {payload : Bytes}
      (h : Receives v fh payload) (hseq : fh.seq = v.ps.rxSeq)
      (hwhy : E.malloc (v.sh.tick + 1) = false ∨
        (opened P v payload = none ∧ (fh.type = noxMsgText ∨ payload.length < noxMacLen))) :
      RxTurn P E v a (a.consumed fh)
  | emptyText {fh : FrameHeader} {payload : Bytes}
      (h : Expected v fh payload noxMsgText) (hopen : opened P v payload = some []) :
      RxTurn P E v a (a.consumed fh).nonceUsed
  | text {fh : FrameHeader} {payload pt : Bytes}
      (h : Expected v fh payload noxMsgText) (hopen : opened P v payload = some pt)
      (hpt : pt ≠ []) :
      RxTurn P E v a ((a.consumed fh).handOn noxMsgText pt).advanced
  | lastText {fh : FrameHeader} {payload pt : Bytes}
      (h : Expected v fh payload noxMsgText) (hopen : opened P v payload = some pt)
      (hpt : pt ≠ []) :
      RxTurn P E v a { ((a.consumed fh).handOn noxMsgText pt).torn with rxSeq := 1 }
  | forgedFile {fh : FrameHeader} {payload : Bytes} {b : RxView}
      (h : Expected v fh payload noxMsgFile) (hlen : noxMacLen ≤ payload.length)
      (hopen : opened P v payload = none) (hb : StateMoved (a.consumed fh).counted b) :
      RxTurn P E v a b
  | emptyFile {fh : FrameHeader} {payload : Bytes} {b : RxView}
      (h : Expected v fh payload noxMsgFile) (hopen : opened P v payload = some [])
      (hb : StateMoved (a.consumed fh).advanced b) :
      RxTurn P E v a b
  | file {fh : FrameHeader} {payload pt : Bytes} {b : RxView}
      (h : Expected v fh payload noxMsgFile) (hopen : opened P v payload = some pt)
      (hpt : pt ≠ []) (hb : StateMoved ((a.consumed fh).handOn noxMsgFile pt).advanced b) :
      RxTurn P E v a b

section Inversion

variable {P : Primitives} {E : Env} {i : Slot} {fd : Int} {v : View}

theorem textFrame_turn
    {fh : FrameHeader} {payload : Bytes} (h : Expected v fh payload noxMsgText)
    (hkey : Keyed v) :
    RxTurn P E v (rxView i v) (rxView i (textFrame P E i payload (consumed fh v))) := by
  have hkey' : Keyed (consumed fh v) := hkey
  have hrx : rxView i (consumed fh v) = (rxView i v).consumed fh := rfl
  have hticks : (consumed fh v).sh.tick = v.sh.tick + 1 := rfl
  have hopened : opened P (consumed fh v) payload = opened P v payload := rfl
  cases hmem : E.malloc (v.sh.tick + 1) with
  | false =>
      rw [textFrame_refused (Or.inl (by rw [hticks, hmem])), hrx]
      exact .refused h.1 h.2.1 (Or.inl hmem)
  | true =>
      cases hopen : opened P v payload with
      | none =>
          rw [textFrame_refused (Or.inr (by rw [hopened, hopen])), hrx]
          exact .refused h.1 h.2.1 (Or.inr ⟨hopen, Or.inl h.2.2⟩)
      | some pt =>
          by_cases hpt : pt = []
          · subst hpt
            rw [textFrame_empty hkey' (by rw [hticks, hmem]) (by rw [hopened, hopen]), hrx]
            exact .emptyText h hopen
          · rcases textFrame_shown (P := P) (E := E) (i := i) hkey' (by rw [hticks, hmem])
              (by rw [hopened, hopen]) hpt with hshow | hshow
            · rw [hshow, hrx]
              exact .text h hopen hpt
            · rw [hshow, hrx]
              exact .lastText h hopen hpt

theorem fileFrame_turn
    {fh : FrameHeader} {payload : Bytes} (h : Expected v fh payload noxMsgFile)
    (hkey : Keyed v) :
    RxTurn P E v (rxView i v) (rxView i (fileFrame P E i payload (consumed fh v))) := by
  have hkey' : Keyed (consumed fh v) := hkey
  have hrx : rxView i (consumed fh v) = (rxView i v).consumed fh := rfl
  have hticks : (consumed fh v).sh.tick = v.sh.tick + 1 := rfl
  have hopened : opened P (consumed fh v) payload = opened P v payload := rfl
  have hmax := (headOf_frame h.1.1).2.2.2.1
  by_cases hshort : payload.length < noxMacLen
  · have hnone : opened P v payload = none := by
      cases hopen : opened P v payload with
      | none =>
          rfl
      | some pt =>
          have hlen := (noiseDecrypt_some hkey hopen).2
          unfold noxMacLen at hshort
          omega
    rw [fileFrame_ignored (Or.inl hshort), hrx]
    exact .refused h.1 h.2.1 (Or.inr ⟨hnone, Or.inr hshort⟩)
  have hlen : noxMacLen ≤ payload.length ∧ payload.length ≤ 4096 + noxMacLen := by omega
  cases hmem : E.malloc (v.sh.tick + 1) with
  | false =>
      rw [fileFrame_ignored (Or.inr (by rw [hticks, hmem])), hrx]
      exact .refused h.1 h.2.1 (Or.inl hmem)
  | true =>
      rw [← hticks] at hmem
      cases hopen : opened P v payload with
      | none =>
          have hmoved := fileFrame_refused (P := P) (i := i) hlen hmem hopen
          exact .forgedFile h hlen.1 hopen hmoved
      | some pt =>
          by_cases hpt : pt = []
          · subst hpt
            have hmoved := fileFrame_empty (P := P) (i := i) hlen hkey' hmem hopen
            exact .emptyFile h hopen hmoved
          · have hmoved := fileFrame_handed (P := P) (i := i) hlen hkey' hmem hopen hpt
            exact .file h hopen hpt hmoved

/-- A turn of the loop in a live session is one of these. -/
theorem frameStep_turn
    (fd : Int) (hhs : v.ps.hs = none) (hkey : Keyed v) (hst : v.ps.state.InSession) :
    RxTurn P E v (rxView i v) (rxView i (frameStep P E i fd v).view) := by
  by_cases hrec : ∃ fh payload, Receives v fh payload
  · obtain ⟨fh, payload, h⟩ := hrec
    cases hmem : E.malloc v.sh.tick with
    | false =>
        obtain ⟨recv, hq⟩ := frameStep_quiet (P := P) (i := i) fd hhs (Or.inr hmem)
        rw [hq]
        exact .quiet recv (Or.inr hmem)
    | true =>
        by_cases hseq : fh.seq = v.ps.rxSeq
        · rcases h.2.1 with htype | htype
          · rw [frameStep_text h hmem hseq htype]
            exact textFrame_turn ⟨h, hseq, htype⟩ hkey
          · rw [frameStep_file h hmem hseq htype]
            exact fileFrame_turn ⟨h, hseq, htype⟩ hkey
        · obtain ⟨message, hstop⟩ := frameStep_mismatch (P := P) (i := i) fd h hmem hseq hst
          rw [hstop]
          show RxTurn P E v _ (rxView i (tornDown i _))
          rw [rxView_tornDown]
          exact .mismatch h hseq
  · have hnone : ∀ fh payload, ¬ Receives v fh payload :=
      fun fh payload h => hrec ⟨fh, payload, h⟩
    obtain ⟨recv, hq⟩ := frameStep_quiet (P := P) (E := E) (i := i) fd hhs (Or.inl hnone)
    rw [hq]
    exact .quiet recv (Or.inl hnone)

end Inversion

/-- A session that is up: the handshake is gone, the key is there, the socket is open. -/
structure LiveSession (v : View) : Prop where
  hs : v.ps.hs = none
  keyed : Keyed v
  state : v.ps.state.InSession
  fd : 0 ≤ v.ps.fd

/-- The slot is past the handshake: in a live session, or without one. -/
def Settled (v : View) : Prop :=
  v.ps.hs = none ∧ (v.ps.session = none ∨ LiveSession v)

/-- The same of the receiving side. -/
def RxView.Live (a : RxView) : Prop :=
  a.hs = none ∧ (∃ cs, a.rx = some cs ∧ cs.hasKey = true) ∧ a.state.InSession ∧ 0 ≤ a.fd

section Live

variable {P : Primitives} {E : Env} {i : Slot} {fd : Int} {v : View}

theorem LiveSession.rx
    (h : LiveSession v) :
    (rxView i v).Live := by
  obtain ⟨s, hs, hk⟩ := h.keyed
  exact ⟨h.hs, ⟨s.rx, by simp [rxView, hs], hk⟩, h.state, h.fd⟩

theorem LiveSession.of_rx
    (h : (rxView i v).Live) :
    LiveSession v := by
  obtain ⟨hhs, ⟨cs, hcs, hk⟩, hst, hfd⟩ := h
  obtain ⟨s, hs, rfl⟩ := Option.map_eq_some_iff.mp hcs
  exact ⟨hhs, ⟨s, hs, hk⟩, hst, hfd⟩

theorem LiveSession.session_ne
    (h : LiveSession v) :
    v.ps.session ≠ none := by
  obtain ⟨s, hs, -⟩ := h.keyed
  rw [hs]
  exact Option.some_ne_none s

/-- The session of a coherent slot is live, if it has a key. -/
theorem liveSession_of_ok
    (hok : (life v).Ok) (hkey : Keyed v) :
    LiveSession v := by
  have hses : (life v).slot.session ≠ none := by
    obtain ⟨s, hs, -⟩ := hkey
    simp [life, slotLife, hs]
  have hslot := hok.1
  have hst := hslot.of_session hses
  unfold SlotLife.Ok at hslot
  rcases hst with hst | hst
  · simp only [hst] at hslot
    exact ⟨Option.map_eq_none_iff.mp hslot.2.1, hkey, Or.inl hst, hslot.1⟩
  · simp only [hst] at hslot
    exact ⟨Option.map_eq_none_iff.mp hslot.2.1, hkey, Or.inr hst, hslot.1⟩

/-- The nonce does not matter for a session to be live. -/
theorem RxView.Live.nonceUsed
    {a : RxView} (h : a.Live) :
    a.nonceUsed.Live := by
  obtain ⟨hhs, ⟨cs, hcs, hk⟩, hst, hfd⟩ := h
  exact ⟨hhs, ⟨{ cs with n := cs.n + 1 }, by simp [RxView.nonceUsed, hcs], hk⟩, hst, hfd⟩

theorem StateMoved.live
    {a b : RxView} (h : StateMoved a b) (ha : a.Live) :
    b.Live := by
  obtain ⟨st, rfl, hst⟩ := h
  obtain ⟨hhs, hrx, hst', hfd⟩ := ha
  exact ⟨hhs, hrx, hst hst', hfd⟩

/-- After a turn the session is live, or the slot has been torn down. -/
theorem RxTurn.live
    {a b : RxView} (h : RxTurn P E v a b) (ha : a.Live) :
    b.Live ∨ (b.hs = none ∧ b.rx = none) := by
  cases h with
  | quiet recv h =>
      exact Or.inl ha
  | mismatch h hseq =>
      exact Or.inr ⟨rfl, rfl⟩
  | refused h hseq hwhy =>
      exact Or.inl ha
  | emptyText h hopen =>
      exact Or.inl (RxView.Live.nonceUsed (a := a.consumed _) ha)
  | text h hopen hpt =>
      exact Or.inl (RxView.Live.nonceUsed (a := (a.consumed _).handOn _ _) ha)
  | lastText h hopen hpt =>
      exact Or.inr ⟨rfl, rfl⟩
  | forgedFile h hlen hopen hb =>
      exact Or.inl (hb.live ha)
  | emptyFile h hopen hb =>
      exact Or.inl (hb.live (RxView.Live.nonceUsed (a := a.consumed _) ha))
  | file h hopen hpt hb =>
      exact Or.inl (hb.live (RxView.Live.nonceUsed (a := (a.consumed _).handOn _ _) ha))

/-- A turn keeps a slot settled. -/
theorem Settled.frameStep
    (h : Settled v) (fd : Int) :
    Settled (frameStep P E i fd v).view := by
  obtain ⟨hhs, hses | hlive⟩ := h
  · obtain ⟨recv, hq⟩ := frameStep_quiet (P := P) (E := E) (i := i) fd hhs
      (Or.inl (not_receives_of_no_session hses))
    generalize (App.frameStep P E i fd v).view = u at hq ⊢
    have h1 : (rxView i u).hs = none := by
      rw [hq]
      exact hhs
    have h2 : (rxView i u).rx = none := by
      rw [hq]
      simp [rxView, hses]
    exact ⟨h1, Or.inl (Option.map_eq_none_iff.mp h2)⟩
  · have hturn := frameStep_turn (P := P) (E := E) (i := i) fd hlive.hs hlive.keyed
      hlive.state
    rcases hturn.live hlive.rx with h | ⟨h1, h2⟩
    · exact ⟨h.1, Or.inr (LiveSession.of_rx h)⟩
    · exact ⟨h1, Or.inl (Option.map_eq_none_iff.mp h2)⟩

end Live

section Runs

variable (P : Primitives) (E : Env) (i : Slot) (fd : Int)

/-- Bytes arrive. -/
def deliver (chunk : Bytes) (v : View) : View :=
  v.setPs fun ps => { ps with recv := ps.recv ++ chunk }

/-- The views in which the loop takes a turn, with the bound of `frameLoop`. -/
def frameTurns : Nat → View → List View
  | 0, _ => []
  | fuel + 1, v =>
      match frameStep P E i fd v with
      | .stop _ => [v]
      | .next v1 => v :: frameTurns fuel v1

/-- The chunks arrive one after the other, each followed by `process_peer_frames`. -/
def rxRun : List Bytes → View → View
  | [], v => v
  | chunk :: chunks, v => rxRun chunks (processPeerFrames P E i fd (deliver chunk v))

/-- The views in which such a run takes a turn of the loop. -/
def rxTurns : List Bytes → View → List View
  | [], _ => []
  | chunk :: chunks, v =>
      frameTurns P E i fd ((deliver chunk v).ps.recv.length + 1) (deliver chunk v) ++
        rxTurns chunks (processPeerFrames P E i fd (deliver chunk v))

end Runs

section RunFacts

variable {P : Primitives} {E : Env} {i : Slot} {fd : Int} {I F : View → Prop}

/-- What a turn keeps, the loop keeps. -/
theorem frameTurns_inv
    (hstep : ∀ v, I v → F v → I (frameStep P E i fd v).view)
    {fuel : Nat} {v : View} (h : I v) (hfine : ∀ u ∈ frameTurns P E i fd fuel v, F u) :
    (∀ u ∈ frameTurns P E i fd fuel v, I u) ∧ I (frameLoop P E i fd fuel v) := by
  induction fuel generalizing v with
  | zero =>
      exact ⟨fun u hu => absurd hu List.not_mem_nil, h⟩
  | succ fuel ih =>
      have hnext := hstep v h
      unfold frameTurns at hfine ⊢
      unfold frameLoop
      cases hs : frameStep P E i fd v with
      | stop v1 =>
          rw [hs] at hfine hnext
          dsimp only at hfine ⊢
          constructor
          · intro u hu
            rw [List.mem_singleton.mp hu]
            exact h
          · exact hnext (hfine v List.mem_cons_self)
      | next v1 =>
          rw [hs] at hfine hnext
          dsimp only at hfine ⊢
          have hrest := ih (hnext (hfine v List.mem_cons_self))
            (fun u hu => hfine u (List.mem_cons_of_mem v hu))
          constructor
          · intro u hu
            rcases List.mem_cons.mp hu with rfl | hu
            · exact h
            · exact hrest.1 u hu
          · exact hrest.2

/-- What a turn and the arrival of bytes keep, a run keeps. -/
theorem rxTurns_inv
    (hdeliver : ∀ chunk v, I v → I (deliver chunk v))
    (hstep : ∀ v, I v → F v → I (frameStep P E i fd v).view)
    {chunks : List Bytes} {v : View} (h : I v) (hfine : ∀ u ∈ rxTurns P E i fd chunks v, F u) :
    (∀ u ∈ rxTurns P E i fd chunks v, I u) ∧ I (rxRun P E i fd chunks v) := by
  induction chunks generalizing v with
  | nil =>
      exact ⟨fun u hu => absurd hu List.not_mem_nil, h⟩
  | cons chunk chunks ih =>
      unfold rxTurns at hfine ⊢
      unfold rxRun
      have hloop := frameTurns_inv hstep (hdeliver chunk v h)
        (fun u hu => hfine u (List.mem_append_left _ hu))
      have hrest := ih hloop.2 (fun u hu => hfine u (List.mem_append_right _ hu))
      constructor
      · intro u hu
        rcases List.mem_append.mp hu with hu | hu
        · exact hloop.1 u hu
        · exact hrest.1 u hu
      · exact hrest.2

end RunFacts

section Fuel

variable {P : Primitives} {E : Env} {i : Slot} {fd : Int} {v : View}

theorem consumed_shorter
    {fh : FrameHeader} {payload : Bytes} (h : headOf v.ps.recv = .frame fh payload) :
    (v.ps.recv.drop (frameHeaderWireSize + fh.len.toNat)).length < v.ps.recv.length := by
  obtain ⟨-, hlen, hpos, -, hall⟩ := headOf_frame h
  rw [List.length_drop]
  omega

/-- A turn that takes a record shortens the buffer. -/
theorem RxTurn.shorter
    {b : RxView} (h : RxTurn P E v (rxView i v) b) {fh : FrameHeader} {payload : Bytes}
    (hrec : Receives v fh payload) (hmem : E.malloc v.sh.tick = true) :
    b.recv.length < v.ps.recv.length := by
  have hpos : 0 < v.ps.recv.length := Nat.zero_lt_of_lt (consumed_shorter hrec.1)
  cases h with
  | quiet recv h =>
      rcases h with h | h
      · exact absurd hrec (h fh payload)
      · rw [hmem] at h
        cases h
  | mismatch h hseq =>
      exact hpos
  | refused h hseq hwhy =>
      exact consumed_shorter h.1
  | emptyText h hopen =>
      exact consumed_shorter h.1.1
  | text h hopen hpt =>
      exact consumed_shorter h.1.1
  | lastText h hopen hpt =>
      exact hpos
  | forgedFile h hlen hopen hb =>
      obtain ⟨st, rfl, -⟩ := hb
      exact consumed_shorter h.1.1
  | emptyFile h hopen hb =>
      obtain ⟨st, rfl, -⟩ := hb
      exact consumed_shorter h.1.1
  | file h hopen hpt hb =>
      obtain ⟨st, rfl, -⟩ := hb
      exact consumed_shorter h.1.1

/-- A turn after which the loop goes on has shortened the buffer. -/
theorem frameStep_shorter
    {v1 : View} (hset : Settled v) (hs : frameStep P E i fd v = .next v1) :
    v1.ps.recv.length < v.ps.recv.length := by
  have hview : rxView i (frameStep P E i fd v).view = rxView i v1 := by
    rw [hs]
    rfl
  cases hhead : headOf v.ps.recv with
  | incomplete =>
      rw [frameStep_incomplete hhead] at hs
      cases hs
  | bad =>
      rw [frameStep_bad hhead] at hs
      cases hs
  | frame fh payload =>
      rw [frameStep_eq, hhead] at hs
      dsimp only at hs
      split at hs
      · cases hs
      split at hs
      · rename_i hmem
        by_cases hrec : fh.isRecord ∧ v.ps.session ≠ none
        · rcases hset.2 with hnone | hlive
          · exact absurd hnone hrec.2
          have hturn := frameStep_turn (P := P) (E := E) (i := i) fd hlive.hs hlive.keyed
            hlive.state
          rw [hview] at hturn
          exact hturn.shorter ⟨hhead, hrec⟩ hmem
        · rw [handleFrame_skip (v := consumed fh v) hset.1 hrec] at hs
          cases hs
          exact consumed_shorter hhead
      · cases hs

/-- More turns than bytes change nothing: the loop never runs out of its bound. -/
theorem frameLoop_fuel
    {fuel : Nat} (hset : Settled v) (hle : v.ps.recv.length < fuel) (extra : Nat) :
    frameLoop P E i fd (fuel + extra) v = frameLoop P E i fd fuel v := by
  induction fuel generalizing v with
  | zero =>
      omega
  | succ fuel ih =>
      rw [Nat.add_right_comm]
      unfold frameLoop
      have hset' := hset.frameStep (P := P) (E := E) (i := i) fd
      cases hs : frameStep P E i fd v with
      | stop v1 =>
          rfl
      | next v1 =>
          have hlt := frameStep_shorter hset hs
          rw [hs] at hset'
          exact ih hset' (by omega)

/-- `process_peer_frames` with any larger bound on its turns. -/
theorem processPeerFrames_fuel
    (hset : Settled v) (extra : Nat) :
    frameLoop P E i fd (v.ps.recv.length + 1 + extra) v = processPeerFrames P E i fd v :=
  frameLoop_fuel hset (Nat.lt_succ_self _) extra

end Fuel

section Silence

variable {P : Primitives} {E : Env} {i : Slot} {fd : Int}

/-- Neither a handshake nor a session, and `d` has been handed on. -/
def Silent (i : Slot) (d : List (UInt8 × Bytes)) (v : View) : Prop :=
  v.ps.hs = none ∧ v.ps.session = none ∧ delivered i v.sh.log = d

theorem Silent.frameStep
    {d : List (UInt8 × Bytes)} {v : View} (h : Silent i d v) (fd : Int) :
    Silent i d (frameStep P E i fd v).view := by
  obtain ⟨hhs, hses, hd⟩ := h
  obtain ⟨recv, hq⟩ := frameStep_quiet (P := P) (E := E) (i := i) fd hhs
    (Or.inl (not_receives_of_no_session hses))
  have h1 : (rxView i (App.frameStep P E i fd v).view).hs = none := by
    rw [hq]
    exact hhs
  have h2 : (rxView i (App.frameStep P E i fd v).view).rx = none := by
    rw [hq]
    simp [rxView, hses]
  have h3 : (rxView i (App.frameStep P E i fd v).view).delivered = d := by
    rw [hq]
    exact hd
  exact ⟨h1, Option.map_eq_none_iff.mp h2, h3⟩

/-- A slot without a session never hands anything on, whatever arrives. -/
theorem Silent.rxRun
    {d : List (UInt8 × Bytes)} {v : View} (h : Silent i d v) (fd : Int) (chunks : List Bytes) :
    (∀ u ∈ rxTurns P E i fd chunks v, Silent i d u) ∧ Silent i d (rxRun P E i fd chunks v) :=
  rxTurns_inv (F := fun _ => True) (fun _ _ h => h) (fun _ h _ => h.frameStep fd) h
    (fun _ _ => trivial)

end Silence

/-- The frame that the peer of `sampleView` sends as number `j`. -/
def sampleRecord (type : UInt8) (j : Nat) (pt : Bytes) : Bytes :=
  frameBytes type (UInt32.ofNat j) (samplePrimitives.aeadEncrypt (samplePair 2).pub
    (encodeNonce (UInt64.ofNat j)) [] pt)

/-- A frame with a payload that nobody encrypted. -/
def sampleForgery (type : UInt8) (j : Nat) : Bytes :=
  frameBytes type (UInt32.ofNat j) (List.replicate 20 0xff)

theorem sampleView_live : LiveSession sampleView :=
  ⟨rfl, ⟨sampleSession, rfl, rfl⟩, Or.inl rfl, by decide⟩

end App
end Noxtor
