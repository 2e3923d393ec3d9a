import Noxtor.App.SlotTrace
import Noxtor.App.SlotCoherence
import Noxtor.App.TofuBinding

/-!
# Frames that wait for the user

While a slot waits for the answer to its TOFU prompt it has no session, and the frames of its peer
stay in `recv_buf`.  With the yes of the user the session comes up, and the frames are taken by
the next drain or by the next read.

`BufferInv` says where the bytes are that have arrived since the end of the handshake: all of them
in the buffer, or in the frames that the session has taken and the buffer behind them.  The
`EPOLLIN` branch breaks this off in one order of events: a read that finds the buffer full takes
the frames in it and then disconnects, although there is room again.
-/

namespace Noxtor
namespace App

open ByteString Noise

/-- `recv_buf` has no room. -/
def RecvFull (ps : PeerSession) : Prop :=
  recvBufCapacity ≤ ps.recv.length

instance (ps : PeerSession) : Decidable (RecvFull ps) :=
  inferInstanceAs (Decidable (_ ≤ _))

/-- The bytes that a read of a slot returns. -/
def chunkRead (E : Env) (u : View) : Bytes :=
  if toRead (E.fionread u.sh.tick) u.ps = 0 then []
  else
    match E.recv (u.sh.tick + 1) with
    | .data b => b.take (toRead (E.fionread u.sh.tick) u.ps)
    | _ => []

namespace SlotPart

/-- The bytes that arrive in a part. -/
def heard (E : Env) : SlotPart → Bytes
  | read _ u => chunkRead E u
  | _ => []

/-- The records that a part hands on. -/
def handed (P : Primitives) (E : Env) (i : Slot) (p : SlotPart) : List (UInt8 × Bytes) :=
  (delivered i (p.result P E i).sh.log).drop (delivered i p.before.sh.log).length

end SlotPart

/-- The bytes that arrive in a run. -/
def traceHeard (E : Env) (trace : List SlotPart) : Bytes :=
  trace.flatMap (SlotPart.heard E)

/-- The records that a run hands on. -/
def traceHanded (P : Primitives) (E : Env) (i : Slot) (trace : List SlotPart) :
    List (UInt8 × Bytes) :=
  trace.flatMap (SlotPart.handed P E i)

/-- Frames of legal type and length. -/
def ValidFrames (frames : List (UInt8 × Bytes)) : Prop :=
  ∀ f ∈ frames, (f.1 = noxMsgText ∨ f.1 = noxMsgFile) ∧
    1 ≤ f.2.length ∧ f.2.length ≤ 4096 + noxMacLen

theorem toRead_eq_zero
    (avail : Nat) (ps : PeerSession) :
    toRead avail ps = 0 ↔ RecvFull ps := by
  unfold toRead RecvFull
  dsimp only
  split <;> omega

/-- The session of a handshake does not depend on how its memory was found. -/
theorem handshakeSplit_session
    {P : Primitives} {a b : HkdfAlloc} {hs hs' hs'' : NoiseHandshake} {s t : NoiseSession}
    (h : handshakeSplit P a hs = .ok s hs') (h' : handshakeSplit P b hs = .ok t hs'') :
    s = t := by
  unfold handshakeSplit symmetricSplit at h h'
  rw [hkdfBlake2b_eq] at h h'
  split at h
  · cases h
  rename_i hdone
  rw [if_neg hdone] at h'
  split at h
  · cases h
  rename_i hcomplete
  rw [if_neg hcomplete] at h'
  by_cases ha : a.Ok
  · rw [if_pos ha] at h
    by_cases hb : b.Ok
    · rw [if_pos hb] at h'
      cases h
      cases h'
      rfl
    · rw [if_neg hb] at h'
      cases h'
  · rw [if_neg ha] at h
    cases h

theorem handshakeSplit_keyed
    {P : Primitives} {alloc : HkdfAlloc} {hs hs' : NoiseHandshake} {session : NoiseSession}
    (h : handshakeSplit P alloc hs = .ok session hs') :
    session.rx.hasKey = true := by
  unfold handshakeSplit at h
  split at h
  · cases h
  split at h
  · cases h
  unfold symmetricSplit at h
  cases hkdf : hkdfBlake2b P alloc hs.ss.ck [] with
  | error err =>
      rw [hkdf] at h
      cases h
  | ok keys =>
      rw [hkdf] at h
      cases h
      dsimp only
      split <;> rfl

section Inv

variable (P : Primitives) (frames records : List (UInt8 × Bytes))

/-- A slot that waits for an answer, and whose session will take the frames. -/
structure Waiting (v : View) : Prop where
  state : v.ps.state = .tofuPending
  session : v.ps.session = none
  fd : 0 ≤ v.ps.fd
  hs : ∃ hs, v.ps.hs = some hs ∧
    ∀ alloc session hs', handshakeSplit P alloc hs = .ok session hs' →
      Accepted P session frames records

/-- Since the end of the handshake the bytes `total` have arrived and the records `handed` have
been handed on. -/
inductive BufferInv (total : Bytes) (handed : List (UInt8 × Bytes)) (v : View) : Prop
  | pending (hwait : Waiting P frames records v) (hrecv : v.ps.recv = total) (hnone : handed = [])
  | live (k : Nat) (hcount : k ≤ frames.length)
      (hbytes : total = encodeFrames 0 (frames.take k) ++ v.ps.recv)
      (hhanded : handed = records.take k) (hseq : v.ps.rxSeq = UInt32.ofNat k)
      (hexp : Expects P v (frames.drop k) (records.drop k))
  | gone (h : v.ps.state = .idle ∨ v.ps.hs = none ∧ v.ps.session = none)

end Inv

section Steps

variable {P : Primitives} {E : Env} {i : Slot}
variable {frames records handed : List (UInt8 × Bytes)} {total chunk : Bytes} {u v w : View}

/-- What the slot expects depends on its receiving side only. -/
theorem Expects.of_quiet
    (h : Expects P v frames records) (hq : Quiet v.ps w.ps) :
    Expects P w frames records := by
  obtain ⟨hlive, s, hs, hacc⟩ := h
  obtain ⟨st, hside, hst⟩ := hq
  have hrx : w.ps.session.map NoiseSession.rx = some s.rx := by
    have h := congrArg RxView.rx hside
    simpa [PeerSession.rxSide, hs] using h
  obtain ⟨t, ht, hcs⟩ := Option.map_eq_some_iff.mp hrx
  have hkey : s.rx.hasKey = true := by
    obtain ⟨s', hs', hk⟩ := hlive.keyed
    rw [hs] at hs'
    cases hs'
    exact hk
  have hin : st.InSession := by
    rcases hst with rfl | ⟨-, hst⟩
    · exact hlive.state
    · exact hst
  have hwst : w.ps.state = st := congrArg RxView.state hside
  have hwfd : w.ps.fd = v.ps.fd := congrArg RxView.fd hside
  have hwhs : w.ps.hs = v.ps.hs := congrArg RxView.hs hside
  refine ⟨⟨hwhs.trans hlive.hs, ⟨t, ht, by rw [hcs]; exact hkey⟩, by rw [hwst]; exact hin,
    by rw [hwfd]; exact hlive.fd⟩, t, ht, hacc.congr hcs⟩

theorem BufferInv.of_quiet
    (h : BufferInv P frames records total handed v) (hq : Quiet v.ps w.ps) :
    BufferInv P frames records total handed w := by
  have hq' := hq
  obtain ⟨st, hside, hst⟩ := hq
  have hwst : w.ps.state = st := congrArg RxView.state hside
  have hwfd : w.ps.fd = v.ps.fd := congrArg RxView.fd hside
  have hwhs : w.ps.hs = v.ps.hs := congrArg RxView.hs hside
  have hwrecv : w.ps.recv = v.ps.recv := congrArg RxView.recv hside
  have hwseq : w.ps.rxSeq = v.ps.rxSeq := congrArg RxView.rxSeq hside
  have hwses : v.ps.session = none → w.ps.session = none := by
    intro hnone
    have h := congrArg RxView.rx hside
    simpa [PeerSession.rxSide, hnone] using h
  cases h with
  | pending hwait hrecv hnone =>
      have hwst' : w.ps.state = .tofuPending := by
        rcases hst with rfl | ⟨hin, -⟩
        · exact hwst.trans hwait.state
        · rcases hin with h | h <;> rw [hwait.state] at h <;> cases h
      have hwait' : Waiting P frames records w :=
        ⟨hwst', hwses hwait.session, by rw [hwfd]; exact hwait.fd, by rw [hwhs]; exact hwait.hs⟩
      exact .pending hwait' (hwrecv.trans hrecv) hnone
  | live k hcount hbytes hhanded hseq hexp =>
      exact .live k hcount (by rw [hwrecv]; exact hbytes) hhanded (hwseq.trans hseq)
        (hexp.of_quiet hq')
  | gone h =>
      rcases h with hidle | ⟨hhs, hses⟩
      · rcases hst with rfl | ⟨hin, -⟩
        · exact .gone (Or.inl (hwst.trans hidle))
        · rcases hin with h | h <;> rw [hidle] at h <;> cases h
      · exact .gone (Or.inr ⟨hwhs.trans hhs, hwses hses⟩)

/-- Without a session the loop leaves the frames where they are. -/
theorem processPeerFrames_held
    (fd : Int) {seq : UInt32} (hvalid : ValidFrames frames) (hses : v.ps.session = none)
    (hpre : v.ps.recv <+: encodeFrames seq frames) :
    processPeerFrames P E i fd v = v := by
  have hstop : frameStep P E i fd v = .stop v := by
    cases frames with
    | nil =>
        exact frameStep_incomplete (by rw [List.prefix_nil.mp hpre]; rfl)
    | cons f frames =>
        obtain ⟨type, payload⟩ := f
        obtain ⟨htype, hlen⟩ := hvalid (type, payload) List.mem_cons_self
        by_cases hshort : v.ps.recv.length < frameHeaderWireSize + payload.length
        · have hfirst : v.ps.recv <+: frameBytes type seq payload :=
            List.prefix_of_prefix_length_le hpre (List.prefix_append _ _) (by
              rw [frameBytes_length]
              omega)
          exact frameStep_incomplete (headOf_short htype hlen hfirst hshort)
        · obtain ⟨tail, htail⟩ := List.prefix_of_prefix_length_le
            (List.prefix_append _ _ : frameBytes type seq payload <+: _) hpre (by
              rw [frameBytes_length]
              omega)
          rw [frameStep_eq, ← htail, headOf_frameBytes htype hlen tail]
          dsimp only
          rw [if_pos ⟨htype, hses⟩]
  unfold processPeerFrames frameLoop
  rw [hstop]

/-- The part of the stream that follows the first `k` frames. -/
theorem rest_prefix
    {k : Nat} {recv : Bytes} (hcount : k ≤ frames.length)
    (hbytes : total = encodeFrames 0 (frames.take k) ++ recv)
    (hpre : total <+: encodeFrames 0 frames) :
    recv <+: encodeFrames (UInt32.ofNat k) (frames.drop k) := by
  have hlen : (frames.take k).length = k := by
    rw [List.length_take, Nat.min_eq_left hcount]
  have hsplit := encodeFrames_append 0 (frames.take k) (frames.drop k)
  rw [List.take_append_drop, hlen, UInt32.zero_add] at hsplit
  rw [hbytes, hsplit, List.prefix_append_right_inj] at hpre
  exact hpre

/-- A call of the loop in a session takes the complete frames, or ends the session. -/
theorem processPeerFrames_live
    (hmem : ∀ t, E.malloc t = true) (fd : Int) {k : Nat} (hcount : k ≤ frames.length)
    (hbytes : total = encodeFrames 0 (frames.take k) ++ u.ps.recv)
    (hhanded : handed = records.take k) (hseq : u.ps.rxSeq = UInt32.ofNat k)
    (hexp : Expects P u (frames.drop k) (records.drop k))
    (hpre : total <+: encodeFrames 0 frames) :
    BufferInv P frames records total
      (handed ++ (delivered i (processPeerFrames P E i fd u).sh.log).drop
        (delivered i u.sh.log).length) (processPeerFrames P E i fd u) ∧
    ((processPeerFrames P E i fd u).ps.session ≠ none →
      headOf (processPeerFrames P E i fd u).ps.recv = .incomplete) := by
  have hrest := rest_prefix hcount hbytes hpre
  rw [← hseq] at hrest
  by_cases hlive : (processPeerFrames P E i fd u).ps.session = none
  · have hset : Settled (processPeerFrames P E i fd u) := by
      have hstart : Settled u := ⟨hexp.1.hs, Or.inr hexp.1⟩
      exact (frameTurns_inv (F := fun _ => True) (fun _ h _ => h.frameStep fd) hstart
        (fun _ _ => trivial)).2
    exact ⟨.gone (Or.inr ⟨hset.1, hlive⟩), fun h => absurd hlive h⟩
  · obtain ⟨k', harr⟩ := loop_frames hexp hrest (Nat.lt_succ_self _)
      (fun t _ => ⟨hmem _, hmem _⟩) hlive
    have htake : (frames.take k).length = k := by
      rw [List.length_take, Nat.min_eq_left hcount]
    refine ⟨.live (k + k') ?_ ?_ ?_ ?_ ?_, fun _ => harr.incomplete⟩
    · have h := harr.count
      rw [List.length_drop] at h
      omega
    · have hbytes' := harr.bytes
      rw [hbytes, hbytes', List.take_add, encodeFrames_append, htake, hseq, UInt32.zero_add,
        List.append_assoc]
      rfl
    · have hdel : delivered i (processPeerFrames P E i fd u).sh.log =
          delivered i u.sh.log ++ (records.drop k).take k' := harr.delivered
      rw [hdel, List.drop_left, hhanded, List.take_add]
    · have hseq' : (processPeerFrames P E i fd u).ps.rxSeq = u.ps.rxSeq + UInt32.ofNat k' :=
        harr.rxSeq
      rw [hseq', hseq, UInt32.ofNat_add]
    · have hexp' := harr.expects
      rw [List.drop_drop, List.drop_drop] at hexp'
      exact hexp'

/-- What the `EPOLLIN` branch does when there is room. -/
theorem readSlot_cases
    (sock : Nat) (hroom : ¬ RecvFull u.ps) :
    (∃ b, chunkRead E u = b.take (toRead (E.fionread u.sh.tick) u.ps) ∧
      readSlot P E i sock u = processPeerFrames P E i sock (received E u b)) ∨
    (chunkRead E u = [] ∧ readSlot P E i sock u = u.tickOn.tickOn) ∨
    (readSlot P E i sock u).ps.state = .idle := by
  have hcount : toRead (E.fionread u.sh.tick) u.ps ≠ 0 := by
    rw [Ne, toRead_eq_zero]
    exact hroom
  have htick : u.tickOn.sh.tick = u.sh.tick + 1 := rfl
  unfold readSlot chunkRead
  dsimp only
  rw [if_neg hcount, if_neg hcount, htick]
  cases E.recv (u.sh.tick + 1) with
  | data b =>
      dsimp only
      split
      · exact Or.inr (Or.inr (peerDisconnected_gone _))
      · exact Or.inl ⟨b, rfl, rfl⟩
  | eagain =>
      exact Or.inr (Or.inl ⟨rfl, rfl⟩)
  | eintr =>
      exact Or.inr (Or.inl ⟨rfl, rfl⟩)
  | err =>
      exact Or.inr (Or.inr (peerDisconnected_gone _))

/-- A read that finds no room takes frames at most, and disconnects. -/
theorem readSlot_full
    (sock : Nat) (hfull : RecvFull u.ps) :
    chunkRead E u = [] ∧ readSlot P E i sock u =
      if (processPeerFrames P E i sock u.tickOn).ps.fd ≥ 0 then
        (smDispatch P E i .peerDisconnected (processPeerFrames P E i sock u.tickOn)).2
      else processPeerFrames P E i sock u.tickOn := by
  have hcount := (toRead_eq_zero (E.fionread u.sh.tick) u.ps).mpr hfull
  unfold readSlot chunkRead
  dsimp only
  rw [if_pos hcount, if_pos hcount]
  exact ⟨rfl, rfl⟩

theorem received_log
    (b : Bytes) :
    (received E u b).sh.log = u.sh.log :=
  rfl

/-- A part that logs nothing hands nothing on. -/
theorem SlotPart.handed_eq_nil
    {p : SlotPart} (h : (p.result P E i).sh.log = p.before.sh.log) :
    p.handed P E i = [] := by
  unfold SlotPart.handed
  rw [h, List.drop_length]

/-- A read of a slot that waits: the bytes join the others, or the slot is torn down. -/
theorem read_pending
    (sock : Nat) (hvalid : ValidFrames frames) (hwait : Waiting P frames records u)
    (hrecv : u.ps.recv = total) (hpre : total ++ chunkRead E u <+: encodeFrames 0 frames) :
    BufferInv P frames records (total ++ chunkRead E u)
      (SlotPart.handed P E i (.read sock u)) (readSlot P E i sock u) ∧
    (RecvFull u.ps → RecvFull (processPeerFrames P E i sock u.tickOn).ps) := by
  have hheld : processPeerFrames P E i sock u.tickOn = u.tickOn :=
    processPeerFrames_held sock hvalid hwait.session
      (by rw [← hrecv] at hpre; exact (List.prefix_append _ _).trans hpre)
  constructor
  · by_cases hfull : RecvFull u.ps
    · obtain ⟨hchunk, hread⟩ := readSlot_full (P := P) (E := E) (i := i) sock hfull
      have hfd' : u.tickOn.ps.fd ≥ 0 := hwait.fd
      rw [hheld, if_pos hfd'] at hread
      refine .gone (Or.inl ?_)
      rw [hread]
      exact peerDisconnected_gone _
    · rcases readSlot_cases (P := P) (E := E) (i := i) sock hfull with
        ⟨b, hchunk, hread⟩ | ⟨hchunk, hread⟩ | hidle
      · have hrecv' : (received E u b).ps.recv = total ++ chunkRead E u := by
          rw [hchunk, ← hrecv]
          rfl
        have hheld' : processPeerFrames P E i sock (received E u b) = received E u b :=
          processPeerFrames_held sock hvalid hwait.session (by rw [hrecv']; exact hpre)
        rw [hheld'] at hread
        have hlog : (readSlot P E i sock u).sh.log = u.sh.log := by
          rw [hread, received_log]
        have hhanded : SlotPart.handed P E i (.read sock u) = [] :=
          SlotPart.handed_eq_nil hlog
        rw [hread]
        exact .pending ⟨hwait.state, hwait.session, hwait.fd, hwait.hs⟩ hrecv' hhanded
      · have hlog : (readSlot P E i sock u).sh.log = u.sh.log := by
          rw [hread]
          rfl
        have hhanded : SlotPart.handed P E i (.read sock u) = [] :=
          SlotPart.handed_eq_nil hlog
        rw [hread, hchunk, List.append_nil]
        exact .pending ⟨hwait.state, hwait.session, hwait.fd, hwait.hs⟩ hrecv hhanded
      · exact .gone (Or.inl hidle)
  · intro hfull
    rw [hheld]
    exact hfull

/-- A read of a slot with a session, when there is room. -/
theorem read_live
    (hmem : ∀ t, E.malloc t = true) (sock : Nat) {k : Nat} (hcount : k ≤ frames.length)
    (hbytes : total = encodeFrames 0 (frames.take k) ++ u.ps.recv)
    (hhanded : handed = records.take k) (hseq : u.ps.rxSeq = UInt32.ofNat k)
    (hexp : Expects P u (frames.drop k) (records.drop k)) (hroom : ¬ RecvFull u.ps)
    (hpre : total ++ chunkRead E u <+: encodeFrames 0 frames) :
    BufferInv P frames records (total ++ chunkRead E u)
      (handed ++ SlotPart.handed P E i (.read sock u)) (readSlot P E i sock u) := by
  rcases readSlot_cases (P := P) (E := E) (i := i) sock hroom with
    ⟨b, hchunk, hread⟩ | ⟨hchunk, hread⟩ | hidle
  · have hexp' : Expects P (received E u b) (frames.drop k) (records.drop k) :=
      ⟨⟨hexp.1.hs, hexp.1.keyed, hexp.1.state, hexp.1.fd⟩, hexp.2⟩
    have hbytes' : total ++ chunkRead E u =
        encodeFrames 0 (frames.take k) ++ (received E u b).ps.recv := by
      rw [hbytes, hchunk, List.append_assoc]
      rfl
    have hinv := (processPeerFrames_live (i := i) hmem sock hcount hbytes' hhanded hseq
      hexp' hpre).1
    rw [← hread, received_log] at hinv
    exact hinv
  · have hlog : (readSlot P E i sock u).sh.log = u.sh.log := by
      rw [hread]
      rfl
    have hnone : SlotPart.handed P E i (.read sock u) = [] :=
      SlotPart.handed_eq_nil hlog
    rw [hread, hchunk, List.append_nil, hnone, List.append_nil]
    exact .live k hcount hbytes hhanded hseq
      ⟨⟨hexp.1.hs, hexp.1.keyed, hexp.1.state, hexp.1.fd⟩, hexp.2⟩
  · exact .gone (Or.inl hidle)

/-- The drain of a slot that waits. -/
theorem drain_pending
    (hses : u.ps.session = none) :
    drainSlot P E i u = u ∧ SlotPart.handed P E i (.drain u) = [] := by
  have hsame : drainSlot P E i u = u := if_neg fun h => h.1 hses
  have hlog : (drainSlot P E i u).sh.log = u.sh.log := by
    rw [hsame]
  exact ⟨hsame, SlotPart.handed_eq_nil hlog⟩

/-- The drain of a slot with a session leaves no complete frame. -/
theorem drain_live
    (hmem : ∀ t, E.malloc t = true) {k : Nat} (hcount : k ≤ frames.length)
    (hbytes : total = encodeFrames 0 (frames.take k) ++ u.ps.recv)
    (hhanded : handed = records.take k) (hseq : u.ps.rxSeq = UInt32.ofNat k)
    (hexp : Expects P u (frames.drop k) (records.drop k))
    (hpre : total <+: encodeFrames 0 frames) :
    BufferInv P frames records total (handed ++ SlotPart.handed P E i (.drain u))
      (drainSlot P E i u) ∧
    ((drainSlot P E i u).ps.session ≠ none →
      headOf (drainSlot P E i u).ps.recv = .incomplete) := by
  by_cases hlen : u.ps.recv.length ≥ frameHeaderWireSize
  · have hdrain : drainSlot P E i u = processPeerFrames P E i u.ps.fd u :=
      if_pos ⟨hexp.1.session_ne, hexp.1.fd, hlen⟩
    have hcall := processPeerFrames_live (i := i) hmem u.ps.fd hcount hbytes hhanded
      hseq hexp hpre
    rw [← hdrain] at hcall
    exact hcall
  · have hdrain : drainSlot P E i u = u := if_neg fun h => hlen h.2.2
    have hlog : (drainSlot P E i u).sh.log = u.sh.log := by
      rw [hdrain]
    have hnone : SlotPart.handed P E i (.drain u) = [] :=
      SlotPart.handed_eq_nil hlog
    rw [hdrain, hnone, List.append_nil]
    refine ⟨.live k hcount hbytes hhanded hseq hexp, fun _ => ?_⟩
    unfold headOf
    rw [if_pos (Nat.lt_of_not_le hlen)]

theorem delivered_tofuSaveContact
    (v : View) :
    delivered i (tofuSaveContact E v).sh.log = delivered i v.sh.log := by
  have hdb : delivered i (dbAddContact E v.ps.tofuOnion v.ps.tofuName v.ps.tofuNewKey
      v.sh).2.log = delivered i v.sh.log := by
    unfold dbAddContact
    split
    · rfl
    split
    · rfl
    cases E.dbAddContact v.sh.tick with
    | error err =>
        rfl
    | ok _ =>
        exact (delivered_append i _ _).trans (List.append_nil _)
  unfold tofuSaveContact
  split
  · rfl
  generalize dbAddContact E v.ps.tofuOnion v.ps.tofuName v.ps.tofuNewKey v.sh = r at hdb ⊢
  obtain ⟨_ | _, sh⟩ := r
  · exact hdb
  · exact hdb

/-- What a yes does to the receiving side: it is asked again, or the session of the handshake
comes up, or the slot is torn down. -/
theorem tofuAnswerYes_rx
    {hs : NoiseHandshake} (hst : u.ps.state = .tofuPending) (hhs : u.ps.hs = some hs) :
    (rxView i (tofuAnswerYes P E i u) = rxView i u) ∨
    (∃ alloc session hs', handshakeSplit P alloc hs = .ok session hs' ∧
      (tofuAnswerYes P E i u).ps.session = some session ∧
      rxView i (tofuAnswerYes P E i u) = { rxView i u with
        state := .active, rx := some session.rx, hs := none, rxSeq := 0 }) ∨
    (tofuAnswerYes P E i u).ps.state = .idle := by
  unfold tofuAnswerYes
  split
  · left
    have hshown : delivered i [.arm .answer u.ps.tofuEpoch u.ps.tofuNewKey,
        .showFp i (hex u.ps.tofuNewKey.toList)] = [] := rfl
    exact rxView_emit hshown u
  rename_i harm
  right
  have hfind : findTransition u.ps.state .tofuAccepted =
      some ⟨.tofuPending, .tofuAccepted, .active, .tofuAccept⟩ := by
    rw [hst]
    rfl
  have hps : (tofuSaveContact E u).ps = u.ps := tofuSaveContact_ps u
  have hdel : delivered i (tofuSaveContact E u).sh.log = delivered i u.sh.log :=
    delivered_tofuSaveContact u
  rw [smDispatch, smDispatchDepth, hfind]
  simp only [runAction, actionTofuAccept, if_neg harm, hhs]
  generalize tofuSaveContact E u = v1 at hps hdel ⊢
  unfold sodiumMalloc
  cases E.malloc v1.sh.tick with
  | false =>
      exact Or.inr (peerDisconnected_gone _)
  | true =>
      dsimp only
      cases hsplit : handshakeSplit P (E.hkdfAlloc v1.tickOn.sh.tick) hs with
      | error err hs' =>
          exact Or.inr (peerDisconnected_gone _)
      | ok session hs' =>
          refine Or.inl ⟨_, session, hs', hsplit, rfl, ?_⟩
          have hlog : delivered i (v1.sh.log ++ [.tofuSession i session.remoteStatic]) =
              delivered i u.sh.log := by
            rw [delivered_append, hdel]
            exact List.append_nil _
          simp only [rxView, tofuDisarm, tofuSessionUp, View.tickOn, View.setSh, View.setPs,
            View.uiPrintSystem, View.say, hlog, hps, Option.map_some]

/-- The yes of the user. -/
theorem answer_pending
    (hwait : Waiting P frames records u) (hrecv : u.ps.recv = total) :
    BufferInv P frames records total (SlotPart.handed P E i (.answer u))
      (tofuAnswerYes P E i u) := by
  have hnone : (rxView i (tofuAnswerYes P E i u)).delivered = (rxView i u).delivered →
      SlotPart.handed P E i (.answer u) = [] := by
    intro h
    show (delivered i (tofuAnswerYes P E i u).sh.log).drop (delivered i u.sh.log).length = []
    have hdel : delivered i (tofuAnswerYes P E i u).sh.log = delivered i u.sh.log := h
    rw [hdel, List.drop_length]
  obtain ⟨hs, hhs, hvalid⟩ := hwait.hs
  rcases tofuAnswerYes_rx (P := P) (E := E) (i := i) hwait.state hhs with
    hrx | ⟨alloc, session, hs', hsplit, hses', hrx⟩ | hidle
  · have hsame : BufferInv P frames records total [] u :=
      .pending hwait hrecv rfl
    rw [hnone (by rw [hrx])]
    exact hsame.of_quiet (quiet_of_rxView hrx)
  · rw [hnone (by rw [hrx])]
    have hrecv' : (tofuAnswerYes P E i u).ps.recv = total :=
      (congrArg RxView.recv hrx).trans hrecv
    refine .live 0 (Nat.zero_le _) ?_ rfl (congrArg RxView.rxSeq hrx) ⟨⟨?_, ?_, ?_, ?_⟩, ?_⟩
    · rw [hrecv']
      rfl
    · exact congrArg RxView.hs hrx
    · exact ⟨session, hses', handshakeSplit_keyed hsplit⟩
    · exact Or.inl (congrArg RxView.state hrx)
    · have h : (tofuAnswerYes P E i u).ps.fd = u.ps.fd := congrArg RxView.fd hrx
      rw [h]
      exact hwait.fd
    · exact ⟨session, hses', hvalid alloc session hs' hsplit⟩
  · exact .gone (Or.inl hidle)

namespace SlotPart

/-- A read that finds the buffer full finds no session yet. -/
def Fine : SlotPart → Prop
  | read _ u => RecvFull u.ps → u.ps.session = none
  | _ => True

instance (p : SlotPart) : Decidable p.Fine :=
  match p with
  | read _ u => inferInstanceAs (Decidable (RecvFull u.ps → u.ps.session = none))
  | drain _ => inferInstanceAs (Decidable True)
  | answer _ => inferInstanceAs (Decidable True)

/-- The slot is torn down for a full buffer only if the frame loop leaves the buffer full, and a
drain of a session leaves no complete frame behind. -/
def Kept (P : Primitives) (E : Env) (i : Slot) : SlotPart → Prop
  | read sock u =>
      RecvFull u.ps → 0 ≤ (processPeerFrames P E i sock u.tickOn).ps.fd →
        RecvFull (processPeerFrames P E i sock u.tickOn).ps
  | drain u =>
      (drainSlot P E i u).ps.session ≠ none → headOf (drainSlot P E i u).ps.recv = .incomplete
  | answer _ => True

end SlotPart

/-- Neither torn down nor without a handshake and a session. -/
def Present (ps : PeerSession) : Prop :=
  ¬ (ps.state = .idle ∨ ps.hs = none ∧ ps.session = none)

/-- What a part does to the bytes and to the records. -/
theorem BufferInv.part
    {p : SlotPart} (hmem : ∀ t, E.malloc t = true) (hvalid : ValidFrames frames)
    (hinv : BufferInv P frames records total handed p.before) (hpresent : Present p.before.ps)
    (hsound : p.Sound) (hfine : p.Fine)
    (hpre : total ++ p.heard E <+: encodeFrames 0 frames) :
    BufferInv P frames records (total ++ p.heard E) (handed ++ p.handed P E i)
      (p.result P E i) ∧ p.Kept P E i := by
  cases hinv with
  | gone h =>
      exact absurd h hpresent
  | pending hwait hrecv hnone =>
      rw [hnone, List.nil_append]
      cases p with
      | read sock u =>
          obtain ⟨hread, hkept⟩ := read_pending (E := E) (i := i) sock hvalid hwait hrecv hpre
          exact ⟨hread, fun hfull _ => hkept hfull⟩
      | drain u =>
          obtain ⟨hsame, hhanded⟩ := drain_pending (P := P) (E := E) (i := i) (u := u)
            hwait.session
          refine ⟨?_, fun h => absurd (by rw [hsame]; exact hwait.session) h⟩
          show BufferInv P frames records (total ++ []) _ (drainSlot P E i u)
          rw [hsame, List.append_nil, hhanded]
          exact .pending hwait hrecv rfl
      | answer u =>
          refine ⟨?_, trivial⟩
          show BufferInv P frames records (total ++ []) _ (tofuAnswerYes P E i u)
          rw [List.append_nil]
          exact answer_pending hwait hrecv
  | live k hcount hbytes hhanded hseq hexp =>
      cases p with
      | read sock u =>
          have hroom : ¬ RecvFull u.ps := fun hfull => hexp.1.session_ne (hfine hfull)
          exact ⟨read_live hmem sock hcount hbytes hhanded hseq hexp hroom hpre,
            fun hfull => absurd hfull hroom⟩
      | drain u =>
          have hpre' : total <+: encodeFrames 0 frames := (List.prefix_append _ _).trans hpre
          show BufferInv P frames records (total ++ []) _ _ ∧ _
          rw [List.append_nil]
          exact drain_live hmem hcount hbytes hhanded hseq hexp hpre'
      | answer u =>
          -- a slot in session is not asked
          have hst : u.ps.state = .tofuPending := hsound
          rcases hexp.1.state with h | h
          · exact absurd (hst.symm.trans h) (by decide)
          · exact absurd (hst.symm.trans h) (by decide)

theorem BufferInv.past
    (hinv : BufferInv P frames records total handed v) (hpresent : Present v.ps) :
    v.ps.state.Past := by
  cases hinv with
  | pending hwait _ _ =>
      exact Or.inl hwait.state
  | live _ _ _ _ _ hexp =>
      exact Or.inr hexp.1.state
  | gone h =>
      exact absurd h hpresent

theorem Present.of_quiet
    {a b : PeerSession} (h : Present a) (hq : Quiet a b) :
    Present b := by
  obtain ⟨st, hside, hst⟩ := hq
  have hbst : b.state = st := congrArg RxView.state hside
  have hbhs : b.hs = a.hs := congrArg RxView.hs hside
  have hrx : b.session.map NoiseSession.rx = a.session.map NoiseSession.rx :=
    congrArg RxView.rx hside
  rintro (hidle | ⟨hhs, hses⟩)
  · rcases hst with rfl | ⟨-, hin⟩
    · exact h (Or.inl (hbst.symm.trans hidle))
    · rw [← hbst, hidle] at hin
      rcases hin with h | h <;> cases h
  · rw [hses, Option.map_none] at hrx
    exact h (Or.inr ⟨hbhs.symm.trans hhs, Option.map_eq_none_iff.mp hrx.symm⟩)

/-- One event of the application. -/
theorem BufferInv.appStep
    {s : AppState} (ev : AppEvent) (hmem : ∀ t, E.malloc t = true) (hvalid : ValidFrames frames)
    (hinv : BufferInv P frames records total handed (s.view i)) (hpresent : Present (s.peers i))
    (hfine : ∀ p ∈ eventParts P E i s ev, p.Fine)
    (hpre : total ++ traceHeard E (eventParts P E i s ev) <+: encodeFrames 0 frames) :
    BufferInv P frames records (total ++ traceHeard E (eventParts P E i s ev))
      (handed ++ traceHanded P E i (eventParts P E i s ev)) ((App.appStep P E s ev).view i) ∧
    ∀ p ∈ eventParts P E i s ev, p.Kept P E i := by
  have heffect := appStep_slotEffect (P := P) (E := E) ev (hinv.past hpresent)
  generalize eventParts P E i s ev = parts at hfine hpre heffect ⊢
  cases heffect with
  | quiet h =>
      refine ⟨?_, fun p hp => absurd hp List.not_mem_nil⟩
      show BufferInv P frames records (total ++ []) (handed ++ []) _
      rw [List.append_nil, List.append_nil]
      rcases h with hquiet | hgone
      · exact hinv.of_quiet hquiet
      · exact .gone (Or.inl hgone)
  | part p hsound hbefore hafter =>
      have hheard : traceHeard E [p] = p.heard E := List.append_nil _
      have hhanded : traceHanded P E i [p] = p.handed P E i := List.append_nil _
      rw [hheard] at hpre ⊢
      rw [hhanded]
      obtain ⟨hresult, hkept⟩ := (hinv.of_quiet hbefore).part hmem hvalid
        (hpresent.of_quiet hbefore) hsound (hfine p (List.mem_singleton_self p)) hpre
      refine ⟨hresult.of_quiet ?_, ?_⟩
      · rw [hafter]
        exact Quiet.refl _
      · intro q hq
        rw [List.mem_singleton.mp hq]
        exact hkept

end Steps

/-- The handshake is over, and the frames of the peer begin: the user is yet to answer, or the
session has just come up. -/
inductive StreamStart (P : Primitives) (frames records : List (UInt8 × Bytes)) (v : View) : Prop
  | pending (hwait : Waiting P frames records v)
  | live (hseq : v.ps.rxSeq = 0) (hexp : Expects P v frames records)

/-- Where the bytes of the peer are: all of them wait for a session, or the first `k` frames have
been handed on, in order and once each, and the bytes behind them wait. -/
def Placed (frames records : List (UInt8 × Bytes)) (bytes : Bytes)
    (handed : List (UInt8 × Bytes)) (ps : PeerSession) : Prop :=
  ps.session = none ∧ ps.recv = bytes ∧ handed = [] ∨
  ps.session ≠ none ∧ ∃ k ≤ frames.length,
    bytes = encodeFrames 0 (frames.take k) ++ ps.recv ∧ handed = records.take k

section Runs

variable {P : Primitives} {E : Env} {i : Slot}
variable {frames records handed : List (UInt8 × Bytes)} {bytes : Bytes} {v : View}

theorem BufferInv.placed
    (h : BufferInv P frames records bytes handed v) (hpresent : Present v.ps) :
    Placed frames records bytes handed v.ps := by
  cases h with
  | pending hwait hrecv hnone =>
      exact Or.inl ⟨hwait.session, hrecv, hnone⟩
  | live k hcount hbytes hhanded _ hexp =>
      exact Or.inr ⟨hexp.1.session_ne, k, hcount, hbytes, hhanded⟩
  | gone h =>
      exact absurd h hpresent

theorem traceHeard_append
    (a b : List SlotPart) :
    traceHeard E (a ++ b) = traceHeard E a ++ traceHeard E b :=
  List.flatMap_append

theorem traceHanded_append
    (a b : List SlotPart) :
    traceHanded P E i (a ++ b) = traceHanded P E i a ++ traceHanded P E i b :=
  List.flatMap_append

/-- A run, as long as the slot is in use. -/
theorem BufferInv.appRun
    {s : AppState} (evs : List AppEvent) (hmem : ∀ t, E.malloc t = true)
    (hvalid : ValidFrames frames)
    (hinv : BufferInv P frames records bytes [] (s.view i))
    (hpresent : ∀ pre ev post, evs = pre ++ ev :: post → Present ((App.appRun P E s pre).peers i))
    (hpre : bytes ++ traceHeard E (slotTrace P E i s evs) <+: encodeFrames 0 frames)
    (hfine : ∀ p ∈ slotTrace P E i s evs, p.Fine) :
    BufferInv P frames records (bytes ++ traceHeard E (slotTrace P E i s evs))
      (traceHanded P E i (slotTrace P E i s evs)) ((App.appRun P E s evs).view i) ∧
    ∀ p ∈ slotTrace P E i s evs, p.Kept P E i := by
  induction evs using List.reverseRecOn with
  | nil =>
      refine ⟨?_, fun p hp => absurd hp List.not_mem_nil⟩
      show BufferInv P frames records (bytes ++ []) [] (s.view i)
      rw [List.append_nil]
      exact hinv
  | append_singleton evs ev ih =>
      rw [slotTrace_append] at hpre hfine ⊢
      rw [traceHeard_append, ← List.append_assoc] at hpre ⊢
      rw [traceHanded_append, appRun_append]
      obtain ⟨hrun, hkept⟩ := ih
        (fun pre e post h => hpresent pre e (post ++ [ev]) (by rw [h]; simp))
        ((List.prefix_append _ _).trans hpre)
        (fun p hp => hfine p (List.mem_append_left _ hp))
      obtain ⟨hstep, hkept'⟩ := hrun.appStep ev hmem hvalid (hpresent evs ev [] rfl)
        (fun p hp => hfine p (List.mem_append_right _ hp)) hpre
      refine ⟨hstep, ?_⟩
      intro p hp
      rcases List.mem_append.mp hp with hp | hp
      · exact hkept p hp
      · exact hkept' p hp

end Runs

/-- The session that the handshake of caller 7 gives. -/
def promptSession : NoiseSession :=
  { tx := { k := Block.ofBytes 32 noiseProtocolName, n := 0, hasKey := true }
    rx := { k := Block.ofBytes 32 noiseProtocolName, n := 0, hasKey := true }
    remoteStatic := (samplePair 7).pub }

/-- A text of caller 7, as it is sealed. -/
def promptPayload (text : Bytes) : Bytes :=
  samplePrimitives.aeadEncrypt promptSession.rx.k (encodeNonce 0) [] text

/-- The session of a handshake, if it has one. -/
def splitSession (hs : Option NoiseHandshake) : Option NoiseSession :=
  match hs with
  | none => none
  | some hs =>
      match handshakeSplit samplePrimitives sampleAlloc hs with
      | .ok session _ => some session
      | .error _ _ => none

/-- The slot is at the prompt for caller 7. -/
def Prompted (ps : PeerSession) : Prop :=
  ps.state = .tofuPending ∧ ps.session = none ∧ 0 ≤ ps.fd ∧
    splitSession ps.hs = some promptSession

instance (ps : PeerSession) : Decidable (Prompted ps) :=
  inferInstanceAs (Decidable (_ ∧ _ ∧ _ ∧ _))

/-- The session opens the text. -/
theorem promptPayload_opens
    {text : Bytes} (hlen : text.length ≤ 4096) :
    noiseDecrypt samplePrimitives (some promptSession) (.data (promptPayload text)) true =
      (some text, some { promptSession with rx := { promptSession.rx with n := 1 } }) := by
  have hpay : (promptPayload text).length = text.length + 16 :=
    samplePrimitives.aeadEncrypt_length _ _ _ _
  have hopen : samplePrimitives.aeadDecrypt promptSession.rx.k (encodeNonce promptSession.rx.n) []
      (promptPayload text) = some text :=
    samplePrimitives_open_seal _ _ _ _
  have hmax : ¬ (promptPayload text).length > noiseMaxPayloadLen := by
    unfold noiseMaxPayloadLen noxMaxMsgLen noxMacLen
    omega
  have hmin : ¬ (promptPayload text).length < noxMacLen := by
    unfold noxMacLen
    omega
  have hn : ¬ uint64Max ≤ promptSession.rx.n := by
    decide
  have hnext : promptSession.rx.n + 1 = 1 := rfl
  have hkey : promptSession.rx.hasKey = true := rfl
  simp [noiseDecrypt, cipherDecrypt, hmax, hmin, hopen, hn, hnext, hkey]

theorem Prompted.start
    {v : View} {text : Bytes} (h : Prompted v.ps)
    (hlen : 1 ≤ text.length ∧ text.length ≤ 4096) :
    StreamStart samplePrimitives [(noxMsgText, promptPayload text)] [(noxMsgText, text)] v ∧
      ValidFrames [(noxMsgText, promptPayload text)] := by
  obtain ⟨hst, hses, hfd, hsplit⟩ := h
  have hpay : (promptPayload text).length = text.length + 16 :=
    samplePrimitives.aeadEncrypt_length _ _ _ _
  have hvalid : 1 ≤ (promptPayload text).length ∧
      (promptPayload text).length ≤ 4096 + noxMacLen := by
    unfold noxMacLen
    omega
  have htext : text ≠ [] := by
    rintro rfl
    exact absurd hlen.1 (by decide)
  have hacc : Accepted samplePrimitives promptSession [(noxMsgText, promptPayload text)]
      [(noxMsgText, text)] :=
    .cons (Or.inl rfl) hvalid (promptPayload_opens hlen.2) htext (.nil _)
  constructor
  · cases hhs : v.ps.hs with
    | none =>
        rw [hhs] at hsplit
        cases hsplit
    | some hs =>
        rw [hhs] at hsplit
        unfold splitSession at hsplit
        dsimp only at hsplit
        cases hok : handshakeSplit samplePrimitives sampleAlloc hs with
        | error err hs' =>
            rw [hok] at hsplit
            cases hsplit
        | ok session hs' =>
            rw [hok] at hsplit
            cases hsplit
            refine .pending ⟨hst, hses, hfd, hs, hhs, ?_⟩
            intro alloc t hs'' ht
            rw [handshakeSplit_session ht hok]
            exact hacc
  · intro f hf
    rw [List.mem_singleton.mp hf]
    exact ⟨Or.inl rfl, hvalid⟩

end App
end Noxtor
