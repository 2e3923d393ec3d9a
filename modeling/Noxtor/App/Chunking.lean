import Noxtor.App.EventLoop
import Noxtor.App.FrameTurns

/-!
# Frames in chunks

A stream of frames arrives in pieces: `recv` returns any number of bytes up to the free space
of `recv_buf`, and `process_peer_frames` runs after each.  `Reads` is such a run, `Accepted`
says which frames the session takes, and the main result is that the cuts do not matter: the
records are handed on once and in order, and between two reads the buffer holds the part of
the next frame that has arrived.

The step lemma is `expects_next`, one turn of the loop on a complete frame; `loop_frames` is
the induction over the frames and `Reads.arrived` the one over the reads.
-/

namespace Noxtor
namespace App

open ByteString Noise

/-- The frames on the wire, numbered from `seq` on. -/
def encodeFrames : UInt32 → List (UInt8 × Bytes) → Bytes
  | _, [] => []
  | seq, (type, payload) :: frames =>
      frameBytes type seq payload ++ encodeFrames (seq + 1) frames

/--
The session takes the frames one after the other: each is a TEXT or FILE frame of legal length
that decrypts to a plaintext of at least one byte.  The second list has the plaintexts.
-/
inductive Accepted (P : Primitives) :
    NoiseSession → List (UInt8 × Bytes) → List (UInt8 × Bytes) → Prop
  | nil (s : NoiseSession) : Accepted P s [] []
  | cons {s s' : NoiseSession} {type : UInt8} {payload pt : Bytes}
      {frames records : List (UInt8 × Bytes)}
      (htype : type = noxMsgText ∨ type = noxMsgFile)
      (hlen : 1 ≤ payload.length ∧ payload.length ≤ 4096 + noxMacLen)
      (hopen : noiseDecrypt P (some s) (.data payload) true = (some pt, some s'))
      (hpt : pt ≠ [])
      (hrest : Accepted P s' frames records) :
      Accepted P s ((type, payload) :: frames) ((type, pt) :: records)

theorem Accepted.length
    {P : Primitives} {s : NoiseSession} {frames records : List (UInt8 × Bytes)}
    (h : Accepted P s frames records) :
    frames.length = records.length := by
  induction h with
  | nil s =>
      rfl
  | cons htype hlen hopen hpt hrest ih =>
      rw [List.length_cons, List.length_cons, ih]

/-- Decryption with two sessions that receive alike. -/
theorem noiseDecrypt_congr
    {P : Primitives} {s t s' : NoiseSession} {payload pt : Bytes} (hrx : t.rx = s.rx)
    (h : noiseDecrypt P (some s) (.data payload) true = (some pt, some s')) :
    ∃ t', noiseDecrypt P (some t) (.data payload) true = (some pt, some t') ∧
      t'.rx = s'.rx := by
  unfold noiseDecrypt at h ⊢
  dsimp only at h ⊢
  rw [hrx]
  split at h
  · cases h
  rename_i h1
  rw [if_neg h1]
  split at h
  · cases h
  rename_i h2
  rw [if_neg h2]
  split at h
  · cases h
  rename_i h3
  rw [if_neg h3]
  split at h
  · cases h
  rename_i h4
  rw [if_neg h4]
  rw [Prod.mk.injEq, Option.some.injEq] at h
  obtain ⟨hpt, rfl⟩ := h
  rw [hpt]
  exact ⟨_, rfl, rfl⟩

/-- What a session takes depends on its receiving half only. -/
theorem Accepted.congr
    {P : Primitives} {s t : NoiseSession} {frames records : List (UInt8 × Bytes)}
    (h : Accepted P s frames records) (hrx : t.rx = s.rx) :
    Accepted P t frames records := by
  induction h generalizing t with
  | nil s =>
      exact .nil t
  | cons htype hlen hopen hpt hrest ih =>
      obtain ⟨t', hopen', hrx'⟩ := noiseDecrypt_congr hrx hopen
      exact .cons htype hlen hopen' hpt (ih hrx')

section Head

variable {type : UInt8} {seq : UInt32} {payload : Bytes}

/-- The header that `frameBytes` writes. -/
def headerOf (type : UInt8) (seq : UInt32) (payload : Bytes) : FrameHeader :=
  { magic := noxFrameMagic, type := type, seq := seq, len := UInt32.ofNat payload.length }

theorem headerOf_len
    (hlen : payload.length ≤ 4096 + noxMacLen) :
    (headerOf type seq payload).len.toNat = payload.length := by
  have hmac : noxMacLen = 16 := rfl
  show (UInt32.ofNat payload.length).toNat = payload.length
  rw [UInt32.toNat_ofNat']
  omega

/-- The header is read back whatever follows it. -/
theorem frameHeaderDecode_headerOf
    (seq : UInt32) (htype : type = noxMsgText ∨ type = noxMsgFile)
    (hlen : payload.length ≤ 4096 + noxMacLen) (tail : Bytes) :
    frameHeaderDecode (frameHeaderEncode (headerOf type seq payload) ++ tail) =
      .ok (headerOf type seq payload) := by
  refine frameHeaderDecode_encode _ tail rfl ?_ ?_
  · show noxMsgText ≤ type ∧ type ≤ noxMsgCtrl
    rcases htype with rfl | rfl <;> decide
  · rw [headerOf_len hlen]
    exact hlen

/-- A complete frame at the head, whatever follows it. -/
theorem headOf_frameBytes
    (htype : type = noxMsgText ∨ type = noxMsgFile)
    (hlen : 1 ≤ payload.length ∧ payload.length ≤ 4096 + noxMacLen) (tail : Bytes) :
    headOf (frameBytes type seq payload ++ tail) =
      .frame (headerOf type seq payload) payload := by
  have hdec := frameHeaderDecode_headerOf seq htype hlen.2 (payload ++ tail)
  have hwire : frameBytes type seq payload ++ tail =
      frameHeaderEncode (headerOf type seq payload) ++ (payload ++ tail) :=
    List.append_assoc _ _ _
  have hdrop : (frameBytes type seq payload ++ tail).drop frameHeaderWireSize =
      payload ++ tail := by
    rw [hwire, List.drop_left' (frameHeaderEncode_length _)]
  unfold headOf
  rw [hdrop, List.length_append, frameBytes_length, if_neg (by omega), hwire, hdec]
  dsimp only
  rw [headerOf_len hlen.2, if_neg (by omega), if_neg (by omega), List.take_left' rfl]

/-- A frame that has not arrived as a whole. -/
theorem headOf_short
    {recv : Bytes} (htype : type = noxMsgText ∨ type = noxMsgFile)
    (hlen : 1 ≤ payload.length ∧ payload.length ≤ 4096 + noxMacLen)
    (hpre : recv <+: frameBytes type seq payload)
    (hshort : recv.length < frameHeaderWireSize + payload.length) :
    headOf recv = .incomplete := by
  unfold headOf
  by_cases hhead : recv.length < frameHeaderWireSize
  · rw [if_pos hhead]
  -- the header is there, and it tells the length
  obtain ⟨tail, rfl⟩ : ∃ tail, recv = frameHeaderEncode (headerOf type seq payload) ++ tail := by
    have hfirst : frameHeaderEncode (headerOf type seq payload) <+:
        frameBytes type seq payload := List.prefix_append _ _
    obtain ⟨tail, htail⟩ := List.prefix_of_prefix_length_le hfirst hpre (by
      rw [frameHeaderEncode_length]
      omega)
    exact ⟨tail, htail.symm⟩
  rw [if_neg hhead, frameHeaderDecode_headerOf seq htype hlen.2]
  dsimp only
  rw [headerOf_len hlen.2, if_neg (by omega), if_pos hshort]

end Head

/-- The slot is live, and its session takes these frames next. -/
def Expects (P : Primitives) (v : View) (frames records : List (UInt8 × Bytes)) : Prop :=
  LiveSession v ∧ ∃ s, v.ps.session = some s ∧ Accepted P s frames records

/-- There is memory for the payload and for the plaintext of a frame. -/
def Allocated (E : Env) (v : View) : Prop :=
  E.malloc v.sh.tick = true ∧ E.malloc (v.sh.tick + 1) = true

section Turn

variable {P : Primitives} {E : Env} {i : Slot} {fd : Int} {v w : View}
variable {frames records : List (UInt8 × Bytes)}

/-- What the receiving side is, decides what the slot expects. -/
theorem Expects.of_rx
    {s : NoiseSession} (hlive : (rxView i w).Live) (hrx : (rxView i w).rx = some s.rx)
    (hacc : Accepted P s frames records) :
    Expects P w frames records := by
  obtain ⟨t, ht, hcs⟩ := Option.map_eq_some_iff.mp hrx
  exact ⟨LiveSession.of_rx hlive, t, ht, hacc.congr hcs⟩

theorem Expects.congr
    (h : Expects P v frames records) (hrx : rxView i w = rxView i v) :
    Expects P w frames records := by
  obtain ⟨hlive, s, hs, hacc⟩ := h
  refine Expects.of_rx (i := i) (s := s) ?_ ?_ hacc
  · rw [hrx]
    exact hlive.rx
  · rw [hrx]
    simp [rxView, hs]

/-- One frame more: its record is handed on and both counters move. -/
structure Took (P : Primitives) (i : Slot) (v w : View) (record : UInt8 × Bytes) (tail : Bytes)
    (frames records : List (UInt8 × Bytes)) : Prop where
  expects : Expects P w frames records
  recv : w.ps.recv = tail
  rxSeq : w.ps.rxSeq = v.ps.rxSeq + 1
  delivered : delivered i w.sh.log = delivered i v.sh.log ++ [record]

/-- A decryption that succeeds moves the nonce. -/
theorem noiseDecrypt_rx
    {s s' : NoiseSession} {payload pt : Bytes} (hk : s.rx.hasKey = true)
    (h : noiseDecrypt P (some s) (.data payload) true = (some pt, some s')) :
    s'.rx = { s.rx with n := s.rx.n + 1 } := by
  rcases noiseDecrypt_cases (P := P) hk payload with heq | ⟨pt', -, -, heq⟩
  · rw [h] at heq
    cases heq
  · rw [h] at heq
    cases heq
    rfl

/-- The receiving side after a record, read back from the view. -/
theorem took_of_moved
    {s s' : NoiseSession} {type : UInt8} {payload pt tail : Bytes}
    (hlive : LiveSession v) (hs : v.ps.session = some s)
    (hlen : payload.length ≤ 4096 + noxMacLen)
    (hopen : noiseDecrypt P (some s) (.data payload) true = (some pt, some s'))
    (hrest : Accepted P s' frames records)
    (hrecv : v.ps.recv = frameBytes type v.ps.rxSeq payload ++ tail)
    (hb : StateMoved (((rxView i v).consumed (headerOf type v.ps.rxSeq payload)).handOn
      type pt).advanced (rxView i w)) :
    Took P i v w (type, pt) tail frames records := by
  have hkey : s.rx.hasKey = true := by
    obtain ⟨t, ht, hk⟩ := hlive.keyed
    rw [hs] at ht
    cases ht
    exact hk
  have hdrop : v.ps.recv.drop (frameHeaderWireSize +
      (headerOf type v.ps.rxSeq payload).len.toNat) = tail := by
    rw [headerOf_len hlen, hrecv, List.drop_left' (frameBytes_length _ _ _)]
  have hup : (((rxView i v).consumed (headerOf type v.ps.rxSeq payload)).handOn
      type pt).advanced.Live :=
    RxView.Live.nonceUsed (a := ((rxView i v).consumed _).handOn type pt) (hlive.rx (i := i))
  have hlive' := hb.live hup
  obtain ⟨st, hw, -⟩ := hb
  refine ⟨Expects.of_rx hlive' ?_ hrest, ?_, ?_, ?_⟩
  · rw [hw, noiseDecrypt_rx hkey hopen]
    simp [rxView, RxView.consumed, RxView.handOn, RxView.advanced, RxView.counted,
      RxView.nonceUsed, hs]
  · show (rxView i w).recv = tail
    rw [hw]
    exact hdrop
  · show (rxView i w).rxSeq = _
    rw [hw]
    rfl
  · show (rxView i w).delivered = _
    rw [hw]
    rfl

/-- A turn on the frame that is expected takes it, or the slot is torn down. -/
theorem expects_next
    (fd : Int) {type : UInt8} {payload pt tail : Bytes}
    (h : Expects P v ((type, payload) :: frames) ((type, pt) :: records))
    (hrecv : v.ps.recv = frameBytes type v.ps.rxSeq payload ++ tail)
    (hmem : Allocated E v) :
    ∃ w, frameStep P E i fd v = .next w ∧
      (Took P i v w (type, pt) tail frames records ∨ (w.ps.hs = none ∧ w.ps.session = none)) := by
  obtain ⟨hlive, s, hs, hacc⟩ := h
  cases hacc with
  | @cons _ s' _ _ _ _ _ htype hlen hopen hpt hrest =>
  have hhead : headOf v.ps.recv = .frame (headerOf type v.ps.rxSeq payload) payload := by
    rw [hrecv]
    exact headOf_frameBytes htype hlen tail
  have hrec : Receives v (headerOf type v.ps.rxSeq payload) payload :=
    ⟨hhead, htype, hlive.session_ne⟩
  have hnext : ∃ w, frameStep P E i fd v = .next w := by
    rcases htype with ht | ht
    · exact ⟨_, frameStep_text hrec hmem.1 rfl ht⟩
    · exact ⟨_, frameStep_file hrec hmem.1 rfl ht⟩
  obtain ⟨w, hw⟩ := hnext
  refine ⟨w, hw, ?_⟩
  have hturn := frameStep_turn (P := P) (E := E) (i := i) fd hlive.hs hlive.keyed hlive.state
  rw [hw] at hturn
  change RxTurn P E v (rxView i v) (rxView i w) at hturn
  have hopened : opened P v payload = some pt := by
    unfold opened
    rw [hs, hopen]
  have hnone : opened P v payload ≠ none := by
    rw [hopened]
    exact Option.some_ne_none pt
  have hfull : opened P v payload ≠ some [] := by
    rw [hopened]
    exact fun heq => hpt (Option.some.inj heq)
  generalize hview : rxView i w = b at hturn
  cases hturn with
  | quiet recv h =>
      rcases h with h | h
      · exact absurd hrec (h _ _)
      · rw [hmem.1] at h
        cases h
  | mismatch h hseq =>
      obtain ⟨rfl, -⟩ := hrec.unique h
      exact absurd rfl hseq
  | refused h hseq hwhy =>
      obtain ⟨-, rfl⟩ := hrec.unique h
      rcases hwhy with h | h
      · rw [hmem.2] at h
        cases h
      · exact absurd h.1 hnone
  | emptyText h hopen' =>
      obtain ⟨-, rfl⟩ := hrec.unique h.1
      exact absurd hopen' hfull
  | text h hopen' hpt' =>
      obtain ⟨rfl, rfl⟩ := hrec.unique h.1
      obtain rfl : _ = pt := Option.some.inj (hopen'.symm.trans hopened)
      obtain rfl : type = noxMsgText := h.2.2
      exact Or.inl (took_of_moved hlive hs hlen.2 hopen hrest hrecv (StateMoved.of_eq hview))
  | lastText h hopen' hpt' =>
      right
      constructor
      · show (rxView i w).hs = none
        rw [hview]
        rfl
      · refine Option.map_eq_none_iff.mp (?_ : (rxView i w).rx = none)
        rw [hview]
        rfl
  | forgedFile h hlen' hopen' hb =>
      obtain ⟨-, rfl⟩ := hrec.unique h.1
      exact absurd hopen' hnone
  | emptyFile h hopen' hb =>
      obtain ⟨-, rfl⟩ := hrec.unique h.1
      exact absurd hopen' hfull
  | file h hopen' hpt' hb =>
      obtain ⟨rfl, rfl⟩ := hrec.unique h.1
      obtain rfl : _ = pt := Option.some.inj (hopen'.symm.trans hopened)
      obtain rfl : type = noxMsgFile := h.2.2
      rw [← hview] at hb
      exact Or.inl (took_of_moved hlive hs hlen.2 hopen hrest hrecv hb)

end Turn

theorem encodeFrames_append
    (seq : UInt32) (frames frames' : List (UInt8 × Bytes)) :
    encodeFrames seq (frames ++ frames') =
      encodeFrames seq frames ++ encodeFrames (seq + UInt32.ofNat frames.length) frames' := by
  induction frames generalizing seq with
  | nil =>
      simp [encodeFrames]
  | cons f frames ih =>
      have hseq : seq + UInt32.ofNat (frames.length + 1) =
          seq + 1 + UInt32.ofNat frames.length := by
        rw [UInt32.ofNat_add, UInt32.add_assoc, UInt32.add_comm (UInt32.ofNat frames.length)]
        rfl
      rw [List.cons_append, encodeFrames, encodeFrames, ih, List.length_cons, hseq,
        List.append_assoc]

/--
Since `v` the bytes `got` have arrived.  They are the first `k` frames, which have been handed
on, and the begun part of the next one, which is in the buffer.
-/
structure Arrived (P : Primitives) (i : Slot) (v w : View) (got : Bytes)
    (frames records : List (UInt8 × Bytes)) (k : Nat) : Prop where
  count : k ≤ frames.length
  bytes : got = encodeFrames v.ps.rxSeq (frames.take k) ++ w.ps.recv
  delivered : delivered i w.sh.log = delivered i v.sh.log ++ records.take k
  rxSeq : w.ps.rxSeq = v.ps.rxSeq + UInt32.ofNat k
  expects : Expects P w (frames.drop k) (records.drop k)
  begun : w.ps.recv <+: encodeFrames w.ps.rxSeq (frames.drop k)
  short : ∀ f ∈ (frames.drop k).head?, w.ps.recv.length < frameHeaderWireSize + f.2.length

section Loop

variable {P : Primitives} {E : Env} {i : Slot} {fd : Int} {u v w : View}
variable {frames records : List (UInt8 × Bytes)} {got got' : Bytes} {k k' : Nat}

/-- Nothing was complete. -/
theorem Arrived.none_yet
    (h : Expects P v frames records) (hpre : v.ps.recv <+: encodeFrames v.ps.rxSeq frames)
    (hshort : ∀ f ∈ frames.head?, v.ps.recv.length < frameHeaderWireSize + f.2.length) :
    Arrived P i v v v.ps.recv frames records 0 where
  count := Nat.zero_le _
  bytes := rfl
  delivered := by simp
  rxSeq := by simp
  expects := h
  begun := hpre
  short := hshort

/-- What arrives after `u` follows what had arrived before. -/
theorem Arrived.trans
    (h : Arrived P i v u got frames records k) {chunk : Bytes}
    (h' : Arrived P i (deliver chunk u) w (u.ps.recv ++ chunk) (frames.drop k)
      (records.drop k) k') :
    Arrived P i v w (got ++ chunk) frames records (k + k') := by
  have hseq : (deliver chunk u).ps.rxSeq = v.ps.rxSeq + UInt32.ofNat k := h.rxSeq
  have hlen : (frames.take k).length = k := by
    rw [List.length_take, Nat.min_eq_left h.count]
  constructor
  · have hk' := h'.count
    have hk := h.count
    rw [List.length_drop] at hk'
    omega
  · rw [h.bytes, List.append_assoc, h'.bytes, List.take_add, encodeFrames_append, hlen,
      hseq, List.append_assoc]
  · rw [h'.delivered, List.take_add, ← List.append_assoc, ← h.delivered]
    rfl
  · rw [h'.rxSeq, hseq, UInt32.ofNat_add, UInt32.add_assoc]
  · have hexp := h'.expects
    rw [List.drop_drop, List.drop_drop] at hexp
    exact hexp
  · have hbegun := h'.begun
    rw [List.drop_drop] at hbegun
    exact hbegun
  · have hshort := h'.short
    rw [List.drop_drop] at hshort
    exact hshort

/-- The frame that a turn took comes first. -/
theorem Arrived.after_took
    {f record : UInt8 × Bytes} {tail : Bytes}
    (ht : Took P i v u record tail frames records)
    (h : Arrived P i u w tail frames records k) :
    Arrived P i v w (frameBytes f.1 v.ps.rxSeq f.2 ++ tail) (f :: frames) (record :: records)
      (k + 1) where
  count := Nat.succ_le_succ h.count
  bytes := by
    rw [List.take_succ_cons, encodeFrames, List.append_assoc, ← ht.rxSeq, ← h.bytes]
  delivered := by
    rw [h.delivered, ht.delivered, List.take_succ_cons, List.append_assoc]
    rfl
  rxSeq := by
    rw [h.rxSeq, ht.rxSeq, UInt32.ofNat_add, UInt32.add_assoc,
      UInt32.add_comm (UInt32.ofNat k)]
    rfl
  expects := h.expects
  begun := h.begun
  short := h.short

/-- A slot that has been torn down does not come back in the same call. -/
theorem frameLoop_silent
    {fuel : Nat} (hhs : v.ps.hs = none) (hses : v.ps.session = none) :
    (frameLoop P E i fd fuel v).ps.session = none := by
  have hinv : (∀ u ∈ frameTurns P E i fd fuel v, Silent i (delivered i v.sh.log) u) ∧
      Silent i (delivered i v.sh.log) (frameLoop P E i fd fuel v) :=
    frameTurns_inv (F := fun _ => True)
      (fun _ h _ => h.frameStep fd) ⟨hhs, hses, rfl⟩ (fun _ _ => trivial)
  exact hinv.2.2.1

/-- A call takes the complete frames and leaves the begun one. -/
theorem loop_frames
    {fuel : Nat} (hexp : Expects P v frames records)
    (hpre : v.ps.recv <+: encodeFrames v.ps.rxSeq frames) (hfuel : v.ps.recv.length < fuel)
    (hmem : ∀ u ∈ frameTurns P E i fd fuel v, Allocated E u)
    (hlive : (frameLoop P E i fd fuel v).ps.session ≠ none) :
    ∃ k, Arrived P i v (frameLoop P E i fd fuel v) v.ps.recv frames records k := by
  induction frames generalizing v fuel records with
  | nil =>
      have hnil : v.ps.recv = [] := List.prefix_nil.mp hpre
      have hstop : frameLoop P E i fd fuel v = v := by
        cases fuel with
        | zero =>
            rfl
        | succ fuel =>
            unfold frameLoop
            rw [frameStep_incomplete (by rw [hnil]; rfl)]
      rw [hstop]
      refine ⟨0, Arrived.none_yet hexp hpre ?_⟩
      intro f hf
      cases hf
  | cons f frames ih =>
      obtain ⟨type, payload⟩ := f
      obtain ⟨n, rfl⟩ : ∃ n, fuel = n + 1 := ⟨fuel - 1, by omega⟩
      have hacc := hexp.2
      obtain ⟨s, hs, hacc⟩ := hacc
      cases hacc with
      | @cons _ s' _ _ pt _ records htype hlen hopen hpt hrest =>
      by_cases hshort : v.ps.recv.length < frameHeaderWireSize + payload.length
      · have hfirst : v.ps.recv <+: frameBytes type v.ps.rxSeq payload :=
          List.prefix_of_prefix_length_le hpre (List.prefix_append _ _) (by
            rw [frameBytes_length]
            omega)
        have hstop : frameLoop P E i fd (n + 1) v = v := by
          unfold frameLoop
          rw [frameStep_incomplete (headOf_short htype hlen hfirst hshort)]
        rw [hstop]
        refine ⟨0, Arrived.none_yet hexp hpre ?_⟩
        intro f hf
        cases hf
        exact hshort
      · -- the frame at the head is complete
        obtain ⟨tail, htail⟩ : ∃ tail, v.ps.recv =
            frameBytes type v.ps.rxSeq payload ++ tail := by
          obtain ⟨tail, htail⟩ := List.prefix_of_prefix_length_le
            (List.prefix_append _ _ : frameBytes type v.ps.rxSeq payload <+: _) hpre (by
              rw [frameBytes_length]
              omega)
          exact ⟨tail, htail.symm⟩
        have hmem0 : Allocated E v := hmem v (by
          unfold frameTurns
          split <;> simp)
        obtain ⟨w, hw, htook⟩ := expects_next (i := i) fd hexp htail hmem0
        have hloop : frameLoop P E i fd (n + 1) v = frameLoop P E i fd n w := by
          rw [frameLoop, hw]
        have hturns : frameTurns P E i fd (n + 1) v = v :: frameTurns P E i fd n w := by
          rw [frameTurns, hw]
        rw [hloop] at hlive ⊢
        rw [hturns] at hmem
        rcases htook with htook | ⟨hhs, hses⟩
        · have htl : w.ps.recv <+: encodeFrames w.ps.rxSeq frames := by
            rw [htail, encodeFrames, List.prefix_append_right_inj] at hpre
            rw [htook.recv, htook.rxSeq]
            exact hpre
          have hn : w.ps.recv.length < n := by
            rw [htail, List.length_append, frameBytes_length] at hfuel
            rw [htook.recv]
            omega
          obtain ⟨k, hk⟩ := ih htook.expects htl hn
            (fun u hu => hmem u (List.mem_cons_of_mem v hu)) hlive
          rw [htook.recv] at hk
          rw [htail]
          exact ⟨k + 1, hk.after_took (f := (type, payload)) htook⟩
        · exact absurd (frameLoop_silent hhs hses) hlive

/-- What is left in the buffer is no frame yet. -/
theorem Arrived.incomplete
    (h : Arrived P i v w got frames records k) :
    headOf w.ps.recv = .incomplete := by
  obtain ⟨-, s, -, hacc⟩ := h.expects
  have hbegun := h.begun
  have hshort := h.short
  generalize frames.drop k = rest at hacc hbegun hshort
  generalize records.drop k = records' at hacc
  cases hacc with
  | nil s =>
      rw [List.prefix_nil.mp hbegun]
      rfl
  | @cons _ _ type payload _ rest' _ htype hlen hopen hpt hrest =>
      have hlt : w.ps.recv.length < frameHeaderWireSize + payload.length := hshort _ rfl
      have hfirst : w.ps.recv <+: frameBytes type w.ps.rxSeq payload :=
        List.prefix_of_prefix_length_le hbegun (List.prefix_append _ _) (by
          rw [frameBytes_length]
          omega)
      exact headOf_short htype hlen hfirst hlt

/-- There is room in the buffer: the longest frame fills it, and what is left is shorter. -/
theorem Arrived.room
    (h : Arrived P i v w got frames records k) :
    w.ps.recv.length < recvBufCapacity := by
  have hcap : recvBufCapacity = frameHeaderWireSize + (4096 + noxMacLen) := rfl
  obtain ⟨-, s, -, hacc⟩ := h.expects
  have hbegun := h.begun
  have hshort := h.short
  generalize frames.drop k = rest at hacc hbegun hshort
  generalize records.drop k = records' at hacc
  cases hacc with
  | nil s =>
      rw [List.prefix_nil.mp hbegun]
      decide
  | @cons _ _ type payload _ rest' _ htype hlen hopen hpt hrest =>
      have hlt : w.ps.recv.length < frameHeaderWireSize + payload.length := hshort _ rfl
      omega

theorem Arrived.settled
    (h : Arrived P i v w got frames records k) :
    Settled w :=
  ⟨h.expects.1.hs, Or.inr h.expects.1⟩

/-- The call that drains the slot finds nothing. -/
theorem Arrived.drained
    (h : Arrived P i v w got frames records k) :
    drainSlot P E i w = w := by
  unfold drainSlot
  split
  · unfold processPeerFrames frameLoop
    rw [frameStep_incomplete h.incomplete]
  · rfl

/-- What the rest of the event loop does between two reads does not matter. -/
theorem Arrived.between
    (h : Arrived P i v u got frames records k) (hrx : rxView i w = rxView i u) :
    Arrived P i v w got frames records k := by
  have hrecv : w.ps.recv = u.ps.recv := congrArg RxView.recv hrx
  have hseq : w.ps.rxSeq = u.ps.rxSeq := congrArg RxView.rxSeq hrx
  have hdel : App.delivered i w.sh.log = App.delivered i u.sh.log :=
    congrArg RxView.delivered hrx
  constructor
  · exact h.count
  · rw [hrecv]
    exact h.bytes
  · rw [hdel]
    exact h.delivered
  · rw [hseq]
    exact h.rxSeq
  · exact h.expects.congr hrx
  · rw [hrecv, hseq]
    exact h.begun
  · rw [hrecv]
    exact h.short

/-- Once the whole stream has arrived, everything has been handed on. -/
theorem Arrived.all
    (h : Arrived P i v w got frames records k) (hlen : frames.length = records.length)
    (hgot : got = encodeFrames v.ps.rxSeq frames) :
    w.ps.recv = [] ∧ App.delivered i w.sh.log = App.delivered i v.sh.log ++ records := by
  have htake : (frames.take k).length = k := by
    rw [List.length_take, Nat.min_eq_left h.count]
  have hrest : w.ps.recv = encodeFrames w.ps.rxSeq (frames.drop k) := by
    have hsplit := encodeFrames_append v.ps.rxSeq (frames.take k) (frames.drop k)
    rw [List.take_append_drop, htake, ← h.rxSeq, ← hgot, h.bytes] at hsplit
    exact List.append_cancel_left hsplit
  have hdrop : frames.drop k = [] := by
    cases hd : frames.drop k with
    | nil =>
        rfl
    | cons f rest =>
        have hlt := h.short f (by rw [hd]; rfl)
        rw [hrest, hd, encodeFrames, List.length_append, frameBytes_length] at hlt
        omega
  have hk : records.length ≤ k := by
    rw [← hlen]
    exact List.drop_eq_nil_iff.mp hdrop
  constructor
  · rw [hrest, hdrop]
    rfl
  · rw [h.delivered, List.take_of_length_le hk]

end Loop

section Ends

variable (P : Primitives) (E : Env) (i : Slot) (fd : Int)

/-- The loop of `process_peer_frames` with no bound on its turns comes to an end. -/
inductive LoopEnds : View → View → Prop
  | stop {v w : View} (h : frameStep P E i fd v = .stop w) : LoopEnds v w
  | next {v u w : View} (h : frameStep P E i fd v = .next u) (hrest : LoopEnds u w) :
      LoopEnds v w

variable {P E i fd}

theorem frameLoop_ends
    {fuel : Nat} {v : View} (hset : Settled v) (hfuel : v.ps.recv.length < fuel) :
    LoopEnds P E i fd v (frameLoop P E i fd fuel v) := by
  induction fuel generalizing v with
  | zero =>
      omega
  | succ fuel ih =>
      unfold frameLoop
      have hset' := hset.frameStep (P := P) (E := E) (i := i) fd
      cases hs : frameStep P E i fd v with
      | stop w =>
          exact .stop hs
      | next u =>
          have hlt := frameStep_shorter hset hs
          rw [hs] at hset'
          exact .next hs (ih hset' (by omega))

/-- No turn of a call finds more in the buffer than the first. -/
theorem frameTurns_length
    {fuel : Nat} {v : View} (hset : Settled v) :
    ∀ t ∈ frameTurns P E i fd fuel v, t.ps.recv.length ≤ v.ps.recv.length := by
  induction fuel generalizing v with
  | zero =>
      intro t ht
      exact absurd ht List.not_mem_nil
  | succ fuel ih =>
      intro t ht
      unfold frameTurns at ht
      have hset' := hset.frameStep (P := P) (E := E) (i := i) fd
      cases hs : frameStep P E i fd v with
      | stop w =>
          rw [hs] at ht
          rw [List.mem_singleton.mp ht]
      | next u =>
          have hlt := frameStep_shorter hset hs
          rw [hs] at ht hset'
          rcases List.mem_cons.mp ht with rfl | ht
          · exact Nat.le_refl _
          · exact Nat.le_of_lt (Nat.lt_of_le_of_lt (ih hset' t ht) hlt)

end Ends

section Reads

variable (P : Primitives) (E : Env) (i : Slot) (fd : Int)

/--
The chunks arrive one after the other, each of 1 byte up to the free space of `recv_buf`, with
`process_peer_frames` after each; the slot stays live, and `Fine` holds of every turn of the
loop.  Between two reads the slot may be drained, and the event loop may do whatever leaves
the receiving side of the slot alone.
-/
inductive Reads (Fine : View → Prop) (v : View) : List Bytes → View → Prop
  | start : Reads Fine v [] v
  | between {chunks : List Bytes} {u w : View} (h : Reads Fine v chunks u)
      (hrx : rxView i w = rxView i u) : Reads Fine v chunks w
  | drain {chunks : List Bytes} {u : View} (h : Reads Fine v chunks u) :
      Reads Fine v chunks (drainSlot P E i u)
  | read {chunks : List Bytes} {u : View} {chunk : Bytes} (h : Reads Fine v chunks u)
      (hchunk : 1 ≤ chunk.length ∧ chunk.length ≤ recvBufCapacity - u.ps.recv.length)
      (hlive : (processPeerFrames P E i fd (deliver chunk u)).ps.session ≠ none)
      (hfine : ∀ t ∈ frameTurns P E i fd ((deliver chunk u).ps.recv.length + 1)
        (deliver chunk u), Fine t) :
      Reads Fine v (chunks ++ [chunk]) (processPeerFrames P E i fd (deliver chunk u))

variable {P E i fd}
variable {Fine : View → Prop} {v u w : View} {chunks : List Bytes}
variable {frames records : List (UInt8 × Bytes)}

theorem toRead_bounds
    {ps : PeerSession} (h : ps.recv.length < recvBufCapacity) (avail : Nat) :
    1 ≤ toRead avail ps ∧ toRead avail ps ≤ recvBufCapacity - ps.recv.length := by
  unfold toRead
  dsimp only
  split <;> omega

/-- What `recv` returned is in the buffer, before the frames are processed. -/
def received (E : Env) (u : View) (b : Bytes) : View :=
  deliver (b.take (toRead (E.fionread u.sh.tick) u.ps)) (touchLastActive E u.tickOn.tickOn)

/-- The `EPOLLIN` branch is such a read. -/
theorem readSlot_reads
    {sock : Nat} {b : Bytes} (h : Reads P E i sock Fine v chunks u)
    (hroom : u.ps.recv.length < recvBufCapacity)
    (hdata : E.recv (u.sh.tick + 1) = .data b) (hb : b ≠ [])
    (hlive : (readSlot P E i sock u).ps.session ≠ none)
    (hfine : ∀ t ∈ frameTurns P E i sock ((received E u b).ps.recv.length + 1)
      (received E u b), Fine t) :
    Reads P E i sock Fine v (chunks ++ [b.take (toRead (E.fionread u.sh.tick) u.ps)])
      (readSlot P E i sock u) := by
  obtain ⟨hpos, hmax⟩ := toRead_bounds hroom (E.fionread u.sh.tick)
  have hlen : 1 ≤ (b.take (toRead (E.fionread u.sh.tick) u.ps)).length := by
    have hne := List.length_pos_iff.mpr hb
    rw [List.length_take]
    omega
  have heq : readSlot P E i sock u = processPeerFrames P E i sock (received E u b) := by
    have hdata' : E.recv u.tickOn.sh.tick = .data b := hdata
    unfold readSlot
    dsimp only
    rw [if_neg (by omega), hdata']
    dsimp only
    rw [if_neg (List.length_pos_iff.mp hlen)]
    rfl
  rw [heq] at hlive ⊢
  refine Reads.read (h.between ?_) ⟨hlen, ?_⟩ hlive hfine
  · rfl
  · show _ ≤ recvBufCapacity - u.ps.recv.length
    rw [List.length_take]
    omega

/-- The run lemma: however the stream is cut, what has arrived has been taken. -/
theorem Reads.arrived
    (h : Reads P E i fd (Allocated E) v chunks w)
    (hexp : Expects P v frames records) (hrecv : v.ps.recv = [])
    (hcut : chunks.flatten <+: encodeFrames v.ps.rxSeq frames) :
    ∃ k, Arrived P i v w chunks.flatten frames records k := by
  induction h with
  | start =>
      have hnone := Arrived.none_yet (i := i) hexp (by rw [hrecv]; exact List.nil_prefix)
        (by intro f _; rw [hrecv, List.length_nil]; exact Nat.succ_le_of_lt (by
          unfold frameHeaderWireSize
          omega))
      rw [hrecv] at hnone
      exact ⟨0, hnone⟩
  | between h hrx ih =>
      obtain ⟨k, hk⟩ := ih hcut
      exact ⟨k, hk.between hrx⟩
  | drain h ih =>
      obtain ⟨k, hk⟩ := ih hcut
      rw [hk.drained]
      exact ⟨k, hk⟩
  | @read chunks u chunk h hchunk hlive hfine ih =>
      rw [List.flatten_append, List.flatten_singleton] at hcut ⊢
      obtain ⟨k, hk⟩ := ih ((List.prefix_append _ _).trans hcut)
      have htake : (frames.take k).length = k := by
        rw [List.length_take, Nat.min_eq_left hk.count]
      -- the bytes after the first `k` frames are those in the buffer and the chunk
      have hpre : (deliver chunk u).ps.recv <+:
          encodeFrames (deliver chunk u).ps.rxSeq (frames.drop k) := by
        have hsplit := encodeFrames_append v.ps.rxSeq (frames.take k) (frames.drop k)
        rw [List.take_append_drop, htake, ← hk.rxSeq] at hsplit
        rw [hsplit, hk.bytes, List.append_assoc, List.prefix_append_right_inj] at hcut
        exact hcut
      have hexp' : Expects P (deliver chunk u) (frames.drop k) (records.drop k) :=
        ⟨⟨hk.expects.1.hs, hk.expects.1.keyed, hk.expects.1.state, hk.expects.1.fd⟩,
          hk.expects.2⟩
      obtain ⟨k', hk'⟩ := loop_frames hexp' hpre (Nat.lt_succ_self _) hfine hlive
      exact ⟨k + k', hk.trans hk'⟩

/--
Frames that the session takes are decoded however their encoding is cut.  After every read the
records of the complete frames have been handed on, once and in order, and the buffer is the
begun part of the next frame; it has room, the next call ends whatever arrives, and nothing is
left when the whole stream has arrived.
-/
theorem frames_whole_however_cut
    {s : NoiseSession} (hlive : LiveSession v) (hs : v.ps.session = some s)
    (hrecv : v.ps.recv = []) (hacc : Accepted P s frames records)
    (hreads : Reads P E i fd (Allocated E) v chunks w)
    (hcut : chunks.flatten <+: encodeFrames v.ps.rxSeq frames) :
    (∃ k ≤ frames.length,
      chunks.flatten = encodeFrames v.ps.rxSeq (frames.take k) ++ w.ps.recv ∧
      delivered i w.sh.log = delivered i v.sh.log ++ records.take k ∧
      (∀ f ∈ (frames.drop k).head?, w.ps.recv.length < frameHeaderWireSize + f.2.length) ∧
      (frames.drop k = [] → w.ps.recv = [])) ∧
    w.ps.recv.length < recvBufCapacity ∧
    (∀ avail, 1 ≤ toRead avail w.ps ∧ toRead avail w.ps ≤ recvBufCapacity - w.ps.recv.length) ∧
    drainSlot P E i w = w ∧
    (∀ chunk : Bytes, chunk.length ≤ recvBufCapacity - w.ps.recv.length →
      LoopEnds P E i fd (deliver chunk w) (processPeerFrames P E i fd (deliver chunk w)) ∧
      ∀ t ∈ frameTurns P E i fd ((deliver chunk w).ps.recv.length + 1) (deliver chunk w),
        t.ps.recv.length ≤ recvBufCapacity) ∧
    (chunks.flatten = encodeFrames v.ps.rxSeq frames →
      w.ps.recv = [] ∧ delivered i w.sh.log = delivered i v.sh.log ++ records) := by
  obtain ⟨k, hk⟩ := hreads.arrived ⟨hlive, s, hs, hacc⟩ hrecv hcut
  have hroom := hk.room
  refine ⟨⟨k, hk.count, hk.bytes, hk.delivered, hk.short, ?_⟩, hroom, toRead_bounds hroom,
    hk.drained, ?_, hk.all hacc.length⟩
  · intro hdrop
    have hbegun := hk.begun
    rw [hdrop] at hbegun
    exact List.prefix_nil.mp hbegun
  · intro chunk hchunk
    have hset : Settled (deliver chunk w) := by
      obtain ⟨hhs, hses | hup⟩ := hk.settled
      · exact ⟨hhs, Or.inl hses⟩
      · exact ⟨hhs, Or.inr ⟨hup.hs, hup.keyed, hup.state, hup.fd⟩⟩
    refine ⟨frameLoop_ends hset (Nat.lt_succ_self _), ?_⟩
    intro t ht
    have hle := frameTurns_length hset t ht
    have hlen : (deliver chunk w).ps.recv.length = w.ps.recv.length + chunk.length :=
      List.length_append
    omega

end Reads

/-- The payload of number `j` that the peer of `sampleView` encrypts. -/
def samplePayload (j : Nat) (pt : Bytes) : Bytes :=
  samplePrimitives.aeadEncrypt (samplePair 2).pub (encodeNonce (UInt64.ofNat j)) [] pt

/-- A text and a file record. -/
def sampleFrames : List (UInt8 × Bytes) :=
  [(noxMsgText, samplePayload 0 [104, 105]), (noxMsgFile, samplePayload 1 [7])]

theorem sampleFrames_accepted :
    Accepted samplePrimitives sampleSession sampleFrames
      [(noxMsgText, [104, 105]), (noxMsgFile, [7])] := by
  have h0 : noiseDecrypt samplePrimitives (some sampleSession)
      (.data (samplePayload 0 [104, 105])) true =
      (some [104, 105], some { sampleSession with
        rx := { sampleSession.rx with n := 1 } }) := by decide +kernel
  have h1 : noiseDecrypt samplePrimitives
      (some { sampleSession with rx := { sampleSession.rx with n := 1 } })
      (.data (samplePayload 1 [7])) true =
      (some [7], some { sampleSession with
        rx := { sampleSession.rx with n := 2 } }) := by decide +kernel
  exact .cons (Or.inl rfl) (by decide +kernel) h0 (by decide)
    (.cons (Or.inr rfl) (by decide +kernel) h1 (by decide) (.nil _))

/-- The first read ends within the header of the second frame. -/
def sampleCut : List Bytes :=
  [(encodeFrames 0 sampleFrames).take 36, (encodeFrames 0 sampleFrames).drop 36]

/-- Two reads of a run. -/
theorem Reads.two
    {P : Primitives} {E : Env} {i : Slot} {fd : Int} {Fine : View → Prop} {v u w : View}
    {a b : Bytes} (hu : processPeerFrames P E i fd (deliver a v) = u)
    (hw : processPeerFrames P E i fd (deliver b u) = w)
    (ha : 1 ≤ a.length ∧ a.length ≤ recvBufCapacity - v.ps.recv.length)
    (hb : 1 ≤ b.length ∧ b.length ≤ recvBufCapacity - u.ps.recv.length)
    (hlive : u.ps.session ≠ none ∧ w.ps.session ≠ none) (hfine : ∀ t, Fine t) :
    Reads P E i fd Fine v [a, b] w := by
  subst hu hw
  exact .read (.read .start ha hlive.1 (fun t _ => hfine t))
    hb hlive.2 (fun t _ => hfine t)

theorem frames_whole_however_cut_in_header :
    sampleCut.flatten = encodeFrames 0 sampleFrames ∧
      (rxRun samplePrimitives sampleEnv 0 5 sampleCut sampleView).ps.recv = [] ∧
      delivered 0 (rxRun samplePrimitives sampleEnv 0 5 sampleCut sampleView).sh.log =
        [(noxMsgText, [104, 105]), (noxMsgFile, [7])] := by
  have hreads : Reads samplePrimitives sampleEnv 0 5 (Allocated sampleEnv) sampleView sampleCut
      (rxRun samplePrimitives sampleEnv 0 5 sampleCut sampleView) :=
    Reads.two (u := rxRun samplePrimitives sampleEnv 0 5 (sampleCut.take 1) sampleView) rfl rfl
      (by decide +kernel) (by decide +kernel) (by decide +kernel) (fun _ => ⟨rfl, rfl⟩)
  have hall : sampleCut.flatten = encodeFrames 0 sampleFrames := by decide +kernel
  obtain ⟨-, -, -, -, -, hend⟩ := frames_whole_however_cut sampleView_live rfl rfl
    sampleFrames_accepted hreads (by rw [hall]; exact List.prefix_rfl)
  exact ⟨hall, hend hall⟩

/-- No memory for the payload of a frame. -/
def noMemoryEnv : Env :=
  { sampleEnv with malloc := fun _ => false }

/-- Without memory for its payload a frame that has arrived as a whole is thrown away. -/
theorem frame_lost_without_memory :
    Accepted samplePrimitives sampleSession sampleFrames
      [(noxMsgText, [104, 105]), (noxMsgFile, [7])] ∧
    Reads samplePrimitives noMemoryEnv 0 5 (fun _ => True) sampleView
      [encodeFrames 0 sampleFrames]
      (rxRun samplePrimitives noMemoryEnv 0 5 [encodeFrames 0 sampleFrames] sampleView) ∧
    (rxRun samplePrimitives noMemoryEnv 0 5 [encodeFrames 0 sampleFrames]
      sampleView).ps.session = some sampleSession ∧
    delivered 0 (rxRun samplePrimitives noMemoryEnv 0 5 [encodeFrames 0 sampleFrames]
      sampleView).sh.log = [] ∧
    (rxRun samplePrimitives noMemoryEnv 0 5 [encodeFrames 0 sampleFrames]
      sampleView).ps.recv = [] := by
  refine ⟨sampleFrames_accepted, ?_, by decide +kernel, by decide +kernel, by decide +kernel⟩
  exact .read .start (by decide +kernel) (by decide +kernel)
    (fun _ _ => trivial)

end App
end Noxtor
