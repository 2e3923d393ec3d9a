import Noxtor.App.ActivePeer
import Noxtor.App.OnionAddress
import Noxtor.App.SlotCoherence
import Mathlib.Data.List.FinRange

/-!
# Where a message goes

`/msg o` takes the first slot in use that has `o` as the name of its contact or as its address,
whatever phase the slot is in.  A contact may be named like the address of another one, and an
address is in the slot from the moment it is dialled.
-/

namespace Noxtor
namespace App

open ByteString Noise

/-- The test of `find_peer_by_name_or_onion` on a slot. -/
def Carries (ps : PeerSession) (onion : Bytes) : Prop :=
  ¬ (ps.fd < 0 ∧ ps.state = .idle) ∧ ((ps.name ≠ [] ∧ ps.name = onion) ∨ ps.peerOnion = onion)

instance (ps : PeerSession) (onion : Bytes) : Decidable (Carries ps onion) :=
  inferInstanceAs (Decidable (_ ∧ _))

/-- The first slot in use that has the address as its name or as its address. -/
def FirstCarrier (s : AppState) (onion : Bytes) (i : Slot) : Prop :=
  Carries (s.peers i) onion ∧ ∀ j < i, ¬ Carries (s.peers j) onion

instance (s : AppState) (onion : Bytes) (i : Slot) : Decidable (FirstCarrier s onion i) :=
  inferInstanceAs (Decidable (_ ∧ _))

/-- The slot that `/msg` passes to `send_segmented_message_to`; without one the text goes to
`queue_segmented_message`, except in ghost mode. -/
def msgTarget (E : Env) (s : AppState) (onion : Bytes) : Option Slot :=
  (findPeerByNameOrOnion E s onion).1.filter fun i =>
    ((findPeerByNameOrOnion E s onion).2.peers i).session.isSome ∧
      0 ≤ ((findPeerByNameOrOnion E s onion).2.peers i).fd

/-- The slot has a session, and its remote key has been claimed for the address. -/
def AuthenticatedAs (P : Primitives) (ps : PeerSession) (onion : Bytes) : Prop :=
  ps.peerOnion = onion ∧
    ∃ session pl, ps.session = some session ∧ Claims P pl onion session.remoteStatic

/-- A message goes to a session with its address, and to the queue only if there is none. -/
structure MsgRouted (P : Primitives) (E : Env) (s : AppState) (onion : Bytes) : Prop where
  sends : ∀ i, msgTarget E s onion = some i → AuthenticatedAs P (s.peers i) onion
  queues : msgTarget E s onion = none → s.sh.ghostMode = false →
    ∀ k, ¬ AuthenticatedAs P (s.peers k) onion

/-- A first carrier with a session is not only named so, and behind one without a session there
is no session with the address. -/
def MsgClear (s : AppState) (onion : Bytes) : Prop :=
  ∀ i, FirstCarrier s onion i →
    ((s.peers i).session ≠ none → (s.peers i).peerOnion = onion) ∧
      ((s.peers i).session = none → s.sh.ghostMode = false →
        ∀ k > i, (s.peers k).session ≠ none → (s.peers k).peerOnion ≠ onion)

instance (s : AppState) (onion : Bytes) : Decidable (MsgClear s onion) :=
  inferInstanceAs (Decidable (∀ _, _ → (_ → _) ∧ (_ → _ → ∀ _ > _, _ → _)))

/-- The line of the command. -/
def msgLine (onion text : Bytes) : AppEvent :=
  .line (cmdMsg ++ onion ++ 0x20 :: text)

section Lookup

variable {P : Primitives} {E : Env} {s : AppState} {onion : Bytes} {i : Slot}

theorem find_slots
    (p : Slot → Bool) :
    slots.find? p = some i ↔ p i = true ∧ ∀ j < i, p j = false := by
  rw [List.find?_eq_some_iff_getElem]
  constructor
  · rintro ⟨hp, n, hn, hi, hbefore⟩
    simp only [slots, List.getElem_finRange] at hi hbefore
    refine ⟨hp, fun j hj => ?_⟩
    have hjn : j.val < n := by
      rw [← hi] at hj
      exact hj
    simpa using hbefore j.val hjn
  · rintro ⟨hp, hbefore⟩
    refine ⟨hp, i.val, by simp [slots], by simp [slots], fun n hn => ?_⟩
    have hlt : (⟨n, hn.trans i.isLt⟩ : Slot) < i := hn
    simpa [slots] using hbefore ⟨n, hn.trans i.isLt⟩ hlt

/-- A slot with a session is found by its address. -/
theorem carries_of_session
    (hok : (life (s.view i)).Ok) (hses : (s.peers i).session ≠ none)
    (honion : (s.peers i).peerOnion = onion) :
    Carries (s.peers i) onion := by
  refine ⟨?_, .inr honion⟩
  rintro ⟨-, hst⟩
  exact hses ((slotOk_idle hok hst).idle hst).2.1

/-- The lookup in the address book finds no slot that the scan has not found. -/
theorem findPeer_fst :
    (findPeerByNameOrOnion E s onion).1 =
      slots.find? fun i => decide (Carries (s.peers i) onion) := by
  have hscan : (slots.find? fun i =>
      ¬ ((s.peers i).fd < 0 ∧ (s.peers i).state = .idle) ∧
        (((s.peers i).name ≠ [] ∧ (s.peers i).name = onion) ∨ (s.peers i).peerOnion = onion)) =
      slots.find? fun i => decide (Carries (s.peers i) onion) := rfl
  unfold findPeerByNameOrOnion
  dsimp only
  rw [hscan]
  cases hfound : slots.find? fun i => decide (Carries (s.peers i) onion) with
  | some i =>
      rfl
  | none =>
      have hnone : ∀ sh, connectedTo { s with sh := sh } onion = none := by
        intro sh
        apply List.find?_eq_none.mpr
        intro i hi hconn
        refine List.find?_eq_none.mp hfound i hi ?_
        obtain ⟨hfd, honion⟩ := of_decide_eq_true hconn
        exact decide_eq_true ⟨fun h => absurd h.1 (not_lt.mpr hfd), .inr honion⟩
      dsimp only
      split_ifs
      · rfl
      · split
        · exact hnone _
        · rfl

/-- The lookup leaves the slots alone. -/
theorem findPeer_peers :
    (findPeerByNameOrOnion E s onion).2.peers = s.peers := by
  unfold findPeerByNameOrOnion
  dsimp only
  split
  · rfl
  · split_ifs
    · rfl
    · split <;> rfl

theorem msgTarget_eq_some :
    msgTarget E s onion = some i ↔
      FirstCarrier s onion i ∧ (s.peers i).session ≠ none ∧ 0 ≤ (s.peers i).fd := by
  rw [msgTarget, findPeer_fst, findPeer_peers, Option.filter_eq_some_iff, find_slots]
  simp [FirstCarrier, Option.isSome_iff_ne_none]

theorem msgTarget_eq_none :
    msgTarget E s onion = none ↔
      ∀ i, FirstCarrier s onion i → (s.peers i).session = none ∨ (s.peers i).fd < 0 := by
  constructor
  · intro hnone i hfirst
    by_contra hcon
    rw [not_or] at hcon
    have hsome := (msgTarget_eq_some (E := E)).mpr ⟨hfirst, hcon.1, not_lt.mp hcon.2⟩
    rw [hnone] at hsome
    cases hsome
  · intro hall
    cases htarget : msgTarget E s onion with
    | none =>
        rfl
    | some i =>
        obtain ⟨hfirst, hses, hfd⟩ := msgTarget_eq_some.mp htarget
        rcases hall i hfirst with h | h
        · exact absurd h hses
        · exact absurd hfd (not_le.mpr h)

/-- Where some slot carries the address, one is the first. -/
theorem exists_firstCarrier
    (h : Carries (s.peers i) onion) :
    ∃ j ≤ i, FirstCarrier s onion j := by
  induction i using WellFoundedLT.induction with
  | ind i ih =>
    by_cases hfirst : ∀ j < i, ¬ Carries (s.peers j) onion
    · exact ⟨i, le_rfl, h, hfirst⟩
    · push Not at hfirst
      obtain ⟨j, hj, hcarries⟩ := hfirst
      obtain ⟨k, hk, hkfirst⟩ := ih j hj hcarries
      exact ⟨k, hk.trans hj.le, hkfirst⟩

theorem FirstCarrier.le
    {k : Slot} (h : FirstCarrier s onion i) (hk : Carries (s.peers k) onion) :
    i ≤ k := by
  by_contra hlt
  exact h.2 k (not_le.mp hlt) hk

/-- A session is authenticated as the address of its slot. -/
theorem authenticatedAs_iff
    (hauth : Authentic P (s.peers i)) :
    AuthenticatedAs P (s.peers i) onion ↔
      (s.peers i).session ≠ none ∧ (s.peers i).peerOnion = onion := by
  constructor
  · rintro ⟨honion, session, pl, hses, -⟩
    exact ⟨by simp [hses], honion⟩
  · rintro ⟨hses, rfl⟩
    obtain ⟨session, hsession⟩ := Option.ne_none_iff_exists'.mp hses
    obtain ⟨pl, hclaim⟩ := hauth.session session.remoteStatic (by rw [hsession]; rfl)
    exact ⟨rfl, session, pl, hsession, hclaim⟩

theorem fd_of_session
    (hok : (life (s.view i)).Ok) (hses : (s.peers i).session ≠ none) :
    0 ≤ (s.peers i).fd := by
  refine hok.1.fd_nonneg ?_
  intro hst
  exact hses ((slotOk_idle hok hst).idle hst).2.1

theorem msgRouted_iff
    (hok : ∀ j, (life (s.view j)).Ok) (hauth : ∀ j, Authentic P (s.peers j)) :
    MsgRouted P E s onion ↔ MsgClear s onion := by
  constructor
  · intro h i hfirst
    constructor
    · intro hses
      have htarget : msgTarget E s onion = some i :=
        msgTarget_eq_some.mpr ⟨hfirst, hses, fd_of_session (hok i) hses⟩
      exact (h.sends i htarget).1
    · intro hses hghost k _ hk honion
      have htarget : msgTarget E s onion = none := by
        apply msgTarget_eq_none.mpr
        intro j hj
        have hij : j = i := le_antisymm (hj.le hfirst.1) (hfirst.le hj.1)
        exact .inl (hij ▸ hses)
      exact h.queues htarget hghost k ((authenticatedAs_iff (hauth k)).mpr ⟨hk, honion⟩)
  · intro h
    constructor
    · intro i htarget
      obtain ⟨hfirst, hses, -⟩ := msgTarget_eq_some.mp htarget
      exact (authenticatedAs_iff (hauth i)).mpr ⟨hses, (h i hfirst).1 hses⟩
    · intro htarget hghost k hk
      obtain ⟨hses, honion⟩ := (authenticatedAs_iff (hauth k)).mp hk
      obtain ⟨i, hik, hfirst⟩ := exists_firstCarrier (carries_of_session (hok k) hses honion)
      have hnone : (s.peers i).session = none := by
        rcases msgTarget_eq_none.mp htarget i hfirst with hnone | hfd
        · exact hnone
        · by_contra hsome
          exact absurd (fd_of_session (hok i) hsome) (not_le.mpr hfd)
      have hlt : i < k := by
        refine lt_of_le_of_ne hik ?_
        rintro rfl
        exact hses hnone
      exact (h i hfirst).2 hnone hghost k hlt hses honion

end Lookup

section Command

variable {P : Primitives} {E : Env} {s : AppState} {i : Slot} {v : View}

/-- The log has grown by effects of one owner. -/
def OwnedLog (owner : Option Slot) (log log' : List Effect) : Prop :=
  ∃ es, log' = log ++ es ∧ ∀ e ∈ es, e.owner = owner

theorem OwnedLog.refl (owner : Option Slot) (log : List Effect) : OwnedLog owner log log :=
  ⟨[], (List.append_nil log).symm, by simp⟩

theorem OwnedLog.trans
    {owner : Option Slot} {l1 l2 l3 : List Effect} (h : OwnedLog owner l1 l2)
    (h' : OwnedLog owner l2 l3) :
    OwnedLog owner l1 l3 := by
  obtain ⟨es, rfl, hes⟩ := h
  obtain ⟨es', rfl, hes'⟩ := h'
  refine ⟨es ++ es', List.append_assoc l1 es es', fun e he => ?_⟩
  rcases List.mem_append.mp he with he | he
  · exact hes e he
  · exact hes' e he

theorem sockWrite_owned
    (data : Bytes) :
    OwnedLog (some i) v.sh.log (sockWrite E i data v).2.sh.log := by
  unfold sockWrite
  cases E.write v.sh.tick with
  | ok n => exact ⟨_, rfl, by simp [Effect.owner]⟩
  | eagain => exact .refl _ _
  | eintr => exact .refl _ _
  | err => exact .refl _ _

theorem peerDisconnected_owned :
    OwnedLog (some i) v.sh.log (smDispatch P E i .peerDisconnected v).2.sh.log := by
  rw [smDispatch_peerDisconnected]
  split
  · exact .refl _ _
  · refine ⟨unlinkPartial i v ++ [.teardown i], by simp [tornDown, actionCleanup], ?_⟩
    intro e he
    rcases List.mem_append.mp he with he | he
    · rw [mem_unlinkPartial he]
      rfl
    · rw [List.mem_singleton.mp he]
      rfl

theorem sendText_owned
    (pt : Bytes) :
    OwnedLog (some i) v.sh.log (sendText P E i pt v).2.sh.log := by
  unfold sendText
  split
  · exact .refl _ _
  · rename_i ct session _
    dsimp only
    have hwrite := sockWrite_owned (E := E) (i := i)
      (v := v.setPs fun ps => { ps with session := session })
      (frameBytes noxMsgText (v.setPs fun ps => { ps with session := session }).ps.txSeq ct)
    split
    · rename_i n v2 hres
      rw [hres] at hwrite
      split
      · exact hwrite.trans peerDisconnected_owned
      · exact hwrite
    · rename_i r v2 _ hres
      rw [hres] at hwrite
      exact hwrite.trans peerDisconnected_owned

theorem segmentLoop_owned
    (msg : Bytes) (fuel offset : Nat) :
    OwnedLog (some i) v.sh.log (segmentLoop P E i msg fuel offset v).2.sh.log := by
  induction fuel generalizing offset v with
  | zero =>
      exact .refl _ _
  | succ fuel ih =>
      unfold segmentLoop
      split
      swap
      · exact .refl _ _
      dsimp only
      have hsend := sendText_owned (P := P) (E := E) (i := i) (v := v)
        ((msg.drop offset).take (noxNextChunkSize msg offset msg.length) ++ [0])
      split
      · rename_i err v1 hres
        rw [hres] at hsend
        exact hsend
      · rename_i v1 hres
        rw [hres] at hsend
        exact hsend.trans (ih _)

theorem sendAndReport_owned
    (msg : Bytes) :
    OwnedLog (some i) s.sh.log (sendAndReport P E i msg s).sh.log := by
  have hsend : OwnedLog (some i) s.sh.log (sendSegmentedMessageTo P E i msg (s.view i)).2.sh.log := by
    unfold sendSegmentedMessageTo
    split
    · exact .refl _ _
    dsimp only
    split
    · exact .refl _ _
    · exact segmentLoop_owned msg msg.length 0
  unfold sendAndReport
  dsimp only [AppState.onSlot, AppState.put]
  generalize sendSegmentedMessageTo P E i msg (s.view i) = r at hsend ⊢
  obtain ⟨_ | _, v1⟩ := r
  · exact hsend
  · exact hsend

theorem dbQueueMessage_owned
    (onion text : Bytes) (sh : Shared) :
    OwnedLog none sh.log (dbQueueMessage E onion text sh).2.log := by
  unfold dbQueueMessage
  split
  · exact .refl _ _
  split
  · exact .refl _ _
  cases E.dbQueueMessage sh.tick with
  | error err => exact .refl _ _
  | ok u => exact ⟨_, rfl, by simp [Effect.owner]⟩

theorem dbQueueRollbackLast_owned
    (onion : Bytes) (count : Nat) (sh : Shared) :
    OwnedLog none sh.log (dbQueueRollbackLast onion count sh).log := by
  unfold dbQueueRollbackLast
  split
  · exact .refl _ _
  · exact ⟨_, rfl, by simp [Effect.owner]⟩

theorem queueLoop_owned
    (onion msg : Bytes) (fuel offset queued : Nat) (sh : Shared) :
    OwnedLog none sh.log (queueLoop E onion msg fuel offset queued sh).2.log := by
  induction fuel generalizing offset queued sh with
  | zero =>
      exact .refl _ _
  | succ fuel ih =>
      unfold queueLoop
      split
      swap
      · exact .refl _ _
      dsimp only
      generalize (msg.drop offset).take (noxNextChunkSize msg offset msg.length) = chunk
      have hq := dbQueueMessage_owned (E := E) onion chunk sh
      generalize dbQueueMessage E onion chunk sh = r at hq ⊢
      obtain ⟨_ | _, sh1⟩ := r
      · dsimp only
        split
        · exact hq.trans (dbQueueRollbackLast_owned onion queued sh1)
        · exact hq
      · exact hq.trans (ih _ _ sh1)

theorem queueSegmentedMessage_owned
    (onion msg : Bytes) (sh : Shared) :
    OwnedLog none sh.log (queueSegmentedMessage E onion msg sh).2.log := by
  unfold queueSegmentedMessage
  split
  · exact .refl _ _
  · exact queueLoop_owned onion msg msg.length 0 0 _

theorem findPeer_owned
    (onion : Bytes) :
    OwnedLog none s.sh.log (findPeerByNameOrOnion E s onion).2.sh.log := by
  have hget : OwnedLog none s.sh.log (dbGetContact E onion s.sh).2.log := by
    unfold dbGetContact
    split <;> exact ⟨_, rfl, by simp [Effect.owner]⟩
  unfold findPeerByNameOrOnion
  dsimp only
  split
  · exact .refl _ _
  · split_ifs
    · exact .refl _ _
    · split <;> exact hget

/-- What `/msg` has done: it has used the session of its target, or the queue. -/
structure MsgDone (E : Env) (onion : Bytes) (s s' : AppState) : Prop where
  peers : ∀ j, s'.peers j ≠ s.peers j → msgTarget E s onion = some j
  log : ∃ es, s'.sh.log = s.sh.log ++ es ∧
    (∀ j bytes, .sent j bytes ∈ es → msgTarget E s onion = some j) ∧
    ∀ o text, .dbQueueMessage o text ∈ es →
      msgTarget E s onion = none ∧ s.sh.ghostMode = false

theorem MsgDone.refused
    {onion : Bytes} {s' : AppState} (hpeers : s'.peers = s.peers) (hlog : s'.sh.log = s.sh.log) :
    MsgDone E onion s s' :=
  ⟨fun j hj => absurd (congrFun hpeers j) hj, [], by simp [hlog], by simp, by simp⟩

theorem MsgDone.queued
    {onion : Bytes} {s' : AppState} (htarget : msgTarget E s onion = none)
    (hghost : s.sh.ghostMode = false) (hpeers : s'.peers = s.peers)
    (hlog : OwnedLog none s.sh.log s'.sh.log) :
    MsgDone E onion s s' := by
  obtain ⟨es, hes, hown⟩ := hlog
  refine ⟨fun j hj => absurd (congrFun hpeers j) hj, es, hes, fun j bytes hsent => ?_,
    fun o text _ => ⟨htarget, hghost⟩⟩
  cases hown _ hsent

theorem MsgDone.sent
    {onion : Bytes} {s' : AppState} (htarget : msgTarget E s onion = some i)
    (hpeers : ∀ j ≠ i, s'.peers j = s.peers j) (hlog : OwnedLog (some i) s.sh.log s'.sh.log) :
    MsgDone E onion s s' := by
  obtain ⟨es, hes, hown⟩ := hlog
  refine ⟨fun j hj => ?_, es, hes, fun j bytes hsent => ?_, fun o text hqueue => ?_⟩
  · by_cases hji : j = i
    · rw [hji]
      exact htarget
    · exact absurd (hpeers j hji) hj
  · have hj : some j = some i := hown _ hsent
    rw [hj]
    exact htarget
  · cases hown _ hqueue

/-- A slot that is found is found by the scan. -/
theorem findPeer_snd_of_some
    {onion : Bytes} (h : (findPeerByNameOrOnion E s onion).1 = some i) :
    (findPeerByNameOrOnion E s onion).2 = s := by
  have hscan : (slots.find? fun i =>
      ¬ ((s.peers i).fd < 0 ∧ (s.peers i).state = .idle) ∧
        (((s.peers i).name ≠ [] ∧ (s.peers i).name = onion) ∨ (s.peers i).peerOnion = onion)) =
      some i := by
    rw [findPeer_fst] at h
    exact h
  unfold findPeerByNameOrOnion
  dsimp only
  rw [hscan]

theorem findPeer_ghostMode
    (onion : Bytes) :
    (findPeerByNameOrOnion E s onion).2.sh.ghostMode = s.sh.ghostMode := by
  have hget : (dbGetContact E onion s.sh).2.ghostMode = s.sh.ghostMode := by
    unfold dbGetContact
    split <;> rfl
  unfold findPeerByNameOrOnion
  dsimp only
  split
  · rfl
  · split_ifs
    · rfl
    · split <;> exact hget

theorem findPeer_log_of_ghost
    (onion : Bytes) (hghost : s.sh.ghostMode = true) :
    (findPeerByNameOrOnion E s onion).2.sh.log = s.sh.log := by
  unfold findPeerByNameOrOnion
  dsimp only
  split
  · rfl
  · rw [if_pos hghost]

theorem msgCommand_done
    (args : Bytes) :
    MsgDone E (nextWord (skipBlanks args)).1 s (msgCommand P E args s) := by
  unfold msgCommand
  dsimp only
  generalize (nextWord (skipBlanks args)).1 = onion
  generalize skipBlanks (nextWord (skipBlanks args)).2 = msg
  split
  · exact .refused rfl rfl
  split
  · exact .refused rfl rfl
  split
  · exact .refused rfl rfl
  cases htarget : msgTarget E s onion with
  | some i =>
      have hfound := findPeer_snd_of_some (Option.eq_some_of_filter_eq_some htarget)
      rw [msgTarget] at htarget
      rw [htarget, hfound]
      exact .sent htarget (fun j hj => AppState.put_peers_ne s _ hj) (sendAndReport_owned msg)
  | none =>
      have hmatch := htarget
      rw [msgTarget] at hmatch
      rw [hmatch]
      dsimp only
      split_ifs with hghost
      · rw [findPeer_ghostMode] at hghost
        exact .refused findPeer_peers (findPeer_log_of_ghost onion hghost)
      · rw [findPeer_ghostMode, Bool.not_eq_true] at hghost
        have hlog := (findPeer_owned (E := E) (s := s) onion).trans
          (queueSegmentedMessage_owned (E := E) onion msg (findPeerByNameOrOnion E s onion).2.sh)
        generalize queueSegmentedMessage E onion msg (findPeerByNameOrOnion E s onion).2.sh = q
          at hlog ⊢
        obtain ⟨_ | _, sh1⟩ := q
        · exact .queued htarget hghost findPeer_peers hlog
        · exact .queued htarget hghost findPeer_peers hlog

theorem processLine_msg
    (rest : Bytes) :
    processLine P E (cmdMsg ++ rest) s = msgCommand P E rest s := by
  have hslash : slashCount (cmdMsg ++ rest) = 1 := by
    simp [slashCount, cmdMsg]
  have hyes : isYes (cmdMsg ++ rest) = false := by
    simp [isYes, cmdMsg, toLower]
  have hno : isNo (cmdMsg ++ rest) = false := by
    simp [isNo, cmdMsg, toLower]
  have hcommand : commandLine P E (cmdMsg ++ rest) s = msgCommand P E rest s := by
    unfold commandLine
    rw [hslash, if_neg (by decide), if_neg (by simp [cmdMsg, cmdQuit]),
      if_neg (by simp [cmdMsg, cmdHelp]), if_neg (by simp [cmdMsg, cmdAddr]),
      if_neg (by simp [cmdMsg, cmdAdd]), if_pos (by simp [cmdMsg])]
    rfl
  unfold processLine
  rw [hslash, hyes, hno, if_neg (by simp), if_neg (by simp), if_neg (by simp), if_pos le_rfl]
  exact hcommand

end Command

/-- An address has no NUL and no blank in it. -/
theorem validateOnionInput_bytes
    {onion : Bytes} (h : validateOnionInput onion = true) :
    ∀ c ∈ onion, c ≠ 0 ∧ c ≠ 0x20 := by
  obtain ⟨cs, rfl, -, hcs⟩ := (validateOnionInput_iff onion).mp h
  have hsuffix : ∀ c ∈ onionSuffix, c ≠ 0 ∧ c ≠ 0x20 := by
    simp [onionSuffix]
  intro c hc
  rcases List.mem_append.mp hc with hc | hc
  · constructor
    · rintro rfl
      exact hcs 0 hc (by decide)
    · rintro rfl
      exact hcs 0x20 hc (by decide)
  · exact hsuffix c hc

theorem appStep_msgLine
    {P : Primitives} {E : Env} {s : AppState} {onion : Bytes} (text : Bytes)
    (h : validateOnionInput onion = true) :
    appStep P E s (msgLine onion text) = msgCommand P E (onion ++ 0x20 :: cstr text) s ∧
      (nextWord (skipBlanks (onion ++ 0x20 :: cstr text))).1 = onion := by
  have hbytes := validateOnionInput_bytes h
  have hzero : cstr (cmdMsg ++ onion ++ 0x20 :: text) = cmdMsg ++ (onion ++ 0x20 :: cstr text) := by
    have hcmd : ∀ c ∈ cmdMsg, (fun c : UInt8 => decide (c ≠ 0)) c = true := by
      simp [cmdMsg]
    have honion : ∀ c ∈ onion, (fun c : UInt8 => decide (c ≠ 0)) c = true := fun c hc =>
      decide_eq_true (hbytes c hc).1
    rw [cstr, List.append_assoc, List.takeWhile_append_of_pos hcmd,
      List.takeWhile_append_of_pos honion]
    simp [cstr]
  constructor
  · rw [msgLine, appStep, hzero, processLine_msg]
  · cases onion with
    | nil =>
        cases h
    | cons c rest =>
        have hc := (hbytes c List.mem_cons_self).2
        have hblank : ∀ d ∈ c :: rest, (fun d : UInt8 => decide (d ≠ 0x20)) d = true :=
          fun d hd => decide_eq_true (hbytes d hd).2
        have hskip : skipBlanks (c :: rest ++ 0x20 :: cstr text) = c :: rest ++ 0x20 :: cstr text := by
          simp [skipBlanks, hc]
        rw [hskip, nextWord, List.takeWhile_append_of_pos hblank]
        simp

/--
A message to `onion` is routed as it should be exactly if the first slot that carries the address
is not another contact of that name, and does not hide a session with the address.  The command
changes no other slot than the one it has found, and uses the queue only if it has found none.
-/
theorem msg_routing_iff
    (P : Primitives) (E : Env) (c : Config) (evs : List AppEvent) (onion text : Bytes)
    (hvalid : validateOnionInput onion = true) :
    (MsgRouted P E (appRun P E (initialState c) evs) onion ↔
        MsgClear (appRun P E (initialState c) evs) onion) ∧
      MsgDone E onion (appRun P E (initialState c) evs)
        (appStep P E (appRun P E (initialState c) evs) (msgLine onion text)) := by
  have hok : (world (appRun P E (initialState c) evs)).Ok := appRun_ok evs (initialState_ok c)
  have hauth := appRun_authentic (P := P) (E := E) c evs
  generalize appRun P E (initialState c) evs = s at hok hauth ⊢
  constructor
  · refine msgRouted_iff (fun j => ?_) hauth
    rw [← world_view]
    exact hok j
  · obtain ⟨hstep, hword⟩ := appStep_msgLine (P := P) (E := E) (s := s) text hvalid
    have hdone := msgCommand_done (P := P) (E := E) (s := s) (onion ++ 0x20 :: cstr text)
    rw [hword] at hdone
    rw [hstep]
    exact hdone

/-- The contact "b" has come in, and a message to its address goes to it. -/
theorem msg_routing_iff_known :
    validateOnionInput (sampleOnion 0x61) = true ∧
      MsgRouted samplePrimitives knownEnv
        (appRun samplePrimitives knownEnv (initialState sampleConfig)
          [.accept, .peer 5 false true, .peer 5 false true]) (sampleOnion 0x61) ∧
      msgTarget knownEnv (appRun samplePrimitives knownEnv (initialState sampleConfig)
          [.accept, .peer 5 false true, .peer 5 false true]) (sampleOnion 0x61) = some 0 := by
  have hvalid : validateOnionInput (sampleOnion 0x61) = true := by
    decide +kernel
  refine ⟨hvalid, (msg_routing_iff samplePrimitives knownEnv sampleConfig
    [.accept, .peer 5 false true, .peer 5 false true] (sampleOnion 0x61) [0x68] hvalid).1.mpr ?_, ?_⟩
  · decide +kernel
  · decide +kernel

/-- A caller with the key 7 comes in whose contact is named like another address. -/
def namesakeEnv : Env :=
  { sampleEnv with
    accept := fun _ => some 5
    recv := fun t =>
      if t = 8 then .data (sampleFrame 0x61 7 false)
      else if t = 18 then .data (sampleFrame 0x61 7 true)
      else .data []
    dbGetContact := fun _ _ => .ok (sampleOnion 0x62, Block.zero 32) }

/-- The user has added the contact under that name, and accepts its key. -/
def namesakeState : AppState :=
  appRun samplePrimitives namesakeEnv (initialState sampleConfig)
    [.line (cmdAdd ++ sampleOnion 0x61 ++ [0x20] ++ sampleOnion 0x62), .accept,
      .peer 5 false true, .peer 5 false true, .line [0x79]]

/-- The contact "b" comes in while it is dialled. -/
def dialledEnv : Env :=
  { sampleEnv with
    socks5Connect := fun _ => some 6
    accept := fun _ => some 5
    recv := fun t =>
      if t = 17 then .data (sampleFrame 0x61 7 false)
      else if t = 27 then .data (sampleFrame 0x61 7 true)
      else .data []
    dbGetContact := fun _ _ => .ok ([0x62], (samplePair 7).pub) }

/-- The dialled slot waits for an answer, and the session is in the next one. -/
def dialledState : AppState :=
  appRun samplePrimitives dialledEnv (initialState sampleConfig)
    [.line (cmdConnect ++ sampleOnion 0x61), .accept, .peer 5 false true, .peer 5 false true]

/--
A message to one address is encrypted for the contact of that name, which is authenticated as
another address; and a message is queued although there is a session with its address.
-/
theorem msg_misrouted :
    ((namesakeState.peers 0).peerOnion = sampleOnion 0x61 ∧
      (noiseEncrypt samplePrimitives (namesakeState.peers 0).session (.data [0x68, 0]) true).1.map
          (fun ct => Effect.sent 0 (frameBytes noxMsgText (namesakeState.peers 0).txSeq ct)) =
        (appStep samplePrimitives namesakeEnv namesakeState
          (msgLine (sampleOnion 0x62) [0x68])).sh.log.getLast? ∧
      ¬ MsgRouted samplePrimitives namesakeEnv namesakeState (sampleOnion 0x62)) ∧
    (AuthenticatedAs samplePrimitives (dialledState.peers 1) (sampleOnion 0x61) ∧
      .dbQueueMessage (sampleOnion 0x61) [0x68] ∈ stepEffects samplePrimitives dialledEnv
        dialledState (msgLine (sampleOnion 0x61) [0x68]) ∧
      ¬ MsgRouted samplePrimitives dialledEnv dialledState (sampleOnion 0x61)) := by
  have hauth : AuthenticatedAs samplePrimitives (dialledState.peers 1) (sampleOnion 0x61) := by
    have hinv : Authentic samplePrimitives (dialledState.peers 1) := by
      unfold dialledState
      exact appRun_authentic sampleConfig _ 1
    exact (authenticatedAs_iff hinv).mpr (by decide +kernel)
  refine ⟨⟨by decide +kernel, by decide +kernel, fun h => ?_⟩, hauth, by decide +kernel, fun h => ?_⟩
  · have htarget : msgTarget namesakeEnv namesakeState (sampleOnion 0x62) = some 0 := by
      decide +kernel
    exact absurd (h.sends 0 htarget).1 (by decide +kernel)
  · have htarget : msgTarget dialledEnv dialledState (sampleOnion 0x61) = none := by
      decide +kernel
    exact h.queues htarget (by decide +kernel) 1 hauth

end App
end Noxtor
