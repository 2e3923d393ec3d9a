import Noxtor.App.SlotDeeds

/-!
# Deeds of the frame loop

A turn of `process_peer_frames` is a sequence of deeds: a handshake frame may end in a
session, in a prompt or in a teardown, and a session frame in what the text and the file
transfer do.
-/

namespace Noxtor
namespace App

open ByteString Noise

section Handshake

variable {P : Primitives} {E : Env} {cmd : Cmd} {i : Slot} {v : View}

/-- Two views that differ in what a teardown wipes are torn down alike. -/
theorem minor_tornDown
    {w : View} (hps : cleanedSlot w.ps = cleanedSlot v.ps) (hrx : w.ps.rxFile = v.ps.rxFile)
    (hsh : w.sh.core = v.sh.core) (hlog : w.sh.log = v.sh.log) :
    Minor (tornDown i v) (tornDown i w) := by
  have hdir : w.sh.core.downloadsDirFd = v.sh.core.downloadsDirFd := by
    rw [hsh]
  change w.sh.downloadsDirFd = v.sh.downloadsDirFd at hdir
  have hun : unlinkPartial i w = unlinkPartial i v := by
    unfold unlinkPartial
    rw [hrx, hdir]
  apply Minor.of_eq
  · show ({ cleanedSlot w.ps with state := .idle } : PeerSession).core = _
    rw [hps]
    rfl
  · show ({ w.sh.core with
      activePeerIdx := if w.sh.core.activePeerIdx = i.val then -1 else w.sh.core.activePeerIdx
      activePeerOnion := if w.sh.core.activePeerIdx = i.val then []
        else w.sh.core.activePeerOnion } : Shared) = _
    rw [hsh]
    rfl
  · show w.sh.log ++ unlinkPartial i w ++ [.teardown i] = _
    rw [hlog, hun]
    rfl

theorem rejectHandshake_deeds
    (message : String) (hst : v.ps.state.Handshaking) :
    Deeds P E cmd i v (rejectHandshake P E i message v) := by
  unfold rejectHandshake
  rw [smDispatch_handshake_torn (v := v.uiPrintError message []) hst (Or.inl rfl)]
  exact Deeds.after (Minor.say _ _ _ v) (.torn hst.ne_idle)

/-- A handshake message that cannot be read. -/
theorem misheard_deeds
    (message : String) (hcmd : cmd = .read) (hst : v.ps.state.Handshaking) :
    Deeds P E cmd i v (rejectHandshake P E i message (v.emit [.heard i none])) := by
  unfold rejectHandshake
  rw [smDispatch_handshake_torn (v := (v.emit [.heard i none]).uiPrintError message []) hst
    (Or.inl rfl)]
  exact Deeds.after (Minor.say .error message [] v) (.misheard hcmd hst)

/-- The session with a known peer comes up. -/
theorem minor_sessionUp
    (onion name : Bytes) (session : NoiseSession) (hst : v.ps.state.Handshaking) :
    Minor (knownUp i onion session v) (sessionUp P E i onion name session v) := by
  unfold sessionUp
  dsimp only
  generalize hu : (v.tickOn.setPs _) = u
  have hus : u.ps.state.Handshaking := by
    rw [← hu]
    exact hst
  rw [smDispatch_sessionReady hus, ← hu]
  exact (Minor.of_eq rfl rfl rfl)

/-- The prompt opens an epoch, and perhaps arms the snapshot. -/
theorem minor_tofuWait
    (hst : v.ps.state.Handshaking) :
    Minor (v.setPs fun ps => { ps with state := .tofuPending }) (tofuWait P E i v) := by
  unfold tofuWait
  generalize hu : (v.tickOn.setPs fun ps => { ps with tofuStart := E.clock v.sh.tick }) = u
  have hus : u.ps.state.Handshaking := by
    rw [← hu]
    exact hst
  rw [smDispatch_handshakeDone hus, ← hu]
  unfold actionTofuPrompt
  dsimp only
  split
  · refine ⟨rfl, rfl, ?_⟩
    refine ⟨[_, _], rfl, fun e he => ?_⟩
    simp only [List.mem_cons, List.not_mem_nil, or_false] at he
    obtain rfl | rfl := he <;> rfl
  · exact ⟨rfl, rfl, MinorLog.snoc _ rfl⟩

/-- The lines of a prompt are minor. -/
theorem minor_prompt
    {u w : View} (hst : u.ps.state.Handshaking) (h : Minor u w) (hps : w.ps = u.ps) :
    Minor (u.setPs fun ps => { ps with state := .tofuPending }) (tofuWait P E i w) := by
  have hw := minor_tofuWait (P := P) (E := E) (i := i) (v := w) (by rw [hps]; exact hst)
  have hset : Minor (u.setPs fun ps => { ps with state := .tofuPending })
      (w.setPs fun ps => { ps with state := .tofuPending }) :=
    ⟨by rw [View.setPs_ps, View.setPs_ps, hps], h.sh, h.log⟩
  exact hset.trans hw

theorem minor_changedKey
    (fd : Int) (onion name : Bytes) (key : Key) (hst : v.ps.state.Handshaking) :
    Minor (prompted fd onion name key false (v.emit [.keyChanged i onion]))
      (changedKey P E i fd onion name key v) := by
  unfold changedKey prompted
  dsimp only
  have hfill : (tofuFill fd onion name key false
      (v.emit [.keyChanged i onion])).ps.state.Handshaking := hst
  generalize tofuFill fd onion name key false (v.emit [.keyChanged i onion]) = u at hfill ⊢
  apply minor_prompt hfill
  · apply Minor.thenError
    apply Minor.thenEmit rfl
    apply Minor.thenError
    apply Minor.thenError
    apply Minor.thenError
    apply Minor.thenError
    exact Minor.refl u
  · simp only [View.uiPrintError_ps, View.emit_ps]

theorem minor_newPeer
    (fd : Int) (onion name : Bytes) (placeholder : Bool) (key : Key)
    (hst : v.ps.state.Handshaking) :
    ∃ shown, Minor (prompted fd onion shown key placeholder (v.emit [.newPeer i onion]))
      (newPeer P E i fd onion name placeholder key v) := by
  unfold newPeer prompted
  dsimp only
  generalize hshown : strCopy noxContactNameLen _ = shown
  refine ⟨shown, ?_⟩
  have hfill : (tofuFill fd onion shown key placeholder
      (v.emit [.newPeer i onion])).ps.state.Handshaking := hst
  generalize tofuFill fd onion shown key placeholder (v.emit [.newPeer i onion]) = u at hfill ⊢
  generalize hw : View.uiPrintSystem
    "  [?] Bu bağlantıyı onaylıyor ve rehbere kaydediyor musunuz? (y/n): " [] _ = w
  have hlines : Minor u w ∧ w.ps = u.ps := by
    rw [← hw]
    constructor
    · apply Minor.thenSystem
      apply Minor.thenEmit rfl
      apply Minor.thenSystem
      apply Minor.thenSystem
      apply Minor.thenSystem
      exact Minor.refl u
    · simp only [View.uiPrintSystem_ps, View.emit_ps]
  apply minor_prompt hfill
  · split
    · exact (hlines.1.thenError _ _).thenError _ _
    · exact hlines.1
  · split
    · exact hlines.2
    · exact hlines.2

/-- The stored key is the key of the handshake: the session comes up, or the slot goes. -/
theorem knownPeer_deeds
    {hs : NoiseHandshake} {pre : List Effect} (onion name : Bytes) (hcmd : cmd = .read)
    (hst : v.ps.state.Handshaking) (hghost : v.sh.ghostMode = false)
    (hclaim : ∃ pl, Claims P pl onion hs.rs)
    (htarget : v.ps.connectTarget ≠ [] → onion = v.ps.connectTarget)
    (hlog : v.sh.log = pre ++ [.claim i onion hs.rs, .dbGetContact onion (some (name, hs.rs))])
    (hzero : hs.rs ≠ Block.zero 32) (hheard : Heard i v.sh.log) :
    Deeds P E cmd i v (knownPeer P E i hs onion name v) := by
  unfold knownPeer sodiumMalloc
  cases E.malloc v.sh.tick with
  | false =>
      dsimp only
      rw [smDispatch_handshake_torn (v := v.tickOn.uiPrintError _ []) hst (Or.inr (Or.inr rfl))]
      exact Deeds.after ((Minor.tickOn v).trans (Minor.say _ _ _ _)) (.torn hst.ne_idle)
  | true =>
      dsimp only
      have h2 := (Minor.tickOn v).trans (Minor.tickOn v.tickOn)
      cases hsplit : handshakeSplit P (E.hkdfAlloc v.tickOn.sh.tick) hs with
      | error err hs' =>
          -- the raw session is wiped together with the slot
          dsimp only
          unfold rejectHandshake
          generalize hu : (v.tickOn.tickOn.setPs fun ps =>
            { ps with hs := some hs', session := some rawSession }) = u
          have hust : u.ps.state.Handshaking := by
            rw [← hu]
            exact hst
          rw [smDispatch_handshake_torn (v := u.uiPrintError _ []) hust (Or.inl rfl), ← hu]
          refine Deeds.before (.torn hst.ne_idle) (minor_tornDown ?_ ?_ ?_ ?_)
          · simp only [View.uiPrintError_ps, View.setPs_ps, View.tickOn_ps]
            rfl
          · simp
          · simp
          · simp
      | ok session hs' =>
          dsimp only
          have hremote := handshakeSplit_remote hsplit
          rw [← hremote] at hclaim hlog hzero
          refine (Deeds.of_minor h2).trans (Deeds.before (.known pre onion name session hcmd hst
            hghost hclaim htarget hlog hzero hheard) (minor_sessionUp onion name session hst))

/-- The lookup is made unless in ghost mode, and its row is recorded. -/
theorem contactLookup_cases
    (onion : Bytes) (v : View) :
    (v.sh.ghostMode = true ∧ contactLookup E onion v = (.error .db, v)) ∨
      (v.sh.ghostMode = false ∧
        (contactLookup E onion v).2.ps = v.ps ∧
        (contactLookup E onion v).2.sh.core = v.sh.core ∧
        (contactLookup E onion v).2.sh.log =
          v.sh.log ++ [.dbGetContact onion (contactLookup E onion v).1.toOption]) := by
  unfold contactLookup
  split
  · rename_i hghost
    exact Or.inl ⟨hghost, rfl⟩
  · rename_i hghost
    refine Or.inr ⟨by simpa using hghost, ?_⟩
    unfold dbGetContact
    split <;> exact ⟨rfl, rfl, rfl⟩

/-- The same effects after minor changes without effects. -/
theorem minor_emit_both
    {u w : View} (es : List Effect) (hps : w.ps = u.ps) (hsh : w.sh.core = u.sh.core)
    (hlog : w.sh.log = u.sh.log) :
    Minor (u.emit es) (w.emit es) := by
  refine Minor.of_eq ?_ hsh ?_
  · rw [View.emit_ps, View.emit_ps, hps]
  · rw [View.emit_log, View.emit_log, hlog]

theorem contactDecision_deeds
    {hs : NoiseHandshake} (fd : Int) (pl onion : Bytes) (hcmd : cmd = .read)
    (hst : v.ps.state.Handshaking) (hclaim : Claims P pl onion hs.rs)
    (htarget : v.ps.connectTarget ≠ [] → onion = v.ps.connectTarget)
    (hheard : Heard i v.sh.log) :
    Deeds P E cmd i v (contactDecision P E i fd hs onion v) := by
  unfold contactDecision
  rcases contactLookup_cases (E := E) onion (v.emit [.claim i onion hs.rs]) with
    ⟨hghost, heq⟩ | ⟨hghost, hps, hsh, hlog⟩
  · -- ghost mode: every peer is new
    rw [heq]
    dsimp only
    have hgreet := Deed.greeted (P := P) (E := E) (i := i) (v := v) pl onion hs.rs none hcmd hst
      hclaim (by simp)
    rw [if_pos (show v.sh.ghostMode = true from hghost)] at hgreet
    have hemit : (v.emit [.claim i onion hs.rs]).emit [.newPeer i onion] =
        v.emit ([.claim i onion hs.rs] ++ [] ++ [.newPeer i onion]) := by
      simp [View.emit, View.setSh]
    rw [← hemit] at hgreet
    obtain ⟨shown, h⟩ := minor_newPeer (P := P) (E := E) (i := i)
      (v := v.emit [.claim i onion hs.rs]) fd onion [] false hs.rs hst
    exact (Deeds.one hgreet).trans (Deeds.before
      (.prompted fd onion shown hs.rs false hcmd hst ⟨pl, hclaim⟩ htarget
        ((hheard.append (by simp) (by simp)).append (by simp) (by simp))) h)
  have hghost' : v.sh.ghostMode = false := hghost
  generalize contactLookup E onion (v.emit [.claim i onion hs.rs]) = r at hps hsh hlog ⊢
  obtain ⟨answer, w⟩ := r
  dsimp only at hps hsh hlog ⊢
  rw [View.emit_ps] at hps
  rw [View.emit_log, List.append_assoc] at hlog
  have hwst : w.ps.state.Handshaking := by
    rw [hps]
    exact hst
  have hwtarget : w.ps.connectTarget ≠ [] → onion = w.ps.connectTarget := by
    rw [hps]
    exact htarget
  have hwghost : w.sh.core.ghostMode = v.sh.core.ghostMode := by
    rw [hsh]
    rfl
  change w.sh.ghostMode = v.sh.ghostMode at hwghost
  have hwheard : Heard i w.sh.log := by
    rw [hlog]
    exact hheard.append (by simp) (by simp)
  -- an outcome `e` that is recorded behind the claim and the lookup
  have hafter : ∀ e, Minor
      (v.emit ([.claim i onion hs.rs, .dbGetContact onion answer.toOption] ++ [e]))
      (w.emit [e]) := by
    intro e
    have hemit : v.emit ([.claim i onion hs.rs, .dbGetContact onion answer.toOption] ++ [e]) =
        (v.emit [.claim i onion hs.rs, .dbGetContact onion answer.toOption]).emit [e] := by
      simp [View.emit, View.setSh]
    rw [hemit]
    exact minor_emit_both [e] hps hsh hlog
  have hnew : ∀ name placeholder,
      (∀ name stored, answer.toOption = some (name, stored) → stored = Block.zero 32) →
      Deeds P E cmd i v (newPeer P E i fd onion name placeholder hs.rs w) := by
    intro name placeholder hrow
    obtain ⟨shown, h⟩ := minor_newPeer (P := P) (E := E) (i := i) fd onion name placeholder hs.rs
      hwst
    have hgreet := Deed.greeted (P := P) (E := E) (i := i) (v := v) pl onion hs.rs
      answer.toOption hcmd hst hclaim hrow
    rw [if_neg (by rw [hghost']; decide)] at hgreet
    exact (Deeds.before hgreet (hafter (.newPeer i onion))).trans (Deeds.before
      (.prompted fd onion shown hs.rs placeholder hcmd hwst ⟨pl, hclaim⟩ hwtarget
        (hwheard.append (by simp) (by simp))) h)
  cases answer with
  | error err =>
      exact hnew [] false (fun name stored h => by cases h)
  | ok row =>
      obtain ⟨name, stored⟩ := row
      dsimp only
      split
      · rename_i hzero
        refine hnew name true (fun name' stored' h => ?_)
        cases h
        exact hzero
      rename_i hzero
      split
      · rename_i hkey
        subst hkey
        refine (Deeds.before (.recognised pl onion name hs.rs hcmd hst hghost' hclaim hzero)
          (Minor.of_eq ?_ hsh hlog)).trans (knownPeer_deeds onion name hcmd hwst
            (hwghost.trans hghost') ⟨pl, hclaim⟩ hwtarget hlog hzero hwheard)
        rw [hps]
        rfl
      · rename_i hkey
        exact (Deeds.before (.warned pl onion name hs.rs stored hcmd hst hclaim hzero hkey)
          (hafter (.keyChanged i onion))).trans (Deeds.before
            (.prompted fd onion name hs.rs false hcmd hwst ⟨pl, hclaim⟩ hwtarget
              (hwheard.append (by simp) (by simp)))
            (minor_changedKey fd onion name hs.rs hwst))

theorem completeHandshake_deeds
    {hs : NoiseHandshake} (fd : Int) (pl : Bytes) (hcmd : cmd = .read)
    (hst : v.ps.state.Handshaking) (hheard : Heard i v.sh.log) :
    Deeds P E cmd i v (completeHandshake P E i fd pl hs v) := by
  unfold completeHandshake
  split
  · exact rejectHandshake_deeds _ hst
  rename_i hform
  split
  · rw [smDispatch_handshake_torn hst (Or.inl rfl)]
    exact Deeds.one (.torn hst.ne_idle)
  rename_i hvalid
  split
  · exact rejectHandshake_deeds _ hst
  rename_i hsig
  split
  · exact rejectHandshake_deeds _ hst
  rename_i htarget
  rw [not_not] at hform hsig
  refine contactDecision_deeds fd pl (claimOnion pl) hcmd hst
    ⟨hform.1, hform.2, rfl, by simpa using hvalid, cryptoOnionVerify_ok hsig⟩ ?_ hheard
  intro hne
  by_contra hother
  exact htarget ⟨hne, hother⟩

/-- A write of a slot that has no session yet. -/
theorem sockWrite_deeds
    (data : Bytes) (hsend : ∀ (u : View) (bytes : Bytes), u.sh.log = v.sh.log →
      Deed P E cmd i u (u.emit [.sent i bytes])) :
    Deeds P E cmd i v (sockWrite E i data v).2 := by
  unfold sockWrite
  cases E.write v.sh.tick with
  | ok n => exact Deeds.after (Minor.tickOn v) (hsend v.tickOn (data.take n) rfl)
  | eagain => exact Deeds.of_minor (Minor.tickOn v)
  | eintr => exact Deeds.of_minor (Minor.tickOn v)
  | err => exact Deeds.of_minor (Minor.tickOn v)

/-- The reply of a running handshake, right after a message has been read. -/
theorem handshakeReply_deeds
    {hs : NoiseHandshake} {pre : List Effect} {pl : Bytes} {rs : Key}
    (hst : v.ps.state.Handshaking) (hhs : v.ps.hs = some hs)
    (hlog : v.sh.log = pre ++ [.heard i (some (pl, rs))]) :
    Deeds P E cmd i v (handshakeReply P E i v).2 := by
  unfold handshakeReply
  rw [hhs]
  dsimp only
  split
  swap
  · exact Deeds.refl v
  cases hsBuildClaimPayload P v.sh with
  | error err =>
      exact rejectHandshake_deeds _ hst
  | ok claim =>
      dsimp only [hsTicks]
      have h1 := (Minor.tickOn v).thenTick
      cases handshakeWrite P (hsCallAt E v.sh.tick) (.data claim) (some noiseMaxHandshakeLen) hs with
      | error err hs' =>
          exact (Deeds.of_minor (h1.trans (Minor.setPs _ rfl))).trans
            (rejectHandshake_deeds _ hst)
      | ok msg hs' =>
          dsimp only
          generalize hv2 : (v.tickOn.tickOn.setPs fun ps => { ps with hs := some hs' }) = v2
          have h2 : Minor v v2 := by
            rw [← hv2]
            exact h1.trans (Minor.setPs _ rfl)
          have hst2 : v2.ps.state = v.ps.state ∧ v2.sh.log = v.sh.log := by
            rw [← hv2]
            exact ⟨rfl, rfl⟩
          have h3 : Deeds P E cmd i v2
              (sockWrite E i (frameBytes noxMsgCtrl v2.ps.txSeq msg) v2).2 :=
            sockWrite_deeds _ fun u bytes hu =>
              .replied pre pl bytes rs (by rw [hu, hst2.2, hlog])
          have hps := sockWrite_ps E i (frameBytes noxMsgCtrl v2.ps.txSeq msg) v2
          generalize sockWrite E i (frameBytes noxMsgCtrl v2.ps.txSeq msg) v2 = w at h3 hps ⊢
          obtain ⟨r, v3⟩ := w
          dsimp only at h3 hps
          have h23 := (Deeds.of_minor h2).trans h3
          have hst3 : v3.ps.state.Handshaking := by
            rw [hps, hst2.1]
            exact hst
          have hfail : Deeds P E cmd i v
              (rejectHandshake P E i "Handshake yanıtı gönderilemedi" v3) :=
            h23.trans (rejectHandshake_deeds _ hst3)
          cases r with
          | ok n =>
              dsimp only
              split
              · exact hfail
              · exact h23.trans
                  (Deeds.of_minor ((Minor.setPs v3 rfl).trans (minor_touchLastActive _)))
          | eagain => exact hfail
          | eintr => exact hfail
          | err => exact hfail

/-- A reply that has gone out is the only trace of the reply. -/
theorem handshakeReply_log :
    (handshakeReply P E i v).1 = true → (handshakeReply P E i v).2.sh.log = v.sh.log ∨
      ∃ bytes, (handshakeReply P E i v).2.sh.log = v.sh.log ++ [.sent i bytes] := by
  unfold handshakeReply
  cases v.ps.hs with
  | none => exact fun h => by cases h
  | some hs =>
      dsimp only
      split
      swap
      · exact fun _ => Or.inl rfl
      cases hsBuildClaimPayload P v.sh with
      | error err => exact fun h => by cases h
      | ok claim =>
          dsimp only
          cases handshakeWrite P (hsCallAt E v.sh.tick) (.data claim)
              (some noiseMaxHandshakeLen) hs with
          | error err hs' => exact fun h => by cases h
          | ok msg hs' =>
              dsimp only
              generalize hv2 : ((hsTicks v).setPs fun ps => { ps with hs := some hs' }) = v2
              have hlog2 : v2.sh.log = v.sh.log := by
                rw [← hv2]
                rfl
              unfold sockWrite
              cases E.write v2.sh.tick with
              | ok n =>
                  dsimp only
                  split
                  · exact fun h => by cases h
                  · intro _
                    rw [← hlog2]
                    exact Or.inr ⟨_, rfl⟩
              | eagain => exact fun h => by cases h
              | eintr => exact fun h => by cases h
              | err => exact fun h => by cases h

theorem handshakeFrame_deeds
    {hs : NoiseHandshake} (fd : Int) (payload : Bytes) (hcmd : cmd = .read)
    (hst : v.ps.state.Handshaking) :
    Deeds P E cmd i v (handshakeFrame P E i fd payload hs v).view := by
  unfold handshakeFrame
  dsimp only [hsTicks]
  have h1 := (Minor.tickOn v).thenTick
  cases handshakeRead P (hsCallAt E v.sh.tick) (.data payload) (some noxHsPayloadV1Len) hs with
  | error err hs' =>
      exact (Deeds.of_minor (h1.trans (Minor.setPs _ rfl))).trans
        (misheard_deeds _ hcmd hst)
  | ok pl hs' =>
      dsimp only
      generalize hv1 : ((v.tickOn.tickOn.setPs fun ps => { ps with hs := some hs' }).emit
        [.heard i (some (pl, hs'.rs))]) = v1
      have hm1 : Deeds P E cmd i v v1 := by
        rw [← hv1]
        exact Deeds.after (h1.trans (Minor.setPs _ rfl)) (.heard pl hs'.rs hcmd hst)
      have hlog1 : ∃ pre, v1.sh.log = pre ++ [.heard i (some (pl, hs'.rs))] := by
        rw [← hv1]
        exact ⟨_, rfl⟩
      have hst1 : v1.ps.state.Handshaking := by
        rw [← hv1]
        exact hst
      have hhs1 : v1.ps.hs = some hs' := by
        rw [← hv1]
        rfl
      obtain ⟨pre, hlog1⟩ := hlog1
      have hdeeds : Deeds P E cmd i v1 (handshakeReply P E i v1).2 :=
        handshakeReply_deeds hst1 hhs1 hlog1
      have hcases := handshakeReply_cases (P := P) (E := E) (i := i) hst1 hhs1
      have hreply := handshakeReply_log (P := P) (E := E) (i := i) (v := v1)
      generalize handshakeReply P E i v1 = r at hcases hdeeds hreply ⊢
      obtain ⟨sent, v2⟩ := r
      have h2 := hm1.trans hdeeds
      obtain ⟨hsent, -⟩ | ⟨hsent, hs2, hhs2, hst2, -, -⟩ := hcases
      · dsimp only at hsent
        subst hsent
        exact h2
      · dsimp only at hsent hhs2 hst2
        subst hsent
        dsimp only [handshakeDone]
        rw [hhs2]
        dsimp only
        have hheard1 : Heard i v1.sh.log :=
          ⟨pre, pl, hs'.rs, [], hlog1, List.not_mem_nil, fun _ => List.not_mem_nil⟩
        have hheard2 : Heard i v2.sh.log := by
          rcases hreply rfl with hlog2 | ⟨bytes, hlog2⟩
          · rw [hlog2]
            exact hheard1
          · rw [hlog2]
            exact hheard1.append (by simp) (by simp)
        split
        · exact h2.trans
            (completeHandshake_deeds fd pl hcmd (by rw [hst2]; exact hst1) hheard2)
        · exact h2

end Handshake

section Loop

variable {P : Primitives} {E : Env} {cmd : Cmd} {i : Slot} {v : View}

theorem minor_rxAdvance
    (v : View) :
    Minor v (rxAdvance E v) :=
  (Minor.setPs v rfl).trans (minor_touchLastActive _)

theorem textFrame_deeds
    (payload : Bytes) (v : View) :
    Deeds P E cmd i v (textFrame P E i payload v) := by
  unfold textFrame sodiumMalloc
  cases E.malloc v.sh.tick with
  | false =>
      exact Deeds.of_minor (Minor.tickOn v)
  | true =>
      dsimp only
      have hrem := noiseDecrypt_remote (P := P) v.tickOn.ps.session (.data payload) true
      generalize noiseDecrypt P v.tickOn.ps.session (.data payload) true = r at hrem ⊢
      obtain ⟨opened, session⟩ := r
      dsimp only at hrem ⊢
      have h1 := (Minor.tickOn v).trans (minor_session v.tickOn hrem)
      generalize (v.tickOn.setPs fun ps => { ps with session := session }) = u at h1 ⊢
      cases opened with
      | none =>
          exact Deeds.of_minor h1
      | some pt =>
          cases pt with
          | nil =>
              exact Deeds.of_minor h1
          | cons b pt =>
              dsimp only
              split
              · have h2 : Minor v (u.emit [.incoming i (b :: pt)]) := h1.thenEmit rfl
                exact ((Deeds.of_minor h2).trans (flushOnFirst_deeds _)).trans
                  (Deeds.of_minor (minor_rxAdvance _))
              · exact Deeds.of_minor h1

theorem sessionFrame_deeds
    (fh : FrameHeader) (payload : Bytes) (hok : (life v).Ok) (hses : v.ps.session ≠ none) :
    Deeds P E cmd i v (sessionFrame P E i fh payload v).view := by
  have hst : v.ps.state.InSession := hok.1.of_session (by simpa [life, slotLife] using hses)
  have hne : v.ps.state ≠ .idle := by
    rcases hst with h | h <;> rw [h] <;> decide
  unfold sessionFrame
  split
  · rw [smDispatch_seqMismatch (v := v.uiPrintError _ []) hst]
    exact Deeds.after (Minor.say _ _ _ v) (.torn hne)
  split
  · exact textFrame_deeds payload v
  · dsimp only [LoopStep.view]
    unfold fileFrame
    have h : Deeds P E cmd i v (fileTransferHandleRx P E i payload v).2 :=
      fileTransferHandleRx_deeds payload hok hst
    generalize fileTransferHandleRx P E i payload v = r at h ⊢
    obtain ⟨_ | _, v1⟩ := r
    · exact h
    · exact h.trans (Deeds.of_minor (minor_rxAdvance v1))

theorem handleFrame_deeds
    (fd : Int) (fh : FrameHeader) (payload : Bytes) (hok : (life v).Ok)
    (hread : v.ps.state.Handshaking → cmd = .read) :
    Deeds P E cmd i v (handleFrame P E i fd fh payload v).view := by
  unfold handleFrame
  split
  · cases hhs : v.ps.hs with
    | none =>
        exact Deeds.refl v
    | some hs =>
        dsimp only
        split
        · rename_i hidx
          have hst := handshaking_of_running hok hhs hidx
          exact handshakeFrame_deeds fd payload (hread hst) hst
        · exact Deeds.refl v
  · split
    · rename_i hses
      exact sessionFrame_deeds fh payload hok hses.2
    · exact Deeds.refl v

theorem minor_dropRecv
    (v : View) :
    Minor v (dropRecv v) :=
  Minor.setPs v rfl

theorem frameStep_deeds
    (fd : Int) (hok : (life v).Ok) (hread : v.ps.state.Handshaking → cmd = .read) :
    Deeds P E cmd i v (frameStep P E i fd v).view := by
  unfold frameStep
  split
  · exact Deeds.refl v
  rename_i hlen
  cases frameHeaderDecode v.ps.recv with
  | error err =>
      exact Deeds.of_minor (minor_dropRecv v)
  | ok fh =>
      dsimp only
      split
      · exact Deeds.of_minor (minor_dropRecv v)
      split
      · exact Deeds.refl v
      split
      · exact Deeds.refl v
      unfold sodiumMalloc
      cases E.malloc v.sh.tick with
      | false =>
          exact Deeds.of_minor ((Minor.tickOn v).trans (minor_dropRecv _))
      | true =>
          dsimp only
          have hne : v.ps.state ≠ .idle := by
            apply ne_idle_of_recv hok
            intro h
            rw [h] at hlen
            exact hlen (by decide)
          refine (Deeds.of_minor ((Minor.tickOn v).trans (Minor.setPs _ rfl))).trans
            (handleFrame_deeds fd fh _ ?_ hread)
          have hlife : life (v.tickOn.setPs fun ps =>
              { ps with recv := ps.recv.drop (frameHeaderWireSize + fh.len.toNat) }) = life v := by
            rw [life_setPs (slotLife_recv hne _), life_tickOn]
          rw [hlife]
          exact hok

theorem frameLoop_deeds
    (fd : Int) (fuel : Nat) (hok : (life v).Ok) (hdial : cmd ≠ .dial) (hin : cmd ≠ .inbound)
    (hread : v.ps.state.Handshaking → cmd = .read) :
    Deeds P E cmd i v (frameLoop P E i fd fuel v) := by
  induction fuel generalizing v with
  | zero =>
      exact Deeds.refl v
  | succ fuel ih =>
      have hstep : Deeds P E cmd i v (frameStep P E i fd v).view := frameStep_deeds fd hok hread
      have hread' := fun h => hread (hstep.handshaking hdial hin h)
      have hok' := (frameStep_moves (P := P) (E := E) (i := i) fd hok).ok hok
      unfold frameLoop
      generalize frameStep P E i fd v = r at hstep hok' hread' ⊢
      cases r with
      | stop v1 => exact hstep
      | next v1 => exact hstep.trans (ih hok' hread')

theorem processPeerFrames_deeds
    (fd : Int) (hok : (life v).Ok) :
    Deeds P E .read i v (processPeerFrames P E i fd v) :=
  frameLoop_deeds fd _ hok (by simp) (by simp) (fun _ => rfl)

/-- Frames of a slot that has a session do not run a handshake. -/
theorem processPeerFrames_session_deeds
    (fd : Int) (hok : (life v).Ok) (hses : v.ps.session ≠ none) :
    Deeds P E .other i v (processPeerFrames P E i fd v) := by
  have hst : v.ps.state.InSession := hok.1.of_session (by simpa [life, slotLife] using hses)
  refine frameLoop_deeds fd _ hok (by simp) (by simp) (fun h => ?_)
  rcases hst with hst | hst <;> rcases h with h | h <;> rw [hst] at h <;> cases h

end Loop

end App
end Noxtor
