import Noxtor.App.TofuBinding

/-!
# Peer authentication

A turn of the frame loop that brings a slot without a session to `ST_TOFU_PENDING` or to
`ST_ACTIVE` has just read a claim, and every check of the claim has passed.  The statement
is about any view, so it holds in every run and for every byte stream.
-/

namespace Noxtor
namespace App

open ByteString Noise

/--
The payload `pl` is a version 1 claim of the address `onion` for the static key `key`: the
address is valid, and the signature verifies under the key inside the address.
-/
structure Claims (P : Primitives) (pl onion : Bytes) (key : Key) : Prop where
  length : pl.length = 127
  version : pl.head? = some 1
  address : claimOnion pl = onion
  valid : validateOnionAddress P onion = true
  signed : ∃ pub, cryptoOnionPubkey P onion = .ok pub ∧
    P.signVerify (claimSig pl) (onionBindMsg onion key) pub = true

section Dispatch

variable {P : Primitives} {E : Env} {i : Slot} {v : View}

/-- Outside a handshake none of the four events of a handshake frame does anything. -/
theorem smDispatch_not_handshaking
    {ev : PeerEvent} (hst : ¬ v.ps.state.Handshaking)
    (hev : ev = .handshakeError ∨ ev = .sessionReady ∨ ev = .handshakeDone ∨ ev = .arenaFail) :
    smDispatch P E i ev v = (.error .state, v) := by
  apply smDispatch_none
  cases hs : v.ps.state
  case handshakeInit => exact absurd (Or.inl hs) hst
  case handshakeResp => exact absurd (Or.inr hs) hst
  all_goals rcases hev with rfl | rfl | rfl | rfl <;> rfl

/-- An error of the handshake keeps the state or tears the slot down. -/
theorem handshakeError_state
    {ev : PeerEvent} (v : View) (hev : ev = .handshakeError ∨ ev = .arenaFail) :
    (smDispatch P E i ev v).2.ps.state = v.ps.state ∨
      (smDispatch P E i ev v).2.ps.state = .idle := by
  by_cases hst : v.ps.state.Handshaking
  · right
    rw [smDispatch_handshake_torn hst (by rcases hev with h | h <;> simp [h])]
    rfl
  · left
    rw [smDispatch_not_handshaking hst (by rcases hev with h | h <;> simp [h])]

theorem rejectHandshake_state
    (message : String) (v : View) :
    (rejectHandshake P E i message v).ps.state = v.ps.state ∨
      (rejectHandshake P E i message v).ps.state = .idle :=
  handshakeError_state (v.uiPrintError message []) (Or.inl rfl)

/-- Waiting for the user keeps what has been filled in. -/
theorem tofuWait_cases
    (v : View) :
    (tofuWait P E i v).ps.state = v.ps.state ∨
      ((tofuWait P E i v).ps.state = .tofuPending ∧ (tofuWait P E i v).ps.hs = v.ps.hs ∧
        (tofuWait P E i v).ps.tofuOnion = v.ps.tofuOnion ∧
        (tofuWait P E i v).ps.tofuNewKey = v.ps.tofuNewKey) := by
  unfold tofuWait
  generalize hu : (v.tickOn.setPs fun ps => { ps with tofuStart := E.clock v.sh.tick }) = u
  have hus : u.ps.state = v.ps.state := by
    rw [← hu]
    rfl
  by_cases hst : u.ps.state.Handshaking
  · right
    rw [smDispatch_handshakeDone hst, ← hu]
    exact ⟨rfl, rfl, rfl, rfl⟩
  · left
    rw [smDispatch_not_handshaking hst (Or.inr (Or.inr (Or.inl rfl)))]
    exact hus

theorem sessionUp_cases
    (onion name : Bytes) (session : NoiseSession) (v : View) :
    (sessionUp P E i onion name session v).ps.state = v.ps.state ∨
      ((sessionUp P E i onion name session v).ps.state = .active ∧
        (sessionUp P E i onion name session v).ps.session = some session ∧
        (sessionUp P E i onion name session v).ps.peerOnion = strCopy noxOnionLen onion) := by
  unfold sessionUp
  dsimp only
  generalize hu : (v.tickOn.setPs _) = u
  have hus : u.ps.state = v.ps.state ∧ u.ps.session = some session := by
    rw [← hu]
    exact ⟨rfl, rfl⟩
  by_cases hst : u.ps.state.Handshaking
  · right
    rw [smDispatch_sessionReady hst]
    exact ⟨rfl, hus.2, rfl⟩
  · left
    rw [smDispatch_not_handshaking hst (Or.inr (Or.inl rfl))]
    exact hus.1

end Dispatch

/-- How far a handshake frame has brought the slot, seen from the view `v` of the decision. -/
inductive Decided (E : Env) (hs : NoiseHandshake) (onion : Bytes) (v v' : View) : Prop where
  | nowhere (h : v'.ps.state = v.ps.state ∨ v'.ps.state = .idle)
  | pending (hst : v'.ps.state = .tofuPending) (hhs : v'.ps.hs = v.ps.hs)
      (honion : v'.ps.tofuOnion = strCopy noxOnionLen onion) (hkey : v'.ps.tofuNewKey = hs.rs)
  | known (session : NoiseSession) (name : Bytes) (hst : v'.ps.state = .active)
      (hses : v'.ps.session = some session) (hremote : session.remoteStatic = hs.rs)
      (honion : v'.ps.peerOnion = strCopy noxOnionLen onion)
      (hghost : v.sh.ghostMode = false)
      (hdb : (dbGetContact E onion v.sh).1 = .ok (name, hs.rs)) (hzero : hs.rs ≠ Block.zero 32)

section Decision

variable {P : Primitives} {E : Env} {i : Slot} {v : View}

theorem changedKey_decided
    {hs : NoiseHandshake} (fd : Int) (onion name : Bytes) {u : View} (hu : u.ps = v.ps) :
    Decided E hs onion v (changedKey P E i fd onion name hs.rs u) := by
  unfold changedKey
  dsimp only
  generalize hw : View.uiPrintError "  [?] Yeni anahtarı onaylıyor musunuz? (y/n): " [] _ = w
  have hps : w.ps = (tofuFill fd onion name hs.rs false u).ps := by
    rw [← hw]
    rfl
  rcases tofuWait_cases (P := P) (E := E) (i := i) w with h | ⟨h1, h2, h3, h4⟩
  · exact .nowhere (Or.inl (by rw [h, hps, ← hu]; rfl))
  · refine .pending h1 ?_ ?_ ?_
    · rw [h2, hps, ← hu]
      rfl
    · rw [h3, hps]
      rfl
    · rw [h4, hps]
      rfl

theorem newPeer_decided
    {hs : NoiseHandshake} (fd : Int) (onion name : Bytes) (placeholder : Bool) {u : View}
    (hu : u.ps = v.ps) :
    Decided E hs onion v (newPeer P E i fd onion name placeholder hs.rs u) := by
  unfold newPeer
  dsimp only
  generalize hs1 : strCopy noxContactNameLen _ = shown
  generalize hw : (if placeholder = true then _ else _ : View) = w
  have hps : w.ps = (tofuFill fd onion shown hs.rs placeholder u).ps := by
    rw [← hw]
    split <;> rfl
  rcases tofuWait_cases (P := P) (E := E) (i := i) w with h | ⟨h1, h2, h3, h4⟩
  · exact .nowhere (Or.inl (by rw [h, hps, ← hu]; rfl))
  · refine .pending h1 ?_ ?_ ?_
    · rw [h2, hps, ← hu]
      rfl
    · rw [h3, hps]
      rfl
    · rw [h4, hps]
      rfl

theorem knownPeer_cases
    (hs : NoiseHandshake) (onion name : Bytes) (u : View) :
    (knownPeer P E i hs onion name u).ps.state = u.ps.state ∨
      (knownPeer P E i hs onion name u).ps.state = .idle ∨
      ∃ session, (knownPeer P E i hs onion name u).ps.state = .active ∧
        (knownPeer P E i hs onion name u).ps.session = some session ∧
        session.remoteStatic = hs.rs ∧
        (knownPeer P E i hs onion name u).ps.peerOnion = strCopy noxOnionLen onion := by
  unfold knownPeer sodiumMalloc
  cases E.malloc u.sh.tick with
  | false =>
      rcases handshakeError_state (P := P) (E := E) (i := i)
        (u.tickOn.uiPrintError "Arena bellek hatası" []) (Or.inr rfl) with h | h
      · exact Or.inl h
      · exact Or.inr (Or.inl h)
  | true =>
      dsimp only
      cases hsplit : handshakeSplit P (E.hkdfAlloc u.tickOn.sh.tick) hs with
      | error err hs' =>
          dsimp only
          generalize hw : (u.tickOn.tickOn.setPs _) = w
          have hws : w.ps.state = u.ps.state := by
            rw [← hw]
            rfl
          rcases rejectHandshake_state (P := P) (E := E) (i := i) "session split başarısız" w
            with h | h
          · exact Or.inl (h.trans hws)
          · exact Or.inr (Or.inl h)
      | ok session hs' =>
          rcases sessionUp_cases (P := P) (E := E) (i := i) onion name session u.tickOn.tickOn
            with h | ⟨h1, h2, h3⟩
          · exact Or.inl h
          · exact Or.inr (Or.inr ⟨session, h1, h2, handshakeSplit_remote hsplit, h3⟩)

/-- The answer of the database depends on the tick and on whether it is open. -/
theorem dbGetContact_answer
    (onion : Bytes) {sh sh' : Shared} (hopen : sh.dbOpen = sh'.dbOpen) (htick : sh.tick = sh'.tick) :
    (dbGetContact E onion sh).1 = (dbGetContact E onion sh').1 := by
  unfold dbGetContact
  rw [hopen, htick]
  split <;> rfl

theorem contactDecision_decided
    {hs : NoiseHandshake} (fd : Int) (onion : Bytes) :
    Decided E hs onion v (contactDecision P E i fd hs onion v) := by
  unfold contactDecision contactLookup
  split
  · rename_i hlookup
    refine newPeer_decided fd onion [] false ?_
    split at hlookup
    · exact (congrArg (fun r => r.2.ps) hlookup).symm
    · exact (congrArg (fun r => r.2.ps) hlookup).symm
  · rename_i name stored v1 hlookup
    split at hlookup
    · cases hlookup
    rename_i hghost
    have hps : v1.ps = v.ps := (congrArg (fun r => r.2.ps) hlookup).symm
    have hclaimed : (dbGetContact E onion (v.emit [.claim i onion hs.rs]).sh).1 =
        .ok (name, stored) := congrArg Prod.fst hlookup
    have hdb : (dbGetContact E onion v.sh).1 = .ok (name, stored) := by
      rw [← hclaimed]
      exact dbGetContact_answer onion rfl rfl
    split
    · exact newPeer_decided fd onion name true hps
    rename_i hzero
    split
    · rename_i hkey
      subst hkey
      rcases knownPeer_cases (P := P) (E := E) (i := i) hs onion name v1 with
        h | h | ⟨session, h1, h2, h3, h4⟩
      · exact .nowhere (Or.inl (by rw [h, hps]))
      · exact .nowhere (Or.inr h)
      · exact .known session name h1 h2 h3 h4 (Bool.eq_false_iff.mpr hghost) hdb hzero
    · exact changedKey_decided fd onion name hps

end Decision

section Frame

variable {P : Primitives} {E : Env} {i : Slot} {v : View}

/-- What a reply that has gone out leaves unchanged. -/
structure ReplyKeeps (v v' : View) : Prop where
  state : v'.ps.state = v.ps.state
  target : v'.ps.connectTarget = v.ps.connectTarget
  ghost : v'.sh.ghostMode = v.sh.ghostMode
  db : v'.sh.dbOpen = v.sh.dbOpen
  tick : v.sh.tick ≤ v'.sh.tick

theorem sockWrite_keeps
    (data : Bytes) (v : View) :
    ReplyKeeps v (sockWrite E i data v).2 := by
  unfold sockWrite
  cases E.write v.sh.tick <;> exact ⟨rfl, rfl, rfl, rfl, Nat.le_succ _⟩

theorem ReplyKeeps.trans
    {v1 v2 v3 : View} (h : ReplyKeeps v1 v2) (h' : ReplyKeeps v2 v3) :
    ReplyKeeps v1 v3 :=
  ⟨h'.state.trans h.state, h'.target.trans h.target, h'.ghost.trans h.ghost, h'.db.trans h.db,
    h.tick.trans h'.tick⟩

/-- The handshake object behind a reply: the one before it, or the one that wrote the reply. -/
def Replied (P : Primitives) (hs hs' : NoiseHandshake) : Prop :=
  hs' = hs ∨ ∃ call claim msg,
    handshakeWrite P call (.data claim) (some noiseMaxHandshakeLen) hs = .ok msg hs'

theorem handshakeReply_true
    {hs : NoiseHandshake} {v' : View} (hhs : v.ps.hs = some hs)
    (h : handshakeReply P E i v = (true, v')) :
    ∃ hs', v'.ps.hs = some hs' ∧ Replied P hs hs' ∧ ReplyKeeps v v' := by
  unfold handshakeReply at h
  rw [hhs] at h
  dsimp only at h
  split at h
  swap
  · cases h
    exact ⟨hs, hhs, Or.inl rfl, ⟨rfl, rfl, rfl, rfl, Nat.le_refl _⟩⟩
  cases hclaim : hsBuildClaimPayload P v.sh with
  | error err =>
      rw [hclaim] at h
      cases h
  | ok claim =>
      rw [hclaim] at h
      dsimp only at h
      cases hwrite : handshakeWrite P (hsCallAt E v.sh.tick) (.data claim)
          (some noiseMaxHandshakeLen) hs with
      | error err hs' =>
          rw [hwrite] at h
          cases h
      | ok msg hs' =>
          rw [hwrite] at h
          dsimp only at h
          generalize hv2 : ((hsTicks v).setPs fun ps => { ps with hs := some hs' }) = v2 at h
          have hk2 : ReplyKeeps v v2 := by
            rw [← hv2]
            exact ⟨rfl, rfl, rfl, rfl, Nat.le_add_right v.sh.tick 2⟩
          have hhs2 : v2.ps.hs = some hs' := by
            rw [← hv2]
            rfl
          have hk3 := sockWrite_keeps (E := E) (i := i) (frameBytes noxMsgCtrl v2.ps.txSeq msg) v2
          have hps := sockWrite_ps E i (frameBytes noxMsgCtrl v2.ps.txSeq msg) v2
          generalize sockWrite E i (frameBytes noxMsgCtrl v2.ps.txSeq msg) v2 = w at hk3 hps h
          obtain ⟨r, v3⟩ := w
          have hhs3 : v3.ps.hs = some hs' := by
            rw [show v3.ps = v2.ps from hps, hhs2]
          cases r with
          | ok n =>
              dsimp only at h
              split at h
              · cases h
              · cases h
                exact ⟨hs', hhs3, Or.inr ⟨_, _, _, hwrite⟩, (hk2.trans hk3).trans
                  ⟨rfl, rfl, rfl, rfl, Nat.le_succ _⟩⟩
          | eagain =>
              cases h
          | eintr =>
              cases h
          | err =>
              cases h

/-- A reply that fails keeps the state or tears the slot down. -/
theorem handshakeReply_false
    {v' : View} (h : handshakeReply P E i v = (false, v')) :
    v'.ps.state = v.ps.state ∨ v'.ps.state = .idle := by
  unfold handshakeReply at h
  cases hhs : v.ps.hs with
  | none =>
      rw [hhs] at h
      cases h
      exact Or.inl rfl
  | some hs =>
      rw [hhs] at h
      dsimp only at h
      split at h
      swap
      · cases h
      cases hclaim : hsBuildClaimPayload P v.sh with
      | error err =>
          rw [hclaim] at h
          cases h
          exact rejectHandshake_state _ v
      | ok claim =>
          rw [hclaim] at h
          dsimp only at h
          cases hwrite : handshakeWrite P (hsCallAt E v.sh.tick) (.data claim)
              (some noiseMaxHandshakeLen) hs with
          | error err hs' =>
              rw [hwrite] at h
              cases h
              exact rejectHandshake_state _ ((hsTicks v).setPs fun ps => { ps with hs := some hs' })
          | ok msg hs' =>
              rw [hwrite] at h
              dsimp only at h
              generalize hv2 : ((hsTicks v).setPs fun ps => { ps with hs := some hs' }) = v2 at h
              have hst2 : v2.ps.state = v.ps.state := by
                rw [← hv2]
                rfl
              have hps := sockWrite_ps E i (frameBytes noxMsgCtrl v2.ps.txSeq msg) v2
              generalize sockWrite E i (frameBytes noxMsgCtrl v2.ps.txSeq msg) v2 = w at hps h
              obtain ⟨r, v3⟩ := w
              have hst3 : v3.ps.state = v.ps.state := by
                rw [show v3.ps = v2.ps from hps, hst2]
              have hreject : ∀ message, (rejectHandshake P E i message v3).ps.state = v.ps.state ∨
                  (rejectHandshake P E i message v3).ps.state = .idle := by
                intro message
                rw [← hst3]
                exact rejectHandshake_state message v3
              cases r with
              | ok n =>
                  dsimp only at h
                  split at h
                  · cases h
                    exact hreject _
                  · cases h
              | eagain =>
                  cases h
                  exact hreject _
              | eintr =>
                  cases h
                  exact hreject _
              | err =>
                  cases h
                  exact hreject _

/-- The address field of a claim fits into 62 characters. -/
theorem claimOnion_fits
    (pl : Bytes) :
    strCopy noxOnionLen (claimOnion pl) = claimOnion pl := by
  apply List.take_of_length_le
  unfold claimOnion cstr
  exact (List.takeWhile_prefix _).length_le.trans (List.length_take_le _ _)

/-- The checks of the claim: the slot stays or is torn down, or every check has passed. -/
theorem completeHandshake_cases
    (hs : NoiseHandshake) (fd : Int) (pl : Bytes) (v : View) :
    ((completeHandshake P E i fd pl hs v).ps.state = v.ps.state ∨
      (completeHandshake P E i fd pl hs v).ps.state = .idle) ∨
    (Claims P pl (claimOnion pl) hs.rs ∧
      (v.ps.connectTarget ≠ [] → claimOnion pl = v.ps.connectTarget) ∧
      Decided E hs (claimOnion pl) v (completeHandshake P E i fd pl hs v)) := by
  unfold completeHandshake
  split
  · exact Or.inl (rejectHandshake_state _ v)
  rename_i hform
  split
  · exact Or.inl (handshakeError_state v (Or.inl rfl))
  rename_i hvalid
  split
  · exact Or.inl (rejectHandshake_state _ v)
  rename_i hsig
  split
  · exact Or.inl (rejectHandshake_state _ v)
  rename_i htarget
  rw [not_not] at hform hsig
  right
  refine ⟨⟨hform.1, hform.2, rfl, by simpa using hvalid, cryptoOnionVerify_ok hsig⟩, ?_,
    contactDecision_decided fd (claimOnion pl)⟩
  intro hne
  by_contra hother
  exact htarget ⟨hne, hother⟩

end Frame

/--
The slot went from `v` to `v'` with the address `onion` and the key `key`, claimed by the
payload `pl` of the handshake `hs`.
-/
structure Authenticated (P : Primitives) (E : Env) (v v' : View) (pl onion : Bytes) (key : Key)
    (hs : NoiseHandshake) : Prop where
  claim : Claims P pl onion key
  remote : key = hs.rs
  target : v.ps.connectTarget ≠ [] → onion = v.ps.connectTarget
  pending : v'.ps.state = .tofuPending →
    v'.ps.hs = some hs ∧ v'.ps.tofuOnion = onion ∧ v'.ps.tofuNewKey = key ∧
      ∀ alloc session hs', handshakeSplit P alloc hs = .ok session hs' →
        session.remoteStatic = key
  active : v'.ps.state = .active →
    v'.ps.peerOnion = onion ∧ v'.ps.session.map NoiseSession.remoteStatic = some key ∧
      v.sh.ghostMode = false ∧ v.sh.dbOpen = true ∧ key ≠ Block.zero 32 ∧
      ∃ tick name, v.sh.tick < tick ∧ E.dbGetContact tick onion = .ok (name, key)

section Turn

variable {P : Primitives} {E : Env} {i : Slot}

/-- What `db_get_contact` said in ghost-free mode. -/
theorem dbGetContact_ok
    {onion : Bytes} {sh : Shared} {r : Bytes × Key}
    (h : (dbGetContact E onion sh).1 = .ok r) :
    sh.dbOpen = true ∧ E.dbGetContact sh.tick onion = .ok r := by
  unfold dbGetContact at h
  split at h
  · cases h
  · rename_i hopen
    exact ⟨by simpa using hopen, h⟩

/-- A handshake frame that moves the slot has authenticated the peer. -/
theorem handshakeFrame_authenticates
    {hs0 : NoiseHandshake} {v : View} (fd : Int) (payload : Bytes)
    (hmove : (handshakeFrame P E i fd payload hs0 v).view.ps.state ≠ v.ps.state)
    (hto : (handshakeFrame P E i fd payload hs0 v).view.ps.state ≠ .idle) :
    ∃ pl hs1 hs onion key,
      handshakeRead P (hsCallAt E v.sh.tick) (.data payload) (some noxHsPayloadV1Len) hs0 =
        .ok pl hs1 ∧
      Replied P hs1 hs ∧
      Authenticated P E v (handshakeFrame P E i fd payload hs0 v).view pl onion key hs := by
  unfold handshakeFrame at hmove hto ⊢
  dsimp only at hmove hto ⊢
  cases hread : handshakeRead P (hsCallAt E v.sh.tick) (.data payload) (some noxHsPayloadV1Len)
      hs0 with
  | error err hs' =>
      rw [hread] at hmove hto
      dsimp only [LoopStep.view] at hmove hto
      generalize hu : (((hsTicks v).setPs fun ps => { ps with hs := some hs' }).emit
        [.heard i none]) = u at hmove hto
      have hus : u.ps.state = v.ps.state := by
        rw [← hu]
        rfl
      rcases rejectHandshake_state (P := P) (E := E) (i := i)
        "Akran ile handshake el sıkışması başarısız oldu." u with h | h
      · exact absurd (h.trans hus) hmove
      · exact absurd h hto
  | ok pl hs1 =>
      rw [hread] at hmove hto
      dsimp only at hmove hto ⊢
      generalize hu : (((hsTicks v).setPs fun ps => { ps with hs := some hs1 }).emit
        [.heard i (some (pl, hs1.rs))]) = u at hmove hto ⊢
      have hku : ReplyKeeps v u ∧ v.sh.tick < u.sh.tick := by
        rw [← hu]
        exact ⟨⟨rfl, rfl, rfl, rfl, Nat.le_add_right v.sh.tick 2⟩,
          Nat.lt_add_of_pos_right (n := v.sh.tick) (k := 2) (by decide)⟩
      have hhs : u.ps.hs = some hs1 := by
        rw [← hu]
        rfl
      obtain ⟨hku, htick⟩ := hku
      cases hreply : handshakeReply P E i u with
      | mk sent v2 =>
          rw [hreply] at hmove hto
          cases sent with
          | false =>
              dsimp only [LoopStep.view] at hmove hto
              rcases handshakeReply_false hreply with h | h
              · exact absurd (h.trans hku.state) hmove
              · exact absurd h hto
          | true =>
              obtain ⟨hs, hhs2, hreplied, hk2⟩ := handshakeReply_true hhs hreply
              have hk := hku.trans hk2
              refine ⟨pl, hs1, hs, claimOnion pl, hs.rs, rfl, hreplied, ?_⟩
              dsimp only at hmove hto ⊢
              unfold handshakeDone at hmove hto ⊢
              rw [hhs2] at hmove hto ⊢
              dsimp only at hmove hto ⊢
              split at hmove
              swap
              · exact absurd hk.state hmove
              rename_i hidx
              rw [if_pos hidx] at hto ⊢
              dsimp only [LoopStep.view] at hmove hto ⊢
              rcases completeHandshake_cases (P := P) (E := E) (i := i) hs fd pl v2 with
                (h | h) | ⟨hclaim, htarget, hdec⟩
              · exact absurd (h.trans hk.state) hmove
              · exact absurd h hto
              generalize completeHandshake P E i fd pl hs v2 = v' at hmove hto hdec ⊢
              have hremote : ∀ alloc session hs', handshakeSplit P alloc hs = .ok session hs' →
                  session.remoteStatic = hs.rs := by
                intro alloc session hs' hsplit
                exact handshakeSplit_remote hsplit
              rw [hk.target] at htarget
              cases hdec with
              | nowhere h =>
                  rcases h with h | h
                  · exact absurd (h.trans hk.state) hmove
                  · exact absurd h hto
              | pending hst hhs' honion hkey =>
                  refine ⟨hclaim, rfl, htarget, ?_, ?_⟩
                  · intro _
                    exact ⟨hhs'.trans hhs2, honion.trans (claimOnion_fits pl), hkey, hremote⟩
                  · intro hact
                    rw [hst] at hact
                    cases hact
              | known session name hst hses hrem honion hghost hdb hzero =>
                  refine ⟨hclaim, rfl, htarget, ?_, ?_⟩
                  · intro hpend
                    rw [hst] at hpend
                    cases hpend
                  · intro _
                    obtain ⟨hopen, hrow⟩ := dbGetContact_ok hdb
                    refine ⟨honion.trans (claimOnion_fits pl), ?_, hk.ghost.symm.trans hghost,
                      hk.db.symm.trans hopen, hzero, v2.sh.tick, name,
                      Nat.lt_of_lt_of_le htick hk2.tick, hrow⟩
                    rw [hses, Option.map_some, hrem]

end Turn

/--
Peer authentication.  Whenever a turn of `process_peer_frames` moves a slot that has no
session into `ST_TOFU_PENDING` or `ST_ACTIVE`, it has just read a handshake payload, and
with the address and the key the slot ends up with, everything that `Authenticated` says
holds.
-/
theorem peer_authenticated
    (P : Primitives) (E : Env) (i : Slot) (fd : Int) (v : View)
    (hses : v.ps.session = none)
    (hmove : (frameStep P E i fd v).view.ps.state ≠ v.ps.state)
    (hto : (frameStep P E i fd v).view.ps.state = .tofuPending ∨
      (frameStep P E i fd v).view.ps.state = .active) :
    ∃ hs0 call payload pl hs1 hs onion key,
      v.ps.hs = some hs0 ∧
      handshakeRead P call (.data payload) (some noxHsPayloadV1Len) hs0 = .ok pl hs1 ∧
      Replied P hs1 hs ∧
      Authenticated P E v (frameStep P E i fd v).view pl onion key hs := by
  have hne : (frameStep P E i fd v).view.ps.state ≠ .idle := by
    rcases hto with h | h <;> rw [h] <;> decide
  clear hto
  unfold frameStep at hmove hne ⊢
  split at hmove
  · exact absurd rfl hmove
  rename_i hlen
  rw [if_neg hlen] at hne ⊢
  cases hdec : frameHeaderDecode v.ps.recv with
  | error err =>
      rw [hdec] at hmove
      exact absurd rfl hmove
  | ok fh =>
      rw [hdec] at hmove hne
      dsimp only at hmove hne ⊢
      split at hmove
      · exact absurd rfl hmove
      rename_i hsize
      rw [if_neg hsize] at hne ⊢
      split at hmove
      · exact absurd rfl hmove
      rename_i hwhole
      rw [if_neg hwhole] at hne ⊢
      split at hmove
      · exact absurd rfl hmove
      rename_i hwait
      rw [if_neg hwait] at hne ⊢
      unfold sodiumMalloc at hmove hne ⊢
      cases hmalloc : E.malloc v.sh.tick with
      | false =>
          rw [hmalloc] at hmove
          exact absurd rfl hmove
      | true =>
          rw [hmalloc] at hmove hne
          dsimp only at hmove hne ⊢
          generalize hpay : ((v.ps.recv.drop frameHeaderWireSize).take fh.len.toNat) = payload
            at hmove hne ⊢
          generalize hu : (v.tickOn.setPs fun ps =>
            { ps with recv := ps.recv.drop (frameHeaderWireSize + fh.len.toNat) }) = u
            at hmove hne ⊢
          have hps : u.ps.state = v.ps.state ∧ u.ps.hs = v.ps.hs ∧ u.ps.session = none ∧
              u.ps.connectTarget = v.ps.connectTarget ∧ u.sh = v.tickOn.sh := by
            rw [← hu]
            exact ⟨rfl, rfl, hses, rfl, rfl⟩
          obtain ⟨hust, huhs, huses, hutarget, hush⟩ := hps
          unfold handleFrame at hmove hne ⊢
          split at hmove
          · rename_i hctrl
            rw [if_pos hctrl] at hne ⊢
            rw [huhs] at hmove hne ⊢
            cases hhs : v.ps.hs with
            | none =>
                rw [hhs] at hmove
                exact absurd hust hmove
            | some hs0 =>
                rw [hhs] at hmove hne
                dsimp only at hmove hne ⊢
                split at hmove
                swap
                · exact absurd hust hmove
                rename_i hidx
                rw [if_pos hidx] at hne ⊢
                rw [← hust] at hmove
                obtain ⟨pl, hs1, hs, onion, key, hread, hreplied, hauth⟩ :=
                  handshakeFrame_authenticates fd payload hmove hne
                refine ⟨hs0, _, payload, pl, hs1, hs, onion, key, rfl, hread, hreplied, ?_⟩
                refine ⟨hauth.claim, hauth.remote, ?_, hauth.pending, ?_⟩
                · rw [← hutarget]
                  exact hauth.target
                · intro hact
                  obtain ⟨h1, h2, h3, h4, h5, tick, name, htick, hrow⟩ := hauth.active hact
                  rw [hush] at h3 h4 htick
                  exact ⟨h1, h2, h3, h4, h5, tick, name, Nat.lt_of_succ_lt htick, hrow⟩
          · rename_i hctrl
            rw [if_neg (by rw [huses]; exact fun h => h.2 rfl)] at hmove
            exact absurd hust hmove

/-- Slot 0 of the crossing run when the claim of caller 7 has arrived. -/
def callerView : View :=
  ((appRun samplePrimitives crossingEnv (initialState sampleConfig)
    [.accept, .peer 5 false true]).view 0).setPs fun ps =>
      { ps with recv := sampleFrame 0x61 7 true }

/-- The claim of caller 7 is authenticated. -/
theorem peer_authenticated_caller :
    (frameStep samplePrimitives crossingEnv 0 5 callerView).view.ps.state = .tofuPending ∧
    ∃ hs0 call payload pl hs1 hs onion key,
      callerView.ps.hs = some hs0 ∧
      handshakeRead samplePrimitives call (.data payload) (some noxHsPayloadV1Len) hs0 =
        .ok pl hs1 ∧
      Replied samplePrimitives hs1 hs ∧
      Authenticated samplePrimitives crossingEnv callerView
        (frameStep samplePrimitives crossingEnv 0 5 callerView).view pl onion key hs := by
  have hses : callerView.ps.session = none := by
    decide +kernel
  have hto : (frameStep samplePrimitives crossingEnv 0 5 callerView).view.ps.state =
      .tofuPending := by
    decide +kernel
  have hmove : (frameStep samplePrimitives crossingEnv 0 5 callerView).view.ps.state ≠
      callerView.ps.state := by
    decide +kernel
  exact ⟨hto, peer_authenticated samplePrimitives crossingEnv 0 5 callerView hses hmove
    (Or.inl hto)⟩

end App
end Noxtor
