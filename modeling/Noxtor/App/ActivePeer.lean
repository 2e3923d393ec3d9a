import Noxtor.App.QueueConfidentiality

/-!
# The active peer

`active_peer_idx` chooses the slot that a typed message goes to, and `active_peer_onion` is
what the user is shown.  They agree as long as no session comes up in the background: when a
session comes up, the address is taken over for the prompt, whatever slot is the active one.
-/

namespace Noxtor
namespace App

open ByteString Noise

/-- A session with `onion` on slot `i` does not change what the active peer is: the slot is the
active one, or the active one has the same address. -/
def ActiveFits (s : AppState) (i : Slot) (onion : Bytes) : Prop :=
  s.sh.activePeerIdx = i.val ∨
    ∃ j : Slot, s.sh.activePeerIdx = j.val ∧ (s.peers j).state ≠ .idle ∧
      (s.peers j).peerOnion = onion

instance (s : AppState) (i : Slot) (onion : Bytes) : Decidable (ActiveFits s i onion) :=
  inferInstanceAs (Decidable (_ ∨ _))

/-- The effect does not bring up a session in the background of `s`. -/
def Effect.Fits (s : AppState) : Effect → Prop
  | .knownSession i onion _ => ActiveFits s i onion
  | .tofuSession i _ => ActiveFits s i (strCopy noxOnionLen (s.peers i).tofuOnion)
  | _ => True

instance (s : AppState) (e : Effect) : Decidable (e.Fits s) := by
  cases e <;> unfold Effect.Fits <;> infer_instance

section Condition

variable (P : Primitives) (E : Env)

/-- The effects of a step. -/
def stepEffects (s : AppState) (ev : AppEvent) : List Effect :=
  (appStep P E s ev).sh.log.drop s.sh.log.length

/-- No session comes up in the background in this step. -/
def SessionsFit (s : AppState) (ev : AppEvent) : Prop :=
  ∀ e ∈ stepEffects P E s ev, e.Fits s

instance (s : AppState) (ev : AppEvent) : Decidable (SessionsFit P E s ev) :=
  inferInstanceAs (Decidable (∀ e ∈ _, _))

/-- No session comes up in the background in this run. -/
def SessionsFitRun : AppState → List AppEvent → Prop
  | _, [] => True
  | s, ev :: evs => SessionsFit P E s ev ∧ SessionsFitRun (appStep P E s ev) evs

instance decidableSessionsFitRun :
    (evs : List AppEvent) → (s : AppState) → Decidable (SessionsFitRun P E s evs)
  | [], _ => isTrue trivial
  | ev :: evs, s =>
      have := decidableSessionsFitRun evs (appStep P E s ev)
      inferInstanceAs (Decidable (_ ∧ _))

end Condition

/-- The shown address is that of the active slot. -/
structure ActiveInv (s : AppState) : Prop where
  shown : s.sh.activePeerOnion ≠ [] → ∃ i : Slot, s.sh.activePeerIdx = i.val ∧
    (s.peers i).state ≠ .idle ∧ (s.peers i).peerOnion = s.sh.activePeerOnion
  fits : ∀ i, strCopy noxOnionLen (s.peers i).peerOnion = (s.peers i).peerOnion

theorem strCopy_strCopy
    (n : Nat) (b : Bytes) :
    strCopy n (strCopy n b) = strCopy n b := by
  simp [strCopy]

section Deeds

variable {P : Primitives} {E : Env} {cmd : Cmd} {s : AppState} {i : Slot} {v : View}

theorem ActiveInv.put_fits
    (h : ActiveInv s) (hfit : strCopy noxOnionLen v.ps.peerOnion = v.ps.peerOnion) (j : Slot) :
    strCopy noxOnionLen ((s.put i v).peers j).peerOnion = ((s.put i v).peers j).peerOnion := by
  by_cases hj : j = i
  · subst hj
    rw [AppState.put_peers_same]
    exact hfit
  · rw [AppState.put_peers_ne s v hj]
    exact h.fits j

/-- A change that leaves the choice of the active peer alone. -/
theorem ActiveInv.keep
    (h : ActiveInv s) (hidx : v.sh.activePeerIdx = s.sh.activePeerIdx)
    (honion : v.sh.activePeerOnion = s.sh.activePeerOnion)
    (hps : (s.peers i).state ≠ .idle →
      v.ps.state ≠ .idle ∧ v.ps.peerOnion = (s.peers i).peerOnion)
    (hfit : strCopy noxOnionLen v.ps.peerOnion = v.ps.peerOnion) :
    ActiveInv (s.put i v) := by
  refine ⟨fun hne => ?_, h.put_fits hfit⟩
  rw [AppState.put_sh] at hne ⊢
  rw [honion] at hne
  obtain ⟨j, hj, hst, hpeer⟩ := h.shown hne
  refine ⟨j, by rw [hidx, hj], ?_⟩
  rw [honion]
  by_cases hji : j = i
  · subst hji
    rw [AppState.put_peers_same]
    obtain ⟨hst', hpeer'⟩ := hps hst
    exact ⟨hst', hpeer'.trans hpeer⟩
  · rw [AppState.put_peers_ne s v hji]
    exact ⟨hst, hpeer⟩

/-- The slot has the address it had, and is in use if it was. -/
theorem ActiveInv.stay
    (h : ActiveInv s) (hidx : v.sh.activePeerIdx = s.sh.activePeerIdx)
    (honion : v.sh.activePeerOnion = s.sh.activePeerOnion)
    (hst : (s.peers i).state ≠ .idle → v.ps.state ≠ .idle)
    (hpeer : v.ps.peerOnion = (s.peers i).peerOnion) :
    ActiveInv (s.put i v) :=
  h.keep hidx honion (fun hne => ⟨hst hne, hpeer⟩) (by rw [hpeer]; exact h.fits i)

/-- A session comes up on a slot. -/
theorem ActiveInv.up
    {onion : Bytes} (h : ActiveInv s) (hidx : v.sh.activePeerIdx = s.sh.activePeerIdx)
    (hst : v.ps.state = .active) (hpeer : v.ps.peerOnion = strCopy noxOnionLen onion)
    (honion : v.sh.activePeerOnion = strCopy noxOnionLen onion)
    (hfit : ActiveFits s i (strCopy noxOnionLen onion)) :
    ActiveInv (s.put i v) := by
  refine ⟨fun _ => ?_, h.put_fits (by rw [hpeer, strCopy_strCopy])⟩
  rw [AppState.put_sh, honion, hidx]
  have hown : s.sh.activePeerIdx = i.val → ∃ j : Slot, s.sh.activePeerIdx = j.val ∧
      ((s.put i v).peers j).state ≠ .idle ∧
      ((s.put i v).peers j).peerOnion = strCopy noxOnionLen onion := by
    intro hi
    refine ⟨i, hi, ?_⟩
    rw [AppState.put_peers_same, hst]
    exact ⟨by decide, hpeer⟩
  rcases hfit with hi | ⟨j, hj, hjst, hjonion⟩
  · exact hown hi
  · by_cases hji : j = i
    · subst hji
      exact hown hj
    · refine ⟨j, hj, ?_⟩
      rw [AppState.put_peers_ne s v hji]
      exact ⟨hjst, hjonion⟩

theorem Minor.active (h : Minor (s.view i) v) :
    v.sh.activePeerIdx = s.sh.activePeerIdx ∧ v.sh.activePeerOnion = s.sh.activePeerOnion := by
  have hidx : v.sh.core.activePeerIdx = s.sh.core.activePeerIdx := by
    rw [h.sh]
    rfl
  have honion : v.sh.core.activePeerOnion = s.sh.core.activePeerOnion := by
    rw [h.sh]
    rfl
  exact ⟨hidx, honion⟩

/-- A teardown of the active slot forgets it; another teardown leaves it alone. -/
theorem ActiveInv.torn
    {u : View} (h : ActiveInv s) (hidx : u.sh.activePeerIdx = s.sh.activePeerIdx)
    (honion : u.sh.activePeerOnion = s.sh.activePeerOnion) :
    ActiveInv (s.put i (tornDown i u)) := by
  refine ⟨fun hne => ?_, h.put_fits rfl⟩
  rw [AppState.put_sh] at hne ⊢
  change (if u.sh.activePeerIdx = i.val then [] else u.sh.activePeerOnion) ≠ [] at hne
  show ∃ j : Slot, (if u.sh.activePeerIdx = i.val then -1 else u.sh.activePeerIdx) = j.val ∧ _ ∧
    _ = (if u.sh.activePeerIdx = i.val then [] else u.sh.activePeerOnion)
  rw [hidx, honion] at hne ⊢
  by_cases hi : s.sh.activePeerIdx = i.val
  · rw [if_pos hi] at hne
    exact absurd rfl hne
  · rw [if_neg hi] at hne
    rw [if_neg hi, if_neg hi]
    obtain ⟨j, hj, hst, hpeer⟩ := h.shown hne
    have hji : j ≠ i := by
      rintro rfl
      exact hi hj
    refine ⟨j, hj, ?_⟩
    rw [AppState.put_peers_ne s _ hji]
    exact ⟨hst, hpeer⟩

/-- An accepted connection becomes the active slot only if there is none. -/
theorem ActiveInv.answered
    (h : ActiveInv s) (fd : Nat) (hst : (s.view i).ps.state = .idle) :
    ActiveInv (s.put i ((connected .handshakeResp fd [] (s.view i)).setSh fun sh =>
      { sh with activePeerIdx := if sh.activePeerIdx < 0 then i.val else sh.activePeerIdx })) := by
  refine ⟨fun hne => ?_, h.put_fits rfl⟩
  obtain ⟨j, hj, hjst, hpeer⟩ := h.shown hne
  have hji : j ≠ i := by
    rintro rfl
    exact hjst hst
  refine ⟨j, ?_, ?_⟩
  · show (if s.sh.activePeerIdx < 0 then (i.val : Int) else s.sh.activePeerIdx) = j.val
    rw [if_neg (by omega), hj]
  · rw [AppState.put_peers_ne s _ hji]
    exact ⟨hjst, hpeer⟩

/-- Only a session that comes up can part the two. -/
theorem Deed.active
    (h : Deed P E cmd i (s.view i) v) (hinv : ActiveInv s) :
    ActiveInv (s.put i v) ∨
      (∃ onion session, cmd = .read ∧ (s.peers i).state.Handshaking ∧
        v = knownUp i onion session (s.view i)) ∨
      (∃ onion name key session, cmd = .accept i onion name key ∧
        (s.peers i).state = .tofuPending ∧ (s.peers i).tofuOnion = onion ∧
        v = acceptedUp i session (s.view i)) := by
  cases h with
  | minor hminor =>
      exact Or.inl (hinv.stay hminor.active.1 hminor.active.2
        (by rw [hminor.state]; exact id) hminor.peerOnion)
  | torn _ => exact Or.inl (hinv.torn rfl rfl)
  | misheard _ _ => exact Or.inl (hinv.torn rfl rfl)
  | dialled fd target _ hst =>
      exact Or.inl (hinv.keep rfl rfl (fun hne => absurd hst hne) (strCopy_strCopy _ _))
  | answered fd _ hst => exact Or.inl (hinv.answered fd hst)
  | chosen _ hst =>
      left
      refine ⟨fun _ => ⟨i, rfl, ?_⟩, hinv.put_fits (hinv.fits i)⟩
      rw [AppState.put_peers_same]
      exact ⟨hst, (hinv.fits i).symm⟩
  | looked onion =>
      left
      have hsh : (dbGetContact E onion s.sh).2.activePeerIdx = s.sh.activePeerIdx ∧
          (dbGetContact E onion s.sh).2.activePeerOnion = s.sh.activePeerOnion := by
        unfold dbGetContact
        split <;> exact ⟨rfl, rfl⟩
      exact hinv.stay hsh.1 hsh.2 id rfl
  | known pre onion name session hcmd hst _ _ _ _ _ _ =>
      exact Or.inr (Or.inl ⟨onion, session, hcmd, hst, rfl⟩)
  | prompted fd onion name key zeroKey _ _ _ _ _ =>
      exact Or.inl (hinv.stay rfl rfl
        (fun _ => show PeerState.tofuPending ≠ .idle by decide) rfl)
  | accepted onion name key session hcmd hst honion _ =>
      exact Or.inr (Or.inr ⟨onion, name, key, session, hcmd, hst, honion, rfl⟩)
  | rxOpened pt name size hash _ _ _ _ _ _ _ =>
      exact Or.inl (hinv.stay rfl rfl (fun _ => by simp) rfl)
  | rxCompleted data _ _ _ _ =>
      exact Or.inl (hinv.stay rfl rfl (fun _ => by simp [rxOver]) rfl)
  | rxDropped es es' _ _ _ _ =>
      exact Or.inl (hinv.stay rfl rfl (fun _ => by simp [rxOver]) rfl)
  | _ => exact Or.inl (hinv.stay rfl rfl id rfl)

/-- While a handshake or a prompt is running, nothing else is chosen. -/
theorem Deed.waiting
    {u : View} (h : Deed P E cmd i u v) (hdial : cmd ≠ .dial) (hin : cmd ≠ .inbound)
    (hother : cmd ≠ .other) (hst : v.ps.state.Handshaking ∨ v.ps.state = .tofuPending) :
    (u.ps.state.Handshaking ∨ u.ps.state = .tofuPending) ∧
      v.sh.activePeerIdx = u.sh.activePeerIdx := by
  have hno : ∀ st : PeerState, st = .idle ∨ st = .active ∨ st = .fileRx →
      (st.Handshaking ∨ st = .tofuPending) → False := by
    rintro st (rfl | rfl | rfl) ((h | h) | h) <;> cases h
  cases h with
  | minor hminor =>
      have hidx : v.sh.core.activePeerIdx = u.sh.core.activePeerIdx := by
        rw [hminor.sh]
      rw [hminor.state] at hst
      exact ⟨hst, hidx⟩
  | torn _ => exact (hno _ (Or.inl rfl) hst).elim
  | misheard _ _ => exact (hno _ (Or.inl rfl) hst).elim
  | dialled _ _ hcmd _ => exact absurd hcmd hdial
  | answered _ hcmd _ => exact absurd hcmd hin
  | chosen hcmd _ =>
      rcases hcmd with hcmd | hcmd
      · exact absurd hcmd hdial
      · exact absurd hcmd hother
  | looked onion =>
      refine ⟨hst, ?_⟩
      unfold dbGetContact
      split <;> rfl
  | known _ _ _ _ _ _ _ _ _ _ _ _ => exact (hno _ (Or.inr (Or.inl rfl)) hst).elim
  | prompted _ _ _ _ _ _ hhand _ _ _ => exact ⟨Or.inl hhand, rfl⟩
  | accepted _ _ _ _ _ _ _ _ => exact (hno _ (Or.inr (Or.inl rfl)) hst).elim
  | rxOpened _ _ _ _ _ _ _ _ _ _ _ => exact (hno _ (Or.inr (Or.inr rfl)) hst).elim
  | rxCompleted _ _ _ _ _ => exact (hno _ (Or.inr (Or.inl rfl)) hst).elim
  | rxDropped _ _ _ _ _ _ => exact (hno _ (Or.inr (Or.inl rfl)) hst).elim
  | _ => exact ⟨hst, rfl⟩

end Deeds

section Runs

variable {P : Primitives} {E : Env} {cmd : Cmd} {s : AppState} {i : Slot} {v : View}

/-- The fit is that of the state before the step, as long as only slot `i` has changed. -/
theorem ActiveFits.put
    {onion : Bytes} (h : ActiveFits s i onion) (hidx : v.sh.activePeerIdx = s.sh.activePeerIdx) :
    ActiveFits (s.put i v) i onion := by
  rcases h with hi | ⟨j, hj, hst, honion⟩
  · exact Or.inl (hidx.trans hi)
  · by_cases hji : j = i
    · subst hji
      exact Or.inl (hidx.trans hj)
    · refine Or.inr ⟨j, hidx.trans hj, ?_⟩
      rw [AppState.put_peers_ne s v hji]
      exact ⟨hst, honion⟩

end Runs

/-- The session of a slot, and the prompt for it, belong to an address that has been claimed
with its key. -/
structure Authentic (P : Primitives) (ps : PeerSession) : Prop where
  inSession : ∀ key, ps.session.map NoiseSession.remoteStatic = some key → ps.state.InSession
  session : ∀ key, ps.session.map NoiseSession.remoteStatic = some key →
    ∃ pl, Claims P pl ps.peerOnion key
  pending : ps.state = .tofuPending → ∃ pl, Claims P pl ps.tofuOnion ps.tofuNewKey

theorem Claims.fits
    {P : Primitives} {pl onion : Bytes} {key : Key} (h : Claims P pl onion key) :
    strCopy noxOnionLen onion = onion := by
  rw [← h.address]
  exact claimOnion_fits pl

section Authentic

variable {P : Primitives} {E : Env} {cmd : Cmd} {i : Slot} {ps ps' : PeerSession} {v v' : View}

/-- Outside a session there is none. -/
theorem Authentic.none
    (h : Authentic P ps) (hst : ¬ ps.state.InSession) :
    ps.session.map NoiseSession.remoteStatic = .none := by
  cases hs : ps.session.map NoiseSession.remoteStatic with
  | none => rfl
  | some key => exact absurd (h.inSession key hs) hst

/-- A slot without a session and without a prompt. -/
theorem Authentic.of_none
    (hs : ps.session.map NoiseSession.remoteStatic = .none) (hst : ps.state ≠ .tofuPending) :
    Authentic P ps := by
  refine ⟨fun key h => ?_, fun key h => ?_, fun h => absurd h hst⟩
  · rw [hs] at h
    cases h
  · rw [hs] at h
    cases h

/-- The slot has the session it had. -/
theorem Authentic.same
    (h : Authentic P ps)
    (hs : ps'.session.map NoiseSession.remoteStatic = ps.session.map NoiseSession.remoteStatic)
    (honion : ps'.peerOnion = ps.peerOnion) (hst : ps.state.InSession → ps'.state.InSession)
    (hpend : ps'.state = .tofuPending → ps.state = .tofuPending ∧
      ps'.tofuOnion = ps.tofuOnion ∧ ps'.tofuNewKey = ps.tofuNewKey) :
    Authentic P ps' := by
  refine ⟨fun key hkey => ?_, fun key hkey => ?_, fun hp => ?_⟩
  · rw [hs] at hkey
    exact hst (h.inSession key hkey)
  · rw [hs] at hkey
    rw [honion]
    exact h.session key hkey
  · obtain ⟨h1, h2, h3⟩ := hpend hp
    rw [h2, h3]
    exact h.pending h1

theorem Minor.tofu (h : Minor v v') :
    v'.ps.tofuOnion = v.ps.tofuOnion ∧ v'.ps.tofuNewKey = v.ps.tofuNewKey := by
  have honion : v'.ps.core.tofuOnion = v.ps.core.tofuOnion := by
    rw [h.ps]
  have hkey : v'.ps.core.tofuNewKey = v.ps.core.tofuNewKey := by
    rw [h.ps]
  exact ⟨honion, hkey⟩

/-- A deed of the slot keeps its session authentic. -/
theorem Deed.authentic
    (h : Deed P E cmd i v v') (hinv : Authentic P v.ps) :
    Authentic P v'.ps := by
  cases h with
  | minor hminor =>
      refine hinv.same hminor.remote hminor.peerOnion (by rw [hminor.state]; exact id)
        (fun hp => ⟨by rw [← hminor.state]; exact hp, hminor.tofu⟩)
  | torn _ => exact .of_none rfl (show PeerState.idle ≠ .tofuPending by decide)
  | misheard _ _ => exact .of_none rfl (show PeerState.idle ≠ .tofuPending by decide)
  | dialled fd target _ hst =>
      exact .of_none (hinv.none (not_inSession_idle hst))
        (show PeerState.handshakeInit ≠ .tofuPending by decide)
  | answered fd _ hst =>
      exact .of_none (hinv.none (not_inSession_idle hst))
        (show PeerState.handshakeResp ≠ .tofuPending by decide)
  | known pre onion name session _ _ _ hclaim _ _ _ _ =>
      refine ⟨fun _ _ => Or.inl rfl, fun key hkey => ?_, fun hp => by cases hp⟩
      cases hkey
      obtain ⟨pl, hclaim⟩ := hclaim
      exact ⟨pl, by rw [← hclaim.fits] at hclaim; exact hclaim⟩
  | prompted fd onion name key zeroKey _ hst hclaim _ _ =>
      have hnone := hinv.none (not_inSession_handshaking hst)
      refine ⟨fun k hk => ?_, fun k hk => ?_, fun _ => ?_⟩
      · exact absurd (hnone.symm.trans hk) (by simp)
      · exact absurd (hnone.symm.trans hk) (by simp)
      · obtain ⟨pl, hclaim⟩ := hclaim
        exact ⟨pl, by rw [← hclaim.fits] at hclaim; exact hclaim⟩
  | accepted onion name key session _ hst honion hkey =>
      obtain ⟨pl, hclaim⟩ := hinv.pending hst
      refine ⟨fun _ _ => Or.inl rfl, fun k hk => ?_, fun hp => by cases hp⟩
      cases hk
      refine ⟨pl, ?_⟩
      rw [← hkey, ← hclaim.fits] at hclaim
      exact hclaim
  | rxOpened pt name size hash _ _ _ _ _ _ _ =>
      exact hinv.same rfl rfl (fun _ => Or.inr rfl) (fun hp => by cases hp)
  | rxCompleted data _ _ _ _ =>
      exact hinv.same rfl rfl (fun _ => Or.inl rfl) (fun hp => by cases hp)
  | rxDropped es es' _ _ _ _ =>
      exact hinv.same rfl rfl (fun _ => Or.inl rfl) (fun hp => by cases hp)
  | _ => exact hinv.same rfl rfl id (fun hp => ⟨hp, rfl, rfl⟩)

theorem appRun_authentic
    (c : Config) (evs : List AppEvent) (i : Slot) :
    Authentic P ((appRun P E (initialState c) evs).peers i) := by
  have h := appRun_keep (P := P) (E := E) (I := fun s => ∀ j, Authentic P (s.peers j))
    (s := initialState c) (fun cmd j t v ht hdeed k => ?_) evs (initialState_ok c)
    (fun j => .of_none rfl (show PeerState.idle ≠ .tofuPending by decide))
  · exact h i
  · by_cases hk : k = j
    · subst hk
      rw [AppState.put_peers_same]
      exact hdeed.authentic (ht k)
    · rw [AppState.put_peers_ne t v hk]
      exact ht k

end Authentic

end App
end Noxtor
