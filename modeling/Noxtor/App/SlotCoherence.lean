import Noxtor.App.EventMoves

/-!
# Slot coherence

What every slot looks like between two parts of the event loop, in the fields of
`struct peer_session`, and that no run ever follows a NULL handshake pointer.  The session
pointer is only handed to `noise_encrypt`, `noise_decrypt` and `handshake_split`.
-/

namespace Noxtor
namespace App

open ByteString Noise

/-- The coherence of a slot. -/
structure SlotOk (ps : PeerSession) : Prop where
  idle_iff : ps.state = .idle ↔ ps.fd = -1
  idle : ps.state = .idle →
    ps.hs = none ∧ ps.session = none ∧ ps.recv.length = 0 ∧ ps.peerOnion = [] ∧
      ps.connectTarget = [] ∧ ps.tofuPending = false ∧ ps.peerVerified = false ∧
      ps.rxFile.active = false ∧ ps.txFile.active = false
  handshake : ps.state = .handshakeInit ∨ ps.state = .handshakeResp →
    ps.session = none ∧ ∃ hs, ps.hs = some hs ∧ hs.msgIndex < 3
  tofu : ps.state = .tofuPending →
    ps.session = none ∧ ∃ hs, ps.hs = some hs ∧ hs.msgIndex = 3
  session : ps.state = .active ∨ ps.state = .fileRx → ps.session ≠ none ∧ ps.hs = none
  fileRx_iff : ps.state = .fileRx ↔ ps.rxFile.active = true
  reached : ps.state ≠ .connecting ∧ ps.state ≠ .fileTx

section Slots

variable {v : View}

theorem slotOk_idle
    (hok : (life v).Ok) (hst : v.ps.state = .idle) :
    SlotOk v.ps := by
  have hslot := hok.1
  simp only [SlotLife.Ok, life, slotLife, hst, Option.map_eq_none_iff] at hslot
  obtain ⟨hfd, hhs, hses, hrx, htx, hblank⟩ := hslot
  have hblank' : isBlank v.ps = true := by
    simpa using hblank
  simp only [isBlank, Bool.and_eq_true, decide_eq_true_eq, Bool.not_eq_true'] at hblank'
  obtain ⟨⟨⟨⟨hrecv, honion⟩, htarget⟩, htofu⟩, hver⟩ := hblank'
  constructor
  · simp [hst, hfd]
  · intro _
    exact ⟨hhs, hses, by rw [hrecv]; rfl, honion, htarget, htofu, hver, hrx, htx⟩
  all_goals simp [hst, hrx]

/-- The handshake of a slot, read back from its life. -/
theorem hs_of_life
    {idx : Nat} {k : Key} (h : v.ps.hs.map (fun hs => (hs.msgIndex, hs.rs)) = some (idx, k)) :
    ∃ hs, v.ps.hs = some hs ∧ hs.msgIndex = idx := by
  cases hv : v.ps.hs with
  | none =>
      rw [hv] at h
      cases h
  | some hs =>
      rw [hv] at h
      simp only [Option.map_some, Option.some.injEq, Prod.mk.injEq] at h
      exact ⟨hs, rfl, h.1⟩

theorem slotOk_handshaking
    (hok : (life v).Ok) (hst : v.ps.state.Handshaking) :
    SlotOk v.ps := by
  obtain ⟨hfd, ⟨idx, k, hhs, hidx⟩, hses, hrx, -⟩ := hok.1.handshaking hst
  obtain ⟨hs, hhs', hidx'⟩ := hs_of_life hhs
  have hses' : v.ps.session = none := by
    simpa [life, slotLife] using hses
  have hfd' : v.ps.fd ≠ -1 := by
    have : 0 ≤ v.ps.fd := hfd
    omega
  have hrx' : v.ps.rxFile.active = false := hrx
  constructor
  case handshake =>
    intro _
    exact ⟨hses', hs, hhs', by omega⟩
  all_goals rcases hst with hst | hst <;> simp [hst, hfd', hrx']

theorem slotOk_pending
    (hok : (life v).Ok) (hst : v.ps.state = .tofuPending) :
    SlotOk v.ps := by
  have hslot := hok.1
  simp only [SlotLife.Ok, life, slotLife, hst, Option.map_eq_none_iff] at hslot
  obtain ⟨hfd, hhs, hses, hrx, -⟩ := hslot
  have hfd' : v.ps.fd ≠ -1 := by
    omega
  constructor
  case tofu =>
    intro _
    exact ⟨hses, hs_of_life hhs⟩
  all_goals simp [hst, hfd', hrx]

theorem slotOk_inSession
    (hok : (life v).Ok) (hst : v.ps.state.InSession) :
    SlotOk v.ps := by
  have hslot := hok.1
  have hmain : 0 ≤ v.ps.fd ∧ v.ps.hs = none ∧ v.ps.session ≠ none ∧
      (v.ps.state = .fileRx ↔ v.ps.rxFile.active = true) := by
    rcases hst with hst | hst
    all_goals
      simp only [SlotLife.Ok, life, slotLife, hst, Option.map_eq_none_iff, Option.isSome_map] at hslot
      obtain ⟨hfd, hhs, hses, hrx⟩ := hslot
      refine ⟨hfd, hhs, Option.isSome_iff_ne_none.mp hses, ?_⟩
      simp [hst, hrx]
  obtain ⟨hfd, hhs, hses, hrx⟩ := hmain
  have hfd' : v.ps.fd ≠ -1 := by
    omega
  constructor
  case session =>
    intro _
    exact ⟨hses, hhs⟩
  case fileRx_iff =>
    exact hrx
  all_goals rcases hst with hst | hst <;> simp [hst, hfd']

/-- A slot whose life is coherent is coherent. -/
theorem slotOk_of_life
    (hok : (life v).Ok) :
    SlotOk v.ps := by
  cases hst : v.ps.state with
  | idle =>
      exact slotOk_idle hok hst
  | handshakeInit =>
      exact slotOk_handshaking hok (Or.inl hst)
  | handshakeResp =>
      exact slotOk_handshaking hok (Or.inr hst)
  | tofuPending =>
      exact slotOk_pending hok hst
  | active =>
      exact slotOk_inSession hok (Or.inl hst)
  | fileRx =>
      exact slotOk_inSession hok (Or.inr hst)
  | connecting =>
      have hslot := hok.1
      simp [SlotLife.Ok, life, slotLife, hst] at hslot
  | fileTx =>
      have hslot := hok.1
      simp [SlotLife.Ok, life, slotLife, hst] at hslot

end Slots

/--
In every run of the application every slot is coherent, and no NULL handshake pointer has
been followed.  The parts of a run come in any order and with any answers of the
environment; the rounds of `event_loop` are among the runs.
-/
theorem slots_coherent
    (P : Primitives) (E : Env) (c : Config) :
    (∀ evs : List AppEvent,
      (∀ i, SlotOk ((appRun P E (initialState c) evs).peers i)) ∧
        (appRun P E (initialState c) evs).sh.fault = false) ∧
    (∀ rounds : List (List AppEvent),
      (∀ i, SlotOk ((eventLoop P E rounds (initialState c)).peers i)) ∧
        (eventLoop P E rounds (initialState c)).sh.fault = false) := by
  have hrun : ∀ evs : List AppEvent,
      (∀ i, SlotOk ((appRun P E (initialState c) evs).peers i)) ∧
        (appRun P E (initialState c) evs).sh.fault = false := by
    intro evs
    have hok : (world (appRun P E (initialState c) evs)).Ok := appRun_ok evs (initialState_ok c)
    constructor
    · intro i
      exact slotOk_of_life (v := (appRun P E (initialState c) evs).view i) (hok i)
    · exact (hok 0).2
  constructor
  · exact hrun
  · intro rounds
    obtain ⟨evs, hevs⟩ := eventLoop_run (P := P) (E := E) rounds (initialState c)
    rw [hevs]
    exact hrun evs

end App
end Noxtor
