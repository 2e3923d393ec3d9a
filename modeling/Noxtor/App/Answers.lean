import Noxtor.App.World
import Noxtor.Noise.Turns

/-!
# The answers to a TOFU prompt

A yes for the only pending slot arms the prompt again when the snapshot is not the one of
the slot; otherwise the session comes up with the key of the handshake, or the slot is torn
down.  A no tears it down.  In the last three cases the snapshot is used up.
-/

namespace Noxtor
namespace App

open ByteString Noise

/-- The snapshot of the prompt is the one of the slot. -/
def Life.Armed (a : Life) : Prop :=
  a.slot.epoch = a.promptEpoch ∧ a.slot.key = a.promptFp

/-- The snapshot is renewed, and the fingerprint shown. -/
def Life.rearmed (i : Slot) (a : Life) : Life :=
  { a with
    promptEpoch := a.slot.epoch
    promptFp := a.slot.key
    marks := a.marks ++
      [.arm .answer a.slot.epoch a.slot.key, .showFp i (hex a.slot.key.toList)] }

/-- The session has been accepted. -/
def Life.accepted (i : Slot) (a : Life) : Life :=
  { a with
    slot := { a.slot with state := .active, hs := none, session := some a.slot.key }
    promptEpoch := 0
    marks := a.marks ++ [.tofuSession i a.slot.key] }

/-- The slot has been torn down, and the snapshot is used up. -/
def Life.closed (i : Slot) (a : Life) : Life :=
  { a.tornDown i with promptEpoch := 0 }

/-- What an answer does to the only pending slot. -/
inductive Answer (i : Slot) : Bool → Life → Life → Prop
  | rearm {a : Life} (h : ¬ a.Armed) : Answer i true a (a.rearmed i)
  | accept {a : Life} (h : a.Armed) : Answer i true a (a.accepted i)
  | close {a : Life} (yes : Bool) : Answer i yes a (a.closed i)

section Preservation

variable {i : Slot} {yes : Bool} {a b : Life}

/-- An answer keeps a pending slot coherent. -/
theorem Answer.ok
    (h : Answer i yes a b) (hst : a.slot.state = .tofuPending) (hok : a.Ok) :
    b.Ok := by
  cases h with
  | rearm _ =>
      exact hok
  | accept _ =>
      have hslot := hok.1
      simp only [SlotLife.Ok, hst] at hslot
      exact ⟨⟨hslot.1, rfl, rfl, hslot.2.2.2.1⟩, hok.2⟩
  | close yes =>
      exact ⟨SlotLife.torn_ok hok.1 (by rw [hst]; decide), hok.2⟩

end Preservation

section Code

variable {P : Primitives} {E : Env} {i : Slot} {v : View}

theorem life_tofuSaveContact
    (v : View) :
    life (tofuSaveContact E v) = life v := by
  have h := dbAddContact_quiet (E := E) v.ps.tofuOnion v.ps.tofuName v.ps.tofuNewKey v.sh
  unfold tofuSaveContact
  split
  · rfl
  generalize dbAddContact E v.ps.tofuOnion v.ps.tofuName v.ps.tofuNewKey v.sh = r at h ⊢
  obtain ⟨_ | _, sh⟩ := r
  · exact life_shared h
  · exact life_shared h

theorem tofuSaveContact_ps
    (v : View) :
    (tofuSaveContact E v).ps = v.ps := by
  unfold tofuSaveContact
  split
  · rfl
  rcases dbAddContact E v.ps.tofuOnion v.ps.tofuName v.ps.tofuNewKey v.sh with ⟨_ | _, sh⟩ <;> rfl

/-- What a pending slot holds. -/
theorem life_pending
    (hok : (life v).Ok) (hst : v.ps.state = .tofuPending) :
    ∃ hs, v.ps.hs = some hs ∧ hs.msgIndex = 3 ∧ hs.rs = v.ps.tofuNewKey := by
  have hslot := hok.1
  simp only [SlotLife.Ok, life, slotLife, hst] at hslot
  obtain ⟨-, hhs, -⟩ := hslot
  cases hv : v.ps.hs with
  | none =>
      rw [hv] at hhs
      cases hhs
  | some hs =>
      rw [hv] at hhs
      simp only [Option.map_some, Option.some.injEq, Prod.mk.injEq] at hhs
      exact ⟨hs, rfl, hhs.1, hhs.2⟩

/-- The view that `action_tofu_accept` puts the session into. -/
def tofuSaved (E : Env) (v : View) : View :=
  (sodiumMalloc E (tofuSaveContact E v)).2.tickOn

theorem life_tofuSaved
    (v : View) :
    life (tofuSaved E v) = life v := by
  unfold tofuSaved
  rw [life_tickOn, life_sodiumMalloc, life_tofuSaveContact]

theorem tofuSaved_ps
    (v : View) :
    (tofuSaved E v).ps = v.ps :=
  tofuSaveContact_ps v

/-- The nested disconnect tears a pending slot down. -/
theorem nested_disconnect
    {u : View} (hst : u.ps.state = .tofuPending) :
    (smDispatchDepth P E i 1 .peerDisconnected u).2 = tornDown i u := by
  have h : findTransition u.ps.state .peerDisconnected =
      some ⟨.tofuPending, .peerDisconnected, .idle, .cleanup⟩ := by
    rw [hst]
    rfl
  simp only [smDispatchDepth, h, runAction, tornDown]

/-- `EV_TOFU_ACCEPTED` of an armed slot: the session, or an error that tears down. -/
theorem smDispatch_tofuAccepted
    (hok : (life v).Ok) (hst : v.ps.state = .tofuPending) (harm : (life v).Armed) :
    (∃ session, session.remoteStatic = v.ps.tofuNewKey ∧
      smDispatch P E i .tofuAccepted v =
        (.ok (), (tofuSessionUp E i session (tofuSaved E v)).setPs
          fun ps => { ps with state := .active })) ∨
    (∃ err u, smDispatch P E i .tofuAccepted v = (.error err, tornDown i u) ∧
      u.ps.state = .tofuPending ∧ (life u).tornDown i = (life v).tornDown i) := by
  obtain ⟨hs, hhs, -, hkey⟩ := life_pending hok hst
  have hfind : findTransition v.ps.state .tofuAccepted =
      some ⟨.tofuPending, .tofuAccepted, .active, .tofuAccept⟩ := by
    rw [hst]
    rfl
  have harm' : ¬ (v.ps.tofuEpoch ≠ v.sh.tofuPromptEpoch ∨ v.ps.tofuNewKey ≠ v.sh.tofuPromptFp) := by
    rw [not_or, not_not, not_not]
    exact harm
  have hps : (tofuSaveContact E v).ps = v.ps := tofuSaveContact_ps v
  have hlife : life (tofuSaveContact E v) = life v := life_tofuSaveContact v
  rw [smDispatch, smDispatchDepth, hfind]
  simp only [runAction, actionTofuAccept, if_neg harm', hhs]
  unfold tofuSaved
  generalize tofuSaveContact E v = v1 at hps hlife ⊢
  unfold sodiumMalloc
  cases E.malloc v1.sh.tick with
  | false =>
      right
      have hst1 : (v1.tickOn.uiPrintError "Arena bellek hatası" []).ps.state = .tofuPending := by
        rw [← hst, ← hps]
        rfl
      refine ⟨.alloc, v1.tickOn.uiPrintError "Arena bellek hatası" [], ?_, hst1, ?_⟩
      · rw [← nested_disconnect (P := P) (E := E) hst1]
      · rw [life_uiPrintError, life_tickOn, hlife]
  | true =>
      dsimp only
      cases hsplit : handshakeSplit P (E.hkdfAlloc v1.tickOn.sh.tick) hs with
      | error err hs' =>
          right
          dsimp only
          generalize hu : (v1.tickOn.tickOn.setPs fun ps =>
            { ps with hs := some hs', session := none }).uiPrintError "session split başarısız" [] = u
          have hstu : u.ps.state = .tofuPending := by
            rw [← hu, ← hst, ← hps]
            rfl
          refine ⟨.proto, u, ?_, hstu, ?_⟩
          · rw [← nested_disconnect (P := P) (E := E) hstu]
          · rw [← hu, life_uiPrintError, tornDown_forgets, life_tickOn, life_tickOn, hlife]
      | ok session hs' =>
          left
          exact ⟨session, (handshakeSplit_remote hsplit).trans hkey, rfl⟩

theorem life_tofuSessionUp
    (session : NoiseSession) (hst : v.ps.state = .tofuPending)
    (hkey : session.remoteStatic = v.ps.tofuNewKey) :
    life (tofuDisarm ((tofuSessionUp E i session v).setPs fun ps => { ps with state := .active })) =
      (life v).accepted i := by
  have hmark : ∀ k, marks [Effect.tofuSession i k] = [.tofuSession i k] := by
    intro k
    rfl
  simp [life, slotLife, tofuDisarm, tofuSessionUp, View.uiPrintSystem, View.say, Life.accepted, hmark,
    hkey, hst]

theorem life_tofuRearm
    (v : View) :
    life (tofuRearm i v) = (life v).rearmed i := by
  have hmark : ∀ log k h, marks (log ++ [Effect.arm .answer k h, .showFp i (hex h.toList)]) =
      marks log ++ [.arm .answer k h, .showFp i (hex h.toList)] := by
    intro log k h
    exact marks_append log _
  unfold tofuRearm
  rw [life_uiPrintError]
  simp only [life, View.setSh_ps, View.setSh_sh, hmark]
  rfl

theorem life_tofuDisarm
    (v : View) :
    life (tofuDisarm v) = { life v with promptEpoch := 0 } := by
  rfl

/-- What a yes does to a pending slot. -/
theorem tofuAnswerYes_cases
    (hok : (life v).Ok) (hst : v.ps.state = .tofuPending) :
    (¬ (life v).Armed ∧ tofuAnswerYes P E i v = tofuRearm i v) ∨
    ((life v).Armed ∧ ∃ session, session.remoteStatic = v.ps.tofuNewKey ∧
      tofuAnswerYes P E i v = tofuDisarm ((tofuSessionUp E i session (tofuSaved E v)).setPs
        fun ps => { ps with state := .active })) ∨
    life (tofuAnswerYes P E i v) = (life v).closed i := by
  unfold tofuAnswerYes
  split
  · rename_i hmis
    left
    refine ⟨?_, rfl⟩
    intro harm
    rcases hmis with hmis | hmis
    · exact hmis harm.1
    · exact hmis harm.2
  · rename_i harm
    rw [not_or, not_not, not_not] at harm
    right
    rcases smDispatch_tofuAccepted (P := P) (E := E) (i := i) hok hst harm with
      ⟨session, hkey, hacc⟩ | ⟨err, u, herr, -, htorn⟩
    · left
      exact ⟨harm, session, hkey, by rw [hacc]⟩
    · right
      rw [herr]
      have hidle : (tofuDisarm (tornDown i u)).ps.state = .idle := rfl
      dsimp only
      rw [smDispatch_peerDisconnected, if_pos hidle, life_tofuDisarm, life_tornDown, htorn]
      rfl

/-- The yes of the user. -/
theorem tofuAnswerYes_answer
    (hok : (life v).Ok) (hst : v.ps.state = .tofuPending) :
    Answer i true (life v) (life (tofuAnswerYes P E i v)) := by
  rcases tofuAnswerYes_cases (P := P) (E := E) (i := i) hok hst with
    ⟨hmis, heq⟩ | ⟨harm, session, hkey, heq⟩ | hclosed
  · rw [heq, life_tofuRearm]
    exact .rearm hmis
  · rw [heq, life_tofuSessionUp _ (by rw [tofuSaved_ps]; exact hst)
      (by rw [tofuSaved_ps]; exact hkey), life_tofuSaved]
    exact .accept harm
  · rw [hclosed]
    exact .close true

/-- The no of the user. -/
theorem tofuAnswerNo_answer
    (hst : v.ps.state = .tofuPending) :
    Answer i false (life v) (life (tofuAnswerNo P E i v)) := by
  unfold tofuAnswerNo
  generalize hu : (tofuDisarm v).uiPrintSystem "[*] Bağlantı reddedildi." [] = u
  have hstu : u.ps.state = .tofuPending := by
    rw [← hu]
    exact hst
  have hlife : life u = { life v with promptEpoch := 0 } := by
    rw [← hu]
    rfl
  rw [smDispatch_torn (t := ⟨.tofuPending, .tofuRejected, .idle, .cleanup⟩) (by rw [hstu]; rfl) rfl,
    life_tornDown, hlife]
  exact .close false

end Code

end App
end Noxtor
