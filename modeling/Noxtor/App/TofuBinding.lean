import Noxtor.App.TofuHistory
import Noxtor.Noise.Agreement

/-!
# What the user approved

Every session that `action_tofu_accept` establishes is the one the user answered for: the
only pending slot, with the epoch of its own prompt, the armed snapshot and the key of its
handshake.  The last fingerprint on the screen of a connection that still exists is the one
that is approved.
-/

namespace Noxtor
namespace App

open ByteString Noise

/--
In the part `ev` of the loop that leads from `s` to `s'`, `action_tofu_accept` established
the session of slot `i` with the remote key `key`.  The marks are the history before the
answer.
-/
structure Approved (E : Env) (s s' : AppState) (ev : AppEvent) (i : Slot) (key : Key) : Prop where
  answer : ∃ text, ev = .line text ∧ isYes (cstr text) = true
  only : ∀ j, (s.peers j).state = .tofuPending ↔ j = i
  prompted : PromptedFor (marks s.sh.log) i (s.peers i).tofuEpoch key
  once : (promptEpochs s.sh.log).count (s.peers i).tofuEpoch = 1
  armed : ArmedFor (marks s.sh.log) i (s.peers i).tofuEpoch key
  snapshot : s.sh.tofuPromptEpoch = (s.peers i).tofuEpoch ∧ s.sh.tofuPromptFp = key
  newKey : (s.peers i).tofuNewKey = key
  session : (s'.peers i).state = .active ∧
    (s'.peers i).session.map NoiseSession.remoteStatic = some key
  contact : s'.sh.log =
    (if s.sh.ghostMode then s.sh.log
      else (dbAddContact E (s.peers i).tofuOnion (s.peers i).tofuName key s.sh).2.log) ++
      [.tofuSession i key]

section Approval

variable {P : Primitives} {E : Env} {s : AppState} {i : Slot}

/-- What the contact table is told before the session comes up. -/
theorem tofuSaved_log
    (v : View) :
    (tofuSaved E v).sh.log =
      if v.sh.ghostMode then v.sh.log
      else (dbAddContact E v.ps.tofuOnion v.ps.tofuName v.ps.tofuNewKey v.sh).2.log := by
  unfold tofuSaved tofuSaveContact
  split
  · rfl
  · rcases dbAddContact E v.ps.tofuOnion v.ps.tofuName v.ps.tofuNewKey v.sh with ⟨_ | _, sh⟩ <;> rfl

/-- The history of the armed epoch of a pending slot. -/
theorem armedFor_pending
    {w : World} (hinv : TofuInv w) (hst : (w.slots i).state = .tofuPending)
    (harm : (w.view i).Armed) :
    ArmedFor w.marks i (w.slots i).epoch (w.slots i).key ∧
      (promptEpochs w.marks).count (w.slots i).epoch = 1 := by
  have hprompt := hinv.pending i hst
  have hmem : (w.slots i).epoch ∈ promptEpochs w.marks := promptEpochs_mem hprompt.mem
  have hnodup : (promptEpochs w.marks).Nodup := by
    rw [hinv.epochs]
    exact List.nodup_range'
  have hpos : w.promptEpoch ≠ 0 := by
    rw [← show (w.slots i).epoch = w.promptEpoch from harm.1]
    rw [hinv.epochs, List.mem_range'_1] at hmem
    omega
  obtain ⟨j, hj⟩ := hinv.armed hpos
  rw [← show (w.slots i).epoch = w.promptEpoch from harm.1,
    ← show (w.slots i).key = w.promptFp from harm.2] at hj
  have hji : j = i := prompt_unique hnodup hj.mem hprompt.mem
  rw [hji] at hj
  exact ⟨hj, List.count_eq_one_of_mem hnodup hmem⟩

/-- A yes for the only pending slot approves it, or accepts nothing. -/
theorem yes_approves
    {text : Bytes} (hok : (world s).Ok) (hinv : TofuInv (world s))
    (hyes : isYes (cstr text) = true) (honly : ∀ j, (s.peers j).state = .tofuPending ↔ j = i) :
    tofuSessions (s.onSlot i (tofuAnswerYes P E i)).sh.log = tofuSessions s.sh.log ∨
      (tofuSessions (s.onSlot i (tofuAnswerYes P E i)).sh.log =
          tofuSessions s.sh.log ++ [(i, (s.peers i).tofuNewKey)] ∧
        Approved E s (s.onSlot i (tofuAnswerYes P E i)) (.line text) i
          (s.peers i).tofuNewKey) := by
  have hst : (s.view i).ps.state = .tofuPending := (honly i).mpr rfl
  have hlog : ∀ f, (s.onSlot i f).sh.log = (f (s.view i)).sh.log := by
    intro f
    rfl
  have hsessions : ∀ v m, marks v.sh.log = marks s.sh.log ++ m → tofuSessions m = [] →
      tofuSessions (View.sh v).log = tofuSessions s.sh.log := by
    intro v m hv hm
    rw [← tofuSessions_marks, hv, tofuSessions_append, hm, tofuSessions_marks, List.append_nil]
  rw [hlog]
  rcases tofuAnswerYes_cases (P := P) (E := E) (i := i) (v := s.view i) (hok i) hst with
    ⟨-, heq⟩ | ⟨harm, session, hkey, heq⟩ | hclosed
  · left
    rw [heq]
    exact hsessions _ _ (congrArg Life.marks (life_tofuRearm (i := i) (s.view i))) rfl
  · right
    obtain ⟨hfor, honce⟩ := armedFor_pending hinv hst harm
    have hnew : (tofuAnswerYes P E i (s.view i)).sh.log =
        (if s.sh.ghostMode then s.sh.log
          else (dbAddContact E (s.peers i).tofuOnion (s.peers i).tofuName (s.peers i).tofuNewKey
            s.sh).2.log) ++ [.tofuSession i (s.peers i).tofuNewKey] := by
      have h : (tofuAnswerYes P E i (s.view i)).sh.log =
          (tofuSaved E (s.view i)).sh.log ++ [.tofuSession i session.remoteStatic] := by
        rw [heq]
        rfl
      rw [h, hkey, tofuSaved_log]
      rfl
    have hmarks : marks (tofuAnswerYes P E i (s.view i)).sh.log =
        marks s.sh.log ++ [.tofuSession i (s.peers i).tofuNewKey] := by
      rw [heq]
      have h := life_tofuSessionUp (E := E) (i := i) (v := tofuSaved E (s.view i))
        session (by rw [tofuSaved_ps]; exact hst) (by rw [tofuSaved_ps]; exact hkey)
      rw [life_tofuSaved] at h
      exact congrArg Life.marks h
    constructor
    · rw [← tofuSessions_marks, hmarks, tofuSessions_append, tofuSessions_marks]
      rfl
    · constructor
      · exact ⟨text, rfl, hyes⟩
      · exact honly
      · exact hinv.pending i hst
      · rw [← promptEpochs_marks]
        exact honce
      · exact hfor
      · exact ⟨harm.1.symm, harm.2.symm⟩
      · rfl
      · have hps : ((s.onSlot i (tofuAnswerYes P E i)).peers i) =
            (tofuAnswerYes P E i (s.view i)).ps := by
          simp [AppState.onSlot, AppState.put]
        rw [hps, heq]
        exact ⟨rfl, congrArg some hkey⟩
      · exact hnew
  · left
    exact hsessions _ _ (congrArg Life.marks hclosed) rfl

/-- A no accepts nothing. -/
theorem no_accepts_nothing
    (hst : (s.peers i).state = .tofuPending) :
    tofuSessions (s.onSlot i (tofuAnswerNo P E i)).sh.log = tofuSessions s.sh.log := by
  have h := tofuAnswerNo_answer (P := P) (E := E) (i := i) (v := s.view i) hst
  have hmarks : tofuSessions (life (tofuAnswerNo P E i (s.view i))).marks =
      tofuSessions (life (s.view i)).marks := by
    generalize life (tofuAnswerNo P E i (s.view i)) = b at h ⊢
    cases h with
    | close _ =>
        show tofuSessions (_ ++ [.teardown i]) = _
        rw [tofuSessions_append]
        exact List.append_nil _
  rw [← tofuSessions_marks, ← tofuSessions_marks s.sh.log]
  exact hmarks

/-- A part of the loop accepts no session, or exactly one that the user approved. -/
theorem appStep_approves
    (ev : AppEvent) (hok : (world s).Ok) (hinv : TofuInv (world s)) :
    tofuSessions (appStep P E s ev).sh.log = tofuSessions s.sh.log ∨
      ∃ i, tofuSessions (appStep P E s ev).sh.log =
          tofuSessions s.sh.log ++ [(i, (s.peers i).tofuNewKey)] ∧
        Approved E s (appStep P E s ev) ev i (s.peers i).tofuNewKey := by
  rcases appStep_cases (P := P) (E := E) ev hok with h | ⟨text, i, rfl, -, -, hstep, honly, -⟩
  · left
    have heq := h.tofuSessions_eq
    rw [← tofuSessions_marks, ← tofuSessions_marks s.sh.log]
    exact heq
  · rw [hstep]
    cases hyes : isYes (cstr text) with
    | false =>
        left
        exact no_accepts_nothing ((honly i).mpr rfl)
    | true =>
        rcases yes_approves (P := P) (E := E) hok hinv hyes honly with h | h
        · exact Or.inl h
        · exact Or.inr ⟨i, h⟩

end Approval

/--
TOFU approval binding: after any run, a part of the loop either establishes no session
through `action_tofu_accept`, or exactly one, with everything that `Approved` says.
-/
theorem tofu_approval_bound
    (P : Primitives) (E : Env) (c : Config) (evs : List AppEvent) (ev : AppEvent) :
    let s := appRun P E (initialState c) evs
    let s' := appStep P E s ev
    tofuSessions s'.sh.log = tofuSessions s.sh.log ∨
      ∃ i key, tofuSessions s'.sh.log = tofuSessions s.sh.log ++ [(i, key)] ∧
        Approved E s s' ev i key := by
  intro s s'
  have hok : (world s).Ok := appRun_ok evs (initialState_ok c)
  have hinv : TofuInv (world s) := appRun_tofuInv evs (initialState_ok c) (initialState_tofuInv c)
  rcases appStep_approves (P := P) (E := E) ev hok hinv with h | ⟨i, h⟩
  · exact Or.inl h
  · exact Or.inr ⟨i, _, h⟩

/-- The line is a yes, and slot `i` is the only pending one and the one the snapshot is armed
for: `tofu_user_response` dispatches `EV_TOFU_ACCEPTED`. -/
def Accepts (s : AppState) (text : Bytes) (i : Slot) : Prop :=
  isYes (cstr text) = true ∧ pendingSlots s = [i] ∧
    (s.peers i).tofuEpoch = s.sh.tofuPromptEpoch ∧ (s.peers i).tofuNewKey = s.sh.tofuPromptFp

instance (s : AppState) (text : Bytes) (i : Slot) : Decidable (Accepts s text i) :=
  inferInstanceAs (Decidable (_ ∧ _))

theorem pendingSlots_singleton
    {s : AppState} {i : Slot} (honly : ∀ j, (s.peers j).state = .tofuPending ↔ j = i) :
    pendingSlots s = [i] := by
  have h : pendingSlots s = slots.filter fun j => j = i := by
    unfold pendingSlots
    simp only [honly]
  rw [h, List.filter_eq]
  have hcount : slots.count i = 1 := List.count_eq_one_of_mem (List.nodup_finRange 16) (List.mem_finRange i)
  rw [hcount]
  rfl

/-- The last live fingerprint is the one of the only pending slot. -/
theorem liveFps_last
    {w : World} {i : Slot} (hinv : TofuInv w)
    (honly : ∀ j, (w.slots j).state = .tofuPending ↔ j = i) :
    (liveFps w.marks).getLast? = some (i, hex (w.slots i).key.toList) := by
  obtain ⟨x, y, hxy, hy⟩ := hinv.shown i ((honly i).mpr rfl)
  have hnil : y = [] := by
    apply List.eq_nil_iff_forall_not_mem.mpr
    intro e he
    obtain ⟨hne, hpend⟩ := hy e he
    exact hne ((honly e.1).mp hpend)
  rw [hxy, hnil, List.getLast?_append]
  rfl

/--
When a yes accepts a slot, the last fingerprint that was displayed for a connection that has
not been torn down since is the one of the accepted slot; and a session is only established
when a yes accepts a slot.
-/
theorem tofu_accepts_last_shown
    (P : Primitives) (E : Env) (c : Config) (evs : List AppEvent) (ev : AppEvent) :
    let s := appRun P E (initialState c) evs
    (∀ text i, ev = .line text → Accepts s text i →
      (liveFps s.sh.log).getLast? = some (i, hex (s.peers i).tofuNewKey.toList)) ∧
    (tofuSessions (appStep P E s ev).sh.log ≠ tofuSessions s.sh.log →
      ∃ text i, ev = .line text ∧ Accepts s text i) := by
  intro s
  have hok : (world s).Ok := appRun_ok evs (initialState_ok c)
  have hinv : TofuInv (world s) := appRun_tofuInv evs (initialState_ok c) (initialState_tofuInv c)
  constructor
  · intro text i _ hacc
    have honly : ∀ j, ((world s).slots j).state = .tofuPending ↔ j = i := by
      intro j
      have h : j ∈ pendingSlots s ↔ (s.peers j).state = .tofuPending := by
        simp [pendingSlots, slots]
      rw [hacc.2.1, List.mem_singleton] at h
      exact h.symm
    rw [← liveFps_marks]
    exact liveFps_last hinv honly
  · intro hne
    rcases appStep_approves (P := P) (E := E) ev hok hinv with h | ⟨i, -, h⟩
    · exact absurd h hne
    · obtain ⟨text, hev, hyes⟩ := h.answer
      exact ⟨text, i, hev, hyes, pendingSlots_singleton h.only, h.snapshot.1.symm,
        h.snapshot.2.symm⟩

/-- An address whose checksum is right for `samplePrimitives`. -/
def sampleOnion (c : UInt8) : Bytes :=
  [c] ++ List.replicate 50 0x61 ++ [0x63, 0x34, 0x33, 0x79, 0x64] ++ onionSuffix

/-- The claim of a caller with the address `sampleOnion c` and the static key `b`. -/
def sampleClaim (c b : UInt8) : Bytes :=
  [noxHsPayloadV1Ver] ++ sampleOnion c ++
    (samplePrimitives.signDetached (samplePair b).priv
      (onionBindMsg (sampleOnion c) (samplePair b).pub)).toList

/-- The application has the address `sampleOnion 'd'` and the static key 2. -/
def sampleConfig : Config :=
  { staticPriv := (samplePair 2).priv, staticPub := (samplePair 2).pub
    onionSeed := (samplePair 2).priv, onionAddr := sampleOnion 0x64
    ghostMode := false, torPid := 1, torCtrlFd := 3, downloadsDirFd := 4, dbOpen := true }

/-- The two handshake frames of an honest caller, with the answer of the application between. -/
def sampleDial (c b : UInt8) : Except NoxErr (Bytes × Bytes) := do
  let hsI ← handshakeInit samplePrimitives true (some (samplePair b).priv) (some (samplePair b).pub)
  let hsR ← handshakeInit samplePrimitives false (some (samplePair 2).priv) (some (samplePair 2).pub)
  let (m0, hsI) ← runHs (handshakeWrite samplePrimitives (sampleCall 3) (.null 0) (some 256)) hsI
  let (_, hsR) ← runHs (handshakeRead samplePrimitives (sampleCall 4) (.data m0) (some 256)) hsR
  let (m1, _) ← runHs (handshakeWrite samplePrimitives (sampleCall 4)
    (.data (sampleClaim 0x64 2)) (some 256)) hsR
  let (_, hsI) ← runHs (handshakeRead samplePrimitives (sampleCall 3) (.data m1) (some 256)) hsI
  let (m2, _) ← runHs (handshakeWrite samplePrimitives (sampleCall 3)
    (.data (sampleClaim c b)) (some 256)) hsI
  return (frameBytes noxMsgCtrl 0 m0, frameBytes noxMsgCtrl 1 m2)

/-- One of the two frames. -/
def sampleFrame (c b : UInt8) (second : Bool) : Bytes :=
  match sampleDial c b with
  | .ok (first, last) => if second then last else first
  | .error _ => []

/-- Caller 7 comes in on descriptor 5 and caller 9 on descriptor 6, which is then closed. -/
def crossingEnv : Env :=
  { sampleEnv with
    accept := fun t => if t = 0 then some 5 else some 6
    recv := fun t =>
      if t = 7 then .data (sampleFrame 0x61 7 false)
      else if t = 17 then .data (sampleFrame 0x61 7 true)
      else if t = 31 then .data (sampleFrame 0x62 9 false)
      else if t = 41 then .data (sampleFrame 0x62 9 true)
      else .data [] }

/-- Both callers reach the prompt, and caller 9 leaves. -/
def crossingEvents : List AppEvent :=
  [.accept, .peer 5 false true, .peer 5 false true,
    .accept, .peer 6 false true, .peer 6 false true, .peer 6 false true]

/-- The state before the answer of the user. -/
def crossingState : AppState :=
  appRun samplePrimitives crossingEnv (initialState sampleConfig) crossingEvents

/-- The yes accepts caller 7, and its fingerprint is the last live one. -/
theorem tofu_accepts_last_shown_crossing :
    Accepts crossingState [0x79] 0 ∧
      (liveFps crossingState.sh.log).getLast? =
        some (0, hex (crossingState.peers 0).tofuNewKey.toList) ∧
      ∃ text i, AppEvent.line [0x79] = .line text ∧ Accepts crossingState text i := by
  have hacc : Accepts crossingState [0x79] 0 := by
    decide +kernel
  have hsession :
      tofuSessions (appStep samplePrimitives crossingEnv crossingState (.line [0x79])).sh.log ≠
        tofuSessions crossingState.sh.log := by
    decide +kernel
  obtain ⟨h1, h2⟩ := tofu_accepts_last_shown samplePrimitives crossingEnv sampleConfig
    crossingEvents (.line [0x79])
  unfold crossingState at hacc hsession ⊢
  exact ⟨hacc, h1 [0x79] 0 rfl hacc, h2 hsession⟩

/--
The last fingerprint on the screen need not be the approved one: caller 7 is prompted for,
then caller 9, caller 9 leaves, and a yes establishes the session of caller 7 although the
fingerprint shown last is that of caller 9.
-/
theorem tofu_last_shown_crossing :
    Accepts crossingState [0x79] 0 ∧
      tofuSessions (appStep samplePrimitives crossingEnv crossingState (.line [0x79])).sh.log =
        [(0, (samplePair 7).pub)] ∧
      (crossingState.peers 0).tofuNewKey = (samplePair 7).pub ∧
      (shownFps crossingState.sh.log).getLast? = some (1, hex (samplePair 9).pub.toList) ∧
      hex (samplePair 9).pub.toList ≠ hex (samplePair 7).pub.toList := by
  decide +kernel

end App
end Noxtor
