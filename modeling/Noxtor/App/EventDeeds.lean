import Noxtor.App.FrameDeeds

/-!
# Deeds of the event loop

Deeds of the whole application are deeds of single slots.  The timeouts, the check on Tor,
draining, new connections and data from a peer are sequences of deeds.
-/

namespace Noxtor
namespace App

open ByteString Noise

section Whole

variable (P : Primitives) (E : Env)

/-- A deed of one slot. -/
def AppDeed (cmd : Cmd) (s s' : AppState) : Prop :=
  ∃ i v', Deed P E cmd i (s.view i) v' ∧ s' = s.put i v'

/-- Any number of deeds of any slots. -/
def AppDeeds (cmd : Cmd) : AppState → AppState → Prop :=
  Relation.ReflTransGen (AppDeed P E cmd)

end Whole

namespace AppState

@[simp] theorem view_put_same
    (s : AppState) (i : Slot) (v : View) :
    (s.put i v).view i = v := by
  simp [view, put]

@[simp] theorem put_view
    (s : AppState) (i : Slot) :
    s.put i (s.view i) = s := by
  simp [view, put]

@[simp] theorem put_put
    (s : AppState) (i : Slot) (v u : View) :
    (s.put i v).put i u = s.put i u := by
  simp [put]

theorem put_shared
    (s : AppState) (i : Slot) (sh : Shared) :
    s.put i { s.view i with sh := sh } = { s with sh := sh } := by
  simp [view, put]

theorem put_peers_ne
    (s : AppState) {i j : Slot} (v : View) (h : j ≠ i) :
    (s.put i v).peers j = s.peers j := by
  simp [put, h]

@[simp] theorem put_peers_same
    (s : AppState) (i : Slot) (v : View) :
    (s.put i v).peers i = v.ps := by
  simp [put]

@[simp] theorem put_sh
    (s : AppState) (i : Slot) (v : View) :
    (s.put i v).sh = v.sh := by
  rfl

end AppState

/-- A change of the shared state that the deeds do not account for. -/
def MinorShared (sh sh' : Shared) : Prop :=
  sh'.core = sh.core ∧ MinorLog sh.log sh'.log

namespace MinorShared

variable {sh sh' sh'' : Shared}

/-- A change without effects. -/
theorem of_eq
    (h : sh'.core = sh.core) (hlog : sh'.log = sh.log) :
    MinorShared sh sh' :=
  ⟨h, by rw [hlog]; exact MinorLog.refl _⟩

theorem trans (h : MinorShared sh sh') (h' : MinorShared sh' sh'') : MinorShared sh sh'' :=
  ⟨h'.1.trans h.1, h.2.trans h'.2⟩

theorem view {v : View} (h : MinorShared v.sh sh) : Minor v { v with sh := sh } :=
  ⟨rfl, h.1, h.2⟩

end MinorShared

namespace AppDeeds

variable {P : Primitives} {E : Env} {cmd : Cmd} {s s' s'' : AppState}

theorem refl (s : AppState) : AppDeeds P E cmd s s :=
  Relation.ReflTransGen.refl

theorem trans (h : AppDeeds P E cmd s s') (h' : AppDeeds P E cmd s' s'') :
    AppDeeds P E cmd s s'' :=
  Relation.ReflTransGen.trans h h'

/-- Deeds of a slot are deeds of the whole. -/
theorem of_slot
    {i : Slot} {v : View} (h : Deeds P E cmd i (s.view i) v) :
    AppDeeds P E cmd s (s.put i v) := by
  induction h with
  | refl =>
      rw [AppState.put_view]
      exact refl s
  | tail _ hdeed ih =>
      rename_i u w _
      apply Relation.ReflTransGen.tail ih
      refine ⟨i, w, ?_, ?_⟩
      · rw [AppState.view_put_same]
        exact hdeed
      · rw [AppState.put_put]

theorem onSlot
    {i : Slot} {f : View → View} (h : Deeds P E cmd i (s.view i) (f (s.view i))) :
    AppDeeds P E cmd s (s.onSlot i f) :=
  of_slot h

/-- Deeds that leave all slots alone. -/
theorem of_shared_deeds
    {sh : Shared} (i : Slot) (h : Deeds P E cmd i (s.view i) { s.view i with sh := sh }) :
    AppDeeds P E cmd s { s with sh := sh } := by
  rw [← AppState.put_shared s i]
  exact of_slot h

theorem of_shared
    {sh : Shared} (h : MinorShared s.sh sh) :
    AppDeeds P E cmd s { s with sh := sh } :=
  of_shared_deeds 0 (Deeds.of_minor h.view)

theorem say (s : AppState) (kind : UiKind) (text : String) (args : List Bytes) :
    AppDeeds P E cmd s (s.say kind text args) :=
  of_shared (.of_eq rfl rfl)

theorem thenError (text : String) (args : List Bytes) (h : AppDeeds P E cmd s s') :
    AppDeeds P E cmd s (s'.uiPrintError text args) :=
  h.trans (say s' .error text args)

theorem thenSystem (text : String) (args : List Bytes) (h : AppDeeds P E cmd s s') :
    AppDeeds P E cmd s (s'.uiPrintSystem text args) :=
  h.trans (say s' .system text args)

theorem ite
    {p : Prop} [Decidable p] {a b : AppState}
    (ha : p → AppDeeds P E cmd s a) (hb : ¬ p → AppDeeds P E cmd s b) :
    AppDeeds P E cmd s (if p then a else b) := by
  split
  · rename_i h
    exact ha h
  · rename_i h
    exact hb h

end AppDeeds

section Slots

variable {P : Primitives} {E : Env} {cmd : Cmd} {s : AppState}

theorem foldSlots_deeds
    {f : Slot → View → View}
    (h : ∀ i v, (life v).Ok → Moves i (life v) (life (f i v)) ∧ Deeds P E cmd i v (f i v))
    (l : List Slot) (hok : (world s).Ok) :
    AppDeeds P E cmd s (l.foldl (fun t i => t.onSlot i (f i)) s) := by
  induction l generalizing s with
  | nil =>
      exact AppDeeds.refl s
  | cons i l ih =>
      have hi := h i (s.view i) (hok i)
      have hok' : (world (s.onSlot i (f i))).Ok := (onSlot_moves hi.1).ok hok
      exact (AppDeeds.onSlot hi.2).trans (ih hok')

theorem forSlots_deeds
    {f : Slot → View → View}
    (h : ∀ i v, (life v).Ok → Moves i (life v) (life (f i v)) ∧ Deeds P E cmd i v (f i v))
    (hok : (world s).Ok) :
    AppDeeds P E cmd s (forSlots f s) :=
  foldSlots_deeds h slots hok

end Slots

section Parts

variable {P : Primitives} {E : Env} {cmd : Cmd} {i : Slot} {v : View}

theorem sweepHandshake_deeds
    (v : View) :
    Deeds P E cmd i v (sweepHandshake P E i v) := by
  unfold sweepHandshake
  split
  · rename_i hst
    split
    · rw [smDispatch_handshake_torn (v := v.tickOn.uiPrintError _ []) hst (Or.inr (Or.inl rfl))]
      exact Deeds.after ((Minor.tickOn v).thenError _ _)
        (.torn (PeerState.Handshaking.ne_idle hst))
    · exact Deeds.of_minor (Minor.tickOn v)
  · exact Deeds.refl v

theorem sweepTofu_deeds
    (v : View) :
    Deeds P E cmd i v (sweepTofu P E i v) := by
  unfold sweepTofu
  split
  · split
    · exact (Deeds.of_minor ((Minor.tickOn v).thenError _ _)).trans (peerDisconnected_deeds _)
    · exact Deeds.of_minor (Minor.tickOn v)
  · exact Deeds.refl v

/-- A file that no longer arrives is dropped. -/
theorem sweepChunk_deeds
    (hok : (life v).Ok) :
    Deeds P E cmd i v (sweepChunk P E i v) := by
  unfold sweepChunk
  split
  swap
  · exact Deeds.refl v
  rename_i hact
  split
  swap
  · exact Deeds.of_minor (Minor.tickOn v)
  have hst : v.ps.state = .fileRx := fileRx_of_active hok hact
  have hun : (if v.sh.downloadsDirFd ≥ 0 ∧ v.ps.rxFile.localName ≠ [] then
      [Effect.fileUnlink i v.ps.rxFile.localName] else []) = unlinkPartial i
        (v.tickOn.uiPrintError "Dosya transferi zaman aşımı — sender sessiz." []) :=
    abortUnlinks_eq hact
  have h1 : Minor v (v.tickOn.uiPrintError "Dosya transferi zaman aşımı — sender sessiz." []) :=
    (Minor.tickOn v).thenError _ _
  dsimp only
  rw [hun]
  generalize hv1 : v.tickOn.uiPrintError "Dosya transferi zaman aşımı — sender sessiz." [] = v1
    at h1 ⊢
  have hps : v1.ps = v.ps := by
    rw [← hv1]
    rfl
  have hend : (v1.emit (unlinkPartial i v1)).ps.state = .fileRx := by
    rw [View.emit_ps, hps]
    exact hst
  have hdrop : Deeds P E cmd i v (rxOver (v1.emit ([] ++ unlinkPartial i v1))) :=
    Deeds.after h1 (.rxDropped [] _ (by rw [hps]; exact hst) (by rw [hps]; exact hact)
      (fun e he => absurd he List.not_mem_nil) (Or.inl rfl))
  rw [if_pos (show ((v1.emit (unlinkPartial i v1)).setPs fun ps =>
    { ps with rxFile := { fd := -1 } }).ps.state = .fileRx from hend)]
  exact hdrop.trans (Deeds.of_minor (minor_rxFinish hend))

theorem sweepIdle_deeds
    (v : View) :
    Deeds P E cmd i v (sweepIdle P E i v) := by
  unfold sweepIdle
  split
  · dsimp only
    split
    · exact (Deeds.of_minor ((Minor.tickOn v).thenError _ _)).trans (peerDisconnected_deeds _)
    split
    · exact (Deeds.of_minor (Minor.tickOn v)).trans (peerDisconnected_deeds _)
    · exact Deeds.of_minor (Minor.tickOn v)
  · exact Deeds.refl v

theorem sweepSlot_deeds
    (hok : (life v).Ok) :
    Deeds P E cmd i v (sweepSlot P E i v) := by
  unfold sweepSlot
  split
  · exact Deeds.refl v
  have h1 := sweepHandshake_moves (P := P) (E := E) (i := i) v
  have h2 := sweepTofu_moves (P := P) (E := E) (i := i) (sweepHandshake P E i v)
  have hok2 := h2.ok (h1.ok hok)
  exact (((sweepHandshake_deeds v).trans (sweepTofu_deeds _)).trans (sweepChunk_deeds hok2)).trans
    (sweepIdle_deeds _)

theorem torDiedSlot_deeds
    (hok : (life v).Ok) :
    Deeds P E cmd i v (torDiedSlot P E i v) := by
  unfold torDiedSlot
  split
  swap
  · exact Deeds.refl v
  rename_i huse
  have hne : v.ps.state ≠ .idle := by
    rcases huse with hfd | hst
    · intro hst
      have := (life_idle hok hst).1
      omega
    · exact hst
  have htorn : smDispatch P E i .torDied v = (.ok (), tornDown i v) := by
    cases hst : v.ps.state <;> exact smDispatch_torn (by rw [hst]; rfl) rfl
  rw [htorn]
  exact Deeds.one (.torn hne)

theorem drainSlot_deeds
    (hok : (life v).Ok) :
    Deeds P E .other i v (drainSlot P E i v) := by
  unfold drainSlot
  split
  · rename_i hses
    exact processPeerFrames_session_deeds _ hok hses.1
  · exact Deeds.refl v

end Parts

section Connect

variable {P : Primitives} {E : Env} {cmd : Cmd} {i : Slot} {v : View}

/-- What a free slot holds. -/
theorem idle_fields
    (hok : (life v).Ok) (hst : v.ps.state = .idle) :
    v.ps.fd = -1 ∧ v.ps.peerOnion = [] ∧ v.ps.connectTarget = [] := by
  obtain ⟨hfd, -, hblank⟩ := life_idle hok hst
  simp only [isBlank, Bool.and_eq_true, decide_eq_true_eq] at hblank
  exact ⟨hfd, hblank.1.1.1.2, hblank.1.1.2⟩

/-- A free slot that was filled in and emptied again. -/
theorem minor_undone
    {u : View} (hok : (life v).Ok) (hst : v.ps.state = .idle)
    (hu : u.ps.core =
      ({ v.ps with fd := -1, peerOnion := [], connectTarget := [] } : PeerSession).core)
    (hsh : MinorShared v.sh u.sh) :
    Minor v u := by
  obtain ⟨hfd, honion, htarget⟩ := idle_fields hok hst
  refine ⟨?_, hsh.1, hsh.2⟩
  have hps : ({ v.ps with fd := -1, peerOnion := [], connectTarget := [] } : PeerSession) =
      v.ps := by
    obtain ⟨ps, sh⟩ := v
    obtain ⟨⟩ := ps
    dsimp only at hfd honion htarget ⊢
    rw [hfd, honion, htarget]
  rw [hu, hps]

/-- The end of `accept`. -/
theorem answered_deeds
    {u : View} (peerFd : Nat) (hcmd : cmd = .inbound) (hst : v.ps.state = .idle)
    (hps : ({ u.ps with state := .handshakeResp } : PeerSession).core =
      ({ v.ps with state := .handshakeResp, fd := peerFd, peerOnion := []
                   connectTarget := [] } : PeerSession).core)
    (hsh : u.sh.core = v.sh.core ∧ u.sh.log = v.sh.log) :
    Deeds P E cmd i v (((u.setPs fun ps => { ps with state := .handshakeResp }).setSh fun sh =>
      { sh with
        activePeerIdx := if sh.activePeerIdx < 0 then i.val else sh.activePeerIdx
        }).uiPrintSystem "[*] gelen bağlantı — handshake bekleniyor" []) := by
  have hidx : u.sh.core.activePeerIdx = v.sh.core.activePeerIdx := by
    rw [hsh.1]
  change u.sh.activePeerIdx = v.sh.activePeerIdx at hidx
  refine Deeds.before (.answered peerFd hcmd hst) (Minor.thenSystem _ _ (Minor.of_eq hps ?_ hsh.2))
  show ({ u.sh.core with
    activePeerIdx := if u.sh.activePeerIdx < 0 then (i.val : Int) else u.sh.activePeerIdx }
      : Shared) = _
  rw [hsh.1, hidx]
  rfl

theorem acceptSlot_deeds
    (peerFd : Nat) (hok : (life v).Ok) (hst : v.ps.state = .idle) :
    Deeds P E .inbound i v (acceptSlot P E i peerFd v) := by
  obtain ⟨-, honion, htarget⟩ := idle_fields hok hst
  have hps : ({ v.ps with fd := -1 } : PeerSession) =
      { v.ps with fd := -1, peerOnion := [], connectTarget := [] } := by
    simp [honion, htarget]
  have hundo : ∀ u : View,
      u.ps.core = ({ v.ps with fd := -1 } : PeerSession).core → MinorShared v.sh u.sh →
      Deeds P E .inbound i v u := by
    intro u hu hsh
    exact Deeds.of_minor (minor_undone hok hst (by rw [hu, hps]) hsh)
  unfold acceptSlot
  dsimp only
  split
  · exact hundo _ rfl (.of_eq rfl rfl)
  unfold sodiumMalloc
  cases E.malloc _ with
  | false => exact hundo _ rfl (.of_eq rfl rfl)
  | true =>
      dsimp only
      cases hinit : handshakeInit P false _ _ with
      | error err => exact hundo _ rfl (.of_eq rfl rfl)
      | ok hs =>
          dsimp only
          generalize hv3 : View.setSh _ (hsTicks _) = v3
          have hst3 : v3.ps.state = .idle := by
            rw [← hv3]
            exact hst
          have hsh3 : v3.sh.core = v.sh.core ∧ v3.sh.log = v.sh.log := by
            rw [← hv3]
            simp [Shared.core, hsTicks, View.tickOn]
          rw [smDispatch_peerAccepted hst3]
          have hps3 : ({ v3.ps with state := .handshakeResp } : PeerSession).core =
              ({ v.ps with state := .handshakeResp, fd := peerFd, peerOnion := []
                           connectTarget := [] } : PeerSession).core := by
            rw [← hv3]
            simp [PeerSession.core, hsTicks, honion, htarget]
          clear hv3
          exact answered_deeds peerFd rfl hst hps3 hsh3

/-- The first message of a dialled connection goes out, or the slot is torn down. -/
theorem dialHello_deeds
    {pre : List Effect} (target : Bytes) (hst : v.ps.state.Handshaking)
    (honion : v.ps.peerOnion = strCopy noxOnionLen target)
    (hlog : v.sh.log = pre ++ [.dialled i (strCopy noxOnionLen target)]) :
    Deeds P E .dial i v (dialHello P E i target v) := by
  unfold dialHello
  cases v.ps.hs with
  | none => exact rejectHandshake_deeds _ hst
  | some hs =>
      dsimp only [hsTicks]
      have h1 := (Minor.tickOn v).thenTick
      cases handshakeWrite P (hsCallAt E v.sh.tick) (.null 0) (some noiseMaxHandshakeLen) hs with
      | error err hs' =>
          exact (Deeds.of_minor (h1.trans (Minor.setPs _ rfl))).trans
            (rejectHandshake_deeds _ hst)
      | ok msg hs' =>
          dsimp only
          generalize hv2 : (v.tickOn.tickOn.setPs fun ps => { ps with hs := some hs' }) = v2
          have h2 : Minor v v2 := by
            rw [← hv2]
            exact h1.trans (Minor.setPs _ rfl)
          have hst2 : v2.ps.state = v.ps.state ∧ v2.ps.peerOnion = v.ps.peerOnion ∧
              v2.sh.log = v.sh.log := by
            rw [← hv2]
            exact ⟨rfl, rfl, rfl⟩
          have h3 : Deeds P E .dial i v2
              (sockWrite E i (frameBytes noxMsgCtrl v2.ps.txSeq msg) v2).2 :=
            sockWrite_deeds _ fun u bytes hu =>
              .greet pre _ bytes (by rw [hu, hst2.2.2, hlog])
          have hps := sockWrite_ps E i (frameBytes noxMsgCtrl v2.ps.txSeq msg) v2
          generalize sockWrite E i (frameBytes noxMsgCtrl v2.ps.txSeq msg) v2 = w at h3 hps ⊢
          obtain ⟨r, v3⟩ := w
          dsimp only at h3 hps
          have h23 := (Deeds.of_minor h2).trans h3
          have hst3 : v3.ps.state.Handshaking := by
            rw [hps, hst2.1]
            exact hst
          have hfail : Deeds P E .dial i v
              (rejectHandshake P E i "Handshake başlatılamadı — bağlantı kesildi" v3) :=
            h23.trans (rejectHandshake_deeds _ hst3)
          cases r with
          | ok n =>
              dsimp only
              split
              · exact hfail
              generalize hv4 : touchLastActive E
                (v3.setPs fun ps => { ps with txSeq := ps.txSeq + 1 }) = v4
              have h4 : Deeds P E .dial i v v4 := by
                rw [← hv4]
                exact h23.trans
                  (Deeds.of_minor ((Minor.setPs v3 rfl).trans (minor_touchLastActive _)))
              have hps4 : v4.ps.state.Handshaking ∧
                  v4.ps.peerOnion = strCopy noxOnionLen target := by
                rw [← hv4]
                refine ⟨hst3, ?_⟩
                show v3.ps.peerOnion = _
                rw [hps, hst2.2.1, honion]
              have h5 := Minor.say .system "[*] handshake başlatıldı" [] v4
              have hchosen := Deed.chosen (P := P) (E := E) (i := i)
                (v := v4.uiPrintSystem "[*] handshake başlatıldı" []) (Or.inl rfl)
                hps4.1.ne_idle
              have honion4 : strCopy noxOnionLen v4.ps.peerOnion = strCopy noxOnionLen target := by
                rw [hps4.2]
                simp [strCopy]
              have hend := h4.trans (Deeds.after h5 hchosen)
              unfold chosen at hend
              rw [View.uiPrintSystem_ps, honion4] at hend
              exact hend
          | eagain => exact hfail
          | eintr => exact hfail
          | err => exact hfail

theorem dialSlot_deeds
    (target : Bytes) (peerFd : Nat) (hok : (life v).Ok) (hst : v.ps.state = .idle) :
    Deeds P E .dial i v (dialSlot P E i target peerFd v) := by
  have hundo : ∀ u : View, u.ps.core =
      ({ v.ps with fd := -1, peerOnion := [], connectTarget := [] } : PeerSession).core →
      MinorShared v.sh u.sh → Deeds P E .dial i v u := by
    intro u hu hsh
    exact Deeds.of_minor (minor_undone hok hst hu hsh)
  unfold dialSlot
  dsimp only
  split
  · exact hundo _ rfl (.of_eq rfl rfl)
  unfold sodiumMalloc
  cases E.malloc _ with
  | false =>
      refine hundo _ ?_ (.of_eq ?_ ?_)
      · simp [dialUndo, PeerSession.core]
      · simp [dialUndo, Shared.core, View.tickOn, View.uiPrintError, View.say]
      · simp [dialUndo]
  | true =>
      dsimp only
      cases hinit : handshakeInit P true _ _ with
      | error err =>
          refine hundo _ ?_ (.of_eq ?_ ?_)
          · simp [dialUndo, PeerSession.core]
          · simp [dialUndo, Shared.core, View.tickOn, View.uiPrintError, View.say]
          · simp [dialUndo]
      | ok hs =>
          dsimp only
          generalize hv3 : hsTicks _ = v3
          have hst3 : v3.ps.state = .idle := by
            rw [← hv3]
            exact hst
          rw [smDispatch_connectCmd hst3]
          subst hv3
          refine Deeds.trans ?_ (dialHello_deeds target (Or.inl rfl) rfl rfl)
          refine Deeds.before (.dialled peerFd target rfl hst) (Minor.of_eq ?_ ?_ ?_)
          · simp [connected, PeerSession.core, hsTicks]
          · simp [connected, Shared.core, View.tickOn, View.emit, hsTicks]
          · simp [connected, hsTicks]

end Connect

section Data

variable {P : Primitives} {E : Env} {cmd : Cmd} {i : Slot} {v : View} {s : AppState}

theorem readSlot_deeds
    (fd : Nat) (hok : (life v).Ok) (hne : v.ps.state ≠ .idle) :
    Deeds P E .read i v (readSlot P E i fd v) := by
  have h1 : Deeds P E .read i v v.tickOn := Deeds.of_minor (Minor.tickOn v)
  unfold readSlot
  dsimp only
  split
  · have h2 : Deeds P E .read i v (processPeerFrames P E i fd v.tickOn) :=
      h1.trans (processPeerFrames_deeds (v := v.tickOn) fd hok)
    split
    · exact h2.trans (peerDisconnected_deeds _)
    · exact h2
  have hgone : Deeds P E .read i v (smDispatch P E i .peerDisconnected
      (v.tickOn.tickOn.uiPrintSystem "[*] peer ayrıldı" [])).2 :=
    (Deeds.of_minor ((Minor.tickOn v).thenTick.thenSystem _ _)).trans (peerDisconnected_deeds _)
  cases E.recv v.tickOn.sh.tick with
  | data b =>
      dsimp only
      split
      · exact hgone
      · generalize hu : touchLastActive E (v.tickOn.tickOn.setPs _) = u
        have hlife : life u = life v := by
          rw [← hu, life_touchLastActive]
          exact life_setPs (v := v.tickOn.tickOn) (slotLife_recv hne _)
        have hminor : Minor v u := by
          rw [← hu]
          exact ((Minor.tickOn v).thenTick.trans (Minor.setPs _ rfl)).trans
            (minor_touchLastActive _)
        exact (Deeds.of_minor hminor).trans
          (processPeerFrames_deeds fd (by rw [hlife]; exact hok))
  | eagain => exact Deeds.of_minor (Minor.tickOn v).thenTick
  | eintr => exact Deeds.of_minor (Minor.tickOn v).thenTick
  | err => exact hgone

/-- Only the slot of a session sends a file. -/
theorem live_of_txActive
    (hok : (life v).Ok) (htx : v.ps.txFile.active = true) :
    v.ps.session ≠ none := by
  have hslot := hok.1
  unfold SlotLife.Ok at hslot
  rintro hses
  cases hst : v.ps.state <;> simp [life, slotLife, hst, htx, hses] at hslot

theorem writeSlot_deeds
    (hok : (life v).Ok) :
    Deeds P E cmd i v (writeSlot P E i v) := by
  unfold writeSlot
  split
  · exact (sends_fileTransferHandleTx (live_of_txActive hok)).deeds
  · exact Deeds.refl v

/-- A report for a descriptor is made of deeds of the slot that has it. -/
theorem peerReady_slot
    (fd : Nat) (out inp : Bool) (hok : (world s).Ok) :
    peerReady P E fd out inp s = s ∨
      ∃ i v, Deeds P E .read i (s.view i) v ∧ peerReady P E fd out inp s = s.put i v := by
  unfold peerReady
  cases hfind : findPeerByFd s fd with
  | none =>
      exact Or.inl rfl
  | some i =>
      refine Or.inr ⟨i, _, ?_, rfl⟩
      have hoki : (life (s.view i)).Ok := hok i
      have hfd : (s.view i).ps.fd = fd := by
        have h := List.find?_some hfind
        exact of_decide_eq_true h
      have hne : (s.view i).ps.state ≠ .idle := by
        intro hst
        have := (life_idle hoki hst).1
        omega
      generalize s.view i = v at hoki hne ⊢
      have hwrite : Deeds P E .read i v (if out then writeSlot P E i v else v) ∧
          (life (if out then writeSlot P E i v else v)).Ok ∧
          (if out then writeSlot P E i v else v).ps.state = v.ps.state := by
        split
        · have h := writeSlot_moves (P := P) (E := E) (i := i) hoki
          exact ⟨writeSlot_deeds hoki, h.1.ok hoki, h.2⟩
        · exact ⟨Deeds.refl v, hoki, rfl⟩
      dsimp only
      generalize (if out then writeSlot P E i v else v) = v1 at hwrite ⊢
      obtain ⟨h1, hok1, hst1⟩ := hwrite
      split
      · exact h1.trans (readSlot_deeds fd hok1 (by rw [hst1]; exact hne))
      · exact h1

theorem peerReady_deeds
    (fd : Nat) (out inp : Bool) (hok : (world s).Ok) :
    AppDeeds P E .read s (peerReady P E fd out inp s) := by
  rcases peerReady_slot (P := P) (E := E) fd out inp hok with h | ⟨i, v, h, heq⟩
  · rw [h]
    exact AppDeeds.refl s
  · rw [heq]
    exact AppDeeds.of_slot h

theorem torCheck_deeds
    (hok : (world s).Ok) :
    AppDeeds P E cmd s (torCheck P E s) := by
  have hsh : MinorShared s.sh (torDead E s.sh).2 ∧ QuietShared s.sh (torDead E s.sh).2 := by
    unfold torDead
    dsimp only
    split
    · exact ⟨.of_eq rfl rfl, rfl, rfl, rfl, rfl, rfl⟩
    · split <;> exact ⟨.of_eq rfl rfl, rfl, rfl, rfl, rfl, rfl⟩
  unfold torCheck
  dsimp only
  generalize (torDead E s.sh).1 = dead
  generalize (torDead E s.sh).2 = sh1 at hsh ⊢
  have h1 : AppDeeds P E cmd s { s with sh := sh1 } := AppDeeds.of_shared hsh.1
  split
  swap
  · exact h1
  have hok1 : (world { s with sh := sh1 }).Ok := by
    rw [world_shared hsh.2]
    exact hok
  apply AppDeeds.thenError
  have h2 : AppDeeds P E cmd { s with sh := sh1 }
      (forSlots (torDiedSlot P E) { s with sh := sh1 }) :=
    forSlots_deeds (fun i v hv => ⟨torDiedSlot_moves hv, torDiedSlot_deeds hv⟩) hok1
  generalize forSlots (torDiedSlot P E) { s with sh := sh1 } = s2 at h2 ⊢
  exact (h1.trans h2).trans (AppDeeds.of_shared_deeds 0 (Deeds.one .forgot))

theorem acceptPeer_deeds
    (hok : (world s).Ok) :
    AppDeeds P E .inbound s (acceptPeer P E s) := by
  have h1 : AppDeeds P E .inbound s { s with sh := { s.sh with tick := s.sh.tick + 1 } } :=
    AppDeeds.of_shared (.of_eq rfl rfl)
  unfold acceptPeer
  cases E.accept s.sh.tick with
  | none =>
      exact h1
  | some peerFd =>
      dsimp only
      cases hfree : freeSlot _ with
      | none =>
          exact h1
      | some i =>
          dsimp only
          have hq : QuietShared s.sh (inboundWindow (E.clock (s.sh.tick + 1))
              { s.sh with tick := s.sh.tick + 1 + 1 }) :=
            QuietShared.trans ⟨rfl, rfl, rfl, rfl, rfl⟩ (inboundWindow_quiet _ _)
          have hm : MinorShared s.sh (inboundWindow (E.clock (s.sh.tick + 1))
              { s.sh with tick := s.sh.tick + 1 + 1 }) := by
            unfold inboundWindow
            split <;> exact .of_eq rfl rfl
          generalize inboundWindow (E.clock (s.sh.tick + 1))
            { s.sh with tick := s.sh.tick + 1 + 1 } = sh2 at hq hm ⊢
          have h2 : AppDeeds P E .inbound s { s with sh := sh2 } := AppDeeds.of_shared hm
          have hok2 : (world { s with sh := sh2 }).Ok := by
            rw [world_shared hq]
            exact hok
          split
          · exact h2.thenError _ _
          · refine h2.trans (AppDeeds.onSlot (acceptSlot_deeds peerFd (hok2 i) ?_))
            exact freeSlot_idle (s := { s with sh := _ }) hfree

end Data

end App
end Noxtor
