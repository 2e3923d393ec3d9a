import Noxtor.App.FrameTurns

/-!
# Violations of the record layer

Four things must not happen on a session: a header that does not decode, a length that is not
allowed, a record with another sequence number than the expected one, and a record that fails
its AEAD check.  The frame loop ends the session for the third of them and for no other.
-/

namespace Noxtor
namespace App

open ByteString Noise

section Statement

variable (P : Primitives) (E : Env) (i : Slot) (fd : Int)

/-- The head of the buffer of a session violates the record layer. -/
def Violation (v : View) : Prop :=
  v.ps.session ≠ none ∧
    (headOf v.ps.recv = .bad ∨
      ∃ fh payload, Receives v fh payload ∧
        (fh.seq ≠ v.ps.rxSeq ∨ opened P v payload = none))

/--
The turn taken in `v` ends the loop with the slot torn down, and whatever arrives later, no
record is received any more and nothing is handed on.
-/
def ClosedBy (v : View) : Prop :=
  ∃ u, frameStep P E i fd v = .stop u ∧
    u.ps.state = .idle ∧ u.ps.session = none ∧ u.ps.fd = -1 ∧
    ∀ chunks,
      (∀ w ∈ rxTurns P E i fd chunks u, ∀ fh payload, ¬ Receives w fh payload) ∧
      delivered i (rxRun P E i fd chunks u).sh.log = delivered i v.sh.log

/-- A record with another sequence number than the expected one, and memory for its payload. -/
def Mismatched (v : View) : Prop :=
  E.malloc v.sh.tick = true ∧ ∃ fh payload, Receives v fh payload ∧ fh.seq ≠ v.ps.rxSeq

instance (v : View) : Decidable (Violation P v) :=
  inferInstanceAs (Decidable (_ ∧ (_ ∨ _)))

instance (v : View) : Decidable (Mismatched E v) :=
  inferInstanceAs (Decidable (_ ∧ _))

end Statement

section Turn

variable {P : Primitives} {E : Env} {i : Slot} {fd : Int} {v : View}

theorem Mismatched.closed
    (hlive : LiveSession v) (h : Mismatched E v) :
    ClosedBy P E i fd v := by
  obtain ⟨hmem, fh, payload, hrec, hseq⟩ := h
  obtain ⟨message, hstop⟩ := frameStep_mismatch (P := P) (i := i) fd hrec hmem hseq
    hlive.state
  have hrx := rxView_tornDown (i := i) ((consumed fh v).uiPrintError message [])
  generalize tornDown i ((consumed fh v).uiPrintError message []) = u at hstop hrx
  have hstate : u.ps.state = .idle := congrArg RxView.state hrx
  have hses : u.ps.session = none := Option.map_eq_none_iff.mp (congrArg RxView.rx hrx)
  have hhs : u.ps.hs = none := congrArg RxView.hs hrx
  have hfd : u.ps.fd = -1 := by
    have h1 : u.ps.fd = if v.ps.fd ≥ 0 then -1 else v.ps.fd := congrArg RxView.fd hrx
    rw [h1, if_pos hlive.fd]
  have hdel : delivered i u.sh.log = delivered i v.sh.log := congrArg RxView.delivered hrx
  have hsilent : Silent i (delivered i v.sh.log) u := ⟨hhs, hses, hdel⟩
  refine ⟨u, hstop, hstate, hses, hfd, ?_⟩
  intro chunks
  obtain ⟨hturns, hend⟩ := hsilent.rxRun (P := P) (E := E) fd chunks
  constructor
  · intro w hw
    exact not_receives_of_no_session (hturns w hw).2.1
  · exact hend.2.2

/-- A record with the expected number that fails its check leaves the session alive. -/
theorem alive_of_refused
    (hlive : LiveSession v) {fh : FrameHeader} {payload : Bytes} (hrec : Receives v fh payload)
    (hseq : fh.seq = v.ps.rxSeq) (hopen : opened P v payload = none) :
    (frameStep P E i fd v).view.ps.session ≠ none := by
  have hses : (rxView i v).rx ≠ none := by
    simpa [rxView] using hlive.session_ne
  have hsome : ∀ {fh' payload' pt}, Receives v fh' payload' → opened P v payload' ≠ some pt := by
    intro fh' payload' pt hrec' h
    obtain ⟨rfl, rfl⟩ := hrec.unique hrec'
    rw [hopen] at h
    cases h
  have hturn := frameStep_turn (P := P) (E := E) (i := i) fd hlive.hs hlive.keyed
    hlive.state
  suffices h : (rxView i (frameStep P E i fd v).view).rx ≠ none by
    simpa [rxView] using h
  generalize rxView i (frameStep P E i fd v).view = b at hturn ⊢
  cases hturn with
  | quiet recv h =>
      exact hses
  | mismatch h hne =>
      obtain ⟨rfl, rfl⟩ := hrec.unique h
      exact absurd hseq hne
  | refused h hseq hwhy =>
      exact hses
  | emptyText h hopen' =>
      exact absurd hopen' (hsome h.1)
  | text h hopen' hpt =>
      exact absurd hopen' (hsome h.1)
  | lastText h hopen' hpt =>
      exact absurd hopen' (hsome h.1)
  | forgedFile h hlen hopen' hb =>
      obtain ⟨st, rfl, -⟩ := hb
      exact hses
  | emptyFile h hopen' hb =>
      exact absurd hopen' (hsome h.1)
  | file h hopen' hpt hb =>
      exact absurd hopen' (hsome h.1)

/-- A violation that closes the session is a mismatch of the sequence number. -/
theorem mismatched_of_closed
    (hlive : LiveSession v) (hviol : Violation P v) (h : ClosedBy P E i fd v) :
    Mismatched E v := by
  obtain ⟨u, hstop, -, hnone, -⟩ := h
  have hgone : (frameStep P E i fd v).view.ps.session = none := by
    rw [hstop]
    exact hnone
  rcases hviol.2 with hbad | ⟨fh, payload, hrec, hwhy⟩
  · rw [frameStep_bad hbad] at hgone
    exact absurd hgone hlive.session_ne
  · cases hmem : E.malloc v.sh.tick with
    | false =>
        rw [frameStep_noMemory hrec hmem] at hgone
        exact absurd hgone hlive.session_ne
    | true =>
        by_cases hseq : fh.seq = v.ps.rxSeq
        · rcases hwhy with hne | hopen
          · exact absurd hseq hne
          · exact absurd hgone (alive_of_refused hlive hrec hseq hopen)
        · exact ⟨hmem, fh, payload, hrec, hseq⟩

end Turn

/--
In a run of the frame loop on a live session, every violation closes the session if and only
if every violation is a record with a wrong sequence number (and the memory for its payload
was there).
-/
theorem fail_closed_iff_mismatched
    (P : Primitives) (E : Env) (i : Slot) (fd : Int) (chunks : List Bytes) (v : View)
    (hlive : LiveSession v) :
    (∀ u ∈ rxTurns P E i fd chunks v, Violation P u → ClosedBy P E i fd u) ↔
      ∀ u ∈ rxTurns P E i fd chunks v, Violation P u → Mismatched E u := by
  have hset : (∀ u ∈ rxTurns P E i fd chunks v, Settled u) ∧
      Settled (rxRun P E i fd chunks v) :=
    rxTurns_inv (F := fun _ => True)
      (fun _ _ h => ⟨h.1, h.2.imp id fun h => ⟨h.hs, h.keyed, h.state, h.fd⟩⟩)
      (fun _ h _ => h.frameStep fd) ⟨hlive.hs, Or.inr hlive⟩ (fun _ _ => trivial)
  have hturn : ∀ u ∈ rxTurns P E i fd chunks v, Violation P u → LiveSession u := by
    intro u hu hviol
    rcases (hset.1 u hu).2 with hnone | hlive
    · exact absurd hnone hviol.1
    · exact hlive
  constructor
  · intro h u hu hviol
    exact mismatched_of_closed (hturn u hu hviol) hviol (h u hu hviol)
  · intro h u hu hviol
    exact (h u hu hviol).closed (hturn u hu hviol)

/-- A replayed frame closes the session, and the honest frame behind it is not displayed. -/
theorem fail_closed_replayed :
    LiveSession sampleView ∧
    ∀ u ∈ rxTurns samplePrimitives sampleEnv 0 5
      [sampleRecord noxMsgText 0 [0x68, 0x69] ++ sampleRecord noxMsgText 0 [0x68, 0x69] ++
        sampleRecord noxMsgText 1 [0x68, 0x6f]] sampleView,
      Violation samplePrimitives u → ClosedBy samplePrimitives sampleEnv 0 5 u := by
  refine ⟨sampleView_live, ?_⟩
  apply (fail_closed_iff_mismatched samplePrimitives sampleEnv 0 5 _ sampleView
    sampleView_live).mpr
  decide +kernel

/--
A forged TEXT frame with the expected number is a violation, but the session goes on and the
frame behind it is displayed.
-/
theorem fail_closed_forged_text :
    LiveSession sampleView ∧
    (∃ u ∈ rxTurns samplePrimitives sampleEnv 0 5
        [sampleForgery noxMsgText 0 ++ sampleRecord noxMsgText 0 [0x68, 0x69]] sampleView,
      Violation samplePrimitives u ∧ ¬ ClosedBy samplePrimitives sampleEnv 0 5 u) ∧
    (rxRun samplePrimitives sampleEnv 0 5
      [sampleForgery noxMsgText 0 ++ sampleRecord noxMsgText 0 [0x68, 0x69]]
      sampleView).ps.state = .active ∧
    delivered 0 (rxRun samplePrimitives sampleEnv 0 5
      [sampleForgery noxMsgText 0 ++ sampleRecord noxMsgText 0 [0x68, 0x69]]
      sampleView).sh.log = [(noxMsgText, [0x68, 0x69])] := by
  refine ⟨sampleView_live,
    ⟨deliver (sampleForgery noxMsgText 0 ++ sampleRecord noxMsgText 0 [0x68, 0x69]) sampleView,
      by decide +kernel, by decide +kernel, ?_⟩, by decide +kernel, by decide +kernel⟩
  rintro ⟨u, hstop, -, hnone, -⟩
  have hses : (frameStep samplePrimitives sampleEnv 0 5
      (deliver (sampleForgery noxMsgText 0 ++ sampleRecord noxMsgText 0 [0x68, 0x69])
        sampleView)).view.ps.session ≠ none := by
    decide +kernel
  rw [hstop] at hses
  exact hses hnone

end App
end Noxtor
