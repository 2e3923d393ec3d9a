import Noxtor.App.EventLoop

/-!
# What leaves the handshake budgets alone

The counters and window starts of the two handshake budgets are written by the accepting code and
by `/connect` only.  `Unspent` says that a part of the program leaves all four of them as they are,
while the tick of the environment goes on.

Most functions change nothing of this but the tick, and then both facts hold by definition
(`Unspent.later`); the others are followed through their calls.
-/

namespace Noxtor
namespace App

open ByteString Noise

/-- The two budgets: what has been counted, and since when. -/
def Shared.budgets (sh : Shared) : (Nat × Int) × (Nat × Int) :=
  ((sh.hsAttemptCount, sh.hsWindowStart), (sh.hsInboundCount, sh.hsInboundWindowStart))

/-- The budgets are untouched, and no answer of the environment is used twice. -/
structure Unspent (sh sh' : Shared) : Prop where
  budgets : sh'.budgets = sh.budgets
  tick : sh.tick ≤ sh'.tick

namespace Unspent

variable {sh sh' sh'' : Shared}

theorem refl
    (sh : Shared) :
    Unspent sh sh :=
  ⟨rfl, Nat.le_refl _⟩

theorem trans
    (h : Unspent sh sh') (h' : Unspent sh' sh'') :
    Unspent sh sh'' :=
  ⟨h'.budgets.trans h.budgets, h.tick.trans h'.tick⟩

/-- After `n` more answers of the environment, and whatever else is no budget. -/
theorem later
    (h : Unspent sh sh') (n : Nat) (hbudgets : sh''.budgets = sh'.budgets)
    (htick : sh''.tick = sh'.tick + n) :
    Unspent sh sh'' :=
  h.trans ⟨hbudgets, htick ▸ Nat.le_add_right _ _⟩

/-- What comes before a call. -/
theorem after
    (h' : Unspent sh' sh'') (h : Unspent sh sh') :
    Unspent sh sh'' :=
  h.trans h'

theorem tickOn
    {v : View} (h : Unspent sh v.sh) :
    Unspent sh v.tickOn.sh :=
  h.later 1 rfl rfl

theorem setPs
    {v : View} (h : Unspent sh v.sh) (f : PeerSession → PeerSession) :
    Unspent sh (v.setPs f).sh :=
  h

theorem emit
    {v : View} (h : Unspent sh v.sh) (es : List Effect) :
    Unspent sh (v.emit es).sh :=
  h.later 0 rfl rfl

theorem uiPrintError
    {v : View} (h : Unspent sh v.sh) (text : String) (args : List Bytes) :
    Unspent sh (v.uiPrintError text args).sh :=
  h.later 0 rfl rfl

theorem uiPrintSystem
    {v : View} (h : Unspent sh v.sh) (text : String) (args : List Bytes) :
    Unspent sh (v.uiPrintSystem text args).sh :=
  h.later 0 rfl rfl

end Unspent

section Calls

variable {E : Env}

end Calls

section Machine

variable {P : Primitives} {E : Env} {i : Slot}

end Machine

section Text

variable {P : Primitives} {E : Env} {i : Slot}

end Text

section Files

variable {P : Primitives} {E : Env} {i : Slot}

end Files

section Frames

variable {P : Primitives} {E : Env} {i : Slot}

end Frames

end App
end Noxtor
