import Noxtor.App.EventDeeds
import Noxtor.App.EventMoves
import Noxtor.App.BudgetLoop
import Noxtor.App.TofuBinding
import Noxtor.Lib.FixedWindow

/-!
# The handshake rate limit

Inbound handshakes and outbound dials have a budget each: five in a window of sixty seconds.  A
window is opened by the first request that comes sixty seconds or more after the last window was
opened, whatever has happened in between.

Each budget is a limiter of `Noxtor.Lib.FixedWindow` on the requests of its own direction.  The
fixed windows do not bound what happens in sixty seconds around the border of two of them.
-/

namespace Noxtor
namespace App

open ByteString Noise FixedWindow

inductive Direction where
  | inbound
  | outbound
deriving DecidableEq, Repr

/-- The budget of a direction. -/
def Shared.window (sh : Shared) : Direction → Window
  | .inbound => { count := sh.hsInboundCount, start := sh.hsInboundWindowStart }
  | .outbound => { count := sh.hsAttemptCount, start := sh.hsWindowStart }

section Requests

variable (P : Primitives) (E : Env)

/-- The argument of a `/connect` line. -/
def connectArg (line : Bytes) : Option Bytes :=
  if line.take 9 = cmdConnect then some (skipBlanks (line.drop 9)) else none

/-- The checks of `/connect` in front of the rate limit, with the slot they find. -/
def dialable (target : Bytes) (s : AppState) : Option Slot :=
  if validateOnionInput target = false then none
  else if target = s.sh.onionAddr.take noxOnionLen then none
  else
    match freeSlot s with
    | none => none
    | some i =>
        if slots.any (fun j => j ≠ i ∧ 0 ≤ (s.peers j).fd ∧ (s.peers j).peerOnion = target) then
          none
        else some i

/-- Whether a handshake starts on a connection that the rate limit lets through. -/
def responderReady (sh : Shared) : Bool :=
  E.epollAdd (sh.tick + 2) && E.malloc (sh.tick + 3) &&
    (handshakeInit P false sh.myStaticPriv sh.myStaticPub).toBool

/-- What asks for a budget in an event, and when. -/
def requestOf (s : AppState) : AppEvent → Option (Direction × Request)
  | .accept =>
      match E.accept s.sh.tick, freeSlot s with
      | some _, some _ =>
          some (.inbound,
            { time := E.clock (s.sh.tick + 1), counted := responderReady P E s.sh })
      | _, _ => none
  | .line text =>
      match (connectArg (cstr text)).bind fun target => dialable target s with
      | some _ => some (.outbound, { time := E.clock s.sh.tick, counted := true })
      | none => none
  | _ => none

/-- An accepted connection has taken an idle slot to `ST_HANDSHAKE_RESP`. -/
def respondsIn (s s' : AppState) : Bool :=
  slots.any fun i =>
    decide ((s.peers i).state = .idle) && decide ((s'.peers i).state = .handshakeResp)

/-- `/connect` gets as far as the call of `socks5_connect`. -/
def dialsIn (s : AppState) (line : Bytes) : Bool :=
  match (connectArg line).bind fun target => dialable target s with
  | some _ =>
      decide ((outboundWindow (E.clock s.sh.tick)
        { s.sh with tick := s.sh.tick + 1 }).hsAttemptCount < 5)
  | none => false

/-- The handshake that is started, or the dial that is attempted, in an event. -/
def attemptOf (s : AppState) : AppEvent → Option (Direction × Int)
  | .accept =>
      if respondsIn s (acceptPeer P E s) then some (.inbound, E.clock (s.sh.tick + 1)) else none
  | .line text =>
      if dialsIn E s (cstr text) then some (.outbound, E.clock s.sh.tick) else none
  | _ => none

end Requests

section Steps

variable {P : Primitives} {E : Env} {s : AppState}

/-- What an event does to the budgets, to the tick and to the attempts that are made. -/
structure Accounted (P : Primitives) (E : Env) (s : AppState) (ev : AppEvent) : Prop where
  /-- A budget changes as its limiter does on the request of the event. -/
  window : ∀ dir, (appStep P E s ev).sh.window dir =
    (s.sh.window dir).after 5 60
      ((requestOf P E s ev).toList.filterMap fun q => if q.1 = dir then some q.2 else none)
  /-- The attempt of the event is its request, if the limiter lets it pass. -/
  attempt : attemptOf P E s ev =
    (requestOf P E s ev).bind fun q =>
      if (s.sh.window q.1).passes 5 60 q.2 then some (q.1, q.2.time) else none
  /-- The clock is read between the two ticks. -/
  time : ∀ q ∈ requestOf P E s ev,
    ∃ n, s.sh.tick ≤ n ∧ n ≤ (appStep P E s ev).sh.tick ∧ q.2.time = E.clock n
  tick : s.sh.tick ≤ (appStep P E s ev).sh.tick

end Steps

section Runs

variable {P : Primitives} {E : Env}

end Runs

end App
end Noxtor
