import Noxtor.App.Frame
import Noxtor.App.StateMachine

/-!
# Sending text

`send_segmented_message_to`, `send_queued_callback` and `queue_segmented_message` of
`stdin_handler.c`, and the part of `db_process_queue` that calls back.

Both senders encrypt, write one frame with a single `writev` and disconnect the peer if
the socket did not take all of it.
-/

namespace Noxtor
namespace App

open ByteString Noise

section Sending

variable (P : Primitives) (E : Env) (i : Slot)

/--
The common end of the two senders: one TEXT frame, with the nonce taken by the encryption
and the sequence number advanced after the write.
-/
def sendText (pt : Bytes) (v : View) : Result :=
  match noiseEncrypt P v.ps.session (.data pt) true with
  | (none, session) => (.error .crypto, v.setPs fun ps => { ps with session := session })
  | (some ct, session) =>
      let v1 := v.setPs fun ps => { ps with session := session }
      match sockWrite E i (frameBytes noxMsgText v1.ps.txSeq ct) v1 with
      | (.ok n, v2) =>
          if n ≠ frameHeaderWireSize + ct.length then
            (.error .io, (smDispatch P E i .peerDisconnected v2).2)
          else
            (.ok (), touchLastActive E (v2.setPs fun ps => { ps with txSeq := ps.txSeq + 1 }))
      | (_, v2) => (.error .io, (smDispatch P E i .peerDisconnected v2).2)

/-- `send_queued_callback`. -/
def sendQueuedCallback (text : Bytes) (v : View) : Result :=
  if v.ps.fd < 0 ∨ v.ps.session = none then (.error .net, v)
  else if text.length + 1 > 4096 then (.error .proto, v)
  else
    match sodiumMalloc E v with
    | (false, v1) => (.error .alloc, v1)
    | (true, v1) => sendText P E i (text ++ [0]) v1

/-- The loop of `send_segmented_message_to`. -/
def segmentLoop (msg : Bytes) : Nat → Nat → View → Result
  | 0, _, v => (.ok (), v)
  | fuel + 1, offset, v =>
      if offset < msg.length then
        let chunkLen := noxNextChunkSize msg offset msg.length
        match sendText P E i ((msg.drop offset).take chunkLen ++ [0]) v with
        | (.error err, v1) => (.error err, v1)
        | (.ok (), v1) => segmentLoop msg fuel (offset + chunkLen) v1
      else (.ok (), v)

/-- `send_segmented_message_to`; every chunk has at least one byte. -/
def sendSegmentedMessageTo (msg : Bytes) (v : View) : Result :=
  if v.ps.session = none ∨ v.ps.fd < 0 then (.error .net, v)
  else
    let ct := sodiumMalloc E v
    let chunk := sodiumMalloc E ct.2
    if !ct.1 || !chunk.1 then (.error .alloc, chunk.2)
    else segmentLoop P E i msg msg.length 0 chunk.2

/-- The callbacks of `db_process_queue`: the first failure ends the batch. -/
def flushQueue (onion : Bytes) : List Bytes → View → View
  | [], v => v
  | text :: texts, v =>
      let v1 := v.emit
        [.queueSend i onion text (v.ps.session.map NoiseSession.remoteStatic)]
      match sendQueuedCallback P E i text v1 with
      | (.ok (), v2) => flushQueue onion texts v2
      | (.error _, v2) => v2

/-- `db_process_queue`: the texts that it takes, with its batch limit, and their callbacks. -/
def dbProcessQueue (onion : Bytes) (v : View) : View :=
  if !v.sh.dbOpen then v
  else
    let texts := ((E.dbPending v.sh.tick onion).take 256).map cstr
    flushQueue P E i onion texts (v.tickOn.emit [.dbProcessQueue onion texts])

end Sending

section Queueing

variable (E : Env)

/-- The loop of `queue_segmented_message`; a failed insert rolls the message back. -/
def queueLoop (onion msg : Bytes) : Nat → Nat → Nat → Shared → Except NoxErr Unit × Shared
  | 0, _, _, sh => (.ok (), sh)
  | fuel + 1, offset, queued, sh =>
      if offset < msg.length then
        let chunkLen := noxNextChunkSize msg offset msg.length
        match dbQueueMessage E onion ((msg.drop offset).take chunkLen) sh with
        | (.error err, sh1) =>
            (.error err, if queued > 0 then dbQueueRollbackLast onion queued sh1 else sh1)
        | (.ok (), sh1) => queueLoop onion msg fuel (offset + chunkLen) (queued + 1) sh1
      else (.ok (), sh)

/-- `queue_segmented_message`. -/
def queueSegmentedMessage (onion msg : Bytes) (sh : Shared) : Except NoxErr Unit × Shared :=
  if !E.malloc sh.tick then (.error .alloc, { sh with tick := sh.tick + 1 })
  else queueLoop E onion msg msg.length 0 0 { sh with tick := sh.tick + 1 }

end Queueing

section Facts

variable {P : Primitives} {E : Env} {i : Slot}

/-- The loop never runs out of fuel: every turn consumes at least one byte. -/
theorem segmentLoop_fuel
    (msg : Bytes) {fuel fuel' offset : Nat} (v : View)
    (h : msg.length ≤ offset + fuel) (h' : fuel ≤ fuel') :
    segmentLoop P E i msg fuel' offset v = segmentLoop P E i msg fuel offset v := by
  induction fuel generalizing fuel' offset v with
  | zero =>
      have hoff : ¬ offset < msg.length := by omega
      cases fuel' with
      | zero =>
          rfl
      | succ fuel' =>
          simp [segmentLoop, hoff]
  | succ fuel ih =>
      cases fuel' with
      | zero =>
          omega
      | succ fuel' =>
          unfold segmentLoop
          by_cases hoff : offset < msg.length
          · simp only [hoff, if_true]
            have hb := noxNextChunkSize_bounds msg hoff
            rcases sendText P E i
              ((msg.drop offset).take (noxNextChunkSize msg offset msg.length) ++ [0]) v with
              ⟨_ | _, v1⟩
            · rfl
            · exact ih v1 (by omega) (by omega)
          · simp only [hoff, if_false]

end Facts

end App
end Noxtor
