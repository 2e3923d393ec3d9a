import Noxtor.Lib.Utf8
import Noxtor.App.Sending

/-!
# How a long message is cut

`send_segmented_message_to` and `queue_segmented_message` have a loop each around
`nox_next_chunk_size`.  Both work through the same list of chunks, `segments`; the chunks make up
the message, and a valid UTF-8 message is cut between code points only.
-/

namespace Noxtor
namespace App

open ByteString Noise

/-- The chunks from an offset on, in the order in which the loops reach them. -/
def segmentsFrom (msg : Bytes) : Nat → Nat → List Bytes
  | 0, _ => []
  | fuel + 1, offset =>
      if offset < msg.length then
        let chunkLen := noxNextChunkSize msg offset msg.length
        (msg.drop offset).take chunkLen :: segmentsFrom msg fuel (offset + chunkLen)
      else []

/-- The chunks of a message. -/
def segments (msg : Bytes) : List Bytes :=
  segmentsFrom msg msg.length 0

/-- One frame for each chunk, with its NUL, up to the first failure. -/
def sendAll (P : Primitives) (E : Env) (i : Slot) : List Bytes → View → Result
  | [], v => (.ok (), v)
  | chunk :: chunks, v =>
      match sendText P E i (chunk ++ [0]) v with
      | (.error err, v1) => (.error err, v1)
      | (.ok (), v1) => sendAll P E i chunks v1

/-- One row for each chunk, up to the first failure, which takes the earlier rows back. -/
def queueAll (E : Env) (onion : Bytes) : List Bytes → Nat → Shared → Except NoxErr Unit × Shared
  | [], _, sh => (.ok (), sh)
  | chunk :: chunks, queued, sh =>
      match dbQueueMessage E onion chunk sh with
      | (.error err, sh1) =>
          (.error err, if queued > 0 then dbQueueRollbackLast onion queued sh1 else sh1)
      | (.ok (), sh1) => queueAll E onion chunks (queued + 1) sh1

section Loops

variable {P : Primitives} {E : Env} {i : Slot}

theorem segmentLoop_eq
    (msg : Bytes) (fuel offset : Nat) (v : View) :
    segmentLoop P E i msg fuel offset v = sendAll P E i (segmentsFrom msg fuel offset) v := by
  induction fuel generalizing offset v with
  | zero =>
      rfl
  | succ fuel ih =>
      unfold segmentLoop segmentsFrom
      by_cases hoff : offset < msg.length
      · simp only [hoff, if_true, sendAll]
        rcases sendText P E i
          ((msg.drop offset).take (noxNextChunkSize msg offset msg.length) ++ [0]) v with
          ⟨_ | _, v1⟩
        · rfl
        · exact ih _ v1
      · simp only [hoff, if_false, sendAll]

theorem queueLoop_eq
    (onion msg : Bytes) (fuel offset queued : Nat) (sh : Shared) :
    queueLoop E onion msg fuel offset queued sh =
      queueAll E onion (segmentsFrom msg fuel offset) queued sh := by
  induction fuel generalizing offset queued sh with
  | zero =>
      rfl
  | succ fuel ih =>
      unfold queueLoop segmentsFrom
      by_cases hoff : offset < msg.length
      · simp only [hoff, if_true, queueAll]
        rcases dbQueueMessage E onion
          ((msg.drop offset).take (noxNextChunkSize msg offset msg.length)) sh with ⟨_ | _, sh1⟩
        · rfl
        · exact ih _ _ sh1
      · simp only [hoff, if_false, queueAll]

/-- Every turn consumes at least one byte, so `msg.length` turns are enough. -/
theorem segmentsFrom_fuel
    (msg : Bytes) {fuel fuel' offset : Nat}
    (h : msg.length ≤ offset + fuel) (h' : fuel ≤ fuel') :
    segmentsFrom msg fuel' offset = segmentsFrom msg fuel offset := by
  induction fuel generalizing fuel' offset with
  | zero =>
      have hoff : ¬ offset < msg.length := by omega
      cases fuel' with
      | zero =>
          rfl
      | succ fuel' =>
          simp [segmentsFrom, hoff]
  | succ fuel ih =>
      cases fuel' with
      | zero =>
          omega
      | succ fuel' =>
          unfold segmentsFrom
          by_cases hoff : offset < msg.length
          · simp only [hoff, if_true]
            have hb := noxNextChunkSize_bounds msg hoff
            rw [ih (by omega) (by omega)]
          · simp only [hoff, if_false]

end Loops

theorem segmentsFrom_flatten
    (msg : Bytes) {fuel offset : Nat} (h : msg.length ≤ offset + fuel) :
    (segmentsFrom msg fuel offset).flatten = msg.drop offset := by
  induction fuel generalizing offset with
  | zero =>
      rw [List.drop_eq_nil_of_le (by omega)]
      rfl
  | succ fuel ih =>
      unfold segmentsFrom
      by_cases hoff : offset < msg.length
      · simp only [hoff, if_true, List.flatten_cons]
        have hb := noxNextChunkSize_bounds msg hoff
        rw [ih (by omega), ← List.drop_drop]
        exact List.take_append_drop _ _
      · simp only [hoff, if_false, List.flatten_nil]
        rw [List.drop_eq_nil_of_le (by omega)]

theorem segmentsFrom_size
    (msg : Bytes) (fuel offset : Nat) :
    ∀ chunk ∈ segmentsFrom msg fuel offset, 1 ≤ chunk.length ∧ chunk.length ≤ 4000 := by
  induction fuel generalizing offset with
  | zero =>
      intro chunk hmem
      cases hmem
  | succ fuel ih =>
      intro chunk hmem
      unfold segmentsFrom at hmem
      by_cases hoff : offset < msg.length
      · simp only [hoff, if_true] at hmem
        obtain rfl | hmem := List.mem_cons.mp hmem
        · have hb := noxNextChunkSize_bounds msg hoff
          rw [List.length_take, List.length_drop]
          omega
        · exact ih _ chunk hmem
      · simp only [hoff, if_false] at hmem
        cases hmem

/-- The walk back stops in front of a byte that is not a continuation byte, or at the start. -/
theorem chunkBackoff_stops
    (msg : Bytes) (offset size : Nat) :
    chunkBackoff msg offset size = 0 ∨
      Utf8.continuation (msg.getD (offset + chunkBackoff msg offset size) 0) = false := by
  induction size with
  | zero =>
      exact Or.inl rfl
  | succ size ih =>
      unfold chunkBackoff
      split
      · exact ih
      · rename_i hbyte
        exact Or.inr (by simpa [Utf8.continuation] using hbyte)

/-- It does not pass a byte that is not a continuation byte. -/
theorem le_chunkBackoff
    (msg : Bytes) (offset : Nat) {m size : Nat} (hm : m ≤ size)
    (hb : Utf8.continuation (msg.getD (offset + m) 0) = false) :
    m ≤ chunkBackoff msg offset size := by
  induction size with
  | zero =>
      omega
  | succ size ih =>
      unfold chunkBackoff
      split
      · rename_i hbyte
        have hne : m ≠ size + 1 := by
          rintro rfl
          rw [Utf8.continuation, hbyte] at hb
          cases hb
        exact ih (by omega)
      · exact hm

/-- The next chunk of a valid message ends where a code point ends. -/
theorem noxNextChunkSize_valid
    {msg : Bytes} {offset : Nat} (hlen : msg.length < 2 ^ 64) (hoff : offset < msg.length)
    (hvalid : Utf8.Valid (msg.drop offset)) :
    Utf8.Valid ((msg.drop offset).take (noxNextChunkSize msg offset msg.length)) ∧
      Utf8.Valid (msg.drop (offset + noxNextChunkSize msg offset msg.length)) := by
  have hget : ∀ n, (msg.drop offset).getD n 0 = msg.getD (offset + n) 0 := by
    intro n
    simp [List.getD_eq_getElem?_getD, List.getElem?_drop]
  rw [← List.drop_drop]
  unfold noxNextChunkSize
  rw [if_neg (by omega : ¬ offset ≥ msg.length)]
  by_cases hrest : msg.length - offset ≤ 4000
  · rw [if_pos hrest, ← List.length_drop, List.take_length, List.drop_length]
    exact ⟨hvalid, Utf8.valid_nil⟩
  · rw [if_neg hrest, if_neg (by omega : ¬ offset > 2 ^ 64 - 1 - 4000)]
    have hin : 4000 < (msg.drop offset).length := by
      rw [List.length_drop]
      omega
    -- a code point begins at most three bytes before the limit
    obtain ⟨m, hm, hm3, hb⟩ := hvalid.near hin
    rw [hget] at hb
    have hle := le_chunkBackoff msg offset hm hb
    have hmax := chunkBackoff_le msg offset 4000
    have hstop := (chunkBackoff_stops msg offset 4000).resolve_left (by omega)
    rw [← hget] at hstop
    dsimp only
    rw [if_neg (by omega : ¬ chunkBackoff msg offset 4000 = 0)]
    exact hvalid.cut (by omega) hstop

theorem segmentsFrom_valid
    {msg : Bytes} (hlen : msg.length < 2 ^ 64) (fuel : Nat) {offset : Nat}
    (hvalid : Utf8.Valid (msg.drop offset)) :
    ∀ chunk ∈ segmentsFrom msg fuel offset, Utf8.Valid chunk := by
  induction fuel generalizing offset with
  | zero =>
      intro chunk hmem
      cases hmem
  | succ fuel ih =>
      intro chunk hmem
      unfold segmentsFrom at hmem
      by_cases hoff : offset < msg.length
      · obtain ⟨hfirst, hnext⟩ := noxNextChunkSize_valid hlen hoff hvalid
        simp only [hoff, if_true] at hmem
        obtain rfl | hmem := List.mem_cons.mp hmem
        · exact hfirst
        · exact ih hnext chunk hmem
      · simp only [hoff, if_false] at hmem
        cases hmem

/-- The walk back with checked reads: an access outside the message is `none`. -/
def chunkBackoffChecked (msg : Bytes) (offset : Nat) : Nat → Option Nat
  | 0 => some 0
  | size + 1 =>
      match msg[offset + (size + 1)]? with
      | none => none
      | some byte =>
          if byte &&& 0xC0 = 0x80 then chunkBackoffChecked msg offset size else some (size + 1)

/-- `nox_next_chunk_size` with checked reads. -/
def noxNextChunkSizeChecked (msg : Bytes) (offset totalLen : Nat) : Option Nat :=
  if offset ≥ totalLen then some 0
  else if totalLen - offset ≤ 4000 then some (totalLen - offset)
  else if offset > 2 ^ 64 - 1 - 4000 then some 4000
  else (chunkBackoffChecked msg offset 4000).map fun size => if size = 0 then 1 else size

theorem chunkBackoffChecked_eq
    {msg : Bytes} {offset size : Nat} (h : offset + size < msg.length) :
    chunkBackoffChecked msg offset size = some (chunkBackoff msg offset size) := by
  induction size with
  | zero =>
      rfl
  | succ size ih =>
      have hget : msg.getD (offset + (size + 1)) 0 = msg[offset + (size + 1)] :=
        List.getD_eq_getElem _ _ h
      unfold chunkBackoffChecked chunkBackoff
      rw [List.getElem?_eq_getElem h, hget]
      dsimp only
      split
      · exact ih (by omega)
      · rfl

/-- No read of `nox_next_chunk_size` leaves the message. -/
theorem noxNextChunkSizeChecked_eq
    (msg : Bytes) (offset : Nat) :
    noxNextChunkSizeChecked msg offset msg.length =
      some (noxNextChunkSize msg offset msg.length) := by
  unfold noxNextChunkSizeChecked noxNextChunkSize
  dsimp only
  split
  · rfl
  split
  · rfl
  split
  · rfl
  · rw [chunkBackoffChecked_eq (by omega)]
    rfl

/--
Both loops work through `segments`, whatever number of turns beyond the length of the message they
are given.  The chunks make up the message; each has between 1 and 4000 bytes and fits, with its
NUL and the tag, the buffers of 4097 and 4112 bytes.  A valid message is cut into valid chunks, and
neither the reads of `nox_next_chunk_size` nor the copies leave the message.
-/
theorem message_segmentation
    (msg : Bytes) (hlen : msg.length < 2 ^ 64) :
    (∀ P E i v fuel, msg.length ≤ fuel →
      segmentLoop P E i msg fuel 0 v = sendAll P E i (segments msg) v) ∧
    (∀ E onion sh fuel, msg.length ≤ fuel →
      queueLoop E onion msg fuel 0 0 sh = queueAll E onion (segments msg) 0 sh) ∧
    (segments msg).flatten = msg ∧
    (∀ chunk ∈ segments msg, 1 ≤ chunk.length ∧ chunk.length ≤ 4000 ∧
      (chunk ++ [0]).length ≤ 4096 + 1 ∧ (chunk ++ [0]).length + noxMacLen ≤ 4096 + noxMacLen) ∧
    (Utf8.Valid msg → ∀ chunk ∈ segments msg, Utf8.Valid chunk) ∧
    ∀ offset, noxNextChunkSizeChecked msg offset msg.length =
        some (noxNextChunkSize msg offset msg.length) ∧
      (offset < msg.length → offset + noxNextChunkSize msg offset msg.length ≤ msg.length) := by
  refine ⟨fun P E i v fuel hfuel => ?_, fun E onion sh fuel hfuel => ?_, ?_, fun chunk hmem => ?_,
    fun hvalid => ?_, fun offset => ⟨noxNextChunkSizeChecked_eq msg offset, fun hoff => ?_⟩⟩
  · rw [segmentLoop_eq, segmentsFrom_fuel msg (by omega) hfuel]
    rfl
  · rw [queueLoop_eq, segmentsFrom_fuel msg (by omega) hfuel]
    rfl
  · exact segmentsFrom_flatten msg (by omega)
  · obtain ⟨hpos, hmax⟩ := segmentsFrom_size msg msg.length 0 chunk hmem
    refine ⟨hpos, hmax, ?_, ?_⟩
    · rw [List.length_append, List.length_singleton]
      omega
    · rw [List.length_append, List.length_singleton]
      omega
  · exact segmentsFrom_valid hlen msg.length hvalid
  · exact (noxNextChunkSize_bounds msg hoff).2.2

/-- A code point of two bytes at the limit goes to the second chunk as a whole. -/
theorem message_segmentation_limit :
    segments (List.replicate 3999 0x61 ++ [0xC3, 0xA7]) =
        [List.replicate 3999 0x61, [0xC3, 0xA7]] ∧
      (segments (List.replicate 3999 0x61 ++ [0xC3, 0xA7])).flatten =
        List.replicate 3999 0x61 ++ [0xC3, 0xA7] :=
  ⟨by decide +kernel,
    (message_segmentation (List.replicate 3999 0x61 ++ [0xC3, 0xA7])
      (by rw [List.length_append, List.length_replicate]; decide)).2.2.1⟩

end App
end Noxtor
