import Noxtor.Db.Database
import Noxtor.App.Segmentation

/-!
# Queueing a long message

`queue_segmented_message` writes the chunks of a message as rows of their own.  When a row cannot
be written it deletes as many of the newest rows of the recipient as it has written itself.  The
keys ascend, so these are its own rows, whatever was in the queue before.
-/

namespace Noxtor
namespace Db

open ByteString

/-- One row for each chunk, up to the first failure, which takes the earlier rows back. -/
def queueAll (P : DbPrimitives) (calls : Nat → DbCall) (rollback : DbCall) (onion : Bytes) :
    List Bytes → Nat → DbState → Except NoxErr Unit × DbState
  | [], _, db => (.ok (), db)
  | chunk :: chunks, queued, db =>
      match dbQueueMessage P (calls queued) onion chunk db with
      | (.error err, db1) =>
          (.error err, if queued > 0 then (dbQueueRollbackLast P rollback onion queued db1).2
            else db1)
      | (.ok (), db1) => queueAll P calls rollback onion chunks (queued + 1) db1

/-- Every library call of the rollback succeeds. -/
structure DbCall.Succeeds (call : DbCall) : Prop where
  hash : call.hash = true
  prepare : call.prepare = true
  bind : call.bind = true
  step : call.step = true

section Atomic

variable {P : DbPrimitives} {calls : Nat → DbCall} {rollback : DbCall} {onion : Bytes}

theorem queueLoop_eq
    (msg : Bytes) (fuel offset queued : Nat) (db : DbState) :
    queueLoop P calls rollback onion msg fuel offset queued db =
      queueAll P calls rollback onion (App.segmentsFrom msg fuel offset) queued db := by
  induction fuel generalizing offset queued db with
  | zero =>
      rfl
  | succ fuel ih =>
      unfold queueLoop App.segmentsFrom
      by_cases hoff : offset < msg.length
      · simp only [hoff, if_true, queueAll]
        rcases dbQueueMessage P (calls queued) onion
          ((msg.drop offset).take (App.noxNextChunkSize msg offset msg.length)) db with ⟨_ | _, db1⟩
        · rfl
        · exact ih _ _ db1
      · simp only [hoff, if_false, queueAll]

/-- The rows of the chunks from the position `n` of the message on. -/
def chunkRows (P : DbPrimitives) (calls : Nat → DbCall) (key : Key) (onion : Bytes) (n : Nat)
    (chunks : List Bytes) : List QueueRow :=
  chunks.mapIdx fun k chunk => queueRow P (calls (n + k)) key onion chunk

theorem chunkRows_cons
    (key : Key) (n : Nat) (chunk : Bytes) (chunks : List Bytes) :
    chunkRows P calls key onion n (chunk :: chunks) =
      queueRow P (calls n) key onion chunk :: chunkRows P calls key onion (n + 1) chunks := by
  simp [chunkRows, Nat.add_assoc, Nat.add_comm 1]

/-- The rollback takes back the rows that this message has written so far. -/
theorem dbQueueRollbackLast_insertAll
    {key : Key} {db : DbState} {t : Table QueueRow} {done : List QueueRow}
    (hroll : rollback.Succeeds) (hkey : db.dbKey = some key) (hlen : onion.length = noxOnionLen)
    (hqueue : db.queue = t.insertAll done) (hpos : done.length > 0)
    (hdone : ∀ row ∈ done, row.recipientHash = (P.generichash key onion).toList) :
    (dbQueueRollbackLast P rollback onion done.length db).2.queue.rows = t.rows := by
  unfold dbQueueRollbackLast
  rw [if_neg (by omega), if_neg (by rw [hkey]; simp), hroll.hash, hashOnion_of_open hkey hlen]
  simp only [hroll.prepare, hroll.bind, hroll.step, Bool.not_true, Bool.or_self,
    Bool.false_eq_true, if_false, hqueue]
  refine Table.rows_deleteNewest_insertAll t fun row hrow => ?_
  rw [ofRecipient, hdone row hrow, beq_self_eq_true]

theorem dbQueueRollbackLast_frame
    (count : Nat) (db : DbState) :
    (dbQueueRollbackLast P rollback onion count db).2.dbKey = db.dbKey ∧
      (dbQueueRollbackLast P rollback onion count db).2.contacts = db.contacts := by
  unfold dbQueueRollbackLast
  split
  · exact ⟨rfl, rfl⟩
  split
  · exact ⟨rfl, rfl⟩
  split
  · exact ⟨rfl, rfl⟩
  split
  · exact ⟨rfl, rfl⟩
  · exact ⟨rfl, rfl⟩

/-- What the loop leaves behind, if `done` are the rows that it has written so far. -/
theorem queueAll_atomic
    (hroll : rollback.Succeeds) {t : Table QueueRow} (chunks : List Bytes) {done : List QueueRow}
    {db : DbState} (hqueue : db.queue = t.insertAll done)
    (hdone : done ≠ [] → ∃ key, db.dbKey = some key ∧ onion.length = noxOnionLen ∧
      ∀ row ∈ done, row.recipientHash = (P.generichash key onion).toList) :
    let r := queueAll P calls rollback onion chunks done.length db
    r.2.dbKey = db.dbKey ∧ r.2.contacts = db.contacts ∧
      ((r.1 = .ok () ∧ (chunks ≠ [] → db.dbKey ≠ none) ∧ ∀ key, db.dbKey = some key →
          r.2.queue = t.insertAll
            (done ++ chunkRows P calls key onion done.length chunks)) ∨
        ((∃ err, r.1 = .error err) ∧ r.2.queue.rows = t.rows)) := by
  induction chunks generalizing done db with
  | nil =>
      refine ⟨rfl, rfl, Or.inl ⟨rfl, fun h => absurd rfl h, fun key _ => ?_⟩⟩
      simp [queueAll, chunkRows, hqueue]
  | cons chunk chunks ih =>
      dsimp only [queueAll]
      rcases dbQueueMessage_cases (P := P) (calls done.length) onion chunk db with
        ⟨err, herr⟩ | ⟨key, hkey, hlen, -, hok⟩
      · rw [herr]
        dsimp only
        by_cases hpos : done.length > 0
        · rw [if_pos hpos]
          obtain ⟨key, hkey, hlen, hrows⟩ := hdone (by rintro rfl; simp at hpos)
          obtain ⟨hframe, hframe'⟩ := dbQueueRollbackLast_frame (P := P) done.length db
          exact ⟨hframe, hframe', Or.inr ⟨⟨err, rfl⟩,
            dbQueueRollbackLast_insertAll hroll hkey hlen hqueue hpos hrows⟩⟩
        · rw [if_neg hpos]
          have hnil : done = [] := List.eq_nil_of_length_eq_zero (by omega)
          subst hnil
          exact ⟨rfl, rfl, Or.inr ⟨⟨err, rfl⟩, by rw [hqueue]; rfl⟩⟩
      · rw [hok]
        dsimp only
        set db1 : DbState :=
          { db with queue := db.queue.insert (queueRow P (calls done.length) key onion chunk) }
          with hdb1
        have hqueue1 : db1.queue =
            t.insertAll (done ++ [queueRow P (calls done.length) key onion chunk]) := by
          rw [Table.insertAll_append, ← hqueue]
          rfl
        have hnext := @ih (done ++ [queueRow P (calls done.length) key onion chunk]) db1 hqueue1
          (fun _ => ⟨key, hkey, hlen, fun row hrow => ?_⟩)
        · rw [List.length_append, List.length_singleton] at hnext
          obtain ⟨hframe, hframe', hend⟩ := hnext
          refine ⟨hframe, hframe', ?_⟩
          rcases hend with ⟨hres, -, hq⟩ | hend
          · refine Or.inl ⟨hres, fun _ => by rw [hkey]; simp, fun key' hkey' => ?_⟩
            rw [hq key' hkey', List.append_assoc]
            cases hkey.symm.trans hkey'
            rw [chunkRows_cons]
            rfl
          · exact Or.inr hend
        · obtain hrow | hrow := List.mem_append.mp hrow
          · obtain ⟨key', hkey', -, hrows⟩ := hdone (List.ne_nil_of_mem hrow)
            cases hkey.symm.trans hkey'
            exact hrows row hrow
          · rw [List.mem_singleton.mp hrow]
            rfl

/--
After `queue_segmented_message` either the new rows stand behind the old ones, one for each chunk
and in order, or there is an error and the rows are those that were there before.
-/
theorem segmented_queue_atomic
    (P : DbPrimitives) (malloc : Bool) (calls : Nat → DbCall) (rollback : DbCall)
    (onion msg : Bytes) (db : DbState) (hroll : rollback.Succeeds) :
    let r := queueSegmentedMessage P malloc calls rollback onion msg db
    r.2.dbKey = db.dbKey ∧ r.2.contacts = db.contacts ∧
      ((r.1 = .ok () ∧ (App.segments msg ≠ [] → db.dbKey ≠ none) ∧
          ∀ key, db.dbKey = some key → ∃ new, r.2.queue.rows = db.queue.rows ++ new ∧
            new.map Prod.snd =
              (App.segments msg).mapIdx fun n chunk => queueRow P (calls n) key onion chunk) ∨
        ((∃ err, r.1 = .error err) ∧ r.2.queue.rows = db.queue.rows)) := by
  dsimp only
  unfold queueSegmentedMessage
  split
  · exact ⟨rfl, rfl, Or.inr ⟨⟨_, rfl⟩, rfl⟩⟩
  · rw [queueLoop_eq]
    obtain ⟨hkey, hcontacts, hend⟩ := queueAll_atomic (P := P)
      hroll (t := db.queue) (App.segmentsFrom msg msg.length 0) rfl
      (fun h => absurd rfl h)
    refine ⟨hkey, hcontacts, ?_⟩
    rcases hend with ⟨hres, hopen, hqueue⟩ | hend
    · refine Or.inl ⟨hres, hopen, fun key hk => ?_⟩
      obtain ⟨new, hrows, hnew, -⟩ := Table.rows_insertAll
        (chunkRows P calls key onion 0 (App.segments msg)) db.queue
      refine ⟨new, ?_, ?_⟩
      · rw [← hrows]
        exact congrArg Table.rows (hqueue key hk)
      · simpa [chunkRows] using hnew
    · exact Or.inr hend

end Atomic

/-- One text is queued. -/
def earlierDb : DbState :=
  (dbQueueMessage sampleDbPrimitives (sampleDbCall 1) (samplePeer 0x62) [0x68] sampleDb).2

/-- The second insertion fails. -/
def brokenCalls (n : Nat) : DbCall :=
  if n = 1 then { sampleDbCall 3 with step := false } else sampleDbCall 2

/-- The second chunk cannot be written, and the earlier text of the same recipient stays. -/
theorem segmented_queue_atomic_broken :
    let r := queueSegmentedMessage sampleDbPrimitives true brokenCalls (sampleDbCall 4)
      (samplePeer 0x62) (List.replicate 4001 0x61) earlierDb
    earlierDb.queue.rows.length = 1 ∧ r.1 = .error .db ∧
      r.2.queue.rows = earlierDb.queue.rows := by
  have hroll : (sampleDbCall 4).Succeeds := ⟨rfl, rfl, rfl, rfl⟩
  have herr : (queueSegmentedMessage sampleDbPrimitives true brokenCalls (sampleDbCall 4)
      (samplePeer 0x62) (List.replicate 4001 0x61) earlierDb).1 = .error .db := by
    decide +kernel
  obtain ⟨-, -, ⟨hok, -⟩ | ⟨-, hrows⟩⟩ := segmented_queue_atomic sampleDbPrimitives true brokenCalls
    (sampleDbCall 4) (samplePeer 0x62) (List.replicate 4001 0x61) earlierDb hroll
  · rw [herr] at hok
    cases hok
  · exact ⟨by decide +kernel, herr, hrows⟩

end Db
end Noxtor
