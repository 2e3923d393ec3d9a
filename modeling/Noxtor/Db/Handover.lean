import Mathlib.Data.List.TakeWhile
import Noxtor.Db.RecordBinding

/-!
# What a flush hands over

`db_process_queue` hands the texts of its snapshot to the callback until the callback fails, so
what the callback sees depends on the callback only in where it ends: `handed` are the texts for a
callback that accepts all of them, and any other callback gets a beginning of them
(`dbProcessQueue_ctx`).

A flush deletes rows and writes none (`dbProcessQueue_deletes`).
-/

namespace Noxtor
namespace Db

open ByteString

/-- The callback that accepts every text. -/
def accepting : Callback Unit := fun _ _ => (.ok (), ())

/-- The texts that `db_process_queue` has for its callback. -/
def handed (P : DbPrimitives) (call : FlushCall) (onion : Bytes) (db : DbState) : List Bytes :=
  (dbProcessQueue P (tracing accepting) call onion db ((), [])).2.2.2

/-- A callback is called for one text after the other, up to its first failure. -/
def callAll {σ : Type} (send : Callback σ) : List Bytes → σ → σ
  | [], ctx => ctx
  | text :: texts, ctx =>
      match send text ctx with
      | (.ok (), ctx1) => callAll send texts ctx1
      | (.error _, ctx1) => ctx1

/-- The texts in a snapshot, from its position `n` on, up to a failed allocation. -/
def batchTexts (P : DbPrimitives) (call : FlushCall) (key : Key) : List BatchItem → Nat → List Bytes
  | [], _ => []
  | item :: items, n =>
      if !call.plainAlloc n then []
      else
        match decryptPayload P key item.cipher item.nonce
            (item.cipher.length - secretboxMacBytes) with
        | .error _ => batchTexts P call key items (n + 1)
        | .ok plain =>
            if plain.getLast? ≠ some 0 then batchTexts P call key items (n + 1)
            else App.cstr plain :: batchTexts P call key items (n + 1)

section Handover

variable {P : DbPrimitives} {key : Key} {σ : Type}

theorem cstr_cstr (b : Bytes) : App.cstr (App.cstr b) = App.cstr b :=
  List.takeWhile_idem

/-- The terminator ends a C string, wherever its text ends. -/
theorem cstr_append_terminator (text : Bytes) : App.cstr (text ++ [0]) = App.cstr text := by
  unfold App.cstr
  induction text with
  | nil =>
      rfl
  | cons b text ih =>
      rw [List.cons_append, List.takeWhile_cons, List.takeWhile_cons, ih]

/-- The callback is called for the texts of the snapshot, whatever it does. -/
theorem sendBatch_ctx
    (send : Callback σ) (call : FlushCall) (items : List BatchItem) (n : Nat) (db : DbState)
    (ctx : σ) :
    (sendBatch P send call key items n db ctx).2.2 =
      callAll send (batchTexts P call key items n) ctx := by
  induction items generalizing n db ctx with
  | nil =>
      rfl
  | cons item items ih =>
      unfold sendBatch batchTexts
      split
      · rfl
      cases decryptPayload P key item.cipher item.nonce
          (item.cipher.length - secretboxMacBytes) with
      | error err =>
          exact ih _ _ _
      | ok plain =>
          dsimp only
          split
          · exact ih _ _ _
          · unfold callAll
            rcases send (App.cstr plain) ctx with ⟨_ | _, ctx1⟩
            · rfl
            · exact ih _ _ _

theorem batchTexts_length
    (call : FlushCall) (items : List BatchItem) (n : Nat) :
    (batchTexts P call key items n).length ≤ items.length := by
  induction items generalizing n with
  | nil =>
      exact Nat.le_refl 0
  | cons item items ih =>
      have hlater := Nat.le_succ_of_le (ih (n + 1))
      unfold batchTexts
      split
      · exact Nat.zero_le _
      split
      · exact hlater
      split
      · exact hlater
      · exact Nat.succ_le_succ (ih (n + 1))

theorem batchTexts_cstr
    (call : FlushCall) (items : List BatchItem) (n : Nat) :
    ∀ text ∈ batchTexts P call key items n, App.cstr text = text := by
  induction items generalizing n with
  | nil =>
      exact fun text hmem => absurd hmem List.not_mem_nil
  | cons item items ih =>
      unfold batchTexts
      split
      · exact fun text hmem => absurd hmem List.not_mem_nil
      split
      · exact ih (n + 1)
      split
      · exact ih (n + 1)
      · intro text hmem
        obtain rfl | hmem := List.mem_cons.mp hmem
        · exact cstr_cstr _
        · exact ih (n + 1) text hmem

theorem fillBatch_length
    {rowAlloc : Nat → Bool} {rows : List (Nat × QueueRow)} {batch items : List BatchItem}
    (hfill : fillBatch rowAlloc rows batch = some items) (hbatch : batch.length ≤ queueBatchLimit) :
    items.length ≤ queueBatchLimit := by
  induction rows generalizing batch with
  | nil =>
      cases hfill
      exact hbatch
  | cons row rows ih =>
      unfold fillBatch at hfill
      split at hfill
      · cases hfill
        exact hbatch
      rename_i hroom
      split at hfill
      · exact ih hfill hbatch
      split at hfill
      · cases hfill
      · refine ih hfill ?_
        rw [List.length_append, List.length_singleton]
        exact not_le.mp hroom

/-- A flush hands the texts of one snapshot to its callback, or none at all. -/
theorem dbProcessQueue_snapshot
    (P : DbPrimitives) (call : FlushCall) (onion : Bytes) (db : DbState) :
    (∀ (τ : Type) (send : Callback τ) (ctx : τ),
      ∃ err, dbProcessQueue P send call onion db ctx = (.error err, db, ctx)) ∨
    ∃ key items, db.dbKey = some key ∧ items.length ≤ queueBatchLimit ∧
      ∀ (τ : Type) (send : Callback τ) (ctx : τ),
        dbProcessQueue P send call onion db ctx = sendBatch P send call key items 0 db ctx := by
  unfold dbProcessQueue
  split
  · exact Or.inl fun _ _ _ => ⟨_, rfl⟩
  rename_i key hkey
  split
  · exact Or.inl fun _ _ _ => ⟨_, rfl⟩
  split
  · exact Or.inl fun _ _ _ => ⟨_, rfl⟩
  dsimp only
  split
  · exact Or.inl fun _ _ _ => ⟨_, rfl⟩
  · rename_i items hfill
    exact Or.inr ⟨key, items, hkey, fillBatch_length hfill (Nat.zero_le _), fun _ _ _ => rfl⟩

theorem callAll_accepting
    (texts seen : List Bytes) :
    (callAll (tracing accepting) texts ((), seen)).2 = seen ++ texts := by
  induction texts generalizing seen with
  | nil =>
      exact (List.append_nil seen).symm
  | cons text texts ih =>
      exact (ih (seen ++ [text])).trans (List.append_assoc _ _ _)

/-- Every callback gets the texts that are handed over, up to its first failure. -/
theorem dbProcessQueue_ctx
    (send : Callback σ) (call : FlushCall) (onion : Bytes) (db : DbState) (ctx : σ) :
    (dbProcessQueue P send call onion db ctx).2.2 = callAll send (handed P call onion db) ctx := by
  unfold handed
  rcases dbProcessQueue_snapshot P call onion db with hfail | ⟨key, items, -, -, hsend⟩
  · obtain ⟨err, hres⟩ := hfail σ send ctx
    obtain ⟨err', hres'⟩ := hfail _ (tracing accepting) ((), [])
    rw [hres, hres']
    rfl
  · rw [hsend, hsend, sendBatch_ctx, sendBatch_ctx, callAll_accepting, List.nil_append]

/-- At most 256 texts are handed over, and they are C strings. -/
theorem handed_fits
    (P : DbPrimitives) (call : FlushCall) (onion : Bytes) (db : DbState) :
    (handed P call onion db).length ≤ queueBatchLimit ∧
      ∀ text ∈ handed P call onion db, App.cstr text = text := by
  unfold handed
  rcases dbProcessQueue_snapshot P call onion db with hfail | ⟨key, items, -, hlen, hsend⟩
  · obtain ⟨err, hres⟩ := hfail _ (tracing accepting) ((), [])
    rw [hres]
    exact ⟨Nat.zero_le _, fun text hmem => absurd hmem List.not_mem_nil⟩
  · rw [hsend, sendBatch_ctx, callAll_accepting, List.nil_append]
    exact ⟨(batchTexts_length call items 0).trans hlen, batchTexts_cstr call items 0⟩

/-- What a flush leaves: the rows are some of the old ones, and nothing else has changed. -/
structure Deletes (db db' : DbState) : Prop where
  rows : db'.queue.rows ⊆ db.queue.rows
  dbKey : db'.dbKey = db.dbKey
  contacts : db'.contacts = db.contacts

namespace Deletes

variable {db db' db'' : DbState}

theorem refl (db : DbState) : Deletes db db :=
  ⟨List.Subset.refl _, rfl, rfl⟩

theorem trans (h : Deletes db db') (h' : Deletes db' db'') : Deletes db db'' :=
  ⟨List.Subset.trans h'.rows h.rows, h'.dbKey.trans h.dbKey, h'.contacts.trans h.contacts⟩

end Deletes

theorem dbQueueDelete_deletes
    (deleted : Bool) (id : Nat) (db : DbState) :
    Deletes db (dbQueueDelete deleted id db) := by
  unfold dbQueueDelete
  split
  · exact .refl db
  split
  · exact .refl db
  · exact ⟨List.filter_subset_self _, rfl, rfl⟩

theorem dbQueueRollbackLast_deletes
    (call : DbCall) (onion : Bytes) (count : Nat) (db : DbState) :
    Deletes db (dbQueueRollbackLast P call onion count db).2 := by
  unfold dbQueueRollbackLast
  split
  · exact .refl db
  split
  · exact .refl db
  split
  · exact .refl db
  split
  · exact .refl db
  · exact ⟨List.filter_subset_self _, rfl, rfl⟩

theorem sendBatch_deletes
    (send : Callback σ) (call : FlushCall) (items : List BatchItem) (n : Nat) (db : DbState)
    (ctx : σ) :
    Deletes db (sendBatch P send call key items n db ctx).2.1 := by
  induction items generalizing n db ctx with
  | nil =>
      exact .refl db
  | cons item items ih =>
      have hdelete := dbQueueDelete_deletes (call.deleted n) item.id db
      unfold sendBatch
      split
      · exact .refl db
      split
      · exact hdelete.trans (ih _ _ _)
      · split
        · exact hdelete.trans (ih _ _ _)
        · rcases send (App.cstr _) ctx with ⟨_ | _, ctx1⟩
          · exact .refl db
          · exact hdelete.trans (ih _ _ _)

theorem dbProcessQueue_deletes
    (send : Callback σ) (call : FlushCall) (onion : Bytes) (db : DbState) (ctx : σ) :
    Deletes db (dbProcessQueue P send call onion db ctx).2.1 := by
  rcases dbProcessQueue_snapshot P call onion db with hfail | ⟨key, items, -, -, hsend⟩
  · obtain ⟨err, hres⟩ := hfail σ send ctx
    rw [hres]
    exact .refl db
  · rw [hsend]
    exact sendBatch_deletes _ _ _ _ _ _

end Handover

end Db
end Noxtor
