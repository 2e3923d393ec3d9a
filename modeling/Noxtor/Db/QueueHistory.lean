import Noxtor.Db.Database
import Noxtor.App.Sending

/-!
# The offline queue over time

Texts are queued for any recipients, and the queue of a recipient is flushed from time to time
with a callback that may fail at any text.  What has been handed over to a recipient, followed by
what is still stored for it, is what has been queued for it (`Accounted`): this is kept by each
call, so it holds after every history.

The snapshot of `db_process_queue` has 256 entries, so a flush empties the queue of a recipient
exactly if it had no more rows than that.
-/

namespace Noxtor
namespace Db

open ByteString

/-- The bytes of a C string. -/
abbrev CString := { text : Bytes // 0 ∉ text }

/-- A callback of `db_process_queue`. -/
abbrev Callback (σ : Type) := Bytes → σ → Except NoxErr Unit × σ

/-- A callback that also keeps the texts it has accepted. -/
def recording {σ : Type} (send : Callback σ) : Callback (σ × List Bytes) := fun text c =>
  match send text c.1 with
  | (.ok (), ctx) => (.ok (), ctx, c.2 ++ [text])
  | (.error err, ctx) => (.error err, ctx, c.2)

/-- Opening undoes sealing. -/
def DbPrimitives.Opens (P : DbPrimitives) : Prop :=
  ∀ k n pt, P.secretboxOpen k n (P.secretbox k n pt) = some pt

/-- The text in a row. -/
def rowText (P : DbPrimitives) (key : Key) (row : QueueRow) : Option Bytes :=
  (P.secretboxOpen key (Block.ofBytes 24 row.record.nonce) row.record.cipher).map App.cstr

/-- The rows of a recipient, as a query. -/
def labelled (P : DbPrimitives) (key : Key) (onion : Bytes) : QueueRow → Bool :=
  ofRecipient (P.generichash key onion).toList

/-- The rows hold the texts, as `db_queue_message` has written them. -/
def Holds (P : DbPrimitives) (key : Key) (onion : Bytes) :
    List (Nat × QueueRow) → List Bytes → Prop :=
  List.Forall₂ fun row text =>
    0 ∉ text ∧ text.length ≤ dbMaxMsgLen ∧ ∃ call, row.2 = queueRow P call key onion text

/-- What the batch keeps of a row. -/
def batchItem (row : Nat × QueueRow) : BatchItem :=
  ⟨row.1, Block.ofBytes 24 row.2.record.nonce, row.2.record.cipher⟩

section Rows

variable {P : DbPrimitives} {key : Key} {onion : Bytes}

theorem cstr_append_zero
    {text : Bytes} (h : 0 ∉ text) :
    App.cstr (text ++ [0]) = text := by
  unfold App.cstr
  rw [List.takeWhile_append_of_pos]
  · simp
  · intro b hb
    have hne : b ≠ 0 := by
      rintro rfl
      exact h hb
    simpa using hne

theorem queueRow_fits
    {call : DbCall} {text : Bytes} (h : text.length ≤ dbMaxMsgLen) :
    rowFits (queueRow P call key onion text) = true := by
  have hcipher : (P.secretbox key call.nonce (text ++ [0])).length = text.length + 1 + 16 := by
    rw [P.secretbox_length, List.length_append, List.length_singleton]
  have hmax : dbMaxMsgLen = 4095 := rfl
  have hmac : secretboxMacBytes = 16 := rfl
  simp only [rowFits, queueRow, hcipher, List.Vector.toList_length, decide_eq_true_eq, hmac]
  exact ⟨rfl, by omega, by omega⟩

/-- The payload of a row opens to the text with its NUL. -/
theorem decryptPayload_queueRow
    (hopen : P.Opens) (call : DbCall) (id : Nat) (text : Bytes) :
    decryptPayload P key (batchItem (id, queueRow P call key onion text)).cipher
      (batchItem (id, queueRow P call key onion text)).nonce
      ((batchItem (id, queueRow P call key onion text)).cipher.length - secretboxMacBytes) =
      .ok (text ++ [0]) := by
  have hcipher : secretboxMacBytes ≤ (P.secretbox key call.nonce (text ++ [0])).length := by
    rw [P.secretbox_length]
    exact Nat.le_add_left _ _
  simp only [decryptPayload, batchItem, queueRow, Block.ofBytes_toList, hopen key call.nonce]
  rw [if_neg (by omega), if_neg (by omega)]

theorem rowText_queueRow
    (hopen : P.Opens) (call : DbCall) {text : Bytes} (h : 0 ∉ text) :
    rowText P key (queueRow P call key onion text) = some text := by
  simp only [rowText, queueRow, Block.ofBytes_toList, hopen key call.nonce, Option.map_some,
    cstr_append_zero h]

theorem Holds.texts
    (hopen : P.Opens) {rows : List (Nat × QueueRow)} {texts : List Bytes}
    (h : Holds P key onion rows texts) :
    rows.map (fun row => rowText P key row.2) = texts.map some := by
  induction h with
  | nil =>
      rfl
  | cons hrow _ ih =>
      obtain ⟨hzero, -, call, hrow⟩ := hrow
      rw [List.map_cons, List.map_cons, ih, hrow, rowText_queueRow hopen call hzero]

theorem Holds.length_le
    {rows : List (Nat × QueueRow)} {texts : List Bytes} (h : Holds P key onion rows texts) :
    ∀ text ∈ texts, text.length ≤ dbMaxMsgLen := by
  induction h with
  | nil =>
      intro text hmem
      cases hmem
  | cons hrow _ ih =>
      intro text hmem
      obtain rfl | hmem := List.mem_cons.mp hmem
      · exact hrow.2.1
      · exact ih text hmem

/-- The snapshot takes the first rows, up to its limit. -/
theorem fillBatch_holds
    {rowAlloc : Nat → Bool} {rows : List (Nat × QueueRow)} {texts : List Bytes}
    (h : Holds P key onion rows texts) {batch items : List BatchItem}
    (hfill : fillBatch rowAlloc rows batch = some items) :
    items = batch ++ (rows.take (queueBatchLimit - batch.length)).map batchItem := by
  induction h generalizing batch with
  | nil =>
      cases hfill
      simp
  | @cons row text rows texts hrow _ ih =>
      obtain ⟨id, row⟩ := row
      obtain ⟨-, hlen, call, rfl⟩ := hrow
      unfold fillBatch at hfill
      split at hfill
      · rename_i hfull
        cases hfill
        rw [Nat.sub_eq_zero_of_le hfull, List.take_zero, List.map_nil, List.append_nil]
      · rename_i hroom
        rw [queueRow_fits hlen] at hfill
        simp only [Bool.not_true, Bool.false_eq_true, if_false] at hfill
        split at hfill
        · cases hfill
        · have hitems := ih hfill
          obtain ⟨m, hm⟩ : ∃ m, queueBatchLimit - batch.length = m + 1 :=
            ⟨queueBatchLimit - batch.length - 1, by omega⟩
          rw [List.length_append, List.length_singleton] at hitems
          have hm' : queueBatchLimit - (batch.length + 1) = m := by omega
          rw [hitems, hm, hm', List.take_succ_cons, List.map_cons, List.append_assoc]
          rfl

theorem fillBatch_alloc
    {rowAlloc : Nat → Bool} (halloc : ∀ n, rowAlloc n = true) (rows : List (Nat × QueueRow))
    (batch : List BatchItem) :
    ∃ items, fillBatch rowAlloc rows batch = some items := by
  induction rows generalizing batch with
  | nil =>
      exact ⟨batch, rfl⟩
  | cons row rows ih =>
      unfold fillBatch
      split
      · exact ⟨batch, rfl⟩
      · split
        · exact ih batch
        · rw [halloc]
          simp only [Bool.not_true, Bool.false_eq_true, if_false]
          exact ih _

end Rows

section Flush

variable {P : DbPrimitives} {key : Key} {onion : Bytes} {σ : Type}

/--
What a flush has done when `k` of the texts have been accepted: they are gone from the queue of
the recipient, and no other query has changed.
-/
structure Flushed (P : DbPrimitives) (key : Key) (onion : Bytes)
    (selected : List (Nat × QueueRow)) (texts sent : List Bytes) (db : DbState)
    (r : Except NoxErr Unit × DbState × σ × List Bytes) (k : Nat) : Prop where
  handed : r.2.2.2 = sent ++ texts.take k
  left : r.2.1.queue.select (labelled P key onion) = selected.drop k
  opened : r.2.1.dbKey = db.dbKey
  others : ∀ q : QueueRow → Bool, (∀ row, labelled P key onion row = true → q row = false) →
    r.2.1.queue.select q = db.queue.select q

theorem Flushed.refl
    {texts sent : List Bytes} {db : DbState} {res : Except NoxErr Unit} {ctx : σ} :
    Flushed P key onion (db.queue.select (labelled P key onion)) texts sent db
      (res, db, ctx, sent) 0 where
  handed := (List.append_nil sent).symm
  left := rfl
  opened := rfl
  others := fun _ _ => rfl

/-- The oldest row of the recipient is deleted. -/
theorem dbQueueDelete_head
    {db : DbState} {row : Nat × QueueRow} {rows : List (Nat × QueueRow)}
    (hkey : db.dbKey = some key) (hsel : db.queue.select (labelled P key onion) = row :: rows) :
    (dbQueueDelete true row.1 db).queue.select (labelled P key onion) = rows ∧
      (dbQueueDelete true row.1 db).dbKey = db.dbKey ∧
      ∀ q : QueueRow → Bool, (∀ row, labelled P key onion row = true → q row = false) →
        (dbQueueDelete true row.1 db).queue.select q = db.queue.select q := by
  have hdel : dbQueueDelete true row.1 db = { db with queue := db.queue.delete row.1 } := by
    simp [dbQueueDelete, hkey]
  have hmem : row ∈ db.queue.rows ∧ labelled P key onion row.2 = true :=
    Table.mem_select.mp (by rw [hsel]; exact List.mem_cons_self)
  rw [hdel]
  exact ⟨Table.select_delete_head hsel, rfl,
    fun q hq => Table.select_delete_of_false hmem.1 (hq row.2 hmem.2)⟩

/-- The loop over the snapshot, if every row can be deleted. -/
theorem sendBatch_flushed
    (hopen : P.Opens) {send : Callback σ} {call : FlushCall} (hdel : ∀ n, call.deleted n = true)
    {rows rest : List (Nat × QueueRow)} {texts : List Bytes}
    (hold : Holds P key onion rows texts) (n : Nat) {db : DbState} (ctx : σ) (sent : List Bytes)
    (hkey : db.dbKey = some key)
    (hsel : db.queue.select (labelled P key onion) = rows ++ rest) :
    ∃ k ≤ rows.length,
      Flushed P key onion (rows ++ rest) texts sent db
        (sendBatch P (recording send) call key (rows.map batchItem) n db (ctx, sent)) k ∧
      ((sendBatch P (recording send) call key (rows.map batchItem) n db (ctx, sent)).1 = .ok () →
        k = rows.length) := by
  induction hold generalizing n db ctx sent with
  | nil =>
      refine ⟨0, Nat.le_refl 0, ?_, fun _ => rfl⟩
      rw [← hsel]
      exact .refl
  | @cons row text rows texts hrow hold ih =>
      obtain ⟨id, row⟩ := row
      obtain ⟨hzero, -, answer, hrow⟩ := hrow
      dsimp only at hrow
      subst hrow
      simp only [List.map_cons, sendBatch, decryptPayload_queueRow hopen]
      have hstop : ∀ (res : Except NoxErr Unit) (ctx1 : σ),
          Flushed P key onion ((id, queueRow P answer key onion text) :: rows ++ rest)
            (text :: texts) sent db (res, db, ctx1, sent) 0 := by
        intro res ctx1
        rw [← hsel]
        exact .refl
      by_cases halloc : call.plainAlloc n = true
      · rw [halloc]
        simp only [Bool.not_true, Bool.false_eq_true, if_false, List.getLast?_concat, ne_eq,
          not_true_eq_false, cstr_append_zero hzero, recording]
        rcases hsend : send text ctx with ⟨_ | _, ctx1⟩
        · exact ⟨0, Nat.zero_le _, hstop _ ctx1, fun h => by cases h⟩
        · -- the text is accepted, its row deleted, and the loop goes on
          obtain ⟨hsel1, hopen1, hothers1⟩ := dbQueueDelete_head (P := P) hkey
            hsel
          simp only [hdel, batchItem]
          obtain ⟨k, hk, hflushed, hall⟩ := ih (n + 1) ctx1 (sent ++ [text]) (hopen1.trans hkey)
            hsel1
          refine ⟨k + 1, Nat.succ_le_succ hk, ⟨?_, ?_, ?_, ?_⟩, fun h => ?_⟩
          · rw [List.take_succ_cons]
            exact hflushed.handed.trans (List.append_assoc _ _ _)
          · exact hflushed.left
          · exact hflushed.opened.trans hopen1
          · exact fun q hq => (hflushed.others q hq).trans (hothers1 q hq)
          · rw [List.length_cons, hall h]
      · rw [Bool.not_eq_true] at halloc
        rw [halloc]
        exact ⟨0, Nat.zero_le _, hstop _ ctx, fun h => by cases h⟩

/-- A callback that accepts everything is called for the whole snapshot. -/
theorem sendBatch_ok
    {send : Callback σ} {call : FlushCall} (hsend : ∀ text ctx, (send text ctx).1 = .ok ())
    (halloc : ∀ n, call.plainAlloc n = true) (items : List BatchItem) (n : Nat) (db : DbState)
    (ctx : σ) :
    (sendBatch P send call key items n db ctx).1 = .ok () := by
  induction items generalizing n db ctx with
  | nil =>
      rfl
  | cons item items ih =>
      unfold sendBatch
      rw [halloc]
      simp only [Bool.not_true, Bool.false_eq_true, if_false]
      split
      · exact ih _ _ _
      · rename_i plain hplain
        split
        · exact ih _ _ _
        · have hok := hsend (App.cstr plain) ctx
          rcases hres : send (App.cstr plain) ctx with ⟨_ | _, ctx1⟩
          · rw [hres] at hok
            cases hok
          · exact ih _ _ _

/-- A flush fails before its first callback, or it works through the first rows. -/
theorem dbProcessQueue_cases
    (send : Callback σ) (call : FlushCall) {texts : List Bytes} {db : DbState} (ctx : σ)
    (hkey : db.dbKey = some key)
    (hold : Holds P key onion (db.queue.select (labelled P key onion)) texts) :
    (∃ err, dbProcessQueue P send call onion db ctx = (.error err, db, ctx)) ∨
    dbProcessQueue P send call onion db ctx =
      sendBatch P send call key
        (((db.queue.select (labelled P key onion)).take (min queueBatchLimit
          (call.rows.getD (db.queue.select (labelled P key onion)).length))).map batchItem)
        0 db ctx := by
  unfold dbProcessQueue
  rw [hkey]
  dsimp only
  split
  · exact Or.inl ⟨_, rfl⟩
  · rename_i hash hhash
    obtain ⟨key', hkey', -, rfl⟩ := hashOnion_ok hhash
    cases hkey.symm.trans hkey'
    split
    · exact Or.inl ⟨_, rfl⟩
    · rw [show ofRecipient (P.generichash key onion).toList = labelled P key onion from rfl]
      split
      · exact Or.inl ⟨_, rfl⟩
      · rename_i batch hfill
        rw [fillBatch_holds (List.forall₂_take _ hold) hfill, List.nil_append, List.length_nil,
          Nat.sub_zero, List.take_take]
        exact Or.inr rfl

/-- One flush of a queue that holds `texts`. -/
theorem dbProcessQueue_flushed
    (hopen : P.Opens) (send : Callback σ) {call : FlushCall} (hdel : ∀ n, call.deleted n = true)
    {texts : List Bytes} {db : DbState} (ctx : σ) (hkey : db.dbKey = some key)
    (hold : Holds P key onion (db.queue.select (labelled P key onion)) texts) :
    ∃ k, Flushed P key onion (db.queue.select (labelled P key onion)) texts [] db
      (dbProcessQueue P (recording send) call onion db (ctx, [])) k := by
  rcases dbProcessQueue_cases (recording send) call (ctx, []) hkey hold with ⟨err, hres⟩ | hres
  · rw [hres]
    exact ⟨0, .refl⟩
  · rw [hres]
    set m := min queueBatchLimit (call.rows.getD (db.queue.select (labelled P key onion)).length)
    obtain ⟨k, hk, hflushed, -⟩ := sendBatch_flushed hopen hdel
      (List.forall₂_take m hold) 0 ctx [] hkey (List.take_append_drop m _).symm
    refine ⟨k, ⟨?_, ?_, hflushed.opened, hflushed.others⟩⟩
    · rw [hflushed.handed, List.take_take]
      congr 2
      rw [List.length_take] at hk
      omega
    · rw [hflushed.left, List.take_append_drop]

/-- Everything that `db_process_queue` asks for succeeds. -/
structure FlushCall.Succeeds (call : FlushCall) : Prop where
  hash : call.hash = true
  prepare : call.prepare = true
  bind : call.bind = true
  rows : call.rows = none
  rowAlloc : ∀ n, call.rowAlloc n = true
  plainAlloc : ∀ n, call.plainAlloc n = true
  deleted : ∀ n, call.deleted n = true

/-- A flush in which nothing fails hands over the first 256 texts. -/
theorem dbProcessQueue_full
    (hopen : P.Opens) {send : Callback σ} (hsend : ∀ text ctx, (send text ctx).1 = .ok ())
    {call : FlushCall} (hcall : call.Succeeds) {texts : List Bytes} {db : DbState} (ctx : σ)
    (hkey : db.dbKey = some key) (hlen : onion.length = noxOnionLen)
    (hold : Holds P key onion (db.queue.select (labelled P key onion)) texts) :
    (dbProcessQueue P (recording send) call onion db (ctx, [])).1 = .ok () ∧
      Flushed P key onion (db.queue.select (labelled P key onion)) texts [] db
        (dbProcessQueue P (recording send) call onion db (ctx, [])) queueBatchLimit := by
  have hrec : ∀ text c, (recording send text c).1 = .ok () := by
    intro text c
    have hok := hsend text c.1
    unfold recording
    split
    · rfl
    · rename_i err ctx1 hres
      rw [hres] at hok
      cases hok
  set selected := db.queue.select (labelled P key onion) with hsel
  have hres : dbProcessQueue P (recording send) call onion db (ctx, []) =
      sendBatch P (recording send) call key ((selected.take queueBatchLimit).map batchItem) 0 db
        (ctx, []) := by
    obtain ⟨items, hitems⟩ := fillBatch_alloc hcall.rowAlloc selected []
    unfold dbProcessQueue
    rw [hkey]
    simp only [hcall.hash, hashOnion_of_open hkey hlen, hcall.prepare, hcall.bind, hcall.rows,
      Option.getD_none, Bool.not_true, Bool.or_self, Bool.false_eq_true, if_false,
      List.take_length]
    rw [show ofRecipient (P.generichash key onion).toList = labelled P key onion from rfl, ← hsel,
      hitems, fillBatch_holds hold hitems, List.nil_append, List.length_nil, Nat.sub_zero]
  have hok := @sendBatch_ok P key _ _ _ hrec hcall.plainAlloc
    ((selected.take queueBatchLimit).map batchItem) 0 db (ctx, [])
  rw [hres]
  refine ⟨hok, ?_⟩
  obtain ⟨k, hk, hflushed, hall⟩ := sendBatch_flushed hopen hcall.deleted
    (List.forall₂_take queueBatchLimit hold) 0 ctx [] hkey
    (hsel.symm.trans (List.take_append_drop _ _).symm)
  have hlen : selected.length = texts.length := hold.length_eq
  have hk := hall hok
  rw [List.length_take] at hk
  refine ⟨?_, ?_, hflushed.opened, hflushed.others⟩
  · rw [hflushed.handed, List.take_take, hk]
    congr 1
    rw [List.take_eq_take_iff]
    omega
  · rw [hflushed.left, List.take_append_drop, hk]
    by_cases hle : queueBatchLimit ≤ selected.length
    · rw [Nat.min_eq_left hle]
    · rw [Nat.min_eq_right (by omega), List.drop_length, List.drop_eq_nil_of_le (by omega)]

end Flush

/-- A call of `db_queue_message` or of `db_process_queue`. -/
inductive QueueOp (σ : Type) where
  | queue (call : DbCall) (onion : Bytes) (text : CString)
  | flush (call : FlushCall) (onion : Bytes) (send : Callback σ)

namespace QueueOp

variable {σ : Type}

/-- Whose rows the call is about. -/
def recipient : QueueOp σ → Bytes
  | queue _ onion _ => onion
  | flush _ onion _ => onion

/-- Every `DELETE` of the call succeeds. -/
def Deletes : QueueOp σ → Prop
  | queue _ _ _ => True
  | flush call _ _ => ∀ n, call.deleted n = true

end QueueOp

/-- The database, the state of the callbacks, and what has been queued and accepted so far, each
text with its recipient. -/
structure QueueWorld (σ : Type) where
  db : DbState
  ctx : σ
  queued : List (Bytes × Bytes)
  sent : List (Bytes × Bytes)

/-- The texts of one recipient. -/
def textsFor (onion : Bytes) (texts : List (Bytes × Bytes)) : List Bytes :=
  (texts.filter fun t => t.1 == onion).map Prod.snd

section Histories

variable {σ : Type} (P : DbPrimitives)

/-- One call. -/
def queueStep (w : QueueWorld σ) : QueueOp σ → QueueWorld σ
  | .queue call onion text =>
      match dbQueueMessage P call onion text.1 w.db with
      | (.ok (), db) => { w with db := db, queued := w.queued ++ [(onion, text.1)] }
      | (.error _, db) => { w with db := db }
  | .flush call onion send =>
      let r := dbProcessQueue P (recording send) call onion w.db (w.ctx, [])
      { w with
        db := r.2.1
        ctx := r.2.2.1
        sent := w.sent ++ r.2.2.2.map fun text => (onion, text) }

/-- A history. -/
def queueRun (w : QueueWorld σ) (ops : List (QueueOp σ)) : QueueWorld σ :=
  ops.foldl (queueStep P) w

/-- An open database with an empty queue. -/
def queueStart (key : Key) (contacts : List ContactRow) (ctx : σ) : QueueWorld σ :=
  { db := { dbKey := some key, contacts := contacts, queue := .empty }, ctx := ctx
    queued := [], sent := [] }

/-- No two of these addresses have the same label. -/
def NoCollision (key : Key) (onions : List Bytes) : Prop :=
  ∀ a ∈ onions, ∀ b ∈ onions, P.generichash key a = P.generichash key b → a = b

/-- What has been accepted for a recipient and what is stored for it is what has been queued. -/
def Accounted (key : Key) (onion : Bytes) (w : QueueWorld σ) : Prop :=
  ∃ pending, textsFor onion w.sent ++ pending = textsFor onion w.queued ∧
    Holds P key onion (w.db.queue.select (labelled P key onion)) pending

/-- The invariant of a history. -/
structure QueueInv (key : Key) (onions : List Bytes) (w : QueueWorld σ) : Prop where
  opened : w.db.dbKey = some key
  accounted : ∀ onion ∈ onions, Accounted P key onion w

end Histories

section Invariant

variable {σ : Type} {P : DbPrimitives} {key : Key} {onions : List Bytes} {w : QueueWorld σ}

@[simp] theorem textsFor_append (onion : Bytes) (xs ys : List (Bytes × Bytes)) :
    textsFor onion (xs ++ ys) = textsFor onion xs ++ textsFor onion ys := by
  simp [textsFor]

theorem textsFor_map_same (onion : Bytes) (texts : List Bytes) :
    textsFor onion (texts.map fun text => (onion, text)) = texts := by
  simp [textsFor, List.filter_map, Function.comp_def]

theorem textsFor_map_ne
    {onion other : Bytes} (h : other ≠ onion) (texts : List Bytes) :
    textsFor other (texts.map fun text => (onion, text)) = [] := by
  have hne : (onion == other) = false := by
    simpa using h.symm
  simp [textsFor, List.filter_map, Function.comp_def, hne]

/-- The rows of a recipient do not carry the label of another one. -/
theorem labelled_ne
    (hcoll : NoCollision P key onions) {onion other : Bytes} (honion : onion ∈ onions)
    (hother : other ∈ onions) (h : other ≠ onion) (row : QueueRow)
    (hrow : labelled P key onion row = true) :
    labelled P key other row = false := by
  simp only [labelled, ofRecipient, beq_iff_eq] at hrow
  simp only [labelled, ofRecipient, hrow, beq_eq_false_iff_ne]
  intro hlabel
  exact h (hcoll other hother onion honion (List.Vector.toList_injective hlabel.symm))

/-- A text is queued. -/
theorem QueueInv.queue
    (hinv : QueueInv P key onions w) (hcoll : NoCollision P key onions) (call : DbCall)
    {onion : Bytes} (honion : onion ∈ onions) (text : CString) :
    QueueInv P key onions (queueStep P w (.queue call onion text)) := by
  dsimp only [queueStep]
  rcases dbQueueMessage_cases (P := P) call onion text.1 w.db with
    ⟨err, hres⟩ | ⟨key', hkey', -, htext, hres⟩
  · rw [hres]
    exact ⟨hinv.opened, hinv.accounted⟩
  · cases hinv.opened.symm.trans hkey'
    rw [hres]
    refine ⟨hinv.opened, fun other hother => ?_⟩
    obtain ⟨pending, hsum, hold⟩ := hinv.accounted other hother
    have hlabel : labelled P key onion (queueRow P call key onion text.1) = true :=
      beq_self_eq_true _
    by_cases hsame : other = onion
    · subst hsame
      refine ⟨pending ++ [text.1], ?_, ?_⟩
      · have hnew : textsFor other [(other, text.1)] = [text.1] := textsFor_map_same other [text.1]
        rw [← List.append_assoc, hsum, textsFor_append, hnew]
      · rw [Table.select_insert_of_true _ hlabel]
        exact List.rel_append hold (.cons ⟨text.2, htext, call, rfl⟩ .nil)
    · refine ⟨pending, ?_, ?_⟩
      · have hnew : textsFor other [(onion, text.1)] = [] := textsFor_map_ne hsame [text.1]
        rw [hsum, textsFor_append, hnew, List.append_nil]
      · rw [Table.select_insert_of_false _ (labelled_ne hcoll honion hother hsame _ hlabel)]
        exact hold

/-- The queue of a recipient is flushed. -/
theorem QueueInv.flush
    (hinv : QueueInv P key onions w) (hopen : P.Opens) (hcoll : NoCollision P key onions)
    {call : FlushCall} (hdel : ∀ n, call.deleted n = true) {onion : Bytes}
    (honion : onion ∈ onions) (send : Callback σ) :
    QueueInv P key onions (queueStep P w (.flush call onion send)) := by
  obtain ⟨texts, hsum, hold⟩ := hinv.accounted onion honion
  obtain ⟨k, hflushed⟩ := dbProcessQueue_flushed hopen send hdel w.ctx hinv.opened hold
  refine ⟨hflushed.opened.trans hinv.opened, fun other hother => ?_⟩
  by_cases hsame : other = onion
  · subst hsame
    refine ⟨texts.drop k, ?_, ?_⟩
    · simp only [queueStep, textsFor_append, hflushed.handed, List.nil_append, textsFor_map_same]
      rw [List.append_assoc, List.take_append_drop, hsum]
    · simp only [queueStep, hflushed.left]
      exact List.forall₂_drop k hold
  · obtain ⟨pending, hsum', hold'⟩ := hinv.accounted other hother
    refine ⟨pending, ?_, ?_⟩
    · simp only [queueStep, textsFor_append, textsFor_map_ne hsame, List.append_nil]
      exact hsum'
    · simp only [queueStep]
      rw [hflushed.others _ (labelled_ne hcoll honion hother hsame)]
      exact hold'

theorem queueStep_inv
    (hinv : QueueInv P key onions w) (hopen : P.Opens) (hcoll : NoCollision P key onions)
    (op : QueueOp σ) (hop : op.recipient ∈ onions) (hdel : op.Deletes) :
    QueueInv P key onions (queueStep P w op) := by
  cases op with
  | queue call onion text =>
      exact hinv.queue hcoll call hop text
  | flush call onion send =>
      exact hinv.flush hopen hcoll hdel hop send

theorem queueRun_inv
    (hinv : QueueInv P key onions w) (hopen : P.Opens) (hcoll : NoCollision P key onions)
    (ops : List (QueueOp σ)) (hops : ∀ op ∈ ops, op.recipient ∈ onions)
    (hdel : ∀ op ∈ ops, op.Deletes) :
    QueueInv P key onions (queueRun P w ops) := by
  induction ops generalizing w with
  | nil =>
      exact hinv
  | cons op ops ih =>
      exact ih (queueStep_inv hinv hopen hcoll op (hops op List.mem_cons_self)
        (hdel op List.mem_cons_self)) (fun op' h => hops op' (List.mem_cons_of_mem op h))
        (fun op' h => hdel op' (List.mem_cons_of_mem op h))

theorem queueStart_inv
    (contacts : List ContactRow) (ctx : σ) :
    QueueInv P key onions (queueStart key contacts ctx) :=
  ⟨rfl, fun _ _ => ⟨[], rfl, .nil⟩⟩

end Invariant

/-- `send_queued_callback` does not refuse a text that fits the queue for its size. -/
theorem sendQueuedCallback_size
    (P : Primitives) (E : App.Env) (i : App.Slot) {text : Bytes} (h : text.length ≤ dbMaxMsgLen)
    (v : App.View) :
    (App.sendQueuedCallback P E i text v).1 ≠ .error .proto := by
  have hmax : dbMaxMsgLen = 4095 := rfl
  have htext : ∀ pt v, (App.sendText P E i pt v).1 ≠ .error .proto := by
    intro pt v
    unfold App.sendText
    split
    · simp
    · dsimp only
      split
      · split
        · simp
        · simp
      · simp
  unfold App.sendQueuedCallback
  split
  · simp
  · rw [if_neg (by omega)]
    split
    · simp
    · exact htext _ _

/--
After every history of queueing and flushing, what has been accepted for a recipient is a prefix of
what has been queued for it, in order, and the rest is still stored: nothing is lost, and nothing
is handed over twice.  A stored text is never too long for the callback, and a flush does not touch
the rows of other recipients.
-/
theorem offline_queue_fifo
    {σ : Type} (P : DbPrimitives) (key : Key) (contacts : List ContactRow) (ctx : σ)
    (onions : List Bytes) (ops : List (QueueOp σ)) (hopen : P.Opens)
    (hcoll : NoCollision P key onions) (hops : ∀ op ∈ ops, op.recipient ∈ onions)
    (hdel : ∀ op ∈ ops, op.Deletes) :
    let w := queueRun P (queueStart key contacts ctx) ops
    ∀ onion ∈ onions,
      (∃ pending, textsFor onion w.sent ++ pending = textsFor onion w.queued ∧
        (w.db.queue.select (labelled P key onion)).map (fun row => rowText P key row.2) =
          pending.map some ∧
        ∀ text ∈ pending, (text ++ [0]).length ≤ noxMaxMsgLen ∧
          ∀ P E i v, (App.sendQueuedCallback P E i text v).1 ≠ .error .proto) ∧
      ∀ call send, (∀ n, call.deleted n = true) →
        (queueStep P w (.flush call onion send)).db.queue.select
            (fun row => !labelled P key onion row) =
          w.db.queue.select fun row => !labelled P key onion row := by
  intro w onion honion
  have hinv := queueRun_inv (queueStart_inv (P := P) contacts ctx) hopen hcoll
    ops hops hdel
  obtain ⟨pending, hsum, hold⟩ := hinv.accounted onion honion
  refine ⟨⟨pending, hsum, hold.texts hopen, fun text hmem => ?_⟩, fun call send hcall => ?_⟩
  · have hlen := hold.length_le text hmem
    refine ⟨?_, fun P E i v => sendQueuedCallback_size P E i hlen v⟩
    rw [List.length_append, List.length_singleton]
    exact Nat.succ_le_succ hlen
  · obtain ⟨k, hflushed⟩ := dbProcessQueue_flushed hopen send hcall w.ctx hinv.opened hold
    exact hflushed.others _ (fun row hrow => by rw [hrow]; rfl)

theorem sampleDbPrimitives_opens : sampleDbPrimitives.Opens := by
  intro k n pt
  simp [sampleDbPrimitives]

/-- A flush in which nothing fails. -/
def sampleFlushCall : FlushCall :=
  { hash := true, prepare := true, bind := true, rows := none, rowAlloc := fun _ => true
    plainAlloc := fun _ => true, deleted := fun _ => true }

/-- A callback that accepts as many texts as its state says. -/
def sampleSend : Callback Nat := fun _ n =>
  match n with
  | 0 => (.error .io, 0)
  | n + 1 => (.ok (), n)

/-- "h" and "i" for 'b', "j" for 'c', and a flush of 'b' that breaks off behind "h". -/
def sampleHistory : List (QueueOp Nat) :=
  [.queue (sampleDbCall 1) (samplePeer 0x62) ⟨[0x68], by decide⟩,
    .queue (sampleDbCall 2) (samplePeer 0x63) ⟨[0x6a], by decide⟩,
    .queue (sampleDbCall 3) (samplePeer 0x62) ⟨[0x69], by decide⟩,
    .flush sampleFlushCall (samplePeer 0x62) sampleSend]

/-- "h" has been accepted, and "i" is still stored. -/
theorem offline_queue_fifo_broken_off :
    let w := queueRun sampleDbPrimitives (queueStart (samplePair 8).priv [] 1) sampleHistory
    textsFor (samplePeer 0x62) w.sent = [[0x68]] ∧
      ∃ pending, textsFor (samplePeer 0x62) w.sent ++ pending = [[0x68], [0x69]] := by
  have hcoll : NoCollision sampleDbPrimitives (samplePair 8).priv
      [samplePeer 0x62, samplePeer 0x63] := by
    unfold NoCollision
    decide +kernel
  have hsent : textsFor (samplePeer 0x62) (queueRun sampleDbPrimitives
      (queueStart (samplePair 8).priv [] 1) sampleHistory).sent = [[0x68]] := by
    decide +kernel
  have hqueued : textsFor (samplePeer 0x62) (queueRun sampleDbPrimitives
      (queueStart (samplePair 8).priv [] 1) sampleHistory).queued = [[0x68], [0x69]] := by
    decide +kernel
  obtain ⟨⟨pending, hsum, -⟩, -⟩ := offline_queue_fifo sampleDbPrimitives (samplePair 8).priv [] 1
    [samplePeer 0x62, samplePeer 0x63] sampleHistory sampleDbPrimitives_opens hcoll
    (by simp [sampleHistory, QueueOp.recipient])
    (by simp [sampleHistory, QueueOp.Deletes, sampleFlushCall]) (samplePeer 0x62) (by simp)
  exact ⟨hsent, pending, hsum.trans hqueued⟩

/--
A flush in which nothing fails and the callback accepts everything returns `NOX_OK`.  It has handed
over all texts that were queued and leaves no row of the recipient exactly if there were at most
256 rows.
-/
theorem flush_complete_iff
    {σ : Type} (P : DbPrimitives) (key : Key) (contacts : List ContactRow) (ctx : σ)
    (onions : List Bytes) (ops : List (QueueOp σ)) (hopen : P.Opens)
    (hcoll : NoCollision P key onions) (hops : ∀ op ∈ ops, op.recipient ∈ onions)
    (hdel : ∀ op ∈ ops, op.Deletes) (call : FlushCall) (hcall : call.Succeeds) (send : Callback σ)
    (hsend : ∀ text ctx, (send text ctx).1 = .ok ()) (onion : Bytes) (honion : onion ∈ onions)
    (hlen : onion.length = noxOnionLen) :
    let w := queueRun P (queueStart key contacts ctx) ops
    let r := dbProcessQueue P (recording send) call onion w.db (w.ctx, [])
    r.1 = .ok () ∧
      ((r.1 = .ok () → r.2.1.queue.select (labelled P key onion) = [] ∧
          textsFor onion w.sent ++ r.2.2.2 = textsFor onion w.queued) ↔
        (w.db.queue.select (labelled P key onion)).length ≤ queueBatchLimit) := by
  intro w r
  have hinv := queueRun_inv (queueStart_inv (P := P) contacts ctx) hopen hcoll
    ops hops hdel
  obtain ⟨texts, hsum, hold⟩ := hinv.accounted onion honion
  obtain ⟨hok, hflushed⟩ := dbProcessQueue_full hopen hsend hcall w.ctx hinv.opened hlen hold
  refine ⟨hok, fun h => ?_, fun hle _ => ⟨?_, ?_⟩⟩
  · have hleft := (h hok).1
    rw [hflushed.left] at hleft
    exact List.drop_eq_nil_iff.mp hleft
  · rw [hflushed.left]
    exact List.drop_eq_nil_iff.mpr hle
  · have hall : texts.length ≤ queueBatchLimit := by
      rw [← hold.length_eq]
      exact hle
    rw [hflushed.handed, List.nil_append, List.take_of_length_le hall, hsum]

/-- "h" is queued `n` times for 'b'. -/
def repeated (n : Nat) : List (QueueOp Unit) :=
  List.replicate n (.queue (sampleDbCall 1) (samplePeer 0x62) ⟨[0x68], by decide⟩)

/-- A callback that accepts everything. -/
def sampleAccept : Callback Unit := fun _ ctx => (.ok (), ctx)

/-- Two texts are handed over, and nothing is left. -/
theorem flush_complete_two :
    let w := queueRun sampleDbPrimitives (queueStart (samplePair 8).priv [] ()) (repeated 2)
    let r := dbProcessQueue sampleDbPrimitives (recording sampleAccept) sampleFlushCall
      (samplePeer 0x62) w.db (w.ctx, [])
    r.1 = .ok () ∧
      r.2.1.queue.select (labelled sampleDbPrimitives (samplePair 8).priv (samplePeer 0x62)) = [] ∧
      textsFor (samplePeer 0x62) w.sent ++ r.2.2.2 = [[0x68], [0x68]] := by
  have hcoll : NoCollision sampleDbPrimitives (samplePair 8).priv [samplePeer 0x62] := by
    unfold NoCollision
    decide +kernel
  have hqueued : textsFor (samplePeer 0x62) (queueRun sampleDbPrimitives
      (queueStart (samplePair 8).priv [] ()) (repeated 2)).queued = [[0x68], [0x68]] := by
    decide +kernel
  have hrows : ((queueRun sampleDbPrimitives (queueStart (samplePair 8).priv [] ())
      (repeated 2)).db.queue.select (labelled sampleDbPrimitives (samplePair 8).priv
        (samplePeer 0x62))).length ≤ queueBatchLimit := by
    decide +kernel
  obtain ⟨hok, hiff⟩ := flush_complete_iff sampleDbPrimitives (samplePair 8).priv [] ()
    [samplePeer 0x62] (repeated 2) sampleDbPrimitives_opens hcoll
    (by simp [repeated, QueueOp.recipient]) (by simp [repeated, QueueOp.Deletes]) sampleFlushCall
    ⟨rfl, rfl, rfl, rfl, fun _ => rfl, fun _ => rfl, fun _ => rfl⟩ sampleAccept (fun _ _ => rfl)
    (samplePeer 0x62) (by simp) (by decide)
  obtain ⟨hleft, hsum⟩ := hiff.mpr hrows hok
  exact ⟨hok, hleft, hsum.trans hqueued⟩

/-- The call of `db_queue_message` in `repeated` writes its row. -/
theorem dbQueueMessage_repeated
    {db : DbState} (hkey : db.dbKey = some key) :
    dbQueueMessage sampleDbPrimitives (sampleDbCall 1) (samplePeer 0x62) [0x68] db =
      (.ok (), { db with
        queue := db.queue.insert
          (queueRow sampleDbPrimitives (sampleDbCall 1) key (samplePeer 0x62) [0x68]) }) := by
  unfold dbQueueMessage
  rw [hkey]
  dsimp only [sampleDbCall]
  rw [hashOnion_of_open hkey (by decide)]
  rfl

/-- What `repeated` leaves behind. -/
theorem queueRun_repeated
    (n : Nat) :
    let w := queueRun sampleDbPrimitives (queueStart (samplePair 8).priv [] ()) (repeated n)
    w.db.dbKey = some (samplePair 8).priv ∧ w.sent = [] ∧
      textsFor (samplePeer 0x62) w.queued = List.replicate n [0x68] := by
  induction n with
  | zero =>
      exact ⟨rfl, rfl, rfl⟩
  | succ n ih =>
      obtain ⟨hkey, hsent, hqueued⟩ := ih
      have hrun : queueRun sampleDbPrimitives (queueStart (samplePair 8).priv [] ())
          (repeated (n + 1)) = queueStep sampleDbPrimitives
            (queueRun sampleDbPrimitives (queueStart (samplePair 8).priv [] ()) (repeated n))
            (.queue (sampleDbCall 1) (samplePeer 0x62) ⟨[0x68], by decide⟩) := by
        unfold repeated queueRun
        rw [List.replicate_succ', List.foldl_append]
        rfl
      rw [hrun]
      generalize queueRun sampleDbPrimitives (queueStart (samplePair 8).priv [] ()) (repeated n) = w
        at hkey hsent hqueued
      dsimp only [queueStep]
      rw [dbQueueMessage_repeated hkey]
      refine ⟨hkey, hsent, ?_⟩
      rw [textsFor_append, hqueued, List.replicate_succ']
      exact congrArg _ (textsFor_map_same (samplePeer 0x62) [[0x68]])

/-- A flush behind `repeated` hands over 256 texts and leaves the rest. -/
theorem flush_repeated
    (n : Nat) :
    let w := queueRun sampleDbPrimitives (queueStart (samplePair 8).priv [] ()) (repeated n)
    let r := dbProcessQueue sampleDbPrimitives (recording sampleAccept) sampleFlushCall
      (samplePeer 0x62) w.db (w.ctx, [])
    r.1 = .ok () ∧ r.2.2.2 = List.replicate (min 256 n) [0x68] ∧
      (r.2.1.queue.select (labelled sampleDbPrimitives (samplePair 8).priv
        (samplePeer 0x62))).length = n - 256 := by
  intro w r
  obtain ⟨hkey, hsent, hqueued⟩ := queueRun_repeated n
  have hcoll : NoCollision sampleDbPrimitives (samplePair 8).priv [samplePeer 0x62] := by
    unfold NoCollision
    decide +kernel
  have hops : ∀ op ∈ repeated n, op.recipient ∈ [samplePeer 0x62] ∧ op.Deletes := by
    intro op hop
    rw [(List.mem_replicate.mp hop).2]
    exact ⟨List.mem_singleton_self _, trivial⟩
  have hinv := queueRun_inv (queueStart_inv [] ()) sampleDbPrimitives_opens hcoll (repeated n)
    (fun op hop => (hops op hop).1) (fun op hop => (hops op hop).2)
  obtain ⟨texts, hsum, hold⟩ := hinv.accounted (samplePeer 0x62) (List.mem_singleton_self _)
  rw [hsent, hqueued] at hsum
  obtain rfl : texts = List.replicate n [0x68] := hsum
  have hsend : ∀ text ctx, (sampleAccept text ctx).1 = .ok () := fun _ _ => rfl
  have hcall : sampleFlushCall.Succeeds :=
    ⟨rfl, rfl, rfl, rfl, fun _ => rfl, fun _ => rfl, fun _ => rfl⟩
  obtain ⟨hok, hflushed⟩ := dbProcessQueue_full sampleDbPrimitives_opens hsend hcall w.ctx hkey
    (by decide) hold
  refine ⟨hok, ?_, ?_⟩
  · rw [hflushed.handed, List.nil_append, List.take_replicate]
    rfl
  · rw [hflushed.left, List.length_drop, hold.length_eq, List.length_replicate]
    rfl

/-- Of 257 texts one is left, although every callback has succeeded and `NOX_OK` is returned. -/
theorem flush_leaves_row :
    let w := queueRun sampleDbPrimitives (queueStart (samplePair 8).priv [] ()) (repeated 257)
    let r := dbProcessQueue sampleDbPrimitives (recording sampleAccept) sampleFlushCall
      (samplePeer 0x62) w.db (w.ctx, [])
    r.1 = .ok () ∧ r.2.2.2.length = 256 ∧
      r.2.1.queue.select (labelled sampleDbPrimitives (samplePair 8).priv (samplePeer 0x62)) ≠ [] ∧
      textsFor (samplePeer 0x62) w.sent ++ r.2.2.2 ≠ textsFor (samplePeer 0x62) w.queued := by
  have hrun := queueRun_repeated 257
  have hflush := flush_repeated 257
  dsimp only at hrun hflush ⊢
  generalize queueRun sampleDbPrimitives (queueStart (samplePair 8).priv [] ()) (repeated 257) = w
    at hrun hflush ⊢
  generalize dbProcessQueue sampleDbPrimitives (recording sampleAccept) sampleFlushCall
    (samplePeer 0x62) w.db (w.ctx, []) = r at hflush ⊢
  obtain ⟨-, hsent, hqueued⟩ := hrun
  obtain ⟨hok, hhanded, hleft⟩ := hflush
  have hlen : r.2.2.2.length = 256 := by
    rw [hhanded]
    exact List.length_replicate
  refine ⟨hok, hlen, fun hnil => ?_, fun hall => ?_⟩
  · rw [hnil] at hleft
    cases hleft
  · rw [hsent, hqueued] at hall
    have hsize := congrArg List.length hall
    rw [List.length_append, hlen, List.length_replicate] at hsize
    cases hsize

end Db
end Noxtor
