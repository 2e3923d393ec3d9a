import Noxtor.Lib.LabelledRun
import Noxtor.App.PinnedKeys
import Noxtor.Db.Handover
import Noxtor.Db.History
import Noxtor.Db.SegmentedQueue

/-!
# The database behind a run

The event loop gets the answers of the database from `Env`, and its log shows the calls that have
succeeded, the lookups, and the texts of every flush.  `DbRun` says that these are the answers of
`database.c`: the log is that of a run of its functions from one state of the database to another,
each call with answers of SQLite and libsodium of its own.

Where the environment answers as `database.c` does, each call of the event loop is such a step
(`dbGetContact_served` and the lemmas behind it), a long message is queued as there
(`queueSegmentedMessage_served`), and a flush is `db_process_queue` with `send_queued_callback`
(`dbProcessQueue_eq`).

Two things follow for every run.  The texts of a flush have been queued for the address that is
asked for, as long as no two addresses have the same label (`DbRun.texts_queued`).  And where all
calls succeed, a lookup finds what the program has written (`DbRun.untampered`).
-/

namespace Noxtor
namespace App

open ByteString Noise

/-- The effects of the functions of `database.c`. -/
def Effect.ofDatabase : Effect → Bool
  | .dbGetContact _ _ => true
  | .dbAddContact _ _ _ => true
  | .dbListContacts _ => true
  | .dbProcessQueue _ _ => true
  | .dbQueueMessage _ _ => true
  | .dbQueueRollback _ _ => true
  | _ => false

/-- The visitor that keeps what it is called with. -/
def listed (c : Db.Contact) (rows : List (Bytes × Bytes)) : List (Bytes × Bytes) :=
  rows ++ [(c.onion, c.name)]

section Steps

variable (D : Db.DbPrimitives) (calls : Db.DbCall → Prop)

/-- The call of `database.c` behind an effect; a failed call of a writing function has none. -/
inductive DbStep : Db.DbState → Effect → Db.DbState → Prop
  | lookup (db : Db.DbState) (call : Db.DbCall) (onion : Bytes) (hcall : calls call) :
      DbStep db (.dbGetContact onion
        (Db.dbGetContact D call onion (noxContactNameLen + 1) db).toOption) db
  | add (db db' : Db.DbState) (call : Db.DbCall) (onion name : Bytes) (key : Key)
      (hcall : calls call)
      (hadd : Db.dbAddContact D call onion name key db = (.ok (), db')) :
      DbStep db (.dbAddContact onion name key) db'
  | list (db : Db.DbState) (messages : Table Db.MessageRow) (call : Db.ListCall)
      (rows : List (Bytes × Bytes))
      (hlist : Db.dbListContacts D listed call ⟨db, messages⟩ [] = (.ok (), rows)) :
      DbStep db (.dbListContacts rows) db
  | queue (db db' : Db.DbState) (call : Db.DbCall) (onion text : Bytes) (hcall : calls call)
      (hqueue : Db.dbQueueMessage D call onion text db = (.ok (), db')) :
      DbStep db (.dbQueueMessage onion text) db'
  | rollback (db : Db.DbState) (call : Db.DbCall) (onion : Bytes) (count : Nat)
      (hcall : calls call) :
      DbStep db (.dbQueueRollback onion count) (Db.dbQueueRollbackLast D call onion count db).2
  | flush (σ : Type) (send : Db.Callback σ) (ctx : σ) (db : Db.DbState) (call : Db.FlushCall)
      (onion : Bytes) :
      DbStep db (.dbProcessQueue onion (Db.handed D call onion db))
        (Db.dbProcessQueue D send call onion db ctx).2.1
  | other (db : Db.DbState) (e : Effect) (he : e.ofDatabase = false) : DbStep db e db

/-- A log whose database effects are those of `database.c`; `db_close` leaves no effect. -/
abbrev DbRun : Db.DbState → List Effect → Db.DbState → Prop :=
  LabelledRun.Run (DbStep D calls) fun db db' => db' = Db.dbClose db

end Steps

section Calls

variable {D : Db.DbPrimitives} {calls : Db.DbCall → Prop} {E : Env} {sh : Shared}
variable {db : Db.DbState} {call : Db.DbCall} {onion name text : Bytes} {key : Key}

/-- The effects that the log has gained are a run of the database. -/
def Served (D : Db.DbPrimitives) (calls : Db.DbCall → Prop) (sh sh' : Shared)
    (db db' : Db.DbState) : Prop :=
  ∃ es, sh'.log = sh.log ++ es ∧ DbRun D calls db es db'

theorem Served.silent
    {sh' : Shared} (hlog : sh'.log = sh.log) :
    Served D calls sh sh' db db :=
  ⟨[], by rw [hlog, List.append_nil], .nil db⟩

theorem Served.one
    {sh' : Shared} {db' : Db.DbState} {e : Effect} (hlog : sh'.log = sh.log ++ [e])
    (hstep : DbStep D calls db e db') :
    Served D calls sh sh' db db' :=
  ⟨[e], hlog, .one hstep⟩

theorem Served.trans
    {sh' sh'' : Shared} {db' db'' : Db.DbState} (h : Served D calls sh sh' db db')
    (h' : Served D calls sh' sh'' db' db'') :
    Served D calls sh sh'' db db'' := by
  obtain ⟨es, hlog, hrun⟩ := h
  obtain ⟨es', hlog', hrun'⟩ := h'
  exact ⟨es ++ es', by rw [hlog', hlog, List.append_assoc], hrun.append hrun'⟩

/-- A lookup is that of `database.c`. -/
theorem dbGetContact_served
    (hopen : sh.dbOpen = db.dbKey.isSome) (hcall : calls call)
    (hanswer : E.dbGetContact sh.tick onion =
      Db.dbGetContact D call onion (noxContactNameLen + 1) db) :
    (dbGetContact E onion sh).1 = Db.dbGetContact D call onion (noxContactNameLen + 1) db ∧
      Served D calls sh (dbGetContact E onion sh).2 db db := by
  have hstep := DbStep.lookup (D := D) db call onion hcall
  cases hkey : db.dbKey with
  | none =>
      have hclosed : Db.dbGetContact D call onion (noxContactNameLen + 1) db = .error .state := by
        unfold Db.dbGetContact
        rw [hkey]
      rw [hkey] at hopen
      rw [hclosed] at hstep
      unfold dbGetContact
      rw [hopen, hclosed]
      exact ⟨rfl, .one rfl hstep⟩
  | some k =>
      rw [hkey] at hopen
      unfold dbGetContact
      rw [hopen, hanswer]
      exact ⟨rfl, .one rfl hstep⟩

/-- `db_add_contact` changes nothing where it fails. -/
theorem dbAddContact_failed
    {err : NoxErr} (h : (Db.dbAddContact D call onion name key db).1 = .error err) :
    (Db.dbAddContact D call onion name key db).2 = db := by
  by_cases hw : Db.Written call onion name db
  · obtain ⟨k, hkey⟩ := Option.ne_none_iff_exists'.mp hw.1.1
    rw [Db.dbAddContact_written D key hw hkey] at h
    cases h
  · exact (Db.dbAddContact_not_written D key hw).1

/-- `/add` and the answer to the prompt write the row that `database.c` writes. -/
theorem dbAddContact_served
    (hopen : sh.dbOpen = db.dbKey.isSome) (hcall : calls call)
    (hanswer : E.dbAddContact sh.tick = (Db.dbAddContact D call onion name key db).1) :
    (dbAddContact E onion name key sh).1 = (Db.dbAddContact D call onion name key db).1 ∧
      Served D calls sh (dbAddContact E onion name key sh).2 db
        (Db.dbAddContact D call onion name key db).2 := by
  unfold dbAddContact
  cases hkey : db.dbKey with
  | none =>
      have hclosed : Db.dbAddContact D call onion name key db = (.error .state, db) := by
        unfold Db.dbAddContact
        rw [hkey]
      rw [hkey] at hopen
      rw [hopen, hclosed]
      exact ⟨rfl, .silent rfl⟩
  | some k =>
      rw [hkey] at hopen
      rw [hopen, hanswer]
      by_cases hsize : onion.length ≠ noxOnionLen ∨ name.length > noxContactNameLen
      · have hrefused : Db.dbAddContact D call onion name key db = (.error .db, db) := by
          unfold Db.dbAddContact
          rw [hkey]
          exact if_pos hsize
        rw [if_pos hsize, hrefused]
        exact ⟨rfl, .silent rfl⟩
      · rw [if_neg hsize]
        cases hres : (Db.dbAddContact D call onion name key db).1 with
        | error err =>
            rw [dbAddContact_failed hres]
            exact ⟨rfl, .silent rfl⟩
        | ok u =>
            exact ⟨rfl, .one rfl (.add db _ call onion name key hcall (Prod.ext hres rfl))⟩

/-- `/msg` writes the row that `database.c` writes. -/
theorem dbQueueMessage_served
    (hopen : sh.dbOpen = db.dbKey.isSome) (hcall : calls call)
    (hanswer : E.dbQueueMessage sh.tick = (Db.dbQueueMessage D call onion text db).1) :
    (dbQueueMessage E onion text sh).1 = (Db.dbQueueMessage D call onion text db).1 ∧
      Served D calls sh (dbQueueMessage E onion text sh).2 db
        (Db.dbQueueMessage D call onion text db).2 := by
  unfold dbQueueMessage
  cases hkey : db.dbKey with
  | none =>
      have hclosed : Db.dbQueueMessage D call onion text db = (.error .state, db) := by
        unfold Db.dbQueueMessage
        rw [hkey]
      rw [hkey] at hopen
      rw [hopen, hclosed]
      exact ⟨rfl, .silent rfl⟩
  | some k =>
      rw [hkey] at hopen
      rw [hopen, hanswer]
      by_cases hsize : text.length > 4095
      · have hrefused : Db.dbQueueMessage D call onion text db = (.error .db, db) := by
          unfold Db.dbQueueMessage
          rw [hkey]
          exact if_pos hsize
        rw [if_pos hsize, hrefused]
        exact ⟨rfl, .silent rfl⟩
      · rw [if_neg hsize]
        rcases Db.dbQueueMessage_cases (P := D) call onion text db with
          ⟨err, hres⟩ | ⟨_, -, -, -, hres⟩
        · rw [hres]
          exact ⟨rfl, .silent rfl⟩
        · rw [hres]
          exact ⟨rfl, .one rfl (.queue db _ call onion text hcall hres)⟩

/-- A rollback is that of `database.c`. -/
theorem dbQueueRollbackLast_served
    (hopen : sh.dbOpen = db.dbKey.isSome) (hcall : calls call) (count : Nat) :
    Served D calls sh (dbQueueRollbackLast onion count sh) db
      (Db.dbQueueRollbackLast D call onion count db).2 := by
  unfold dbQueueRollbackLast
  cases hkey : db.dbKey with
  | none =>
      have hclosed : (Db.dbQueueRollbackLast D call onion count db).2 = db := by
        unfold Db.dbQueueRollbackLast
        rw [if_pos hkey]
        split <;> rfl
      rw [hkey] at hopen
      rw [hopen, hclosed]
      exact .silent rfl
  | some k =>
      rw [hkey] at hopen
      rw [hopen]
      exact .one rfl (.rollback db call onion count hcall)

/-- `/list` shows the contacts that `database.c` passes to its visitor. -/
theorem dbListContacts_served
    {messages : Table Db.MessageRow} {list : Db.ListCall} (hopen : sh.dbOpen = db.dbKey.isSome)
    (hanswer : E.dbContacts sh.tick = (Db.dbListContacts D listed list ⟨db, messages⟩ []).1.map
      fun _ => (Db.dbListContacts D listed list ⟨db, messages⟩ []).2) :
    (dbListContacts E sh).1 = (Db.dbListContacts D listed list ⟨db, messages⟩ []).1.map
        (fun _ => (Db.dbListContacts D listed list ⟨db, messages⟩ []).2) ∧
      Served D calls sh (dbListContacts E sh).2 db db := by
  unfold dbListContacts
  cases hkey : db.dbKey with
  | none =>
      have hclosed : (Db.dbListContacts D listed list ⟨db, messages⟩ []).1 = .error .state := by
        unfold Db.dbListContacts
        rw [show ({ toDbState := db, messages } : Db.HistoryDb).dbKey = none from hkey]
      rw [hkey] at hopen
      rw [hopen, hclosed]
      exact ⟨rfl, .silent rfl⟩
  | some k =>
      rw [hkey] at hopen
      rw [hopen, hanswer]
      cases hres : (Db.dbListContacts D listed list ⟨db, messages⟩ []).1 with
      | error err =>
          exact ⟨rfl, .silent rfl⟩
      | ok u =>
          refine ⟨rfl, .one rfl ?_⟩
          exact .list db messages list _ (Prod.ext hres rfl)

end Calls

section Segments

variable {D : Db.DbPrimitives} {calls : Db.DbCall → Prop} {E : Env} {call : Nat → Db.DbCall}
variable {rollback : Db.DbCall} {key : Option Key} {onion : Bytes} {t : Nat}

/-- From tick `t` on the environment answers as `db_queue_message` does on a database with this
key. -/
def QueuesAs (D : Db.DbPrimitives) (E : Env) (call : Nat → Db.DbCall) (key : Option Key)
    (onion : Bytes) (t : Nat) : Prop :=
  ∀ n text db, db.dbKey = key → text.length ≤ Db.dbMaxMsgLen →
    E.dbQueueMessage (t + n) = (Db.dbQueueMessage D (call n) onion text db).1

theorem dbQueueMessage_dbKey
    (c : Db.DbCall) (text : Bytes) (db : Db.DbState) :
    (Db.dbQueueMessage D c onion text db).2.dbKey = db.dbKey := by
  rcases Db.dbQueueMessage_cases (P := D) c onion text db with ⟨_, hres⟩ | ⟨_, -, -, -, hres⟩
  · rw [hres]
  · rw [hres]

theorem dbQueueMessage_dbOpen
    (text : Bytes) (sh : Shared) :
    (dbQueueMessage E onion text sh).2.dbOpen = sh.dbOpen := by
  unfold dbQueueMessage
  split
  · rfl
  split
  · rfl
  split <;> rfl

/-- A row that is written takes one answer. -/
theorem dbQueueMessage_tick
    {text : Bytes} {sh : Shared} (h : (dbQueueMessage E onion text sh).1 = .ok ()) :
    (dbQueueMessage E onion text sh).2.tick = sh.tick + 1 := by
  unfold dbQueueMessage at h ⊢
  split at h
  · cases h
  split at h
  · cases h
  rename_i hopen hsize
  rw [if_neg hopen, if_neg hsize]
  split <;> rfl

/-- The loop of `queue_segmented_message` writes the rows that it writes into the database. -/
theorem queueLoop_served
    (hcalls : ∀ n, calls (call n)) (hroll : calls rollback)
    (hanswer : QueuesAs D E call key onion t) (msg : Bytes) (fuel offset queued : Nat) {sh : Shared} {db : Db.DbState}
    (hopen : sh.dbOpen = key.isSome) (hkey : db.dbKey = key) (htick : sh.tick = t + queued) :
    (queueLoop E onion msg fuel offset queued sh).1 =
        (Db.queueLoop D call rollback onion msg fuel offset queued db).1 ∧
      Served D calls sh (queueLoop E onion msg fuel offset queued sh).2 db
        (Db.queueLoop D call rollback onion msg fuel offset queued db).2 := by
  induction fuel generalizing offset queued sh db with
  | zero =>
      exact ⟨rfl, .silent rfl⟩
  | succ fuel ih =>
      unfold queueLoop Db.queueLoop
      by_cases hoff : offset < msg.length
      · rw [if_pos hoff, if_pos hoff]
        dsimp only
        generalize hchunk : (msg.drop offset).take (noxNextChunkSize msg offset msg.length) = chunk
        have hlen : chunk.length ≤ Db.dbMaxMsgLen := by
          have hmax : Db.dbMaxMsgLen = 4095 := rfl
          have hbound := (noxNextChunkSize_bounds msg hoff).2.1
          rw [← hchunk, List.length_take]
          omega
        have hopen0 : sh.dbOpen = db.dbKey.isSome := by
          rw [hopen, hkey]
        have hanswer0 : E.dbQueueMessage sh.tick =
            (Db.dbQueueMessage D (call queued) onion chunk db).1 := by
          rw [htick]
          exact hanswer queued chunk db hkey hlen
        have hkey1 : (Db.dbQueueMessage D (call queued) onion chunk db).2.dbKey = key :=
          (dbQueueMessage_dbKey (call queued) chunk db).trans hkey
        have hopen1 : (dbQueueMessage E onion chunk sh).2.dbOpen = key.isSome :=
          (dbQueueMessage_dbOpen chunk sh).trans hopen
        have htick1 : (dbQueueMessage E onion chunk sh).1 = .ok () →
            (dbQueueMessage E onion chunk sh).2.tick = t + (queued + 1) := fun hok =>
          (dbQueueMessage_tick hok).trans (congrArg (· + 1) htick)
        obtain ⟨hres, hserved⟩ := dbQueueMessage_served hopen0 (hcalls queued) hanswer0
        generalize Db.dbQueueMessage D (call queued) onion chunk db = r at hres hserved hkey1 ⊢
        generalize dbQueueMessage E onion chunk sh = q at hres hserved hopen1 htick1 ⊢
        obtain ⟨res, db1⟩ := r
        obtain ⟨res', sh1⟩ := q
        obtain rfl : res' = res := hres
        cases res' with
        | error err =>
            refine ⟨rfl, hserved.trans ?_⟩
            dsimp only
            split
            · refine dbQueueRollbackLast_served ?_ hroll queued
              rw [hopen1, hkey1]
            · exact .silent rfl
        | ok u =>
            obtain ⟨hres2, hserved2⟩ := ih (offset + noxNextChunkSize msg offset msg.length)
              (queued + 1) hopen1 hkey1 (htick1 rfl)
            exact ⟨hres2, hserved.trans hserved2⟩
      · rw [if_neg hoff, if_neg hoff]
        exact ⟨rfl, .silent rfl⟩

/-- `queue_segmented_message` writes the rows that it writes into the database. -/
theorem queueSegmentedMessage_served
    (hcalls : ∀ n, calls (call n)) (hroll : calls rollback) {sh : Shared} {db : Db.DbState}
    (hanswer : QueuesAs D E call db.dbKey onion (sh.tick + 1)) (hopen : sh.dbOpen = db.dbKey.isSome)
    (msg : Bytes) :
    (queueSegmentedMessage E onion msg sh).1 =
        (Db.queueSegmentedMessage D (E.malloc sh.tick) call rollback onion msg db).1 ∧
      Served D calls sh (queueSegmentedMessage E onion msg sh).2 db
        (Db.queueSegmentedMessage D (E.malloc sh.tick) call rollback onion msg db).2 := by
  unfold queueSegmentedMessage Db.queueSegmentedMessage
  split
  · exact ⟨rfl, .silent rfl⟩
  · exact queueLoop_served hcalls hroll hanswer msg _ 0 0 hopen rfl rfl

end Segments

section Flush

variable {P : Primitives} {E : Env} {i : Slot} {D : Db.DbPrimitives} {db : Db.DbState}
variable {call : Db.FlushCall} {onion : Bytes}

/-- `send_queued_callback`, with the effect that shows its call. -/
def queuedCallback (P : Primitives) (E : Env) (i : Slot) (onion : Bytes) : Db.Callback View :=
  fun text v => sendQueuedCallback P E i text
    (v.emit [.queueSend i onion text (v.ps.session.map NoiseSession.remoteStatic)])

theorem flushQueue_eq
    (texts : List Bytes) (v : View) :
    flushQueue P E i onion texts v = Db.callAll (queuedCallback P E i onion) texts v := by
  induction texts generalizing v with
  | nil =>
      rfl
  | cons text texts ih =>
      unfold flushQueue Db.callAll queuedCallback
      dsimp only
      rcases sendQueuedCallback P E i text (v.emit
        [.queueSend i onion text (v.ps.session.map NoiseSession.remoteStatic)]) with ⟨_ | _, v1⟩
      · rfl
      · exact ih v1

/-- A flush is `db_process_queue` with `send_queued_callback`. -/
theorem dbProcessQueue_eq
    {v : View} (hopen : v.sh.dbOpen = true)
    (hanswer : E.dbPending v.sh.tick onion = Db.handed D call onion db) :
    dbProcessQueue P E i onion v =
      (Db.dbProcessQueue D (queuedCallback P E i onion) call onion db
        (v.tickOn.emit [.dbProcessQueue onion (Db.handed D call onion db)])).2.2 := by
  obtain ⟨hlen, hcstr⟩ := Db.handed_fits D call onion db
  have htexts : ((Db.handed D call onion db).take 256).map cstr = Db.handed D call onion db := by
    rw [List.take_of_length_le (show _ ≤ 256 from hlen)]
    exact (List.map_congr_left hcstr).trans (List.map_id _)
  unfold dbProcessQueue
  rw [hopen, hanswer, Db.dbProcessQueue_ctx, htexts]
  exact flushQueue_eq _ _

end Flush

/-- The text that an effect queues, with its recipient. -/
def Effect.queued? : Effect → Option (Bytes × Bytes)
  | .dbQueueMessage onion text => some (onion, text)
  | _ => none

/-- The texts that have been queued, with their recipients. -/
def queuedBy (log : List Effect) : List (Bytes × Bytes) :=
  log.filterMap Effect.queued?

/-- Every row of the queue has been written by `db_queue_message` for one of these texts, and
nobody has put it under another label. -/
structure HonestQueue (D : Db.DbPrimitives) (key : Key) (queued : List (Bytes × Bytes))
    (db : Db.DbState) : Prop where
  opened : ∀ k, db.dbKey = some k → k = key
  rows : ∀ row ∈ db.queue.rows, ∃ call onion text, (onion, text) ∈ queued ∧
    row.2 = Db.queueRow D call key onion text

section Queue

variable {D : Db.DbPrimitives} {calls : Db.DbCall → Prop} {key : Key}
variable {queued more : List (Bytes × Bytes)} {db db' : Db.DbState} {onion : Bytes}

theorem queuedBy_append
    (log es : List Effect) :
    queuedBy (log ++ es) = queuedBy log ++ queuedBy es :=
  List.filterMap_append

theorem HonestQueue.mono
    (h : HonestQueue D key queued db) (hmore : queued ⊆ more) :
    HonestQueue D key more db := by
  refine ⟨h.opened, fun row hrow => ?_⟩
  obtain ⟨call, onion, text, hmem, hres⟩ := h.rows row hrow
  exact ⟨call, onion, text, hmore hmem, hres⟩

/-- The rows are still some of the old ones. -/
theorem HonestQueue.fewer
    (h : HonestQueue D key queued db) (hopen : ∀ k, db'.dbKey = some k → db.dbKey = some k)
    (hrows : db'.queue.rows ⊆ db.queue.rows) :
    HonestQueue D key queued db' :=
  ⟨fun k hk => h.opened k (hopen k hk), fun row hrow => h.rows row (hrows hrow)⟩

theorem HonestQueue.deletes
    (h : HonestQueue D key queued db) (hdel : Db.Deletes db db') :
    HonestQueue D key queued db' :=
  h.fewer (fun _ hk => hdel.dbKey ▸ hk) hdel.rows

/-- A call of `database.c` keeps the queue honest. -/
theorem DbStep.honestQueue
    {e : Effect} (hstep : DbStep D calls db e db') (h : HonestQueue D key queued db) :
    HonestQueue D key (queued ++ queuedBy [e]) db' := by
  cases hstep with
  | lookup _ _ _ _ => exact h.mono (List.subset_append_left _ _)
  | list _ _ _ _ _ => exact h.mono (List.subset_append_left _ _)
  | other _ _ _ => exact h.mono (List.subset_append_left _ _)
  | add _ _ call onion name noiseKey _ hadd =>
      have hdb' : (Db.dbAddContact D call onion name noiseKey db).2 = db' := congrArg Prod.snd hadd
      refine HonestQueue.mono ?_ (List.subset_append_left _ _)
      rcases Db.dbAddContact_cases (P := D) call onion name noiseKey db with
        hsame | ⟨k, -, -, -, hres⟩
      · rw [← hdb', hsame]
        exact h
      · rw [← hdb', hres]
        exact h.fewer (fun _ hk => hk) (List.Subset.refl _)
  | queue _ _ call onion text _ hqueue =>
      rcases Db.dbQueueMessage_cases (P := D) call onion text db with
        ⟨err, hres⟩ | ⟨k, hk, -, -, hres⟩
      · rw [hres] at hqueue
        cases hqueue
      · rw [hres] at hqueue
        cases hqueue
        refine ⟨h.opened, fun row hrow => ?_⟩
        obtain hrow | hrow := List.mem_append.mp hrow
        · exact (h.mono (List.subset_append_left _ _)).rows row hrow
        · rw [List.mem_singleton.mp hrow, h.opened k hk]
          exact ⟨call, onion, text, List.mem_append_right _ List.mem_cons_self, rfl⟩
  | rollback _ call onion count _ =>
      exact (h.deletes (Db.dbQueueRollbackLast_deletes call onion count db)).mono
        (List.subset_append_left _ _)
  | flush σ send ctx _ call onion =>
      exact (h.deletes (Db.dbProcessQueue_deletes send call onion db ctx)).mono
        (List.subset_append_left _ _)

/-- The queue is honest after every run. -/
theorem DbRun.honestQueue
    {log : List Effect} (hrun : DbRun D calls db log db') (h : HonestQueue D key queued db) :
    HonestQueue D key (queued ++ queuedBy log) db' := by
  refine hrun.invariant (I := fun pre d => HonestQueue D key (queued ++ queuedBy pre) d)
    (fun pre d e d' hd hstep => ?_) (fun pre d d' hd hclose => ?_) [] ?_
  · rw [queuedBy_append, ← List.append_assoc]
    exact hstep.honestQueue hd
  · rw [hclose]
    exact hd.fewer (fun k hk => absurd hk (by simp [Db.dbClose])) (List.Subset.refl _)
  · exact h.mono (List.subset_append_left _ _)

/-- A flush hands over what has been queued for the address. -/
theorem HonestQueue.handed
    {call : Db.FlushCall} {text : Bytes} (hopens : D.Opens) (h : HonestQueue D key queued db)
    (hcoll : Db.NoCollision D key (onion :: queued.map Prod.fst))
    (hmem : text ∈ Db.handed D call onion db) :
    ∃ t, (onion, t) ∈ queued ∧ text = cstr t := by
  have hkey : db.dbKey = some key := by
    cases hdb : db.dbKey with
    | none =>
        unfold Db.handed Db.dbProcessQueue at hmem
        rw [hdb] at hmem
        cases hmem
    | some k =>
        rw [h.opened k hdb]
  obtain ⟨row, hrow, hlabel, -, plain, hplain, -, rfl⟩ :=
    Db.dbProcessQueue_traced hkey text hmem
  obtain ⟨c, o, t, ht, hres⟩ := h.rows row hrow
  rw [hres] at hlabel hplain
  obtain rfl : o = onion :=
    hcoll o (List.mem_cons_of_mem _ (List.mem_map_of_mem ht)) onion List.mem_cons_self
      (Subtype.ext hlabel)
  dsimp only [Db.queueRow] at hplain
  rw [Block.ofBytes_toList, hopens, Option.some.injEq] at hplain
  exact ⟨t, ht, by rw [← hplain, Db.cstr_append_terminator]⟩

/-- The texts of a flush have been queued for the address that is asked for. -/
theorem DbRun.texts_queued
    {pre post : List Effect} {texts : List Bytes} {text : Bytes} (hopens : D.Opens)
    (h : HonestQueue D key queued db)
    (hrun : DbRun D calls db (pre ++ .dbProcessQueue onion texts :: post) db')
    (hcoll : Db.NoCollision D key (onion :: (queued ++ queuedBy pre).map Prod.fst))
    (hmem : text ∈ texts) :
    ∃ t, (onion, t) ∈ queued ++ queuedBy pre ∧ text = cstr t := by
  obtain ⟨db1, db2, hbefore, hstep, -⟩ := hrun.cut
  have hhonest := DbRun.honestQueue hbefore h
  cases hstep with
  | flush σ send ctx _ call _ => exact hhonest.handed hopens hcoll hmem
  | other _ _ he => cases he

end Queue

/-- The contacts in the database. -/
def contactsOf (D : Db.DbPrimitives) (db : Db.DbState) : Contacts := fun onion =>
  (Db.storedContact D onion db).toOption

/-- Every library call succeeds. -/
def Works (call : Db.DbCall) : Prop :=
  call.Succeeds ∧ call.box = true

/-- The address of a lookup, or of a row that is written. -/
def Effect.contact? : Effect → Option Bytes
  | .dbGetContact onion _ => some onion
  | .dbAddContact onion _ _ => some onion
  | _ => none

section Lookups

variable {D : Db.DbPrimitives} {calls : Db.DbCall → Prop} {db db' : Db.DbState} {e : Effect}
variable {onion : Bytes} {row : Bytes × Key} {key : Key} {call : Db.DbCall}

/-- A lookup that succeeds finds what the table holds. -/
theorem dbGetContact_stored
    (h : Db.dbGetContact D call onion (noxContactNameLen + 1) db = .ok row) :
    Db.storedContact D onion db = .ok row := by
  unfold Db.dbGetContact at h
  split at h
  · cases h
  rename_i key hkey
  rw [if_neg (Nat.succ_ne_zero _)] at h
  split at h
  · cases h
  rename_i hash hhash
  obtain ⟨k, hk, honion, rfl⟩ := Db.hashOnion_ok hhash
  cases hkey.symm.trans hk
  rw [Db.storedContact_eq hkey honion]
  split at h
  · cases h
  cases hstep : call.step with
  | false =>
      rw [hstep] at h
      cases h
  | true =>
      rw [hstep] at h
      exact h

/-- The lookup behind an effect that shows a row. -/
theorem DbStep.lookup_stored
    (hstep : DbStep D calls db (.dbGetContact onion (some row)) db') :
    Db.storedContact D onion db = .ok row := by
  generalize he : Effect.dbGetContact onion (some row) = e at hstep
  cases hstep with
  | lookup _ call o _ =>
      rw [Effect.dbGetContact.injEq] at he
      obtain ⟨rfl, hrow⟩ := he
      cases hres : Db.dbGetContact D call onion (noxContactNameLen + 1) db with
      | error err =>
          rw [hres] at hrow
          cases hrow
      | ok r =>
          rw [hres] at hrow
          cases hrow
          exact dbGetContact_stored hres
  | other _ _ hother =>
      subst he
      cases hother
  | _ => cases he

/-- A lookup finds what the table holds, if its library calls succeed. -/
theorem dbGetContact_works
    (h : call.Succeeds) :
    Db.dbGetContact D call onion (noxContactNameLen + 1) db = Db.storedContact D onion db := by
  unfold Db.storedContact Db.dbGetContact
  rw [h.hash, h.prepare, h.bind, h.step]
  rfl

/-- No call but `db_close` changes the key. -/
theorem DbStep.dbKey
    (hstep : DbStep D calls db e db') :
    db'.dbKey = db.dbKey := by
  cases hstep with
  | lookup _ _ _ _ => rfl
  | list _ _ _ _ _ => rfl
  | other _ _ _ => rfl
  | add _ _ call onion name noiseKey _ hadd =>
      have hdb' : (Db.dbAddContact D call onion name noiseKey db).2 = db' := congrArg Prod.snd hadd
      rw [← hdb']
      rcases Db.dbAddContact_cases (P := D) call onion name noiseKey db with
        hsame | ⟨_, -, -, -, hres⟩
      · rw [hsame]
      · rw [hres]
  | queue _ _ call onion text _ hqueue =>
      have hdb' : (Db.dbQueueMessage D call onion text db).2 = db' := congrArg Prod.snd hqueue
      rw [← hdb']
      exact dbQueueMessage_dbKey call text db
  | rollback _ call onion count _ =>
      exact (Db.dbQueueRollbackLast_deletes call onion count db).dbKey
  | flush σ send ctx _ call onion => exact (Db.dbProcessQueue_deletes send call onion db ctx).dbKey

/-- What is stored depends on the contacts only. -/
theorem contactsOf_congr
    (hkey : db'.dbKey = db.dbKey) (hcontacts : db'.contacts = db.contacts) :
    contactsOf D db' = contactsOf D db := by
  funext onion
  unfold contactsOf Db.storedContact Db.dbGetContact Db.hashOnion
  rw [hkey, hcontacts]

/-- A write whose library calls succeed has written its row. -/
theorem dbAddContact_works
    {name : Bytes} {noiseKey : Key} (hcall : Works call) (hkey : db.dbKey = some key)
    (hadd : Db.dbAddContact D call onion name noiseKey db = (.ok (), db')) :
    onion.length = noxOnionLen ∧ name.length ≤ noxContactNameLen ∧
      db' = db.withContact (Db.contactRow D call onion name noiseKey key) := by
  have hw : Db.Written call onion name db := by
    by_contra hno
    have hbind := (Db.dbAddContact_not_written D noiseKey hno).2.mp (by rw [hadd])
    rw [Db.BindFails, hcall.1.bind] at hbind
    cases hbind.2
  rw [Db.dbAddContact_written D noiseKey hw hkey] at hadd
  exact ⟨hw.1.2.1, hw.1.2.2.1, (congrArg Prod.snd hadd).symm⟩

/-- The table behind a call is what the effect makes of the table before it. -/
theorem DbStep.contacts
    (hopens : D.Opens) (hstep : DbStep D Works db e db') (hkey : db.dbKey = some key)
    (hname : ∀ o name k, e = .dbAddContact o name k → 0 ∉ name)
    (hcoll : ∀ o name k, e = .dbAddContact o name k → Db.NoCollision D key [o, onion]) :
    contactsOf D db' onion = contactStep (contactsOf D db) e onion := by
  have hkey' := hstep.dbKey
  cases hstep with
  | lookup _ _ _ _ => rfl
  | list _ _ _ _ _ => rfl
  | other _ _ he =>
      cases e with
      | dbAddContact o name k => cases he
      | _ => rfl
  | queue _ _ call o text _ hqueue =>
      rcases Db.dbQueueMessage_cases (P := D) call o text db with ⟨_, hres⟩ | ⟨_, -, -, -, hres⟩
      · rw [hres] at hqueue
        cases hqueue
      · rw [hres] at hqueue
        cases hqueue
        rw [contactsOf_congr hkey' rfl]
        rfl
  | rollback _ call o count _ =>
      rw [contactsOf_congr hkey' (Db.dbQueueRollbackLast_deletes call o count db).contacts]
      rfl
  | flush σ send ctx _ call o =>
      rw [contactsOf_congr hkey' (Db.dbProcessQueue_deletes send call o db ctx).contacts]
      rfl
  | add _ _ call o name noiseKey hcall hadd =>
      obtain ⟨hlen, hsize, rfl⟩ := dbAddContact_works hcall hkey hadd
      dsimp only [contactsOf, contactStep]
      by_cases ho : onion = o
      · subst ho
        rw [Function.update_self, Db.storedContact_written call noiseKey hopens
          (hname _ _ _ rfl) hkey hlen hsize]
        rfl
      · have hlabel : (Db.contactRow D call o name noiseKey key).onionHash ≠
            (D.generichash key onion).toList := by
          intro heq
          have hcollide := hcoll _ _ _ rfl o (by simp) onion (by simp) (Subtype.ext heq)
          exact ho hcollide.symm
        rw [Function.update_of_ne ho, Db.storedContact_other hkey hlabel]
        rfl

/-- A lookup shows the table. -/
theorem DbStep.lookup_row
    {row : Option (Bytes × Key)} (hstep : DbStep D Works db (.dbGetContact onion row) db') :
    row = contactsOf D db onion := by
  cases hstep with
  | lookup _ call _ hcall =>
      rw [dbGetContact_works hcall.1]
      rfl
  | other _ _ he => cases he

/--
Nobody tampers with the contacts in a run of `database.c` whose library calls succeed: every
lookup finds what the program has written.
-/
theorem DbRun.untampered
    {log : List Effect} (hopens : D.Opens) (hrun : DbRun D Works db log db')
    (hkey : db'.dbKey = some key) (hcoll : Db.NoCollision D key (log.filterMap Effect.contact?))
    (hnames : ∀ o name k, .dbAddContact o name k ∈ log → 0 ∉ name) :
    db.dbKey = some key ∧ Untampered (contactsOf D db) log := by
  induction hrun with
  | nil =>
      exact ⟨hkey, fun pre _ _ _ h => absurd h (by simp)⟩
  | silent hclose _ ih =>
      have hopen := (ih hkey hcoll hnames).1
      rw [hclose] at hopen
      cases hopen
  | @cons db0 db1 _ e es hstep _ ih =>
      have hsub : es.filterMap Effect.contact? ⊆ (e :: es).filterMap Effect.contact? :=
        List.filterMap_subset _ (List.subset_cons_self e es)
      obtain ⟨hkey1, hlater⟩ := ih hkey
        (fun a ha b hb => hcoll a (hsub ha) b (hsub hb))
        (fun o name k hmem => hnames o name k (List.mem_cons_of_mem e hmem))
      have hkey0 : db0.dbKey = some key := hstep.dbKey.symm.trans hkey1
      refine ⟨hkey0, untampered_cons.mpr ⟨fun onion row he => ?_, hlater.congr ?_⟩⟩
      · subst he
        exact hstep.lookup_row
      · intro onion row hmem
        refine hstep.contacts hopens hkey0 (fun o name k he => ?_) (fun o name k he => ?_)
        · exact hnames o name k (he ▸ List.mem_cons_self)
        · have ho : o ∈ (e :: es).filterMap Effect.contact? :=
            List.mem_filterMap.mpr ⟨e, List.mem_cons_self, by rw [he]; rfl⟩
          have honion : onion ∈ (e :: es).filterMap Effect.contact? :=
            List.mem_filterMap.mpr ⟨_, List.mem_cons_of_mem e hmem, rfl⟩
          intro a ha b hb
          refine hcoll a ?_ b ?_
          · rcases List.mem_pair.mp ha with rfl | rfl
            · exact ho
            · exact honion
          · rcases List.mem_pair.mp hb with rfl | rfl
            · exact ho
            · exact honion

end Lookups

section Replay

variable (D : Db.DbPrimitives) (call : Db.DbCall) (list : Db.ListCall) (flush : Db.FlushCall)

/-- The database behind an effect, if all calls get these answers and every text is accepted. -/
def replayStep (db : Db.DbState) : Effect → Option Db.DbState
  | .dbGetContact onion row =>
      if row = (Db.dbGetContact D call onion (noxContactNameLen + 1) db).toOption then some db
      else none
  | .dbAddContact onion name key =>
      match Db.dbAddContact D call onion name key db with
      | (.ok (), db') => some db'
      | (.error _, _) => none
  | .dbListContacts rows =>
      match Db.dbListContacts D listed list ⟨db, .empty⟩ [] with
      | (.ok (), rows') => if rows = rows' then some db else none
      | (.error _, _) => none
  | .dbQueueMessage onion text =>
      match Db.dbQueueMessage D call onion text db with
      | (.ok (), db') => some db'
      | (.error _, _) => none
  | .dbQueueRollback onion count => some (Db.dbQueueRollbackLast D call onion count db).2
  | .dbProcessQueue onion texts =>
      if texts = Db.handed D flush onion db then
        some (Db.dbProcessQueue D Db.accepting flush onion db ()).2.1
      else none
  | _ => some db

/-- The database behind a log; `none` where the log does not fit. -/
def replay (db : Db.DbState) : List Effect → Option Db.DbState
  | [] => some db
  | e :: es => (replayStep D call list flush db e).bind fun db' => replay db' es

variable {D call list flush} {calls : Db.DbCall → Prop} {db db' : Db.DbState}

theorem replayStep_sound
    {e : Effect} (hcall : calls call) (h : replayStep D call list flush db e = some db') :
    DbStep D calls db e db' := by
  cases e with
  | dbGetContact onion row =>
      rw [replayStep, Option.ite_none_right_eq_some] at h
      obtain ⟨rfl, h⟩ := h
      cases h
      exact .lookup db call onion hcall
  | dbAddContact onion name key =>
      dsimp only [replayStep] at h
      split at h
      · rename_i hadd
        cases h
        exact .add db _ call onion name key hcall hadd
      · cases h
  | dbListContacts rows =>
      dsimp only [replayStep] at h
      split at h
      · rename_i hlist
        rw [Option.ite_none_right_eq_some] at h
        obtain ⟨rfl, h⟩ := h
        cases h
        exact .list db .empty list rows hlist
      · cases h
  | dbQueueMessage onion text =>
      dsimp only [replayStep] at h
      split at h
      · rename_i hqueue
        cases h
        exact .queue db _ call onion text hcall hqueue
      · cases h
  | dbQueueRollback onion count =>
      cases h
      exact .rollback db call onion count hcall
  | dbProcessQueue onion texts =>
      rw [replayStep, Option.ite_none_right_eq_some] at h
      obtain ⟨rfl, h⟩ := h
      cases h
      exact .flush Unit Db.accepting () db flush onion
  | _ =>
      cases h
      exact .other db _ rfl

/-- A log that can be replayed is a run of the database. -/
theorem replay_sound
    {log : List Effect} (hcall : calls call) (h : replay D call list flush db log = some db') :
    DbRun D calls db log db' := by
  induction log generalizing db with
  | nil =>
      cases h
      exact .nil _
  | cons e es ih =>
      obtain ⟨db1, hstep, hrest⟩ := Option.bind_eq_some_iff.mp h
      exact .cons (replayStep_sound hcall hstep) (ih hrest)

end Replay

end App
end Noxtor
