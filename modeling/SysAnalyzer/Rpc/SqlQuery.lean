import SysAnalyzer.Query.RoundTrip
import SysAnalyzer.Rpc.Replies

/-!
# Queries over the wire

`RpcServer::SqlQuery` hands its callback to `TraceDataDB::SearchDatabase`, which
answers through it, a query that does not prepare included.  `SqlQuery` then
answers a failure itself, so that query is answered twice.
-/

namespace SysAnalyzer.Rpc

open Query Option

/-- A result code of `sqlite3_prepare_v2` other than `SQLITE_OK`. -/
abbrev ErrorCode := {code : Int // code ≠ sqliteOk}

/-- What SQLite makes of a SQL text. -/
abbrev Database := Bytes → Except ErrorCode Statement

/--
`RpcServer::SqlQuery` with a callback: its result and the calls made.  It is
undefined where `SearchDatabase` is.
-/
def sqlQuery (database : Database) (data : Bytes) : Option (Bool × Calls) :=
  (searchDatabaseCallBack ((database data).mapError Subtype.val)).map fun (ret, calls) =>
    if ret = sqliteOk then (true, calls)
    else (false, calls ++ [(Query.literal "dberror\r\n", .sendFinish)])

/-- The query makes calls, exactly the last of which is marked as finishing. -/
def AnsweredOnce (database : Database) (data : Bytes) : Prop :=
  ∃ done calls, sqlQuery database data = some (done, calls) ∧ FinishesOnce calls

theorem continued_run_deliver (delivery : Delivery) (rows : List (List Column))
    (continued : ∀ call ∈ delivery.calls, call.2 = SendFlag.sendContinue) :
    ∀ call ∈ (Foundation.run Delivery.deliver delivery rows).calls,
      call.2 = SendFlag.sendContinue := by
  induction rows generalizing delivery with
  | nil => exact continued
  | cons row rest induction =>
    apply induction
    intro call member
    unfold Delivery.deliver at member
    split at member
    · rcases List.mem_append.1 member with old | new
      · exact continued call old
      · rw [List.mem_singleton.1 new]
    · exact continued call member

theorem finishesOnce_searchDatabaseCallBack {statement : Statement} {ret : Int} {calls : Calls}
    (called : searchDatabaseCallBack (.ok statement) = some (ret, calls)) :
    ret = sqliteOk ∧ FinishesOnce calls := by
  by_cases columns : statement.columnNames = []
  · simp only [searchDatabaseCallBack, columns, if_true, some.injEq, Prod.mk.injEq] at called
    rcases called with ⟨rfl, rfl⟩
    exact ⟨rfl, finishesOnce_single _⟩
  · rw [searchDatabaseCallBack_eq statement columns] at called
    rcases map_eq_some_iff.1 called with ⟨text, -, answered⟩
    cases answered
    refine ⟨rfl, _, text, rfl, ?_⟩
    exact continued_run_deliver _ _ (by simp)

/--
A query is answered once exactly when it prepares and its last row, if it has
one, leaves bytes in the buffer.
-/
theorem answeredOnce_iff (database : Database) (data : Bytes) :
    AnsweredOnce database data ↔ ∃ statement,
      database data = .ok statement ∧ ¬ FlushesLastRow statement := by
  constructor
  · rintro ⟨done, calls, queried, finishes⟩
    cases prepared : database data with
    | error code =>
      simp only [sqlQuery, prepared, Except.mapError, searchDatabaseCallBack,
        map_some, if_neg code.2, some.injEq, Prod.mk.injEq]
        at queried
      rcases queried with ⟨-, rfl⟩
      exact absurd finishes (@not_finishesOnce_of_early [] _ _ (by simp))
    | ok statement =>
      refine ⟨statement, rfl, fun flushed => ?_⟩
      have columns : statement.columnNames ≠ [] :=
        fun empty => flushed.1 (statement.rows_of_noColumns empty)
      simp only [sqlQuery, prepared, Except.mapError,
        searchDatabaseCallBack_eq_none columns flushed, map_none]
        at queried
      cases queried
  · rintro ⟨statement, prepared, pending⟩
    have called : ∃ ret calls, searchDatabaseCallBack (.ok statement) = some (ret, calls) := by
      by_cases columns : statement.columnNames = []
      · exact ⟨_, _, by simp only [searchDatabaseCallBack, columns, if_true]; rfl⟩
      · rcases searchDatabaseCallBack_eq_whole columns pending with
          ⟨calls, called, -⟩
        exact ⟨_, _, called⟩
    rcases called with ⟨ret, calls, called⟩
    rcases finishesOnce_searchDatabaseCallBack called with ⟨rfl, finishes⟩
    refine ⟨true, calls, ?_, finishes⟩
    simp only [sqlQuery, prepared, Except.mapError, called, map_some, if_true]

/-- A database that answers `SQLITE_ERROR` to every text. -/
def brokenDatabase : Database := fun _ => .error ⟨1, by decide⟩

/-- A query that does not prepare gets two finishing messages. -/
theorem not_answeredOnce_broken : ¬ AnsweredOnce brokenDatabase (Query.literal "selec 1") := by
  rintro ⟨done, calls, queried, finishes⟩
  simp only [sqlQuery, brokenDatabase, Except.mapError, searchDatabaseCallBack, map_some] at queried
  rw [if_neg (by decide), some.injEq, Prod.mk.injEq] at queried
  rcases queried with ⟨-, rfl⟩
  exact absurd finishes (@not_finishesOnce_of_early [] _ _ (by simp))

/-- The interface reads the table from one reply exactly when the last row leaves bytes
in the buffer and no text is harmful. -/
theorem sqlQuery_convertJSON_iff (irregular : Foundation.Json → Except JsError (List JsObject))
    (data : Bytes) (table : ResultTable) :
    (∃ calls, sqlQuery (fun _ => .ok table.statement) data = some (true, calls) ∧
      FinishesOnce calls ∧
      convertJSON irregular (.inl (delivered calls)) = .ok (table.objects id)) ↔
      ¬ FlushesLastRow table.statement ∧ ∀ row ∈ table.rows, ∀ cell ∈ row, cell.Harmless := by
  by_cases columns : table.columns = []
  · have rows := table.rows_of_noColumns columns
    have nothing : convertJSON irregular (.inl (Query.literal "ok\r\n")) = .ok [] := rfl
    simp [sqlQuery, Except.mapError, searchDatabaseCallBack, ResultTable.statement, columns, rows,
      FlushesLastRow, finishesOnce_single, delivered, ResultTable.objects, nothing]
  have named : table.statement.columnNames ≠ [] := by simpa [ResultTable.statement] using columns
  by_cases flushed : FlushesLastRow table.statement
  · simp [sqlQuery, Except.mapError, searchDatabaseCallBack_eq_none named flushed, flushed]
  rcases searchDatabaseCallBack_eq_whole named flushed with ⟨calls, called, whole⟩
  have finishes := (finishesOnce_searchDatabaseCallBack called).2
  have answer := answer_convertJSON irregular table
  rw [searchDatabase_statement table columns, some_inj] at whole
  rw [whole] at answer
  simp only [sqlQuery, Except.mapError, called, map_some, if_true, some.injEq, Prod.mk.injEq,
    true_and, exists_eq_left', finishes, flushed, not_false_eq_true, delivered,
    Cell.harmless_iff, forall_and, ← objects_eq_iff]
  generalize convertJSON irregular _ = result at answer
  cases answer with
  | parsed clean =>
    rw [Except.ok.injEq]
    exact (and_iff_right clean).symm
  | replaced dirty clean =>
    rw [Except.ok.injEq, objects_eq_iff]
    refine iff_of_false (fun same => dirty fun row listed cell member => ?_) fun all => dirty all.1
    exact Cell.isClean_of_replaced (clean row listed cell member) (same row listed cell member)
  | refused dirty => exact iff_of_false (by simp) fun all => dirty all.1

end SysAnalyzer.Rpc
