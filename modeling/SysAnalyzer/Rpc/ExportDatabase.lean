import SysAnalyzer.Rpc.Replies

/-!
# The exported database

`TraceDataDB::ExportDatabase` copies the tables into a database file, which
`SendDatabase` reads back and hands to the callback.  Every call but the last
carries the whole read buffer, whatever part of it the read has filled.
-/

namespace SysAnalyzer.Rpc

open Query List

def databaseBase : Nat := 2 ^ 20

/-- The bytes of a read that is neither at the end of the file nor failed. -/
structure Chunk where
  bytes : Bytes
  nonempty : bytes ≠ []
  room : bytes.length ≤ databaseBase

/--
The answers of `base::Read`, up to the one that ends the loop: 0 at the end of
the file, or a negative number.
-/
structure Reads where
  chunks : List Chunk
  failed : Bool

/--
The local array `data` at the beginning of each turn of the loop, where nothing
has been written to it.
-/
abbrev Stale := Nat → {data : Bytes // data.length = databaseBase}

def Chunk.readInto (chunk : Chunk) (data : Bytes) : Bytes :=
  chunk.bytes ++ data.drop chunk.bytes.length

/-- The loop of `SendDatabase` from its given turn on. -/
def sendLoop (failed : Bool) (stale : Stale) : Nat → List Chunk → Calls
  | _, [] => if failed then [] else [([], .sendFinish)]
  | turn, chunk :: rest =>
    (chunk.readInto (stale turn), .sendContinue) :: sendLoop failed stale (turn + 1) rest

/-- What `SendDatabase` leaves behind. -/
structure Sent where
  calls : Calls
  wasmDBName : String
  removed : Option String

/-- `TraceDataDB::SendDatabase`; `fd` is the answer of `base::OpenFile`. -/
def sendDatabase (fd : Int) (stale : Stale) (reads : Reads) (wasmDBName : String) : Sent :=
  if fd = 0 then ⟨[], wasmDBName, none⟩
  else ⟨sendLoop reads.failed stale 0 reads.chunks, "", some wasmDBName⟩

def fileContent (chunks : List Chunk) : Bytes := chunks.flatMap Chunk.bytes

/-- The calls carry the file, and only the last one finishes the reply. -/
structure SentIntact (content : Bytes) (calls : Calls) : Prop where
  whole : delivered calls = content
  finishes : FinishesOnce calls

theorem length_readInto (chunk : Chunk) {data : Bytes} (size : data.length = databaseBase) :
    (chunk.readInto data).length = databaseBase := by
  have room := chunk.room
  rw [Chunk.readInto, length_append, length_drop, size]
  omega

theorem readInto_of_full {chunk : Chunk} (full : chunk.bytes.length = databaseBase)
    {data : Bytes} (size : data.length = databaseBase) : chunk.readInto data = chunk.bytes := by
  rw [Chunk.readInto, drop_eq_nil_of_le (by omega), append_nil]

theorem length_delivered_sendLoop (stale : Stale) (turn : Nat) (chunks : List Chunk) :
    (delivered (sendLoop false stale turn chunks)).length = databaseBase * chunks.length := by
  induction chunks generalizing turn with
  | nil => simp [sendLoop, delivered]
  | cons chunk rest induction =>
    have later := induction (turn + 1)
    have here := length_readInto chunk (stale turn).2
    simp only [delivered, sendLoop, flatMap_cons, length_append, length_cons] at later ⊢
    rw [here, later]
    ring

theorem full_of_length (chunks : List Chunk)
    (size : databaseBase * chunks.length ≤ (fileContent chunks).length) :
    ∀ chunk ∈ chunks, chunk.bytes.length = databaseBase := by
  have bounded (rest : List Chunk) : (fileContent rest).length ≤ databaseBase * rest.length := by
    induction rest with
    | nil => simp [fileContent]
    | cons chunk rest induction =>
      have room := chunk.room
      simp only [fileContent, flatMap_cons, length_append, length_cons, Nat.mul_succ] at induction ⊢
      omega
  induction chunks with
  | nil => simp
  | cons chunk rest induction =>
    have room := chunk.room
    have behind := bounded rest
    simp only [fileContent, flatMap_cons, length_append,
      length_cons, Nat.mul_succ] at size behind induction
    rw [forall_mem_cons]
    constructor
    · omega
    · exact induction (by omega)

theorem delivered_sendLoop_of_full (stale : Stale) (turn : Nat) (chunks : List Chunk)
    (full : ∀ chunk ∈ chunks, chunk.bytes.length = databaseBase) :
    delivered (sendLoop false stale turn chunks) = fileContent chunks := by
  induction chunks generalizing turn with
  | nil => rfl
  | cons chunk rest induction =>
    rw [forall_mem_cons] at full
    have later := induction (turn + 1) full.2
    simp only [delivered, fileContent, sendLoop, flatMap_cons] at later ⊢
    rw [readInto_of_full full.1 (stale turn).2, later]

theorem finishesOnce_sendLoop (stale : Stale) (turn : Nat) (chunks : List Chunk) :
    FinishesOnce (sendLoop false stale turn chunks) := by
  induction chunks generalizing turn with
  | nil => exact finishesOnce_single []
  | cons chunk rest induction =>
    rcases induction (turn + 1) with ⟨earlier, last, split, continued⟩
    refine ⟨(chunk.readInto (stale turn), .sendContinue) :: earlier, last, ?_, ?_⟩
    · rw [sendLoop, split, cons_append]
    · simpa using continued

/--
The database arrives as it is exactly when every read fills the buffer, so that
the file's size is a multiple of the buffer's, and the file has been opened with
a descriptor other than 0.
-/
theorem sentIntact_iff (fd : Int) (stale : Stale) (chunks : List Chunk) (wasmDBName : String) :
    SentIntact (fileContent chunks) (sendDatabase fd stale ⟨chunks, false⟩ wasmDBName).calls ↔
      fd ≠ 0 ∧ ∀ chunk ∈ chunks, chunk.bytes.length = databaseBase := by
  by_cases opened : fd = 0
  · simp only [sendDatabase, opened, if_true, ne_eq, not_true_eq_false, false_and, iff_false]
    rintro ⟨-, finishes⟩
    exact not_finishesOnce_nil finishes
  · simp only [sendDatabase, if_neg opened]
    constructor
    · rintro ⟨whole, -⟩
      refine ⟨opened, full_of_length chunks ?_⟩
      rw [← whole, length_delivered_sendLoop]
    · rintro ⟨-, full⟩
      exact ⟨delivered_sendLoop_of_full stale 0 chunks full, finishesOnce_sendLoop stale 0 chunks⟩

def shortRead : Chunk := ⟨[0x53], by simp, by simp [databaseBase]⟩

def zeros : Stale := fun _ => ⟨List.replicate databaseBase 0, length_replicate⟩

/-- A file of one byte arrives as a whole buffer. -/
theorem not_sentIntact_shortRead : ¬ SentIntact (fileContent [shortRead])
    (sendDatabase 3 zeros ⟨[shortRead], false⟩ "default.db").calls := by
  rintro ⟨whole, -⟩
  have sizes := congrArg List.length whole
  have sent := length_delivered_sendLoop zeros 0 [shortRead]
  change (delivered (sendLoop false zeros 0 [shortRead])).length = 1 at sizes
  rw [sent] at sizes
  exact absurd sizes (by decide)

end SysAnalyzer.Rpc
