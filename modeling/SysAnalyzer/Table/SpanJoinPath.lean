import SysAnalyzer.Table.SpanJoin

/-!
# The rows of a span join

On well-formed tables the two machines of the join cursor stand on spans only,
and the cursor follows the merge path by (partition, end).  The path meets every
pair of spans that intersect in one partition, so the join is correct exactly
when the overlap test accepts no other pair of the path.  A machine that has
read spans before need not find its first one: `Ready` says when it does.
-/

namespace SysAnalyzer.Table

open Foundation List

structure Span where
  partition : Int
  ts : Int
  dur : Int

namespace Span

def endTs (span : Span) : Int := span.ts + span.dur

def row (span : Span) : SpanRow := ⟨some span.partition, span.ts, span.dur⟩

/-- The order in which the join leaves spans behind. -/
def key (span : Span) : Lex (Int × Int) := toLex (span.partition, span.endTs)

/-- The two spans lie in one partition and share some time. -/
def Intersects (first second : Span) : Prop :=
  first.partition = second.partition ∧ max first.ts second.ts < min first.endTs second.endTs

instance (first second : Span) : Decidable (first.Intersects second) :=
  inferInstanceAs (Decidable (_ ∧ _))

def joinRow (first second : Span) : JoinRow where
  ts := max first.ts second.ts
  dur := min first.endTs second.endTs - max first.ts second.ts
  partition := first.partition

end Span

/--
A table the join accepts: rows ordered by (partition, ts), positive durations,
disjoint spans inside a partition.  Partitions lie below the value that marks
the end, and the ends are 64-bit integers.
-/
structure WellFormedSpans (spans : List Span) : Prop where
  ordered : spans.Pairwise fun first second =>
    first.partition < second.partition ∨
      (first.partition = second.partition ∧ first.ts ≤ second.ts)
  disjoint : spans.Pairwise fun first second =>
    first.partition = second.partition → first.endTs ≤ second.ts ∨ second.endTs ≤ first.ts
  positive : ∀ span ∈ spans, 0 < span.dur
  partitions : ∀ span ∈ spans, 0 ≤ span.partition ∧ span.partition < maxInt32
  bounded : ∀ span ∈ spans, -2 ^ 63 ≤ span.ts ∧ span.endTs ≤ maxInt64

def expectedRows (first second : List Span) : List JoinRow :=
  ((first.product second).filter fun pair => pair.1.Intersects pair.2).map
    fun pair => pair.1.joinRow pair.2

/--
The pairs of spans the cursor meets: what ends before one of them ends before
the other as well.
-/
def MeetsPair (first second : List Span) (a b : Span) : Prop :=
  (∀ x ∈ first, x.key < a.key → x.key < b.key) ∧ ∀ y ∈ second, y.key < b.key → y.key ≤ a.key

def acceptsPair (pair : Span × Span) : Bool := pair.1.ts ≥ pair.2.ts ∨ pair.2.ts < pair.1.endTs

/-- The machine stands on the first of `spans`, the others are ahead. -/
def StandsOn (span : CaclSpan) : List Span → Prop
  | [] => span.isEof = true
  | head :: rest =>
    span.isEof = false ∧ span.partitionState = .real ∧ span.ts = head.ts ∧ span.endTs = head.endTs ∧
      span.partition = head.partition ∧
      span.ahead = rest.map Span.row

section Machine

theorem wrapInt32_partition {partition : Int} (lower : 0 ≤ partition)
    (upper : partition < maxInt32) : wrapInt32 partition = partition := by
  unfold maxInt32 at upper
  exact wrapInt32_of_mem (by omega) (by omega)

theorem standsOn_next {span : CaclSpan} {head : Span} {rest : List Span}
    (stands : StandsOn span (head :: rest)) (partitions :
      ∀ other ∈ rest, 0 ≤ other.partition ∧ other.partition < maxInt32)
    (starts : ∀ other ∈ rest, other.ts < maxInt64) : StandsOn span.next rest := by
  rcases stands with ⟨_, isReal, _, _, samePartition, ahead⟩
  cases rest with
  | nil =>
    have stepped : CaclSpan.stepRow span.ahead = (none, []) := by
      rw [ahead]
      rfl
    simp [StandsOn, CaclSpan.next, CaclSpan.getNextState, isReal,
      CaclSpan.getCursorNext, stepped, CaclSpan.turns,
      CaclSpan.searchNextslice]
  | cons other tail =>
    have stepped : CaclSpan.stepRow span.ahead = (some other.row, tail.map Span.row) := by
      rw [ahead]
      rfl
    rcases partitions other mem_cons_self with ⟨lower, upper⟩
    have narrow := wrapInt32_partition lower upper
    have notLast : other.partition ≠ maxInt32 := upper.ne
    have notMax : other.ts ≠ maxInt64 := (starts other mem_cons_self).ne
    by_cases same : head.partition = other.partition
    · -- The gap before a span of the same partition.
      simp [StandsOn, CaclSpan.next, CaclSpan.getNextState, isReal,
        CaclSpan.getCursorNext, stepped, CaclSpan.turns,
        CaclSpan.searchNextslice, CaclSpan.columnPartition,
        CaclSpan.columnTs, CaclSpan.columnDur, Span.row, samePartition,
        same, notMax, Span.endTs]
    · -- The rest of the partition, the missing ones, and the gap before the span.
      simp [StandsOn, CaclSpan.next, CaclSpan.getNextState, isReal,
        CaclSpan.getCursorNext, stepped, CaclSpan.turns,
        CaclSpan.searchNextslice, CaclSpan.columnPartition,
        CaclSpan.columnTs, CaclSpan.columnDur, Span.row, samePartition,
        same, notMax, narrow, notLast, Span.endTs]

/-- Only the step from a span reads a row. -/
theorem isEof_searchNextslice (turns : Nat) (span : CaclSpan) :
    (span.searchNextslice turns).isEof = span.isEof := by
  induction turns generalizing span with
  | zero => rfl
  | succ turns induction =>
    rw [CaclSpan.searchNextslice]
    cases state : span.partitionState <;> simp only [CaclSpan.getNextState, state] <;>
      split_ifs <;> simp_all

/--
The state a machine keeps lets it find the first span: it is new, stands in a
gap of that span's partition or at the end of some partition, or stands on a
span with the same partition and times already.
-/
def Ready (span : CaclSpan) : List Span → Prop
  | [] => True
  | head :: _ =>
    match span.partitionState with
    | .missing => True
    | .partition => span.endTs = maxInt64 ∨ span.partition = head.partition
    | .real => span.ts = head.ts ∧ span.endTs = head.endTs ∧ span.partition = head.partition
    | .eof => False

theorem standsOn_initQuerySql_iff {spans : List Span} (partitions :
    ∀ span ∈ spans, 0 ≤ span.partition ∧ span.partition < maxInt32)
    (starts : ∀ span ∈ spans, span.ts < maxInt64) (span : CaclSpan) :
    StandsOn (span.initQuerySql (spans.map Span.row)) spans ↔ Ready span spans := by
  cases spans with
  | nil => exact iff_of_true (isEof_searchNextslice _ _) trivial
  | cons head rest =>
    rcases partitions head mem_cons_self with ⟨lower, upper⟩
    have narrow := wrapInt32_partition lower upper
    have notLast : head.partition ≠ maxInt32 := upper.ne
    have notMax : head.ts ≠ maxInt64 := (starts head mem_cons_self).ne
    cases state : span.partitionState with
    | partition =>
      by_cases ended : span.endTs = maxInt64 <;>
        simp [StandsOn, Ready, CaclSpan.initQuerySql, CaclSpan.getCursorNext,
          CaclSpan.stepRow, CaclSpan.turns, CaclSpan.searchNextslice,
          CaclSpan.getNextState, CaclSpan.columnPartition, CaclSpan.columnTs,
          CaclSpan.columnDur, Span.row, narrow, notLast, notMax, Span.endTs, state, ended]
    | _ =>
      simp [StandsOn, Ready, CaclSpan.initQuerySql, CaclSpan.getCursorNext,
        CaclSpan.stepRow, CaclSpan.turns, CaclSpan.searchNextslice,
        CaclSpan.getNextState, CaclSpan.columnPartition, CaclSpan.columnTs,
        CaclSpan.columnDur, Span.row, narrow, notLast, notMax, Span.endTs, state]

theorem StandsOn.length_le {span : CaclSpan} {spans : List Span} (stands : StandsOn span spans) :
    spans.length ≤ span.ahead.length + 1 := by
  cases spans with
  | nil => simp
  | cons head rest =>
    rcases stands with ⟨_, _, _, _, _, ahead⟩
    simp [ahead]

end Machine

/-! ## Both sides -/

section Path

/-- What the machines need to know about the rows they read. -/
def Readable (spans : List Span) : Prop :=
  ∀ span ∈ spans, (0 ≤ span.partition ∧ span.partition < maxInt32) ∧ span.ts < maxInt64

theorem Readable.tail {head : Span} {rest : List Span} (readable : Readable (head :: rest)) :
    Readable rest :=
  fun span member => readable span (mem_cons_of_mem _ member)

theorem Readable.next {span : CaclSpan} {head : Span} {rest : List Span}
    (readable : Readable (head :: rest))
    (stands : StandsOn span (head :: rest)) : StandsOn span.next rest :=
  standsOn_next stands (fun other member => (readable.tail other member).1)
    (fun other member => (readable.tail other member).2)

def pathRows (first second : List Span) : List JoinRow :=
  ((mergePath Span.key Span.key first second).filter acceptsPair).map
    fun pair => pair.1.joinRow pair.2

theorem key_lt_iff (a b : Span) : a.key < b.key ↔ a.partition < b.partition ∨
    (a.partition = b.partition ∧ a.endTs < b.endTs) := by
  simp [Span.key, Prod.Lex.toLex_lt_toLex]

section Pair

variable {cursor : JoinCursor} {a b : Span} {left right : List Span}

section

variable (standsFirst : StandsOn cursor.tableFirst (a :: left))
include standsFirst

theorem findQueryResult_of_stands (standsSecond : StandsOn cursor.tableSecond (b :: right)) :
    cursor.findQueryResult = if a.key < b.key then .first else .second := by
  rcases standsFirst with ⟨_, firstReal, _, firstEnd, firstPartition, _⟩
  rcases standsSecond with ⟨_, secondReal, _, secondEnd, secondPartition, _⟩
  simp [JoinCursor.findQueryResult, CaclSpan.getPatitonForMiss, firstReal,
    secondReal, firstEnd, secondEnd, firstPartition, secondPartition,
    key_lt_iff]

theorem caclOverLap_of_stands (standsSecond : StandsOn cursor.tableSecond (b :: right)) :
    cursor.caclOverLap = acceptsPair (a, b) := by
  rcases standsFirst with ⟨_, firstReal, firstTs, firstEnd, _, _⟩
  rcases standsSecond with ⟨_, secondReal, secondTs, secondEnd, _, _⟩
  by_cases later : a.ts ≥ b.ts
  · simp [JoinCursor.caclOverLap, acceptsPair, firstReal, secondReal, firstTs, secondTs, later]
  · have earlier : a.ts ≤ b.ts := by omega
    simp [JoinCursor.caclOverLap, acceptsPair, firstTs, secondTs, firstEnd, later, earlier]

theorem column_of_stands (standsSecond : StandsOn cursor.tableSecond (b :: right)) :
    cursor.column = a.joinRow b := by
  rcases standsFirst with
    ⟨_, firstReal, firstTs, firstEnd, firstPartition, _⟩
  rcases standsSecond with ⟨_, _, secondTs, secondEnd, _, _⟩
  simp [JoinCursor.column, Span.joinRow, firstReal, firstTs, secondTs,
    firstEnd, secondEnd, firstPartition]

theorem eof_of_stands (standsSecond : StandsOn cursor.tableSecond (b :: right)) :
    cursor.eof = false := by
  simp [JoinCursor.eof, standsFirst.1, standsSecond.1]

end

end Pair

theorem findSpan_of_eof {cursor : JoinCursor} (atEnd : cursor.eof = true) (turns : Nat) :
    cursor.findSpan turns = cursor := by
  cases turns with
  | zero => rfl
  | succ turns => simp [JoinCursor.findSpan, atEnd]

/--
One turn on a pair: the row is reported if the test accepts the pair, and the
cursor continues with the side that ends first advanced.
-/
theorem emits_pair {cursor moved : JoinCursor} {a b : Span} {left right : List Span}
    {side : JoinSide} {turns : Nat} {rows : List JoinRow}
    (standsFirst : StandsOn cursor.tableFirst (a :: left))
    (standsSecond : StandsOn cursor.tableSecond (b :: right))
    (isSide : cursor.findQueryResult = side)
    (isMoved : JoinCursor.advance { cursor with queryNext := side } = moved)
    (restEmits : JoinCursor.Emits moved.isFindSpan rows)
    (restTurns : JoinCursor.Emits (moved.findSpan turns) rows) :
    JoinCursor.Emits (cursor.findSpan (turns + 1))
      (if acceptsPair (a, b) then a.joinRow b :: rows else rows) := by
  have notAtEnd := eof_of_stands standsFirst standsSecond
  have overlap : JoinCursor.caclOverLap { cursor with queryNext := side } = acceptsPair (a, b) :=
    caclOverLap_of_stands standsFirst standsSecond
  rw [JoinCursor.findSpan, notAtEnd]
  simp only [Bool.false_eq_true, if_false, isSide, overlap, isMoved]
  split_ifs with accepted
  · have isRow : JoinCursor.column { cursor with queryNext := side } = a.joinRow b :=
      column_of_stands standsFirst standsSecond
    rw [← isRow]
    refine .emit notAtEnd ?_
    rw [JoinCursor.next, isMoved]
    exact restEmits
  · exact restTurns

/-- From two spans on, the cursor emits the rows of the path. -/
theorem emits_findSpan {first second : List Span} {cursor : JoinCursor} {turns : Nat}
    (readableFirst : Readable first) (readableSecond : Readable second)
    (standsFirst : StandsOn cursor.tableFirst first)
    (standsSecond : StandsOn cursor.tableSecond second)
    (enough : first.length + second.length ≤ turns) :
    JoinCursor.Emits (cursor.findSpan turns) (pathRows first second) := by
  have enoughRows : ∀ {moved : JoinCursor} {left right : List Span},
    StandsOn moved.tableFirst left → StandsOn moved.tableSecond right →
      left.length + right.length ≤ moved.tableFirst.ahead.length +
        moved.tableSecond.ahead.length + 2 := by
    intro moved left right onLeft onRight
    have leftLe := onLeft.length_le
    have rightLe := onRight.length_le
    omega
  induction first, second using mergePath.induct Span.key Span.key generalizing cursor turns with
  | case1 second =>
    have atEnd : cursor.eof = true := by
      simp [JoinCursor.eof, show cursor.tableFirst.isEof = true from standsFirst]
    rw [findSpan_of_eof atEnd, pathRows, mergePath]
    exact .done atEnd
  | case2 a left =>
    have atEnd : cursor.eof = true := by
      simp [JoinCursor.eof, show cursor.tableSecond.isEof = true from standsSecond]
    rw [findSpan_of_eof atEnd, pathRows, mergePath]
    exact .done atEnd
  | case3 a left b right smaller induction =>
    have movedFirst := readableFirst.next standsFirst
    have isSide : cursor.findQueryResult = .first := by
      rw [findQueryResult_of_stands standsFirst standsSecond, if_pos smaller]
    cases turns with
    | zero => simp at enough
    | succ turns =>
      have split : pathRows (a :: left) (b :: right) = if acceptsPair (a, b) then
        a.joinRow b :: pathRows left (b :: right)
        else
          pathRows left (b :: right) := by
        simp only [pathRows]
        rw [mergePath, if_pos smaller, filter_cons]
        split_ifs <;> simp
      rw [split]
      refine emits_pair standsFirst standsSecond isSide rfl ?_ ?_
      · exact induction readableFirst.tail readableSecond movedFirst
          standsSecond (enoughRows movedFirst standsSecond)
      · exact induction readableFirst.tail readableSecond movedFirst
          standsSecond (by simp at enough ⊢; omega)
  | case4 a left b right notSmaller induction =>
    have movedSecond := readableSecond.next standsSecond
    have isSide : cursor.findQueryResult = .second := by
      rw [findQueryResult_of_stands standsFirst standsSecond, if_neg notSmaller]
    cases turns with
    | zero => simp at enough
    | succ turns =>
      have split : pathRows (a :: left) (b :: right) = if acceptsPair (a, b) then
        a.joinRow b :: pathRows (a :: left) right
        else
          pathRows (a :: left) right := by
        simp only [pathRows]
        rw [mergePath, if_neg notSmaller, filter_cons]
        split_ifs <;> simp
      rw [split]
      refine emits_pair standsFirst standsSecond isSide rfl ?_ ?_
      · exact induction readableFirst readableSecond.tail standsFirst
          movedSecond (enoughRows standsFirst movedSecond)
      · exact induction readableFirst readableSecond.tail standsFirst
          movedSecond (by simp at enough ⊢; omega)

theorem JoinCursor.Emits.unique {cursor : JoinCursor} {rows others : List JoinRow}
    (emits : JoinCursor.Emits cursor rows)
    (emitsOthers : JoinCursor.Emits cursor others) : rows = others := by
  induction emits generalizing others with
  | done atEnd =>
    cases emitsOthers with
    | done _ => rfl
    | emit notAtEnd _ =>
      rw [atEnd] at notAtEnd
      cases notAtEnd
  | emit notAtEnd _ induction =>
    cases emitsOthers with
    | done atEnd =>
      rw [notAtEnd] at atEnd
      cases atEnd
    | emit _ rest => rw [induction rest]

end Path

section Spans

variable {spans first second : List Span}

section

variable (wellFormed : WellFormedSpans spans)
include wellFormed

theorem WellFormedSpans.precedes : spans.Pairwise fun x y =>
    x.partition < y.partition ∨ (x.partition = y.partition ∧ x.endTs ≤ y.ts) := by
  have both := wellFormed.ordered.and wellFormed.disjoint
  refine List.Pairwise.imp_of_mem ?_ both
  rintro x y _ inY ⟨ordered, disjoint⟩
  rcases ordered with before | ⟨same, startsLe⟩
  · exact Or.inl before
  · refine Or.inr ⟨same, ?_⟩
    rcases disjoint same with ends | inverted
    · exact ends
    · have positive := wellFormed.positive y inY
      unfold Span.endTs at inverted
      omega

theorem WellFormedSpans.sortedKeys : spans.Pairwise fun x y => x.key < y.key := by
  refine List.Pairwise.imp_of_mem ?_ wellFormed.precedes
  intro x y _ inY precedes
  have positive := wellFormed.positive y inY
  rw [key_lt_iff]
  rcases precedes with before | ⟨same, ends⟩
  · exact Or.inl before
  · refine Or.inr ⟨same, ?_⟩
    unfold Span.endTs at ends ⊢
    omega

theorem WellFormedSpans.readable : Readable spans := by
  intro span member
  refine ⟨wellFormed.partitions span member, ?_⟩
  have positive := wellFormed.positive span member
  have bounded := (wellFormed.bounded span member).2
  unfold Span.endTs at bounded
  omega

theorem WellFormedSpans.nodup : spans.Nodup :=
  wellFormed.sortedKeys.imp fun less same => by
    subst same
    exact lt_irrefl _ less

theorem WellFormedSpans.end_le_start {x y : Span}
    (inX : x ∈ spans) (inY : y ∈ spans) (less : x.key < y.key)
    (same : x.partition = y.partition) : x.endTs ≤ y.ts := by
  rcases getElem_of_mem inX with ⟨i, iLt, rfl⟩
  rcases getElem_of_mem inY with ⟨j, jLt, rfl⟩
  rcases lt_trichotomy i j with before | rfl | after
  · rcases pairwise_iff_getElem.1 wellFormed.precedes i j iLt jLt before
      with smaller | ⟨_, ends⟩
    · omega
    · exact ends
  · exact absurd less (lt_irrefl _)
  · have greater :=
      pairwise_iff_getElem.1 wellFormed.sortedKeys j i jLt iLt after
    exact absurd less greater.not_gt

end

theorem meetsPair_of_intersects
    (wellFirst : WellFormedSpans first) (wellSecond : WellFormedSpans second)
    {a b : Span} (inFirst : a ∈ first) (inSecond : b ∈ second)
    (intersects : a.Intersects b) : MeetsPair first second a b := by
  rcases intersects with ⟨same, overlap⟩
  constructor
  · intro x inX less
    rcases (key_lt_iff x a).1 less with before | ⟨samePartition, _⟩
    · exact (key_lt_iff x b).2 (Or.inl (by omega))
    · have ends := wellFirst.end_le_start inX inFirst less samePartition
      exact (key_lt_iff x b).2 (Or.inr ⟨by omega, by omega⟩)
  · intro y inY less
    rcases (key_lt_iff y b).1 less with before | ⟨samePartition, _⟩
    · exact ((key_lt_iff y a).2 (Or.inl (by omega))).le
    · have ends := wellSecond.end_le_start inY inSecond less samePartition
      exact ((key_lt_iff y a).2 (Or.inr ⟨by omega, by omega⟩)).le

theorem acceptsPair_of_intersects {a b : Span} (intersects : a.Intersects b) :
    acceptsPair (a, b) = true := by
  rcases intersects with ⟨_, overlap⟩
  simp only [acceptsPair, decide_eq_true_eq]
  omega

theorem expectedRows_perm (wellFirst : WellFormedSpans first)
    (wellSecond : WellFormedSpans second) :
    (expectedRows first second).Perm (((mergePath Span.key Span.key first second).filter fun pair =>
      pair.1.Intersects pair.2).map fun pair => pair.1.joinRow pair.2) := by
  apply List.Perm.map
  rw [perm_ext_iff_of_nodup]
  · rintro ⟨a, b⟩
    rw [mem_filter, mem_filter, pair_mem_product,
      mem_mergePath_iff wellFirst.sortedKeys wellSecond.sortedKeys]
    simp only [decide_eq_true_eq]
    constructor
    · rintro ⟨⟨inFirst, inSecond⟩, intersects⟩
      exact ⟨⟨inFirst, inSecond, meetsPair_of_intersects wellFirst wellSecond inFirst inSecond
        intersects⟩, intersects⟩
    · rintro ⟨⟨inFirst, inSecond, _⟩, intersects⟩
      exact ⟨⟨inFirst, inSecond⟩, intersects⟩
  · exact (wellFirst.nodup.product wellSecond.nodup).filter _
  · exact (nodup_mergePath wellFirst.sortedKeys wellSecond.sortedKeys).filter _

theorem emits_filter {cursor : JoinCursor} (readyFirst : Ready cursor.tableFirst first)
    (readySecond : Ready cursor.tableSecond second)
    (readableFirst : Readable first) (readableSecond : Readable second) :
    JoinCursor.Emits (cursor.filter (first.map Span.row) (second.map Span.row))
      (pathRows first second) := by
  have standsFirst :=
    (standsOn_initQuerySql_iff (fun span member => (readableFirst span member).1)
      (fun span member => (readableFirst span member).2) _).2 readyFirst
  have standsSecond :=
    (standsOn_initQuerySql_iff (fun span member => (readableSecond span member).1)
      (fun span member => (readableSecond span member).2) _).2 readySecond
  refine emits_findSpan readableFirst readableSecond standsFirst standsSecond ?_
  have firstLe := standsFirst.length_le
  have secondLe := standsSecond.length_le
  simp only
  omega

/--
On a cursor whose machines find the first spans, the join of two well-formed
tables reports one row for every pair that intersects, and no other, exactly
when every pair the cursor meets either intersects or has the first span end
before the second one starts.
-/
theorem spanJoin_correct_iff (cursor : JoinCursor) (first second : List Span)
    (readyFirst : Ready cursor.tableFirst first) (readySecond : Ready cursor.tableSecond second)
    (wellFirst : WellFormedSpans first) (wellSecond : WellFormedSpans second) :
    (∃ rows, JoinCursor.Emits (cursor.filter (first.map Span.row) (second.map Span.row)) rows ∧
      rows.Perm (expectedRows first second)) ↔
      ∀ a ∈ first, ∀ b ∈ second, MeetsPair first second a b →
        a.Intersects b ∨ (a.ts < b.ts ∧ a.endTs ≤ b.ts) := by
  have emits := emits_filter readyFirst readySecond wellFirst.readable wellSecond.readable
  have expected := expectedRows_perm wellFirst wellSecond
  have onPath := mem_mergePath_iff wellFirst.sortedKeys wellSecond.sortedKeys
  -- Intersecting pairs are accepted, so they can be sought among the accepted ones.
  have narrowed : ((mergePath Span.key Span.key first second).filter fun pair =>
    pair.1.Intersects pair.2) =
    ((mergePath Span.key Span.key first second).filter
      acceptsPair).filter fun pair => pair.1.Intersects pair.2 := by
    rw [filter_filter]
    apply filter_congr
    rintro ⟨a, b⟩ _
    by_cases intersects : a.Intersects b
    · simp [intersects, acceptsPair_of_intersects intersects]
    · simp [intersects]
  rw [narrowed] at expected
  constructor
  · rintro ⟨rows, emitsRows, perm⟩ a inFirst b inSecond meets
    rw [emitsRows.unique emits] at perm
    have sameLength := (perm.trans expected).length_eq
    rw [pathRows, length_map, length_map] at sameLength
    have all := length_filter_eq_length_iff.1 sameLength.symm
    by_cases accepted : acceptsPair (a, b) = true
    · have member : (a, b) ∈ (mergePath Span.key Span.key first second).filter acceptsPair :=
        mem_filter.2 ⟨(onPath a b).2 ⟨inFirst, inSecond, meets⟩, accepted⟩
      exact Or.inl (by simpa using all (a, b) member)
    · simp only [acceptsPair, decide_eq_true_eq, not_or] at accepted
      exact Or.inr ⟨by omega, by omega⟩
  · intro rightPairs
    refine ⟨pathRows first second, emits, ?_⟩
    have all : ∀ pair ∈ (mergePath Span.key Span.key first second).filter acceptsPair,
      decide (pair.1.Intersects pair.2) = true := by
      rintro ⟨a, b⟩ member
      rcases mem_filter.1 member with ⟨met, accepted⟩
      rcases (onPath a b).1 met with ⟨inFirst, inSecond, meets⟩
      rcases rightPairs a inFirst b inSecond meets with intersects | apart
      · simpa using intersects
      · simp only [acceptsPair, decide_eq_true_eq] at accepted
        omega
    rw [filter_eq_self.2 all] at expected
    exact expected.symm

theorem spanJoin_correct_iff_overlapping :
    ∃ rows, JoinCursor.Emits (JoinCursor.filter {} ([⟨0, 0, 10⟩].map Span.row)
      ([⟨0, 5, 10⟩].map Span.row)) rows ∧
      rows.Perm (expectedRows [⟨0, 0, 10⟩] [⟨0, 5, 10⟩]) := by
  have correct :=
    spanJoin_correct_iff {} [⟨0, 0, 10⟩] [⟨0, 5, 10⟩] trivial trivial
      (by constructor <;> simp [Span.endTs, maxInt32, maxInt64])
      (by constructor <;> simp [Span.endTs, maxInt32, maxInt64])
  apply correct.2
  intro a inFirst b inSecond _
  rw [mem_singleton.1 inFirst, mem_singleton.1 inSecond]
  exact Or.inl (by decide)

/-- A span that starts after the only span of the other table has ended is joined to it. -/
theorem spanJoin_reports_disjoint_pair :
    WellFormedSpans [⟨0, 100, 10⟩] ∧ WellFormedSpans [⟨0, 0, 10⟩] ∧
      expectedRows [⟨0, 100, 10⟩] [⟨0, 0, 10⟩] = [] ∧
      JoinCursor.Emits (JoinCursor.filter {} ([⟨0, 100, 10⟩].map Span.row)
        ([⟨0, 0, 10⟩].map Span.row)) [⟨100, -90, 0⟩] := by
  have wellFirst : WellFormedSpans [⟨0, 100, 10⟩] := by
    constructor <;> simp [Span.endTs, maxInt32, maxInt64]
  have wellSecond : WellFormedSpans [⟨0, 0, 10⟩] := by
    constructor <;> simp [Span.endTs, maxInt32, maxInt64]
  refine ⟨wellFirst, wellSecond, by decide, ?_⟩
  have emits := @emits_filter [⟨0, 100, 10⟩] [⟨0, 0, 10⟩] {} trivial trivial
    wellFirst.readable wellSecond.readable
  have rows : pathRows [⟨0, 100, 10⟩] [⟨0, 0, 10⟩] = [⟨100, -90, 0⟩] := by
    simp [pathRows, mergePath, key_lt_iff, acceptsPair, Span.joinRow, Span.endTs]
  rwa [rows] at emits

end Spans

end SysAnalyzer.Table
