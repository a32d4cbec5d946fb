import Mathlib.Data.List.Basic
import SysAnalyzer.Parser.EbpfSplitter

/-!
# Ebpf sections in pieces

The body of a section is a header and items.  If the first piece of it has the
whole header, the splitter passes the items as they become complete, so what it
collects does not depend on where the body is cut.  It never passes a last item
that is empty: the loop wants more than a title.
-/

namespace SysAnalyzer.Parser

open Foundation List Option

/-- An item, long enough for the fixed header of its type. -/
structure EbpfItem where
  type : UInt32
  data : List UInt8
  data_length : data.length < 2 ^ 32
  fixed : ∀ layout, fixedHeaderOf type = some layout → layout.size ≤ data.length

namespace EbpfItem

def bytes (item : EbpfItem) : List UInt8 :=
  littleEndianBytes 4 item.type.toNat ++ littleEndianBytes 4 item.data.length ++ item.data

theorem length_bytes (item : EbpfItem) : item.bytes.length = 8 + item.data.length := by
  simp only [bytes, length_append, length_littleEndianBytes]

def Fits (item : EbpfItem) : Prop := item.bytes.length < 2 ^ 32

end EbpfItem

def itemBytes (items : List EbpfItem) : List UInt8 := items.flatMap EbpfItem.bytes

@[simp]
theorem itemBytes_nil : itemBytes [] = [] := rfl

@[simp]
theorem itemBytes_cons (item : EbpfItem) (items : List EbpfItem) :
    itemBytes (item :: items) = item.bytes ++ itemBytes items :=
  rfl

theorem itemBytes_append (items others : List EbpfItem) :
    itemBytes (items ++ others) = itemBytes items ++ itemBytes others :=
  flatMap_append

structure EbpfBody where
  header : List UInt8
  items : List EbpfItem
  header_length : header.length = EbpfDataHeader.ebpfDataHeaderSize
  magic : EbpfDataHeader.magic header = EbpfDataHeader.headerMagic
  headSize : EbpfDataHeader.headSize header = EbpfDataHeader.ebpfDataHeaderSize

def EbpfBody.bytes (body : EbpfBody) : List UInt8 := body.header ++ itemBytes body.items

theorem EbpfBody.header_le_bytes (body : EbpfBody) :
    EbpfDataHeader.ebpfDataHeaderSize ≤ body.bytes.length := by
  rw [bytes, length_append, body.header_length]
  exact Nat.le_add_right _ _

namespace EbpfSplitter

/-! ## What is to be collected -/

def Wanted (splitter : EbpfSplitter) (item : EbpfItem) : Prop :=
  splitter.wants item.type item.data = true

instance (splitter : EbpfSplitter) : DecidablePred splitter.Wanted :=
  fun _ => inferInstanceAs (Decidable (_ = true))

/-- The ranges of the items that are wanted, the first of which begins here. -/
def pieces (splitter : EbpfSplitter) (start : UInt64) : List EbpfItem → List EbpfSplitResult
  | [] => []
  | item :: items =>
    let size := UInt64.ofNat item.bytes.length
    (if splitter.Wanted item then [.json (splitter.offsetOfEbpfDataInFile + start) size]
    else []) ++ splitter.pieces (start + size) items

def usefulLen (splitter : EbpfSplitter) : List EbpfItem → UInt64
  | [] => 0
  | item :: items =>
    (if splitter.Wanted item then UInt64.ofNat item.bytes.length else 0) + splitter.usefulLen items

def behind (splitter : EbpfSplitter) (items : List EbpfItem) (buffer : List UInt8) : EbpfSplitter :=
  { splitter with
    splittedLen := splitter.splittedLen + UInt64.ofNat (itemBytes items).length
    usefulDataLen := splitter.usefulDataLen + splitter.usefulLen items
    ebpfBuffer := buffer
    ebpfSplitResult :=
      splitter.ebpfSplitResult ++
        splitter.pieces splitter.splittedLen items }

section

variable (splitter : EbpfSplitter)
include splitter

@[simp]
theorem behind_nil (buffer : List UInt8) :
    splitter.behind [] buffer = { splitter with ebpfBuffer := buffer } := by
  simp [behind, usefulLen, pieces]

theorem pieces_behind (items : List EbpfItem)
    (buffer : List UInt8) (start : UInt64) (others : List EbpfItem) :
    (splitter.behind items buffer).pieces start others = splitter.pieces start others := by
  induction others generalizing start with
  | nil => rfl
  | cons item others ih =>
    rw [pieces, pieces, ih]
    rfl

theorem usefulLen_behind (items : List EbpfItem) (buffer : List UInt8) (others : List EbpfItem) :
    (splitter.behind items buffer).usefulLen others = splitter.usefulLen others := by
  induction others with
  | nil => rfl
  | cons item others ih =>
    rw [usefulLen, usefulLen, ih]
    rfl

theorem behind_cons (item : EbpfItem) (items : List EbpfItem) (buffer bytes : List UInt8) :
    (splitter.behind [item] buffer).behind items bytes = splitter.behind (item :: items) bytes := by
  have start : (splitter.behind [item] buffer).splittedLen =
    splitter.splittedLen + UInt64.ofNat item.bytes.length := by
    simp [behind]
  have useful : (splitter.behind [item] buffer).usefulDataLen + splitter.usefulLen items =
    splitter.usefulDataLen + splitter.usefulLen (item :: items) := by
    simp only [behind, usefulLen, UInt64.add_zero, UInt64.add_assoc]
  have results : (splitter.behind [item] buffer).ebpfSplitResult ++ splitter.pieces
    (splitter.splittedLen + UInt64.ofNat item.bytes.length) items =
    splitter.ebpfSplitResult ++ splitter.pieces splitter.splittedLen (item :: items) := by
    simp [behind, pieces]
  have length : splitter.splittedLen + UInt64.ofNat item.bytes.length +
    UInt64.ofNat (itemBytes items).length = splitter.splittedLen +
      UInt64.ofNat (itemBytes (item :: items)).length := by
    rw [itemBytes_cons, length_append, UInt64.ofNat_add, UInt64.add_assoc]
  rw [behind, pieces_behind, usefulLen_behind, start, useful, results, length]
  rfl

theorem behind_behind (items others : List EbpfItem) (buffer bytes : List UInt8) :
    (splitter.behind items buffer).behind others bytes =
      splitter.behind (items ++ others) bytes := by
  induction items generalizing splitter with
  | nil =>
    rw [nil_append, behind, pieces_behind, usefulLen_behind, behind_nil]
    rfl
  | cons item items ih =>
    rw [← behind_cons splitter item items [] buffer, ih, behind_cons, cons_append]

end

variable {item : EbpfItem} {buffer : List UInt8}

variable {more : List UInt8}

theorem readTitle_eq (received : buffer <+: item.bytes ++ more) (some : 8 < buffer.length) :
    readTitle buffer = ⟨item.type, UInt32.ofNat item.data.length⟩ := by
  rcases received with ⟨rest, whole⟩
  have layout : buffer ++ rest = littleEndianBytes 4 item.type.toNat ++
    (littleEndianBytes 4 item.data.length ++ (item.data ++ more)) := by
    rw [whole, EbpfItem.bytes]
    simp only [append_assoc]
  have type : buffer.take 4 = littleEndianBytes 4 item.type.toNat := by
    rw [← take_append_of_le_length (by omega : 4 ≤ buffer.length), layout]
    exact take_left' (length_littleEndianBytes 4 _)
  have length : (buffer.drop 4).take 4 = littleEndianBytes 4 item.data.length := by
    have enough : 4 ≤ (buffer.drop 4).length := by
      rw [length_drop]
      omega
    rw [← take_append_of_le_length enough,
      ← drop_append_of_le_length (by omega : 4 ≤ buffer.length), layout,
      drop_left' (length_littleEndianBytes 4 _)]
    exact take_left' (length_littleEndianBytes 4 _)
  rw [readTitle, type, length, littleEndian_littleEndianBytes item.type.toNat_lt,
    littleEndian_littleEndianBytes item.data_length, UInt32.ofNat_toNat]

theorem segLen_eq (fits : item.Fits) :
    (ebpfTitleSize + UInt32.ofNat item.data.length).toNat = item.bytes.length := by
  rw [EbpfItem.Fits, item.length_bytes] at fits
  rw [item.length_bytes, UInt32.toNat_add, UInt32.toNat_ofNat']
  have title : ebpfTitleSize.toNat = 8 := rfl
  omega

theorem segLen_toUInt64 (fits : item.Fits) :
    (ebpfTitleSize + UInt32.ofNat item.data.length).toUInt64 = UInt64.ofNat item.bytes.length := by
  rw [← segLen_eq fits, UInt64.ofNat_uInt32ToNat]

theorem wants_append (splitter : EbpfSplitter) (item : EbpfItem) (more : List UInt8) :
    splitter.wants item.type (item.data ++ more) = splitter.wants item.type item.data := by
  unfold wants
  cases found : fixedHeaderOf item.type with
  | none => rfl
  | some layout =>
    simp only
    rw [take_append_of_le_length (item.fixed _ found)]

theorem splitItem_eq (fits : item.Fits) (splitter : EbpfSplitter) (more : List UInt8)
    (received : splitter.ebpfBuffer = item.bytes ++ more) :
    splitter.splitItem ⟨item.type, UInt32.ofNat item.data.length⟩ =
      splitter.behind [item] more := by
  have behindTitle : splitter.ebpfBuffer.drop ebpfTitleSize.toNat = item.data ++ more := by
    rw [received, EbpfItem.bytes, append_assoc]
    apply drop_left'
    simp only [length_append, length_littleEndianBytes]
    rfl
  have behindItem : splitter.ebpfBuffer.drop item.bytes.length = more := by rw [received, drop_left]
  unfold splitItem
  simp only [behindTitle, wants_append, segLen_eq fits, segLen_toUInt64 fits, behindItem]
  by_cases wanted : splitter.Wanted item
  · have isWanted : splitter.wants item.type item.data = true := wanted
    simp [behind, usefulLen, pieces, wanted, isWanted]
  · have notWanted : splitter.wants item.type item.data = false :=
      Bool.eq_false_iff.2 wanted
    simp [behind, usefulLen, pieces, wanted, notWanted]

/-- The next item has not been received, or there is no more than its title. -/
def Waits (items : List EbpfItem) (buffer : List UInt8) : Prop :=
  ∀ item ∈ items.head?, buffer.length ≤ 8 ∨ buffer.length < item.bytes.length

def EndsEmpty (items : List EbpfItem) : Prop := ∃ item ∈ items.getLast?, item.data = []

theorem left_behind (splitter : EbpfSplitter) (items : List EbpfItem) (buffer : List UInt8) :
    (splitter.behind items buffer).left =
      splitter.left - UInt64.ofNat (itemBytes items).length := by
  simp only [left, behind]
  grind

structure Passes (splitter : EbpfSplitter) (items passed rest : List EbpfItem)
    (buffer : List UInt8) : Prop where
  items_eq : items = passed ++ rest
  split : splitter.splitEbpfBodyData = some (splitter.behind passed buffer)
  received : splitter.ebpfBuffer = itemBytes passed ++ buffer
  waits : Waits rest buffer
  notEmpty : rest = [] → ¬ EndsEmpty passed

variable {splitter : EbpfSplitter} {items : List EbpfItem}

theorem passes_none (ends : splitter.splitEbpfBodyData = some splitter)
    (waits : Waits items splitter.ebpfBuffer) :
    splitter.Passes items [] items splitter.ebpfBuffer := by
  constructor
  · rfl
  · rw [behind_nil, ends]
  · rfl
  · exact waits
  · rintro _ ⟨item, last, _⟩
    exact absurd last (by simp)

theorem splitEbpfBodyData_pass (fits : item.Fits)
    (received : splitter.ebpfBuffer = item.bytes ++ more)
    (some : 8 < splitter.ebpfBuffer.length) (left : 8 < splitter.left) :
    splitter.splitEbpfBodyData = (splitter.behind [item] more).splitEbpfBodyData := by
  have title : readTitle splitter.ebpfBuffer = ⟨item.type, UInt32.ofNat item.data.length⟩ := by
    have whole : splitter.ebpfBuffer <+: item.bytes ++ more := ⟨[], by rw [append_nil, received]⟩
    exact readTitle_eq whole some
  have enough : ¬ splitter.ebpfBuffer.length <
    (UInt32.ofNat item.data.length + ebpfTitleSize).toNat := by
    rw [UInt32.add_comm, segLen_eq fits, received, length_append]
    omega
  have positive : ¬ ebpfTitleSize + UInt32.ofNat item.data.length = 0 := by
    intro zero
    have length := segLen_eq fits
    rw [zero, item.length_bytes] at length
    rw [UInt32.toNat_zero] at length
    omega
  rw [splitEbpfBodyData, if_pos ⟨left, some⟩, title]
  dsimp only
  rw [if_neg enough, if_neg positive, splitItem_eq fits splitter more received]

theorem exists_more {bytes rest : List UInt8} (received : buffer <+: bytes ++ rest)
    (long : bytes.length ≤ buffer.length) : ∃ more, buffer = bytes ++ more ∧ more <+: rest := by
  rcases prefix_of_prefix_length_le (prefix_append bytes rest) received long with ⟨more, whole⟩
  refine ⟨more, whole.symm, ?_⟩
  rw [← whole] at received
  exact (prefix_append_right_inj bytes).1 received

theorem splitEbpfBodyData_wait (fits : item.Fits)
    (received : splitter.ebpfBuffer <+: item.bytes ++ more)
    (short : splitter.ebpfBuffer.length < item.bytes.length) :
    splitter.splitEbpfBodyData = some splitter := by
  rw [splitEbpfBodyData]
  split_ifs with going
  · rw [readTitle_eq received going.2]
    dsimp only
    rw [if_pos]
    rwa [UInt32.add_comm, segLen_eq fits]
  · rfl

/-- The splitter passes over the items that it has in full. -/
theorem exists_passes (fits : ∀ item ∈ items, item.Fits)
    (received : splitter.ebpfBuffer <+: itemBytes items)
    (left : splitter.left = UInt64.ofNat (itemBytes items).length)
    (bounded : (itemBytes items).length < 2 ^ 64) :
    ∃ passed rest buffer, splitter.Passes items passed rest buffer := by
  induction items generalizing splitter with
  | nil =>
    have empty : splitter.ebpfBuffer = [] := prefix_nil.1 received
    have ends : splitter.splitEbpfBodyData = some splitter := by
      rw [splitEbpfBodyData, if_neg]
      rintro ⟨_, some⟩
      rw [empty] at some
      exact absurd some (Nat.not_lt_zero _)
    exact ⟨_, _, _, passes_none ends (by rintro _ ⟨⟩)⟩
  | cons item items ih =>
    have itemFits : item.Fits := fits item mem_cons_self
    rw [itemBytes_cons] at received left bounded
    by_cases some : 8 < splitter.ebpfBuffer.length
    · by_cases short : splitter.ebpfBuffer.length < item.bytes.length
      · refine ⟨_, _, _, passes_none (splitEbpfBodyData_wait itemFits received short) ?_⟩
        rintro first ⟨⟩
        exact Or.inr short
      · rcases exists_more received (not_lt.1 short) with
          ⟨more, whole, moreReceived⟩
        have goes : 8 < splitter.left := by
          have longer := received.length_le
          rw [left, UInt64.lt_iff_toNat_lt, UInt64.toNat_ofNat_of_lt' bounded]
          exact lt_of_lt_of_le some longer
        have moreLeft : (splitter.behind [item] more).left =
          UInt64.ofNat (itemBytes items).length := by
          rw [left_behind, left, length_append, UInt64.ofNat_add,
            itemBytes_cons, itemBytes_nil, append_nil]
          rw [UInt64.add_comm]
          exact UInt64.add_sub_cancel _ _
        have moreBounded : (itemBytes items).length < 2 ^ 64 := by
          rw [length_append] at bounded
          omega
        rcases ih (fun other member => fits other (mem_cons_of_mem _ member))
          moreReceived moreLeft moreBounded with
          ⟨passed, rest, buffer, passes⟩
        refine ⟨item :: passed, rest, buffer, ?_⟩
        constructor
        · rw [passes.items_eq]
          rfl
        · rw [splitEbpfBodyData_pass itemFits whole some goes, passes.split, behind_cons]
        · rw [whole, itemBytes_cons, append_assoc]
          exact congrArg (item.bytes ++ ·) passes.received
        · exact passes.waits
        · intro ended
          cases passed with
          | nil =>
            -- the buffer is the last item, and more than its title
            rintro ⟨last, isLast, empty⟩
            have noData : item.data = [] := by
              cases isLast
              exact empty
            have none : items = [] := by
              rw [passes.items_eq, ended]
              rfl
            rw [none, itemBytes_nil] at received
            have longer := received.length_le
            rw [append_nil, item.length_bytes, noData] at longer
            exact absurd some (not_lt.2 longer)
          | cons next passed =>
            rintro ⟨last, isLast, empty⟩
            rw [getLast?_cons_cons] at isLast
            exact passes.notEmpty ended ⟨last, isLast, empty⟩
    · have ends : splitter.splitEbpfBodyData = .some splitter := by
        rw [splitEbpfBodyData, if_neg]
        exact fun going => some going.2
      refine ⟨_, _, _, passes_none ends ?_⟩
      rintro first ⟨⟩
      exact Or.inl (not_lt.1 some)

/-- The items that are complete in what has been received are passed. -/
structure Reached (items : List EbpfItem) (bytes : List UInt8)
    (passed rest : List EbpfItem) (buffer : List UInt8) : Prop where
  items_eq : items = passed ++ rest
  bytes_eq : bytes = itemBytes passed ++ buffer
  waits : Waits rest buffer
  notEmpty : rest = [] → ¬ EndsEmpty passed

/-- The splitter then, which has set the length if there is no more. -/
def settled (base : EbpfSplitter) (passed rest : List EbpfItem)
    (buffer : List UInt8) : EbpfSplitter :=
  if rest = [] then
    { base.behind passed buffer with
      length :=
        (base.behind passed buffer).usefulDataLen +
          profilerTraceFileHeaderSize +
          UInt64.ofNat EbpfDataHeader.ebpfDataHeaderSize }
  else base.behind passed buffer

theorem left_lt_iff (left : splitter.left = UInt64.ofNat (itemBytes items).length)
    (bounded : (itemBytes items).length < 2 ^ 64) :
    splitter.left < ebpfTitleSize.toUInt64 ↔ items = [] := by
  rw [left, UInt64.lt_iff_toNat_lt, UInt64.toNat_ofNat_of_lt' bounded]
  have title : ebpfTitleSize.toUInt64.toNat = 8 := rfl
  rw [title]
  cases items with
  | nil => simp
  | cons item items =>
    have long := item.length_bytes
    simp only [itemBytes_cons, length_append, reduceCtorEq, iff_false]
    omega

variable {rest passed : List EbpfItem}

theorem splitBody_reached {base : EbpfSplitter} (fits : ∀ item ∈ items, item.Fits)
    (left : base.left = UInt64.ofNat (itemBytes items).length)
    (bounded : (itemBytes items).length < 2 ^ 64)
    (items_eq : items = passed ++ rest) (received : buffer <+: itemBytes rest)
    (notEmpty : rest = [] → ¬ EndsEmpty passed) :
    ∃ further others bytes, (base.behind passed buffer).splitBody =
      some (base.settled further others bytes) ∧
      Reached items (itemBytes passed ++ buffer) further others bytes := by
  have restFits : ∀ item ∈ rest, item.Fits := fun item member =>
    fits item (items_eq ▸ mem_append_right _ member)
  have length : (itemBytes items).length = (itemBytes passed).length + (itemBytes rest).length := by
    rw [items_eq, itemBytes_append, length_append]
  have restLeft : (base.behind passed buffer).left = UInt64.ofNat (itemBytes rest).length := by
    rw [left_behind, left, length, UInt64.ofNat_add, UInt64.add_comm]
    exact UInt64.add_sub_cancel _ _
  rcases exists_passes restFits received restLeft (by omega) with
    ⟨further, others, bytes, passes⟩
  have othersLeft : (base.behind (passed ++ further) bytes).left =
    UInt64.ofNat (itemBytes others).length := by
    rw [← behind_behind base passed further buffer bytes, left_behind,
      restLeft, passes.items_eq, itemBytes_append, length_append,
      UInt64.ofNat_add, UInt64.add_comm]
    exact UInt64.add_sub_cancel _ _
  have ends : (base.behind (passed ++ further) bytes).left < ebpfTitleSize.toUInt64 ↔
    others = [] := by
    refine left_lt_iff othersLeft ?_
    have shorter := congrArg List.length (congrArg itemBytes passes.items_eq)
    rw [itemBytes_append, length_append] at shorter
    omega
  refine ⟨passed ++ further, others, bytes, ?_, ?_⟩
  · rw [splitBody, passes.split, behind_behind, map_some, settled]
    by_cases ended : others = []
    · rw [if_pos (ends.2 ended), if_pos ended]
    · rw [if_neg (fun less => ended (ends.1 less)), if_neg ended]
  · constructor
    · rw [items_eq, passes.items_eq, append_assoc]
    · have whole : buffer = itemBytes further ++ bytes := passes.received
      rw [whole, itemBytes_append, append_assoc]
    · exact passes.waits
    · intro ended
      cases further with
      | nil =>
        rw [append_nil]
        apply notEmpty
        rw [passes.items_eq, ended]
        rfl
      | cons item further =>
        rintro ⟨last, isLast, empty⟩
        rw [getLast?_append_cons] at isLast
        exact passes.notEmpty ended ⟨last, isLast, empty⟩

theorem addAndSplitEbpfData_of_header (splitter : EbpfSplitter)
    (hasHeader : splitter.ebpfHeader.isSome) (dequeBuffer : List UInt8) :
    splitter.addAndSplitEbpfData dequeBuffer =
      ({ splitter with ebpfBuffer := splitter.ebpfBuffer ++ dequeBuffer } :
        EbpfSplitter).splitBody := by
  rw [addAndSplitEbpfData]
  dsimp only
  rw [if_neg]
  simpa [isSome_iff_ne_none] using hasHeader

/-- The calls of `AddAndSplitEbpfData`. -/
def addAll (splitter : EbpfSplitter) (chunks : List (List UInt8)) : Option EbpfSplitter :=
  chunks.foldlM addAndSplitEbpfData splitter

variable {chunk : List UInt8}

theorem Reached.rest_ne_nil {bytes : List UInt8} (reached : Reached items bytes passed rest buffer)
    (nonempty : chunk ≠ []) (received : bytes ++ chunk <+: itemBytes items) : rest ≠ [] := by
  intro ended
  have shorter := received.length_le
  rw [reached.items_eq, ended, append_nil, reached.bytes_eq,
    length_append, length_append] at shorter
  have positive := length_pos_iff.2 nonempty
  omega

variable {chunks : List (List UInt8)}

theorem addAll_reached {base : EbpfSplitter} (fits : ∀ item ∈ items, item.Fits)
    (hasHeader : base.ebpfHeader.isSome) (left : base.left = UInt64.ofNat (itemBytes items).length)
    (bounded : (itemBytes items).length < 2 ^ 64)
    (nonempty : ∀ chunk ∈ chunks, chunk ≠ []) {bytes : List UInt8}
    (reached : Reached items bytes passed rest buffer)
    (received : bytes ++ chunks.flatten <+: itemBytes items) :
    ∃ further others more, (base.settled passed rest buffer).addAll chunks =
      some (base.settled further others more) ∧
      Reached items (bytes ++ chunks.flatten) further others more := by
  induction chunks generalizing bytes passed rest buffer with
  | nil =>
    refine ⟨passed, rest, buffer, rfl, ?_⟩
    rw [flatten_nil, append_nil]
    exact reached
  | cons chunk chunks ih =>
    have some : chunk ≠ [] := nonempty chunk mem_cons_self
    rw [flatten_cons, ← append_assoc] at received ⊢
    have first : bytes ++ chunk <+: itemBytes items := (prefix_append _ _).trans received
    have isLeft : rest ≠ [] := reached.rest_ne_nil some first
    have inRest : buffer ++ chunk <+: itemBytes rest := by
      rw [reached.items_eq, itemBytes_append, reached.bytes_eq, append_assoc] at first
      exact (prefix_append_right_inj _).1 first
    rcases splitBody_reached fits left bounded reached.items_eq inRest
      (fun ended => absurd ended isLeft) with
      ⟨further, others, more, split, next⟩
    have call : (base.settled passed rest buffer).addAndSplitEbpfData chunk =
      .some (base.settled further others more) := by
      rw [settled, if_neg isLeft]
      exact (addAndSplitEbpfData_of_header (base.behind passed buffer) hasHeader chunk).trans split
    rw [← append_assoc, ← reached.bytes_eq] at next
    rcases ih (fun other member =>
      nonempty other (mem_cons_of_mem _ member)) next received with
      ⟨all, none, last, calls, final⟩
    refine ⟨all, none, last, ?_, final⟩
    rw [addAll, foldlM_cons, call]
    exact calls

theorem Reached.rest_cases (reached : Reached items (itemBytes items) passed rest buffer) :
    buffer = itemBytes rest ∧ (rest = [] ∨ ∃ last, rest = [last] ∧ last.data = []) := by
  have all : buffer = itemBytes rest := by
    have bytes_eq := reached.bytes_eq
    rw [reached.items_eq, itemBytes_append] at bytes_eq
    exact (append_cancel_left bytes_eq).symm
  refine ⟨all, ?_⟩
  cases rest with
  | nil => exact Or.inl rfl
  | cons item rest =>
    have long := item.length_bytes
    have waits := reached.waits item rfl
    rw [all, itemBytes_cons, length_append] at waits
    have empty : item.data = [] := eq_nil_of_length_eq_zero (by omega)
    cases rest with
    | nil => exact Or.inr ⟨item, rfl, empty⟩
    | cons other rest =>
      have otherLong := other.length_bytes
      rw [itemBytes_cons, length_append] at waits
      omega

theorem Reached.all (reached : Reached items (itemBytes items) passed rest buffer)
    (notEmpty : ¬ EndsEmpty items) : passed = items ∧ rest = [] ∧ buffer = [] := by
  rcases reached.rest_cases with ⟨all, none | ⟨last, isLast, empty⟩⟩
  · refine ⟨?_, none, ?_⟩
    · rw [reached.items_eq, none, append_nil]
    · rw [all, none, itemBytes_nil]
  · refine absurd ⟨last, ?_, empty⟩ notEmpty
    rw [reached.items_eq, isLast, getLast?_append_cons]
    rfl

theorem Reached.last {front : List EbpfItem} {last : EbpfItem} (empty : last.data = []) (reached :
    Reached (front ++ [last]) (itemBytes (front ++ [last])) passed rest
      buffer) : passed = front ∧ rest = [last] ∧ buffer = last.bytes := by
  have items_eq := reached.items_eq
  rcases reached.rest_cases with ⟨all, none | ⟨item, isLast, _⟩⟩
  · rw [none, append_nil] at items_eq
    refine absurd ⟨last, ?_, empty⟩ (reached.notEmpty none)
    rw [← items_eq, getLast?_append_cons]
    rfl
  · rw [isLast] at items_eq
    rcases append_inj' items_eq rfl with ⟨front_eq, last_eq⟩
    rw [← last_eq] at isLast
    refine ⟨front_eq.symm, isLast, ?_⟩
    rw [all, isLast, itemBytes_cons, itemBytes_nil, append_nil]

/-- The splitter has got nothing of a section. -/
structure Fresh (splitter : EbpfSplitter) : Prop where
  splittedLen : splitter.splittedLen = 0
  usefulDataLen : splitter.usefulDataLen = 0
  ebpfBuffer : splitter.ebpfBuffer = []
  ebpfSplitResult : splitter.ebpfSplitResult = []
  ebpfHeader : splitter.ebpfHeader = none

def Announces (splitter : EbpfSplitter) (body : EbpfBody) : Prop :=
  splitter.length.toNat = 1024 + body.bytes.length

def behindHeader (splitter : EbpfSplitter) (body : EbpfBody) : EbpfSplitter :=
  { splitter with
    splittedLen := UInt64.ofNat EbpfDataHeader.ebpfDataHeaderSize
    ebpfSplitResult := [.profilerHeader, .ebpfHeader]
    ebpfHeader := some body.header }

variable {body : EbpfBody}

theorem left_behindHeader (announces : splitter.Announces body) :
    (splitter.behindHeader body).left = UInt64.ofNat (itemBytes body.items).length := by
  have whole : splitter.length = UInt64.ofNat (itemBytes body.items).length + 1024 + 1024 := by
    rw [← UInt64.ofNat_toNat (x := splitter.length), announces,
      EbpfBody.bytes, length_append, body.header_length,
      EbpfDataHeader.ebpfDataHeaderSize, add_comm, add_comm 1024,
      UInt64.ofNat_add, UInt64.ofNat_add]
    rfl
  have header : UInt64.ofNat EbpfDataHeader.ebpfDataHeaderSize = 1024 := rfl
  rw [left, behindHeader]
  dsimp only
  rw [whole, header, profilerTraceFileHeaderSize, UInt64.add_sub_cancel, UInt64.add_sub_cancel]

theorem addAndSplitEbpfData_header (fresh : splitter.Fresh) (body : EbpfBody) (more : List UInt8) :
    splitter.addAndSplitEbpfData (body.header ++ more) =
      ((splitter.behindHeader body).behind [] more).splitBody := by
  have header : (body.header ++ more).take EbpfDataHeader.ebpfDataHeaderSize = body.header :=
    take_left' body.header_length
  have behindIt : (body.header ++ more).drop EbpfDataHeader.ebpfDataHeaderSize = more :=
    drop_left' body.header_length
  have enough : EbpfDataHeader.ebpfDataHeaderSize ≤ (body.header ++ more).length := by
    rw [length_append, body.header_length]
    exact Nat.le_add_right _ _
  rw [addAndSplitEbpfData]
  simp only [fresh.ebpfBuffer, fresh.ebpfHeader, fresh.ebpfSplitResult,
    nil_append, isNone_none, if_true, if_pos enough,
    splitEbpfHeader, header, behindIt, body.magic, body.headSize, ne_eq,
    not_true_eq_false, if_false, behind_nil, behindHeader,
    fresh.splittedLen, UInt64.zero_add]
  rfl

variable {dequeBuffer : List UInt8}

theorem addAndSplitEbpfData_short
    (noHeader : splitter.ebpfHeader = none) (short : (splitter.ebpfBuffer ++ dequeBuffer).length <
        EbpfDataHeader.ebpfDataHeaderSize) :
    splitter.addAndSplitEbpfData dequeBuffer = some
        { splitter with
          ebpfBuffer := splitter.ebpfBuffer ++ dequeBuffer
          ebpfSplitResult :=
            splitter.ebpfSplitResult ++ [.profilerHeader] } := by
  rw [addAndSplitEbpfData]
  simp only [noHeader, isNone_none, if_true]
  rw [if_neg (not_le.2 short)]

theorem exists_addAll (fits : ∀ item ∈ body.items, item.Fits) (fresh : splitter.Fresh)
    (announces : splitter.Announces body) (nonempty : ∀ other ∈ chunks, other ≠ [])
    (whole : chunk ++ chunks.flatten = body.bytes)
    (enough : EbpfDataHeader.ebpfDataHeaderSize ≤ chunk.length) :
    ∃ passed rest buffer, splitter.addAll (chunk :: chunks) =
      some ((splitter.behindHeader body).settled passed rest buffer) ∧
      Reached body.items (itemBytes body.items) passed rest buffer := by
  have bounded : (itemBytes body.items).length < 2 ^ 64 := by
    have small := splitter.length.toNat_lt
    rw [announces, EbpfBody.bytes, length_append] at small
    omega
  have left := left_behindHeader announces
  have prefix_chunk : chunk <+: body.header ++ itemBytes body.items := by
    rw [← EbpfBody.bytes, ← whole]
    exact prefix_append _ _
  rcases exists_more prefix_chunk (by rw [body.header_length]; exact enough)
    with ⟨more, chunk_eq, received⟩
  have items_eq : more ++ chunks.flatten = itemBytes body.items := by
    rw [chunk_eq, EbpfBody.bytes, append_assoc] at whole
    exact append_cancel_left whole
  have none : ¬ EndsEmpty [] := by
    rintro ⟨last, isLast, _⟩
    cases isLast
  rcases splitBody_reached fits left bounded (nil_append _).symm received (fun _ => none) with
    ⟨further, others, bytes, split, next⟩
  rw [itemBytes_nil, nil_append] at next
  rcases addAll_reached fits rfl left bounded nonempty next
    ⟨[], by rw [append_nil, items_eq]⟩ with
    ⟨passed, rest, buffer, calls, reached⟩
  refine ⟨passed, rest, buffer, ?_, ?_⟩
  · rw [addAll, foldlM_cons, chunk_eq, addAndSplitEbpfData_header fresh body more, split]
    exact calls
  · rw [items_eq] at reached
    exact reached

theorem pieces_behindHeader (splitter : EbpfSplitter) (body : EbpfBody)
    (start : UInt64) (items : List EbpfItem) :
    (splitter.behindHeader body).pieces start items = splitter.pieces start items := by
  induction items generalizing start with
  | nil => rfl
  | cons item items ih =>
    rw [pieces, pieces, ih]
    rfl

theorem pieces_append (splitter : EbpfSplitter) (start : UInt64) (items others : List EbpfItem) :
    splitter.pieces start (items ++ others) = splitter.pieces start items ++ splitter.pieces
      (start + UInt64.ofNat (itemBytes items).length) others := by
  induction items generalizing start with
  | nil => simp [pieces]
  | cons item items ih =>
    rw [cons_append, pieces, pieces, ih, append_assoc,
      itemBytes_cons, length_append, UInt64.ofNat_add,
      UInt64.add_assoc]

theorem ebpfSplitResult_settled (splitter : EbpfSplitter) (body : EbpfBody)
    (passed rest : List EbpfItem) (buffer : List UInt8) :
    ((splitter.behindHeader body).settled passed rest buffer).ebpfSplitResult =
      .profilerHeader :: .ebpfHeader :: splitter.pieces 1024 passed := by
  have results : ((splitter.behindHeader body).settled passed rest buffer).ebpfSplitResult =
    ((splitter.behindHeader body).behind passed buffer).ebpfSplitResult := by
    unfold settled
    split_ifs <;> rfl
  rw [results, behind, pieces_behindHeader]
  rfl

theorem fixedHeaderOf_size_pos {type : UInt32} {layout : FixedHeader}
    (found : fixedHeaderOf type = some layout) : 0 < layout.size := by
  unfold fixedHeaderOf at found
  split_ifs at found
  all_goals
    cases found
    decide

theorem wanted_iff_of_empty (empty : item.data = []) :
    splitter.Wanted item ↔ IsPublic item.type := by
  unfold Wanted wants
  split_ifs with isPublic
  · simp [isPublic]
  · cases found : fixedHeaderOf item.type with
    | none => simp [isPublic]
    | some layout =>
      have long := item.fixed layout found
      rw [empty] at long
      exact absurd long (not_le.2 (fixedHeaderOf_size_pos found))

theorem pieces_front_iff {front : List EbpfItem}
    {last : EbpfItem} (empty : last.data = []) (start : UInt64) :
    splitter.pieces start front = splitter.pieces start (front ++ [last]) ↔
      ¬ IsPublic last.type := by
  rw [pieces_append, eq_comm, append_right_eq_self, pieces, pieces, append_nil]
  by_cases wanted : splitter.Wanted last
  · simp [wanted, (wanted_iff_of_empty empty).1 wanted]
  · have isOwn : ¬ IsPublic last.type := fun isPublic =>
      wanted ((wanted_iff_of_empty empty).2 isPublic)
    simp [wanted, isOwn]

/--
The calls end, with the results and the length that one call for the whole body
has, and the results are the two headers and the items that are wanted.
-/
def SplitsAlike (splitter : EbpfSplitter) (body : EbpfBody) (chunks : List (List UInt8)) : Prop :=
  ∃ final whole, splitter.addAll chunks = some final ∧ splitter.addAll [body.bytes] = some whole ∧
      final.ebpfSplitResult = whole.ebpfSplitResult ∧
      final.length = whole.length ∧
      final.ebpfSplitResult = .profilerHeader :: .ebpfHeader :: splitter.pieces 1024 body.items

def FirstHasHeader (chunks : List (List UInt8)) : Prop :=
  ∀ chunk ∈ chunks.head?, EbpfDataHeader.ebpfDataHeaderSize ≤ chunk.length

/-- The last item has data or is not public. -/
def EndsWell (items : List EbpfItem) : Prop :=
  ∀ item ∈ items.getLast?, item.data = [] → ¬ IsPublic item.type

theorem settled_eq {others more : List EbpfItem} {bytes : List UInt8}
    (reached : Reached items (itemBytes items) passed rest buffer)
    (other : Reached items (itemBytes items) others more bytes) :
    passed = others ∧ rest = more ∧ buffer = bytes := by
  by_cases endsEmpty : EndsEmpty items
  · rcases endsEmpty with ⟨last, isLast, empty⟩
    rcases getLast?_eq_some_iff.1 isLast with ⟨front, items_eq⟩
    subst items_eq
    rcases reached.last empty with ⟨rfl, rfl, rfl⟩
    rcases other.last empty with ⟨rfl, rfl, rfl⟩
    exact ⟨rfl, rfl, rfl⟩
  · rcases reached.all endsEmpty with ⟨rfl, rfl, rfl⟩
    rcases other.all endsEmpty with ⟨rfl, rfl, rfl⟩
    exact ⟨rfl, rfl, rfl⟩

theorem Reached.pieces_iff (reached : Reached items (itemBytes items) passed rest buffer)
    (splitter : EbpfSplitter) (start : UInt64) :
    splitter.pieces start passed = splitter.pieces start items ↔ EndsWell items := by
  by_cases endsEmpty : EndsEmpty items
  · rcases endsEmpty with ⟨last, isLast, empty⟩
    rcases getLast?_eq_some_iff.1 isLast with ⟨front, items_eq⟩
    subst items_eq
    rw [(reached.last empty).1, pieces_front_iff empty, EndsWell, getLast?_append_cons]
    simp [empty]
  · rw [(reached.all endsEmpty).1]
    simp only [true_iff]
    exact fun item isLast empty => absurd ⟨item, isLast, empty⟩ endsEmpty

/-! ## The header more than once -/

variable {final : EbpfSplitter}

theorem ebpfSplitResult_splitEbpfBodyData (split : splitter.splitEbpfBodyData = some final) :
    splitter.ebpfSplitResult <+: final.ebpfSplitResult := by
  fun_induction splitEbpfBodyData splitter with
  | case1 splitter going dataTitle short =>
    cases split
    exact prefix_rfl
  | case2 => cases split
  | case3 splitter going dataTitle enough positive ih =>
    refine List.IsPrefix.trans ?_ (ih split)
    unfold splitItem
    dsimp only
    split_ifs
    · exact prefix_append _ _
    · exact prefix_rfl
  | case4 splitter ends =>
    cases split
    exact prefix_rfl

theorem ebpfSplitResult_splitBody (split : splitter.splitBody = some final) :
    splitter.ebpfSplitResult <+: final.ebpfSplitResult := by
  rw [splitBody, map_eq_some_iff] at split
  rcases split with ⟨body, bodySplit, rfl⟩
  have grown := ebpfSplitResult_splitEbpfBodyData bodySplit
  split_ifs <;> exact grown

theorem ebpfSplitResult_add (add : splitter.addAndSplitEbpfData dequeBuffer = some final) :
    splitter.ebpfSplitResult ++ (if splitter.ebpfHeader.isNone then [.profilerHeader] else []) <+:
      final.ebpfSplitResult := by
  unfold addAndSplitEbpfData at add
  dsimp only at add
  split_ifs at add ⊢ with noHeader enough
  · refine List.IsPrefix.trans ?_ (ebpfSplitResult_splitBody add)
    unfold splitEbpfHeader
    dsimp only
    split_ifs <;> exact prefix_append _ _
  · cases add
    exact prefix_rfl
  · have grown := ebpfSplitResult_splitBody add
    rw [append_nil]
    exact grown

theorem ebpfSplitResult_addAll (adds : splitter.addAll chunks = some final) :
    splitter.ebpfSplitResult <+: final.ebpfSplitResult := by
  induction chunks generalizing splitter with
  | nil =>
    cases adds
    exact prefix_rfl
  | cons chunk chunks ih =>
    rw [addAll, foldlM_cons, bind_eq_bind, bind_eq_some_iff] at adds
    rcases adds with ⟨next, add, others⟩
    exact (prefix_append _ _).trans ((ebpfSplitResult_add add).trans (ih others))

theorem not_splitsAlike_of_short (fresh : splitter.Fresh)
    (whole : chunk ++ chunks.flatten = body.bytes)
    (short : chunk.length < EbpfDataHeader.ebpfDataHeaderSize) :
    ¬ splitter.SplitsAlike body (chunk :: chunks) := by
  rintro ⟨final, _, adds, _, _, _, results⟩
  have first := addAndSplitEbpfData_short fresh.ebpfHeader
    (by rwa [fresh.ebpfBuffer, nil_append] :
      (splitter.ebpfBuffer ++ chunk).length < EbpfDataHeader.ebpfDataHeaderSize)
  cases chunks with
  | nil =>
    have long := congrArg List.length whole
    rw [EbpfBody.bytes, length_append, length_append, body.header_length] at long
    simp only [flatten_nil, length_nil] at long
    omega
  | cons next chunks =>
    rw [addAll, foldlM_cons, bind_eq_bind, first, bind_some, foldlM_cons, bind_eq_bind,
      bind_eq_some_iff] at adds
    rcases adds with ⟨second, add, others⟩
    have twice := (ebpfSplitResult_add add).trans (ebpfSplitResult_addAll others)
    simp [fresh.ebpfSplitResult, fresh.ebpfHeader, results] at twice

/--
What is collected of a body does not depend on the pieces exactly when the first
one has the whole header and the last item is not a public one without data, if
the lengths of the items with their titles fit in 32 bits.
-/
theorem splitsAlike_iff (splitter : EbpfSplitter) (body : EbpfBody)
    (chunks : List (List UInt8)) (fresh : splitter.Fresh) (announces : splitter.Announces body)
    (nonempty : ∀ chunk ∈ chunks, chunk ≠ []) (whole : chunks.flatten = body.bytes) :
    (splitter.SplitsAlike body chunks → FirstHasHeader chunks) ∧
      ((∀ item ∈ body.items, item.Fits) → (splitter.SplitsAlike body chunks ↔
        FirstHasHeader chunks ∧ EndsWell body.items)) := by
  have hasBytes : body.bytes.length ≠ 0 :=
    ne_of_gt (lt_of_lt_of_le (by decide) body.header_le_bytes)
  cases chunks with
  | nil => exact absurd (congrArg List.length whole).symm hasBytes
  | cons chunk chunks =>
    rw [flatten_cons] at whole
    have needsHeader : splitter.SplitsAlike body (chunk :: chunks) →
      FirstHasHeader (chunk :: chunks) := by
      rintro alike _ ⟨⟩
      by_contra short
      exact not_splitsAlike_of_short fresh whole (not_le.1 short) alike
    refine ⟨needsHeader, fun fits => ?_⟩
    suffices enough : FirstHasHeader (chunk :: chunks) →
      (splitter.SplitsAlike body (chunk :: chunks) ↔ EndsWell body.items) by
      constructor
      · exact fun alike => ⟨needsHeader alike, (enough (needsHeader alike)).1 alike⟩
      · exact fun both => (enough both.1).2 both.2
    intro first
    rcases exists_addAll fits fresh announces
      (fun other member => nonempty other (mem_cons_of_mem _ member))
      whole (first chunk rfl) with
      ⟨passed, rest, buffer, calls, reached⟩
    have noMore : ∀ other ∈ ([] : List (List UInt8)), other ≠ [] := by rintro _ ⟨⟩
    have atOnce : body.bytes ++ ([] : List (List UInt8)).flatten = body.bytes := append_nil _
    rcases exists_addAll fits fresh announces noMore atOnce body.header_le_bytes with
      ⟨others, more, bytes, call, other⟩
    rcases settled_eq reached other with ⟨rfl, rfl, rfl⟩
    have results := ebpfSplitResult_settled splitter body passed rest buffer
    rw [← reached.pieces_iff splitter 1024]
    constructor
    · rintro ⟨final, _, adds, _, _, _, wanted⟩
      rw [calls] at adds
      cases adds
      rw [results] at wanted
      simpa using wanted
    · intro wanted
      refine ⟨_, _, calls, call, rfl, rfl, ?_⟩
      rw [results, wanted]

def plainHeader : List UInt8 :=
  littleEndianBytes 8 EbpfDataHeader.headerMagic ++
    littleEndianBytes 4 EbpfDataHeader.ebpfDataHeaderSize ++ replicate 1012 0

theorem length_plainHeader : plainHeader.length = EbpfDataHeader.ebpfDataHeaderSize := by
  rw [plainHeader, length_append, length_append,
    length_littleEndianBytes, length_littleEndianBytes, length_replicate]
  rfl

def stringItem : EbpfItem where
  type := itemEventStr
  data := [97, 98, 99]
  data_length := by decide
  fixed := by rintro _ ⟨⟩

def stringBody : EbpfBody where
  header := plainHeader
  items := [stringItem]
  header_length := length_plainHeader
  magic := by decide
  headSize := by decide

def waiting (bodyLength : UInt64) : EbpfSplitter where
  splittedLen := 0
  usefulDataLen := 0
  ebpfBuffer := []
  offsetOfEbpfDataInFile := 0
  splitFileMinTs := 0
  splitFileMaxTs := 0
  ebpfSplitResult := []
  ebpfHeader := none
  length := 1024 + bodyLength

theorem waiting_fresh (bodyLength : UInt64) : (waiting bodyLength).Fresh :=
  ⟨rfl, rfl, rfl, rfl, rfl⟩

theorem waiting_announces : (waiting 1035).Announces stringBody := by
  have bytes : stringBody.bytes.length = 1035 := by
    rw [EbpfBody.bytes, length_append, stringBody.header_length]
    rfl
  rw [Announces, bytes]
  rfl

/-- The item is cut in its title. -/
theorem splitsAlike_stringBody : (waiting 1035).SplitsAlike stringBody
    [plainHeader ++ [5, 0, 0], [0, 3, 0, 0, 0, 97, 98, 99]] := by
  refine ((splitsAlike_iff (waiting 1035) stringBody _ (waiting_fresh 1035)
    waiting_announces ?_ ?_).2 ?_).2 ⟨?_, ?_⟩
  · simp
  · simp only [EbpfBody.bytes, stringBody, flatten_cons, flatten_nil, append_nil, append_assoc]
    rfl
  · rintro item member
    rw [mem_singleton.1 member]
    exact (by decide : 11 < 2 ^ 32)
  · rintro chunk ⟨⟩
    rw [length_append, length_plainHeader]
    exact Nat.le_add_right _ _
  · rintro item ⟨⟩ empty
    cases empty

/-- The header is cut behind its first byte, and that of the section is queued
twice. -/
theorem not_splitsAlike_stringBody : (waiting 1035).Fresh ∧ (waiting 1035).Announces stringBody ∧
    [stringBody.bytes.take 1, stringBody.bytes.drop 1].flatten = stringBody.bytes ∧
      ¬ (waiting 1035).SplitsAlike stringBody
        [stringBody.bytes.take 1, stringBody.bytes.drop 1] := by
  have whole : stringBody.bytes.take 1 ++ [stringBody.bytes.drop 1].flatten = stringBody.bytes := by
    rw [flatten_cons, flatten_nil, append_nil, take_append_drop]
  have short : (stringBody.bytes.take 1).length < EbpfDataHeader.ebpfDataHeaderSize := by
    rw [length_take]
    exact lt_of_le_of_lt (min_le_left _ _) (by decide)
  exact ⟨waiting_fresh 1035, waiting_announces, whole,
    not_splitsAlike_of_short (waiting_fresh 1035) whole short⟩

end EbpfSplitter

end SysAnalyzer.Parser
