import SysAnalyzer.Parser.EbpfDataReader

/-!
# Which symbol items are read inside their bounds

The check of the lengths says nothing of the size of an entry, which is the
divisor and need not be the stride, or of the offsets of the kernel's names.
-/

namespace SysAnalyzer.Parser

open Foundation List

/-- No division by zero, and entries and names start inside the item. -/
def SymbolAccess.Safe (item : ByteRange) : SymbolAccess → Prop
  | .division divisor => divisor ≠ 0
  | .entry place => item.start ≤ place ∧ place < item.stop
  | .name place => item.start ≤ place ∧ place < item.stop

def SafeIn (bufferSize : Nat) (access : ByteRange × SymbolAccess) : Prop :=
  access.2.Safe access.1 ∧ access.1.stop ≤ bufferSize

namespace SymbolTables

def ReadSafely (tables : SymbolTables) (bufferSize : Nat) : Prop :=
  ∀ access ∈ tables.accesses, SafeIn bufferSize access

variable {buffer : List UInt8} {format : SymbolFormat} {item : ByteRange}
  {elfAddr bufferSize : Nat} {tables : SymbolTables}

theorem accesses_addSymbol (symAddr : Nat) :
    (addSymbol buffer format elfAddr item tables symAddr).accesses =
      tables.accesses ++ [(item, .entry symAddr)] := by
  unfold addSymbol
  dsimp only
  split <;> rfl

theorem accesses_addKernelSymbol (strTab i : Nat) :
    (addKernelSymbol buffer elfAddr strTab item tables i).accesses =
      tables.accesses ++ [(item, .entry (kernelSymItemAddr elfAddr i)),
        (item, .name (strTab + kernelNameOffset buffer elfAddr i))] := by
  have both : ((tables.recorded item (.entry (kernelSymItemAddr elfAddr i))).recorded
    item (.name (strTab + kernelNameOffset buffer elfAddr i))).accesses =
    tables.accesses ++ [(item, .entry (kernelSymItemAddr elfAddr i)),
      (item, .name (strTab + kernelNameOffset buffer elfAddr i))] :=
    append_assoc _ _ _
  unfold addKernelSymbol
  dsimp only
  split
  · exact both
  · exact both

theorem readSafely_foldl {Index : Type} {step : SymbolTables → Index → SymbolTables}
    {added : Index → List (ByteRange × SymbolAccess)} (each : ∀ tables index,
      (step tables index).accesses = tables.accesses ++ added index)
    (indices : List Index) (tables : SymbolTables) :
    (indices.foldl step tables).ReadSafely bufferSize ↔
      tables.ReadSafely bufferSize ∧ ∀ index ∈ indices, ∀ access ∈ added index,
        SafeIn bufferSize access := by
  induction indices generalizing tables with
  | nil => simp
  | cons index rest induction =>
    have first : (step tables index).ReadSafely bufferSize ↔ tables.ReadSafely bufferSize ∧
      ∀ access ∈ added index, SafeIn bufferSize access := by
      unfold ReadSafely
      rw [each]
      exact forall_mem_append
    rw [foldl_cons, induction, first, forall_mem_cons, and_assoc]

end SymbolTables

/--
The size of an entry is not zero, and when it is smaller than an entry of 64
bits and not that of 32 bits, the last stride starts inside the item.
-/
def ElfEventFixedHeader.EntriesInside (elf : ElfEventFixedHeader) (size : Nat) : Prop :=
  elf.symEntLen ≠ 0 ∧ (elf.symEntLen = elf32Sym.size ∨ elf64Sym.size ≤ elf.symEntLen ∨
    elf.symbolCount = 0 ∨
    elfEventFixedHeaderSize + elf.strTabLen + (elf.symbolCount - 1) * elf64Sym.size < size)

/-- The offsets of the names are smaller than what is behind the entries. -/
def KernelNamesInside (buffer : List UInt8) (elfAddr size : Nat) : Prop :=
  let count := (KernelSymbolInfoHeader.read buffer elfAddr).sysItemSize
  ∀ i < count, kernelSymbolInfoHeaderSize + count * kernelSymItemSize +
    kernelNameOffset buffer elfAddr i <
    size

/-- What an item of some type, whose tables fit, has to be like. -/
def SymbolsInside (buffer : List UInt8) (type : UInt32) (addr size : Nat) : Prop :=
  (type = itemSymbolInfo → (ElfEventFixedHeader.read buffer addr).Fits size →
    (ElfEventFixedHeader.read buffer addr).EntriesInside size) ∧
    (type = itemEventKenelSymbolInfo → (KernelSymbolInfoHeader.read buffer addr).Fits size →
      KernelNamesInside buffer addr size)

section Item

variable {buffer : List UInt8} {elfAddr size bufferSize : Nat}

theorem symbolCount_le (elf : ElfEventFixedHeader) :
    elf.symbolCount ≤ elf.symTabLen / elf.symEntLen := by
  unfold ElfEventFixedHeader.symbolCount intBound
  split
  · exact le_rfl
  · exact Nat.zero_le _

variable {elf : ElfEventFixedHeader}

theorem index_mul_lt {i stride : Nat} (positive : 0 < stride)
    (small : stride ≤ elf.symEntLen) (index : i < elf.symbolCount) :
    i * stride < elf.symTabLen := by
  have below := symbolCount_le elf
  calc
    i * stride < elf.symTabLen / elf.symEntLen * stride :=
      Nat.mul_lt_mul_of_pos_right (by omega) positive
    _ ≤ elf.symTabLen / elf.symEntLen * elf.symEntLen := Nat.mul_le_mul_left _ small
    _ ≤ elf.symTabLen := Nat.div_mul_le_self _ _

theorem entriesInside_iff (fits : elf.Fits size) (divides : elf.symEntLen ≠ 0) :
    elf.EntriesInside size ↔ ∀ i < elf.symbolCount,
      elfEventFixedHeaderSize + elf.strTabLen + i * elf.format.size < size := by
  unfold ElfEventFixedHeader.Fits at fits
  unfold ElfEventFixedHeader.EntriesInside
  by_cases short : elf.symEntLen = elf32Sym.size
  · have format : elf.format.size = elf32Sym.size := by
      rw [ElfEventFixedHeader.format, if_pos short]
    refine iff_of_true ⟨divides, Or.inl short⟩ ?_
    intro i index
    have inside := index_mul_lt (by decide) (le_of_eq short.symm) index
    rw [format]
    omega
  · have format : elf.format.size = elf64Sym.size := by
      rw [ElfEventFixedHeader.format, if_neg short]
    rw [format]
    by_cases long : elf64Sym.size ≤ elf.symEntLen
    · refine iff_of_true ⟨divides, Or.inr (Or.inl long)⟩ ?_
      intro i index
      have inside := index_mul_lt (by decide) long index
      omega
    · constructor
      · rintro ⟨-, isShort | isLong | none | last⟩ i index
        · exact absurd isShort short
        · exact absurd isLong long
        · omega
        · refine lt_of_le_of_lt ?_ last
          exact Nat.add_le_add_left (Nat.mul_le_mul_right _ (by omega)) _
      · intro inside
        refine ⟨divides, Or.inr (Or.inr ?_)⟩
        rcases Nat.eq_zero_or_pos elf.symbolCount with none | some
        · exact Or.inl none
        · exact Or.inr (inside (elf.symbolCount - 1) (by omega))

theorem readSafely_updateElfAddrAndStValueToSymAddrMap
    (tables : SymbolTables) (inBuffer : elfAddr + size ≤ bufferSize) :
    (updateElfAddrAndStValueToSymAddrMap buffer elfAddr size tables).1.ReadSafely bufferSize ↔
      tables.ReadSafely bufferSize ∧ ((ElfEventFixedHeader.read buffer elfAddr).Fits size →
        (ElfEventFixedHeader.read buffer elfAddr).EntriesInside size) := by
  unfold updateElfAddrAndStValueToSymAddrMap
  dsimp only
  generalize ElfEventFixedHeader.read buffer elfAddr = elf
  by_cases fits : elf.Fits size
  · have divided : (tables.recorded ⟨elfAddr, elfAddr + size⟩
      (.division elf.symEntLen)).ReadSafely bufferSize ↔
        tables.ReadSafely bufferSize ∧ elf.symEntLen ≠ 0 := by
      simp only [SymbolTables.ReadSafely, SymbolTables.recorded,
        forall_mem_append, forall_mem_singleton, SafeIn,
        SymbolAccess.Safe, inBuffer, and_true]
    rw [if_pos fits]
    by_cases zero : elf.symEntLen = 0
    · rw [if_pos zero, divided]
      simp [fits, zero, ElfEventFixedHeader.EntriesInside]
    · rw [if_neg zero, SymbolTables.addSymbolsToTable, SymbolTables.readSafely_foldl
        (fun _ => SymbolTables.accesses_addSymbol),
        divided, and_assoc]
      refine and_congr_right fun _ => ?_
      rw [forall_prop_of_true fits, entriesInside_iff fits zero]
      simp only [mem_map, mem_range, forall_mem_singleton,
        forall_exists_index, and_imp, forall_apply_eq_imp_iff₂, SafeIn,
        SymbolAccess.Safe, inBuffer, and_true, ne_eq, zero,
        not_false_eq_true, true_and]
      refine forall₂_congr fun i _ => ?_
      omega
  · rw [if_neg fits]
    simp [fits]

theorem readSafely_readKernelSymAddrMap
    (tables : SymbolTables) (inBuffer : elfAddr + size ≤ bufferSize) :
    (readKernelSymAddrMap buffer elfAddr size tables).ReadSafely bufferSize ↔
      tables.ReadSafely bufferSize ∧ ((KernelSymbolInfoHeader.read buffer elfAddr).Fits size →
        KernelNamesInside buffer elfAddr size) := by
  unfold readKernelSymAddrMap KernelNamesInside
  dsimp only
  generalize KernelSymbolInfoHeader.read buffer elfAddr = elf
  by_cases fits : elf.Fits size
  · have room : elf.sysItemSize * kernelSymItemSize ≤ elf.symTabLen :=
      Nat.div_mul_le_self _ _
    have announced := fits
    unfold KernelSymbolInfoHeader.Fits at announced
    rw [if_pos fits, SymbolTables.readSafely_foldl
      (fun _ => SymbolTables.accesses_addKernelSymbol _)]
    refine and_congr_right fun _ => ?_
    rw [forall_prop_of_true fits]
    simp only [mem_range, forall_mem_cons, not_mem_nil,
      false_imp_iff, implies_true, and_true, SafeIn, SymbolAccess.Safe,
      inBuffer, kernelSymItemAddr]
    refine forall₂_congr fun i index => ?_
    have entry : i * kernelSymItemSize < elf.sysItemSize * kernelSymItemSize :=
      Nat.mul_lt_mul_of_pos_right index (by decide)
    omega
  · rw [if_neg fits]
    simp [fits]

end Item

/-! ## The loop -/

namespace EbpfDataReader

def ReadsSafely (reader : EbpfDataReader) : Prop := reader.tables.ReadSafely reader.buffer.length

/-- The item that a turn of the loop reads, if it reads one, is safe. -/
def HeadInside (reader : EbpfDataReader) : Prop :=
  let title := reader.titleAt reader.startAddr
  ebpfTitleSize.toNat < reader.unresolvedLen →
    title.length.toNat ≤ reader.unresolvedLen - ebpfTitleSize.toNat →
      SymbolsInside reader.buffer title.type
        (reader.startAddr + ebpfTitleSize.toNat) title.length.toNat

def Reaches : EbpfDataReader → EbpfDataReader → Prop :=
  Relation.ReflTransGen fun reader next => reader.turn = .next next

/-- The bytes that are left are those from the place on. -/
def Aligned (reader : EbpfDataReader) : Prop :=
  reader.startAddr + reader.unresolvedLen = reader.buffer.length

variable {reader : EbpfDataReader}

@[simp]
theorem tables_updateElfPathIndexToElfAddrMap (elfAddr size : Nat) :
    (reader.updateElfPathIndexToElfAddrMap elfAddr size).tables = reader.tables := by
  unfold updateElfPathIndexToElfAddrMap
  dsimp only
  split <;> rfl

section

variable {elfAddr size bufferSize : Nat}
  (inBuffer : elfAddr + size ≤ bufferSize)
include inBuffer

theorem readSafely_readItemSymbolInfo :
    (reader.readItemSymbolInfo elfAddr size).1.tables.ReadSafely bufferSize ↔
      reader.tables.ReadSafely bufferSize ∧
        ((ElfEventFixedHeader.read reader.buffer elfAddr).Fits size →
          (ElfEventFixedHeader.read reader.buffer elfAddr).EntriesInside size) := by
  unfold readItemSymbolInfo
  dsimp only
  split
  · rename_i short
    refine (and_iff_left ?_).symm
    intro fits
    unfold ElfEventFixedHeader.Fits at fits
    omega
  · rw [← readSafely_updateElfAddrAndStValueToSymAddrMap _ inBuffer]
    split
    · rw [tables_updateElfPathIndexToElfAddrMap]
    · rfl

theorem readSafely_reaItemKernelSymbolInfo :
    (reader.reaItemKernelSymbolInfo elfAddr size).1.tables.ReadSafely bufferSize ↔
      reader.tables.ReadSafely bufferSize ∧
        ((KernelSymbolInfoHeader.read reader.buffer elfAddr).Fits size →
          KernelNamesInside reader.buffer elfAddr size) := by
  unfold reaItemKernelSymbolInfo
  split
  · rename_i short
    refine (and_iff_left ?_).symm
    intro fits
    unfold KernelSymbolInfoHeader.Fits at fits
    omega
  · exact readSafely_readKernelSymAddrMap _ inBuffer

end

theorem tables_readItem {type : UInt32} (size : Nat) (noElf : type ≠ itemSymbolInfo)
    (noKernel : type ≠ itemEventKenelSymbolInfo) :
    (reader.readItem type size).1.tables = reader.tables := by
  unfold readItem
  rw [if_neg noElf, if_neg noKernel]
  split_ifs
  · rfl
  · rfl
  · rfl
  · rfl
  · unfold readItemEventStr
    dsimp only
    split_ifs <;> rfl
  · rfl

theorem readsSafely_readItem (reader : EbpfDataReader) {size : Nat} (type : UInt32)
    (inBuffer : reader.startAddr + size ≤ reader.buffer.length) :
    (reader.readItem type size).1.ReadsSafely ↔ reader.ReadsSafely ∧
      SymbolsInside reader.buffer type reader.startAddr size := by
  have length := (staysBehind_readItem reader size type).length
  unfold ReadsSafely
  rw [length]
  by_cases elf : type = itemSymbolInfo
  · have noKernel : type ≠ itemEventKenelSymbolInfo := by
      rw [elf]
      decide
    have read : reader.readItem type size = reader.readItemSymbolInfo reader.startAddr size := by
      rw [elf]
      rfl
    rw [read, readSafely_readItemSymbolInfo inBuffer, SymbolsInside,
      forall_prop_of_true elf, forall_prop_of_false noKernel, and_true]
  · by_cases kernel : type = itemEventKenelSymbolInfo
    · have read : reader.readItem type size =
        reader.reaItemKernelSymbolInfo reader.startAddr size := by
        rw [kernel]
        rfl
      rw [read, readSafely_reaItemKernelSymbolInfo inBuffer, SymbolsInside,
        forall_prop_of_true kernel, forall_prop_of_false elf, true_and]
    · rw [tables_readItem size elf kernel]
      simp [SymbolsInside, elf, kernel]

theorem titleAt_of_staysBehind {after : EbpfDataReader} {dataTitle : Nat}
    (stays : StaysBehind reader after)
    (front : dataTitle + ebpfTitleSize.toNat ≤ reader.startAddr) :
    after.titleAt dataTitle = reader.titleAt dataTitle := by
  have part (start count : Nat) (inside : start + count ≤ reader.startAddr) :
    (after.buffer.drop start).take count = (reader.buffer.drop start).take count := by
    have same := congrArg (fun bytes => (bytes.take (start + count)).drop start) stays.front
    simp only [take_take, min_eq_left inside] at same
    rw [take_drop, take_drop]
    exact same
  have size : ebpfTitleSize.toNat = 8 := rfl
  unfold titleAt readTitle
  rw [part dataTitle 4 (by omega), drop_drop, drop_drop, part (dataTitle + 4) 4 (by omega)]

theorem symbolsInside_empty (buffer : List UInt8) (type : UInt32)
    (addr : Nat) : SymbolsInside buffer type addr 0 := by
  constructor
  · intro _ fits
    exact absurd fits (by
      simp [ElfEventFixedHeader.Fits, elfEventFixedHeaderSize])
  · intro _ fits
    exact absurd fits (by
      simp [KernelSymbolInfoHeader.Fits, kernelSymbolInfoHeaderSize])

def Turn.last : Turn → EbpfDataReader
  | .next after => after
  | .stop outcome => outcome.1

theorem readsSafely_turn (aligned : reader.Aligned) :
    reader.turn.last.ReadsSafely ↔ reader.ReadsSafely ∧ reader.HeadInside := by
  unfold Aligned at aligned
  unfold turn HeadInside
  dsimp only
  generalize reader.titleAt reader.startAddr = title
  split
  · refine (and_iff_left ?_).symm
    omega
  · rename_i more
    rw [forall_prop_of_true (by omega)]
    split
    · rename_i long
      refine (and_iff_left ?_).symm
      intro short
      simp only [advance] at long
      omega
    · rename_i short
      simp only [advance, not_lt] at short
      rw [forall_prop_of_true short]
      split
      · rename_i empty
        rw [empty]
        exact (and_iff_left (symbolsInside_empty _ _ _)).symm
      · have inBuffer : (reader.advance ebpfTitleSize.toNat).startAddr + title.length.toNat ≤
          (reader.advance ebpfTitleSize.toNat).buffer.length := by
          simp only [advance]
          omega
        have read := readsSafely_readItem _ title.type inBuffer
        split
        · exact read
        · exact read

theorem aligned_of_next {next : EbpfDataReader} (aligned : reader.Aligned)
    (more : reader.turn = .next next) : next.Aligned := by
  unfold Aligned at aligned ⊢
  unfold turn at more
  dsimp only at more
  split at more
  · cases more
  · rename_i left
    split at more
    · cases more
    · rename_i short
      simp only [advance, not_lt] at short
      split at more
      · injection more with more
        rw [← more]
        simp only [advance]
        omega
      · split at more
        · injection more with more
          have stays := staysBehind_readItem (reader.advance ebpfTitleSize.toNat)
            (reader.titleAt reader.startAddr).length.toNat
            (reader.titleAt reader.startAddr).type
          have title := titleAt_of_staysBehind stays (le_refl _)
          rw [← more, advance]
          dsimp only
          rw [title, stays.startAddr, stays.unresolvedLen, stays.length]
          have same : (reader.advance ebpfTitleSize.toNat).titleAt reader.startAddr =
            reader.titleAt reader.startAddr := rfl
          rw [same]
          simp only [advance]
          omega
        · cases more

theorem reaches_iff_of_stop {outcome : Outcome} {later : EbpfDataReader}
    (ends : reader.turn = .stop outcome) : Reaches reader later ↔ later = reader := by
  constructor
  · intro reached
    rcases reached.cases_head with same | ⟨next, more, -⟩
    · exact same.symm
    · rw [ends] at more
      cases more
  · rintro rfl
    exact Relation.ReflTransGen.refl

theorem reaches_iff_of_next {next later : EbpfDataReader} (more : reader.turn = .next next) :
    Reaches reader later ↔ later = reader ∨ Reaches next later := by
  constructor
  · intro reached
    rcases reached.cases_head with same | ⟨other, also, rest⟩
    · exact Or.inl same.symm
    · rw [more] at also
      cases also
      exact Or.inr rest
  · rintro (rfl | rest)
    · exact Relation.ReflTransGen.refl
    · exact Relation.ReflTransGen.head more rest

theorem readsSafely_readEbpfData (reader : EbpfDataReader) (aligned : reader.Aligned) :
    reader.readEbpfData.1.ReadsSafely ↔
      reader.ReadsSafely ∧ ∀ later, Reaches reader later → later.HeadInside := by
  have once := readsSafely_turn aligned
  cases found : reader.turn with
  | stop outcome =>
    rw [readEbpfData_of_stop found]
    rw [found] at once
    simp only [reaches_iff_of_stop found, forall_eq]
    exact once
  | next next =>
    rw [readEbpfData_of_next found, readsSafely_readEbpfData next (aligned_of_next aligned found)]
    rw [found] at once
    have front : next.ReadsSafely ↔ reader.ReadsSafely ∧ reader.HeadInside := once
    simp only [reaches_iff_of_next found, forall_eq_or_imp, front, and_assoc]
termination_by reader.unresolvedLen
decreasing_by exact unresolvedLen_of_next found

/--
A body is read safely exactly when its header is refused or each item at the
head of a turn is safe: an ELF item whose tables fit has entries of a size that
is not zero and is that of 32 bits, or at least that of 64 bits, or leaves room
for the strides, and the names of a kernel item whose tables fit start in it.
-/
theorem readsSafely_initEbpfData_iff (body : List UInt8) :
    (initEbpfData body).1.ReadsSafely ↔ (HeaderAccepted body →
      ∀ reader, Reaches (behindHeader body) reader → reader.HeadInside) := by
  unfold initEbpfData
  by_cases accepted : HeaderAccepted body
  · have aligned : (behindHeader body).Aligned := by
      have long := accepted.1
      simp only [Aligned, behindHeader, initial, advance]
      omega
    rw [if_pos accepted, forall_prop_of_true accepted, readsSafely_readEbpfData _ aligned]
    refine and_iff_right ?_
    rintro _ ⟨⟩
  · rw [if_neg accepted, forall_prop_of_false accepted, iff_true]
    rintro _ ⟨⟩

theorem not_readsSafely_of_division
    (body : List UInt8) (item : ByteRange) (accepted : HeaderAccepted body)
    (ends : (behindHeader body).turn = .stop ((behindHeader body).turn.last, none))
    (divided : (behindHeader body).turn.last.tables.accesses =
      [(item, .division 0)]) : ¬ (initEbpfData body).1.ReadsSafely := by
  rw [initEbpfData, if_pos accepted, readEbpfData_of_stop ends]
  intro safe
  refine (safe (item, .division 0) ?_).1 rfl
  rw [divided]
  exact mem_singleton_self _

def zeroEntrySize : List UInt8 :=
  littleEndianBytes 8 EbpfDataHeader.headerMagic ++
    littleEndianBytes 4 EbpfDataHeader.ebpfDataHeaderSize ++
    replicate 1012 0 ++
    littleEndianBytes 4 itemSymbolInfo.toNat ++
    littleEndianBytes 4 elfEventFixedHeaderSize ++
    replicate elfEventFixedHeaderSize 0

set_option maxRecDepth 6000 in
theorem not_readsSafely_zeroEntrySize : ¬ (initEbpfData zeroEntrySize).1.ReadsSafely := by
  refine not_readsSafely_of_division zeroEntrySize ⟨1032, 1060⟩ ?_ ?_ ?_
  · decide
  · decide
  · decide

end EbpfDataReader

end SysAnalyzer.Parser
