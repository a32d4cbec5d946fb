import SysAnalyzer.Foundation.Json

/-!
# What a JSON text says

A value is read from its tokens only, so a text whose value is known has known
tokens.  A text is then taken apart from the left: what the reader has taken is
a prefix of the tokens, and a string that was copied between quotes without
escapes is read as itself exactly when it holds no quote, no backslash and no
control character.
-/

namespace SysAnalyzer.Foundation.Json

open List Option

/-- The tokens that opened a container and filled it, up to the next value. -/
def Frame.tokens : Frame → List Token
  | .array elements =>
    .openBracket :: elements.flatMap fun element => toTokens element ++ [.comma]
  | .object members =>
    .openBrace :: members.flatMap fun member =>
      .string member.1 :: .colon :: toTokens member.2 ++ [.comma]
  | .member members key =>
    (.openBrace :: members.flatMap fun member =>
      .string member.1 :: .colon :: toTokens member.2 ++ [.comma]) ++
      [.string key, .colon]

/-- The tokens that opened some containers, the innermost first. -/
def framesTokens : List Frame → List Token
  | [] => []
  | frame :: outer => framesTokens outer ++ frame.tokens

def Parser.Consumed (past : List Token) (parser : Parser) : Prop :=
  match parser.expect with
  | .value => past = framesTokens parser.frames
  | .firstElement => past = framesTokens parser.frames ∧ ∃ outer, parser.frames = .array [] :: outer
  | .key => past = framesTokens parser.frames
  | .firstKey => past = framesTokens parser.frames ∧ ∃ outer, parser.frames = .object [] :: outer
  | .colon => past ++ [.colon] = framesTokens parser.frames
  | .next value => past = framesTokens parser.frames ++ toTokens value

theorem elementTokens_concat (elements : List Json) (last : Json) :
    elementTokens (elements ++ [last]) =
      (elements.flatMap fun element => toTokens element ++ [.comma]) ++ toTokens last := by
  induction elements with
  | nil => rfl
  | cons element rest induction =>
    have split : elementTokens (element :: (rest ++ [last])) =
      toTokens element ++ .comma :: elementTokens (rest ++ [last]) := by
      cases rest <;> rfl
    rw [cons_append, split, induction]
    simp

theorem memberTokens_concat (members : List (UnitString × Json)) (last : UnitString × Json) :
    memberTokens (members ++ [last]) = (members.flatMap fun member =>
      .string member.1 :: .colon :: toTokens member.2 ++ [.comma]) ++
      .string last.1 :: .colon :: toTokens last.2 := by
  induction members with
  | nil => rfl
  | cons member rest induction =>
    have split : memberTokens (member :: (rest ++ [last])) =
      .string member.1 :: .colon :: toTokens member.2 ++
        .comma :: memberTokens (rest ++ [last]) := by
      cases rest <;> rfl
    rw [cons_append, split, induction]
    simp

namespace Parser

variable {past : List Token} {frames : List Frame} {token : Token}
  {next : Parser}

theorem consumed_begin (consumed : past = framesTokens frames)
    (begun : begin frames token = some next) : Consumed (past ++ [token]) next := by
  subst consumed
  cases token <;> cases begun
  case openBrace => exact ⟨rfl, frames, rfl⟩
  case openBracket => exact ⟨rfl, frames, rfl⟩
  case null => rfl
  case boolean => rfl
  case number => rfl
  case string => rfl

theorem consumed_beginKey (consumed : past = framesTokens frames)
    (begun : beginKey frames token = some next) : Consumed (past ++ [token]) next := by
  subst consumed
  unfold beginKey at begun
  split at begun
  · cases begun
    simp [Consumed, framesTokens, Frame.tokens]
  · cases begun

theorem consumed_continueWith
    {value : Json} (consumed : past = framesTokens frames ++ toTokens value)
    (continued : continueWith value frames token = some next) :
    Consumed (past ++ [token]) next := by
  subst consumed
  unfold continueWith at continued
  split at continued
  · cases continued
    simp [Consumed, framesTokens, Frame.tokens]
  · cases continued
    simp [Consumed, framesTokens, Frame.tokens]
  · cases continued
    simp [Consumed, framesTokens, Frame.tokens, toTokens, elementTokens_concat]
  · cases continued
    simp [Consumed, framesTokens, Frame.tokens, toTokens, memberTokens_concat]
  · cases continued

theorem consumed_step {parser : Parser} (consumed : Consumed past parser)
    (stepped : parser.step token = some next) : Consumed (past ++ [token]) next := by
  rcases parser with ⟨expect, frames⟩
  cases expect with
  | value => exact consumed_begin consumed stepped
  | firstElement =>
    rcases consumed with ⟨consumed, outer, rfl⟩
    simp only [step] at stepped
    split at stepped
    · rename_i inner same
      cases same
      cases stepped
      rw [consumed]
      simp [Consumed, framesTokens, Frame.tokens, toTokens, elementTokens]
    · exact consumed_begin consumed stepped
  | key => exact consumed_beginKey consumed stepped
  | firstKey =>
    rcases consumed with ⟨consumed, outer, rfl⟩
    simp only [step] at stepped
    split at stepped
    · rename_i inner same
      cases same
      cases stepped
      rw [consumed]
      simp [Consumed, framesTokens, Frame.tokens, toTokens, memberTokens]
    · exact consumed_beginKey consumed stepped
  | colon =>
    simp only [step] at stepped
    split at stepped
    · rename_i isColon
      cases stepped
      rw [isColon]
      exact consumed
    · cases stepped
  | next value => exact consumed_continueWith consumed stepped

end Parser

theorem value_eq_some_iff (tokens : List Token) (tree : Json) :
    value tokens = some tree ↔ tokens = toTokens tree := by
  constructor
  · intro read
    rcases bind_eq_some_iff.1 read with ⟨parser, reached, finished⟩
    have consumed : Parser.Consumed tokens parser := by
      refine runPartial_history Parser.Consumed ?_ ?_ reached
      · rfl
      · intro past token before after _ consumed stepped
        exact Parser.consumed_step consumed stepped
    rcases parser with ⟨expect, frames⟩
    unfold Parser.finish at finished
    split at finished
    · rename_i same
      cases same
      cases finished
      exact consumed
    · cases finished
  · rintro rfl
    exact value_toTokens tree

/-! ## Texts -/

namespace Reader

def Reads (reader : Reader) (text : UnitString) (all : List Token) : Prop :=
  (runPartial step reader text).bind finish = some all

variable {before all : List Token} {read text rest : UnitString}

theorem tokens_eq_some_iff : Json.tokens text = some all ↔ Reads ⟨[], .between⟩ text all := Iff.rfl

variable {reader : Reader} {unit : UInt16}

theorem reads_cons_iff {next : Reader} (stepped : reader.step unit = some next) :
    reader.Reads (unit :: rest) all ↔ next.Reads rest all := by
  simp [Reads, runPartial, stepped]

theorem not_reads_cons (refused : reader.step unit = none) : ¬ reader.Reads (unit :: rest) all := by
  simp [Reads, runPartial, refused]

theorem step_of_reads (reads : reader.Reads (unit :: rest) all) :
    ∃ next, reader.step unit = some next ∧ next.Reads rest all := by
  cases stepped : reader.step unit with
  | none => exact absurd reads (not_reads_cons stepped)
  | some next => exact ⟨next, rfl, (reads_cons_iff stepped).1 reads⟩

/-- The string that is being read, as far as it has been read. -/
def content? (reader : Reader) : Option UnitString :=
  match reader.place with
  | .between => none
  | .word _ => none
  | .string read => some read
  | .escape read => some read
  | .unicode read _ => some read

/-- The tokens begin with those read, and with the string that is being read. -/
def Announces (reader : Reader) (all : List Token) : Prop :=
  match reader.content? with
  | none => reader.tokens <+: all
  | some read => ∃ more, reader.tokens ++ [.string (read ++ more)] <+: all

theorem prefix_of_announces (announced : reader.Announces all) : reader.tokens <+: all := by
  unfold Announces at announced
  split at announced
  · exact announced
  · rcases announced with ⟨more, announced⟩
    exact (prefix_append _ _).trans announced

theorem prefix_between {next : Reader}
    (stepped : between before unit = some next) : before <+: next.tokens := by
  unfold between at stepped
  split_ifs at stepped
  · cases stepped
    exact prefix_rfl
  · cases stepped
    exact prefix_rfl
  · cases stepped
    exact prefix_rfl
  · rcases map_eq_some_iff.1 stepped with ⟨token, -, rfl⟩
    exact prefix_append _ _

theorem prefix_of_step {next : Reader} (outside : reader.content? = none)
    (stepped : reader.step unit = some next) : reader.tokens <+: next.tokens := by
  rcases reader with ⟨tokens, place⟩
  cases place with
  | between => exact prefix_between stepped
  | word read =>
    simp only [step] at stepped
    split at stepped
    · cases stepped
      exact prefix_rfl
    · rcases bind_eq_some_iff.1 stepped with ⟨token, -, later⟩
      exact (prefix_append _ _).trans (prefix_between later)
  | string read => cases outside
  | escape read => cases outside
  | unicode read digits => cases outside

theorem step_inside {next : Reader} (inside : reader.content? = some read)
    (stepped : reader.step unit = some next) :
    (unit = 0x22 ∧ next = ⟨reader.tokens ++ [.string read], .between⟩) ∨
      (next.tokens = reader.tokens ∧ (next.content? = some read ∧ unit ≠ 0x22 ∨
        ∃ taken, next.content? = some (read ++ [taken]) ∧ (unit = 0x22 → taken = 0x22))) := by
  rcases reader with ⟨tokens, place⟩
  cases place with
  | between => cases inside
  | word word => cases inside
  | string string =>
    cases inside
    simp only [step] at stepped
    split_ifs at stepped with quote control slash
    · cases stepped
      exact Or.inl ⟨quote, rfl⟩
    · cases stepped
      exact Or.inr ⟨rfl, Or.inl ⟨rfl, quote⟩⟩
    · cases stepped
      exact Or.inr ⟨rfl, Or.inr ⟨unit, rfl, id⟩⟩
  | escape string =>
    cases inside
    simp only [step] at stepped
    split_ifs at stepped with unicode
    · cases stepped
      refine Or.inr ⟨rfl, Or.inl ⟨rfl, ?_⟩⟩
      rw [unicode]
      decide
    · rcases map_eq_some_iff.1 stepped with ⟨taken, escaped, rfl⟩
      refine Or.inr ⟨rfl, Or.inr ⟨taken, rfl, ?_⟩⟩
      rintro rfl
      exact (some.inj escaped).symm
  | unicode string digits =>
    cases inside
    rcases map_eq_some_iff.1 stepped with ⟨digit, isDigit, rfl⟩
    have noQuote : unit ≠ 0x22 := by
      rintro rfl
      cases isDigit
    split_ifs
    · exact Or.inr ⟨rfl, Or.inr ⟨_, rfl, fun quote => absurd quote noQuote⟩⟩
    · exact Or.inr ⟨rfl, Or.inl ⟨rfl, noQuote⟩⟩

theorem announces_of_reads (reads : reader.Reads text all) : reader.Announces all := by
  induction text generalizing reader with
  | nil =>
    rcases reader with ⟨tokens, place⟩
    cases place with
    | between =>
      cases reads
      exact prefix_rfl
    | word read =>
      rcases map_eq_some_iff.1 reads with ⟨token, -, rfl⟩
      exact prefix_append _ _
    | string read => cases reads
    | escape read => cases reads
    | unicode read digits => cases reads
  | cons unit rest induction =>
    rcases step_of_reads reads with ⟨next, stepped, later⟩
    have announced := induction later
    have longer := prefix_of_announces announced
    unfold Announces
    cases inside : reader.content? with
    | none => exact (prefix_of_step inside stepped).trans longer
    | some read =>
      rcases step_inside inside stepped with
        ⟨-, closed⟩ | ⟨same, ⟨content, -⟩ | ⟨taken, content, -⟩⟩
      · rw [closed] at longer
        exact ⟨[], by simpa using longer⟩
      · unfold Announces at announced
        rw [content, same] at announced
        exact announced
      · unfold Announces at announced
        rw [content, same] at announced
        rcases announced with ⟨more, announced⟩
        exact ⟨taken :: more, by simpa using announced⟩

theorem string_unique {first second : UnitString} (one : before ++ [.string first] <+: all)
    (other : before ++ [.string second] <+: all) : first = second := by
  rcases one with ⟨rest, rfl⟩
  rw [append_assoc, prefix_append_right_inj] at other
  simpa using (cons_prefix_cons.1 other).1.symm

/--
A reader that has taken less into a string than it has passed, `lag` being what
is missing, never catches up with the text: each unit gives at most one, and the
missing ones hold no quote that an escaped quote could stand for.
-/
theorem not_prefix_of_lag (lag : UnitString)
    (inside : reader.content? = some read) (behind : lag ≠ []) (noQuote : 0x22 ∉ lag)
    (reads : reader.Reads (text ++ 0x22 :: rest) all) :
    ¬ reader.tokens ++ [.string (read ++ (lag ++ text))] <+: all := by
  intro expected
  induction text generalizing reader read lag with
  | nil =>
    rcases step_of_reads reads with ⟨next, stepped, later⟩
    have announced := announces_of_reads later
    rcases step_inside inside stepped with
      ⟨-, closed⟩ | ⟨same, ⟨-, other⟩ | ⟨taken, content, quote⟩⟩
    · have closing := prefix_of_announces announced
      rw [closed] at closing
      have equal := string_unique closing expected
      simp [behind] at equal
    · exact other rfl
    · unfold Announces at announced
      rw [content, same] at announced
      rcases announced with ⟨more, announced⟩
      have equal := string_unique announced expected
      apply noQuote
      rw [append_nil, append_assoc, append_cancel_left_eq]
        at equal
      rw [← equal, quote rfl]
      simp
  | cons unit text induction =>
    rcases step_of_reads reads with ⟨next, stepped, later⟩
    have announced := announces_of_reads later
    rcases step_inside inside stepped with
      ⟨-, closed⟩ | ⟨same, ⟨content, other⟩ | ⟨taken, content, quote⟩⟩
    · have closing := prefix_of_announces announced
      rw [closed] at closing
      have equal := string_unique closing expected
      simp at equal
    · refine induction (lag ++ [unit]) content (by simp) ?_ later ?_
      · simpa [noQuote] using Ne.symm other
      · rw [same]
        simpa using expected
    · unfold Announces at announced
      rw [content, same] at announced
      rcases announced with ⟨more, announced⟩
      have equal := string_unique announced expected
      rw [append_assoc, append_cancel_left_eq] at equal
      cases lag with
      | nil => exact behind rfl
      | cons first lag =>
        rw [singleton_append, cons_append, List.cons.injEq] at equal
        have other : unit ≠ 0x22 := by
          intro isQuote
          apply noQuote
          rw [← equal.1, quote isQuote]
          simp
        refine induction (lag ++ [unit]) content (by simp) ?_ later ?_
        · have noLater : 0x22 ∉ lag :=
            fun member => noQuote (mem_cons_of_mem _ member)
          simpa [noLater] using Ne.symm other
        · rw [same, equal.1]
          simpa using expected

theorem reads_string_iff (expected : before ++ [.string (read ++ text)] <+: all) :
    Reads ⟨before, .string read⟩ (text ++ 0x22 :: rest) all ↔ (∀ unit ∈ text, Plain unit) ∧
      Reads ⟨before ++ [.string (read ++ text)], .between⟩ rest all := by
  induction text generalizing read with
  | nil =>
    have closed : step ⟨before, .string read⟩ 0x22 =
      some ⟨before ++ [.string read], .between⟩ := rfl
    simpa using reads_cons_iff closed
  | cons unit text induction =>
    by_cases plain : Plain unit
    · rw [cons_append, reads_cons_iff (step_string_plain before read plain)]
      have later : before ++ [.string ((read ++ [unit]) ++ text)] <+: all := by simpa using expected
      rw [induction later]
      simp [plain]
    · refine iff_of_false ?_ (fun both => plain (both.1 unit (by simp)))
      intro reads
      rcases step_of_reads reads with ⟨next, stepped, later⟩
      by_cases quote : unit = 0x22
      · subst quote
        cases stepped
        have closing := prefix_of_announces (announces_of_reads later)
        have equal := string_unique closing expected
        simp at equal
      · by_cases slash : unit = 0x5C
        · subst slash
          cases stepped
          exact not_prefix_of_lag [0x5C] rfl (by simp) (by decide) later (by simpa using expected)
        · have control : unit < 0x20 := by
            by_contra printable
            exact plain ⟨quote, slash, printable⟩
          simp [step, quote, control] at stepped

theorem reads_quoted_iff (expected : before ++ [.string text] <+: all) :
    Reads ⟨before, .between⟩ (0x22 :: (text ++ 0x22 :: rest)) all ↔ (∀ unit ∈ text, Plain unit) ∧
      Reads ⟨before ++ [.string text], .between⟩ rest all := by
  have opened : step ⟨before, .between⟩ 0x22 = some ⟨before, .string []⟩ := rfl
  rw [reads_cons_iff opened]
  exact reads_string_iff expected

theorem mark_facts {token : Token} (isMark : mark unit = some token) :
    isWordUnit unit = false ∧ Plain unit ∧ ∀ tokens, between tokens unit =
      some ⟨tokens ++ [token], .between⟩ := by
  unfold mark at isMark
  split_ifs at isMark with brace endBrace bracket endBracket colon comma
  · cases isMark
    rw [brace]
    exact ⟨rfl, by unfold Plain; decide, fun _ => rfl⟩
  · cases isMark
    rw [endBrace]
    exact ⟨rfl, by unfold Plain; decide, fun _ => rfl⟩
  · cases isMark
    rw [bracket]
    exact ⟨rfl, by unfold Plain; decide, fun _ => rfl⟩
  · cases isMark
    rw [endBracket]
    exact ⟨rfl, by unfold Plain; decide, fun _ => rfl⟩
  · cases isMark
    rw [colon]
    exact ⟨rfl, by unfold Plain; decide, fun _ => rfl⟩
  · cases isMark
    rw [comma]
    exact ⟨rfl, by unfold Plain; decide, fun _ => rfl⟩

theorem reads_mark_iff {token : Token} (isMark : mark unit = some token) :
    Reads ⟨before, .between⟩ (unit :: rest) all ↔ Reads ⟨before ++ [token], .between⟩ rest all :=
  reads_cons_iff ((mark_facts isMark).2.2 before)

theorem reads_word_iff {word : UnitString} {token : Token}
    (units : ∀ unit ∈ word, isWordUnit unit = true)
    (meaning : wordToken word = some token) (nonempty : word ≠ [])
    (ends : isWordUnit unit = false) : Reads ⟨before, .between⟩ (word ++ unit :: rest) all ↔
      Reads ⟨before ++ [token], .between⟩ (unit :: rest) all := by
  unfold Reads
  rw [run_word before rest units meaning nonempty ends]

theorem reads_end : Reads ⟨all, .between⟩ [] all := rfl

theorem reads_append_iff (reader : Reader) (first second : UnitString) (all : List Token) :
    reader.Reads (first ++ second) all ↔ ∃ middle, runPartial step reader first = some middle ∧
      middle.Reads second all := by
  rw [Reads, runPartial_append, bind_assoc, bind_eq_some_iff]
  rfl

theorem step_mark_outside {token : Token}
    (outside : reader.content? = none) (isMark : mark unit = some token) :
    reader.step unit = reader.finish.map fun tokens => ⟨tokens ++ [token], .between⟩ := by
  rcases mark_facts isMark with ⟨ends, -, alone⟩
  rcases reader with ⟨tokens, place⟩
  cases place with
  | between => exact alone tokens
  | word read =>
    simp only [step, ends, Bool.false_eq_true, if_false, alone, finish]
    cases wordToken read <;> rfl
  | string read => cases outside
  | escape read => cases outside
  | unicode read digits => cases outside

theorem step_mark_inside {next : Reader} {token : Token}
    (inside : reader.content? = some read) (isMark : mark unit = some token)
    (stepped : reader.step unit = some next) :
    next = ⟨reader.tokens, .string (read ++ [unit])⟩ := by
  rcases reader with ⟨tokens, place⟩
  cases place with
  | between => cases inside
  | word word => cases inside
  | string string =>
    cases inside
    rw [step_string_plain tokens read (mark_facts isMark).2.1] at stepped
    exact (some.inj stepped).symm
  | escape string =>
    have refused : step ⟨tokens, .escape string⟩ unit = none := by
      unfold mark at isMark
      split_ifs at isMark with brace endBrace bracket endBracket colon comma
      · rw [brace]; rfl
      · rw [endBrace]; rfl
      · rw [bracket]; rfl
      · rw [endBracket]; rfl
      · rw [colon]; rfl
      · rw [comma]; rfl
    rw [refused] at stepped
    cases stepped
  | unicode string digits =>
    have refused : step ⟨tokens, .unicode string digits⟩ unit = none := by
      unfold mark at isMark
      split_ifs at isMark with brace endBrace bracket endBracket colon comma
      · rw [brace]; rfl
      · rw [endBrace]; rfl
      · rw [bracket]; rfl
      · rw [endBracket]; rfl
      · rw [colon]; rfl
      · rw [comma]; rfl
    rw [refused] at stepped
    cases stepped

end Reader

theorem printable_utf16_iff (characters : List Char) : (∀ unit ∈ utf16 characters, ¬ unit < 0x20) ↔
    ∀ character ∈ characters, 0x20 ≤ character.toNat := by
  have limit : (0x20 : UInt16).toNat = 0x20 := rfl
  constructor
  · intro printable character member
    by_contra control
    have number : (UInt16.ofNat character.toNat).toNat = character.toNat := by
      rw [UInt16.toNat_ofNat']
      omega
    have listed : UInt16.ofNat character.toNat ∈ utf16 characters :=
      (mem_utf16_iff (by omega)).2 ⟨character, member, number.symm⟩
    apply printable _ listed
    rw [UInt16.lt_iff_toNat_lt, number, limit]
    omega
  · intro printable unit member control
    rw [UInt16.lt_iff_toNat_lt] at control
    rcases (mem_utf16_iff (by omega)).1 member with ⟨character, listed, same⟩
    have large := printable character listed
    omega

section Elements

variable {Item : Type} {units : Item → UnitString} {Good : Item → Prop}
  {Value : Item → Json → Prop} {all : List Token}

/--
Items that are read one by one are read as the elements of an array, with its
end.  What is known of the tokens beforehand may be used for each of them.
-/
theorem reads_elements_iff (Known : List Token → Prop)
    (front : ∀ first second, Known (first ++ second) → Known first) (each :
      ∀ item element, Value item element → ∀ before rest unit token, mark unit = some token →
        Known (before ++ toTokens element) →
          (Reader.Reads ⟨before, .between⟩ (units item ++ unit :: rest) all ↔
            Good item ∧ Reader.Reads ⟨before ++ toTokens element, .between⟩ (unit :: rest) all))
    {items : List Item} {elements : List Json}
    (values : List.Forall₂ Value items elements) (before : List Token)
    (known : Known (before ++ (elementTokens elements ++ [.closeBracket]))) (rest : UnitString) :
    Reader.Reads ⟨before, .between⟩ ([0x2C].intercalate (items.map units) ++ 0x5D :: rest) all ↔
      (∀ item ∈ items, Good item) ∧ Reader.Reads
        ⟨before ++ (elementTokens elements ++ [.closeBracket]), .between⟩ rest all := by
  have bracket : mark 0x5D = some .closeBracket := rfl
  have comma : mark 0x2C = some .comma := rfl
  induction values generalizing before with
  | nil =>
    rw [map_nil, intercalate_nil, nil_append, Reader.reads_mark_iff bracket]
    simp [elementTokens]
  | @cons item element items elements value values induction =>
    cases values with
    | nil =>
      have first : Known (before ++ toTokens element) := by
        apply front _ [.closeBracket]
        simpa [elementTokens] using known
      rw [map_singleton, intercalate_singleton,
        each item element value before rest 0x5D _ bracket first,
        Reader.reads_mark_iff bracket]
      simp [elementTokens]
    | @cons next later items elements second values =>
      have split : elementTokens (element :: later :: elements) = toTokens element ++
        .comma :: elementTokens (later :: elements) := by
        rw [elementTokens]
      have first : Known (before ++ toTokens element) := by
        apply front _ (.comma :: (elementTokens (later :: elements) ++ [.closeBracket]))
        simpa [split] using known
      have others : Known ((before ++ toTokens element ++ [.comma]) ++
        (elementTokens (later :: elements) ++ [.closeBracket])) := by
        simpa [split] using known
      have following : Reader.Reads ⟨before ++ toTokens element ++ [.comma], .between⟩
        ([0x2C].intercalate (units next :: items.map units) ++ 0x5D :: rest) all ↔ _ :=
        induction _ others
      rw [map_cons, map_cons, List.intercalate_cons_cons,
        append_assoc, append_assoc, singleton_append,
        each item element value before _ 0x2C _ comma first,
        Reader.reads_mark_iff comma, following, split]
      simp [and_assoc]

end Elements

theorem parse_eq_some_iff (text : UnitString) (tree : Json) :
    parse text = some tree ↔ Reader.Reads ⟨[], .between⟩ text (toTokens tree) := by
  rw [← Reader.tokens_eq_some_iff, parse, bind_eq_some_iff]
  constructor
  · rintro ⟨all, read, value⟩
    rw [read, (value_eq_some_iff all tree).1 value]
  · intro read
    exact ⟨toTokens tree, read, value_toTokens tree⟩

end SysAnalyzer.Foundation.Json
