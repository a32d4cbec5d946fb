import SysAnalyzer.Foundation.JsonReading
import SysAnalyzer.Query.RoundTrip

/-!
# The JSON builders of the database

`BuildJson` and the aggregate `BuildRepeatedJson` append their arguments to a
text, each with a comma behind it, and take the last comma back.  Keys and texts
are copied between quotes as they are.
-/

namespace SysAnalyzer.Query

open Foundation List

/-! ## The builder -/

/--
`TSSqlValue`; a double is given by what `std::to_string` makes of it, and a text
by the bytes of `sqlite3_value_text`.
-/
inductive TSSqlValue where
  | null
  | long (value : Int64)
  | double (printed : Bytes)
  | string (text : Bytes)
  | bytes (content : Bytes)

/-- `JsonBuild`: its body. -/
abbrev JsonBuild := Bytes

namespace JsonBuild

def appendHead (body : JsonBuild) : JsonBuild := body ++ literal "\x7b"

def appendTail (body : JsonBuild) : JsonBuild := body ++ literal "\x7d"

def appendCommon (body : JsonBuild) : JsonBuild := body ++ literal ","

/-- What `AppendSqlValue` writes for a value, without the comma. -/
def valueText : TSSqlValue → Bytes
  | .null => literal "0"
  | .long value => utf8 (Json.decimal value.toInt)
  | .double printed => printed
  | .string text => literal "\"" ++ cString text ++ literal "\""
  | .bytes content => literal "\"" ++ content ++ literal "\""

def appendSqlValue (body : JsonBuild) (value : TSSqlValue) : JsonBuild :=
  body ++ (valueText value ++ literal ",")

/-- `AppendSqlValue` with a field name. -/
def appendField (body : JsonBuild) (fieldName : Bytes) (value : TSSqlValue) : JsonBuild :=
  appendSqlValue (body ++ (literal "\"" ++ fieldName ++ literal "\":")) value

/-- `PopLast`; on an empty body it is undefined. -/
def popLast (body : JsonBuild) : Option JsonBuild := popBack body

/--
The loop over the arguments, two at a time: the body or the text of an error.
Reading behind the last argument is undefined.
-/
def appendArgs : JsonBuild → List TSSqlValue → Option (Except String JsonBuild)
  | body, [] => some (.ok body)
  | body, .string key :: value :: rest => appendArgs (body.appendField (cString key) value) rest
  | _, [.string _] => none
  | _, _ :: _ => some (.error "BuildJson: Invalid args")

/-- An object: a head, the arguments, and a tail in the place of a comma. -/
def appendObject (body : JsonBuild) (argv : List TSSqlValue) : Option (Except String JsonBuild) :=
  (body.appendHead.appendArgs argv).bind fun
    | .ok filled => filled.popLast.map fun popped => .ok popped.appendTail
    | .error message => some (.error message)

end JsonBuild

/-- `BuildJson`: a blob, or the text of an error. -/
def buildJson (argv : List TSSqlValue) : Option (Except String Bytes) :=
  if argv.length % 2 ≠ 0 then some (.error "BuildJson arg number error")
  else JsonBuild.appendObject [] argv

/-- `RepeatedJsonStep`; the builder is made for the first row. -/
def repeatedJsonStep (jsonBuild : Option JsonBuild) (argv : List TSSqlValue) :
    Option (Except String JsonBuild) :=
  ((jsonBuild.getD []).appendObject argv).map (Except.map JsonBuild.appendCommon)

/-- `RepeatedJsonFinal`: a blob or NULL. -/
def repeatedJsonFinal (jsonBuild : Option JsonBuild) : Option (Option Bytes) :=
  match jsonBuild with
  | none => some none
  | some body => body.popLast.map fun raw => if raw = [] then none else some raw

/-- The steps of an aggregate over the rows; an error ends the query. -/
def repeatedSteps :
    Option JsonBuild → List (List TSSqlValue) → Option (Except String (Option JsonBuild))
  | jsonBuild, [] => some (.ok jsonBuild)
  | jsonBuild, argv :: rows =>
    (repeatedJsonStep jsonBuild argv).bind fun
      | .ok body => repeatedSteps (some body) rows
      | .error message => some (.error message)

/-- `BuildRepeatedJson` over some rows. -/
def buildRepeatedJson (rows : List (List TSSqlValue)) : Option (Except String (Option Bytes)) :=
  (repeatedSteps none rows).bind fun
    | .ok jsonBuild => (repeatedJsonFinal jsonBuild).map .ok
    | .error message => some (.error message)

inductive MemberValue where
  | null
  | integer (value : Int64)
  | text (characters : List Char)
    (terminated : ∀ character ∈ characters, character.toNat ≠ 0)

/-- A key and a value that the builders are given. -/
structure JsonMember where
  key : List Char
  value : MemberValue
  terminated : ∀ character ∈ key, character.toNat ≠ 0

namespace MemberValue

def argument : MemberValue → TSSqlValue
  | .null => .null
  | .integer value => .long value
  | .text characters _ => .string (utf8 characters)

def json : MemberValue → Json
  | .null => .number (Number.ofRat 0)
  | .integer value => .number (Number.ofRat value.toInt)
  | .text characters _ => .string (utf16 characters)

def characters : MemberValue → List Char
  | .text characters _ => characters
  | _ => []

end MemberValue

/-- Nothing that JSON wants to be escaped. -/
def Unescaped (characters : List Char) : Prop :=
  ∀ character ∈ characters, character ≠ '"' ∧ character ≠ '\\' ∧ 0x20 ≤ character.toNat

namespace JsonMember

def arguments (members : List JsonMember) : List TSSqlValue :=
  members.flatMap fun member => [.string (utf8 member.key), member.value.argument]

def json (member : JsonMember) : UnitString × Json := (utf16 member.key, member.value.json)

/-- Neither the key nor the text needs an escape. -/
def IsUnescaped (member : JsonMember) : Prop :=
  Unescaped member.key ∧ Unescaped member.value.characters

end JsonMember

/-- `BuildJson` answers an object with exactly these members. -/
def BuildsObject (members : List JsonMember) : Prop :=
  ∃ raw, buildJson (JsonMember.arguments members) = some (.ok raw) ∧
    Json.parse (TextDecoder.decode raw) = some (.object (members.map JsonMember.json))

/--
`BuildRepeatedJson` answers the objects of the rows with commas between them: in
brackets they are an array.
-/
def BuildsObjects (rows : List (List JsonMember)) : Prop :=
  ∃ raw, buildRepeatedJson (rows.map JsonMember.arguments) = some (.ok (some raw)) ∧
    Json.parse (0x5B :: TextDecoder.decode raw ++ [0x5D]) = some (.array (rows.map fun members =>
      .object (members.map JsonMember.json)))

def MemberValue.written : MemberValue → List Char
  | .null => ['0']
  | .integer value => Json.decimal value.toInt
  | .text characters _ => '"' :: characters ++ ['"']

def JsonMember.written (member : JsonMember) : List Char :=
  '"' :: member.key ++ '"' :: ':' :: member.value.written

def objectWritten (members : List JsonMember) : List Char :=
  if members = [] then ['}']
  else '{' :: [','].intercalate (members.map JsonMember.written) ++ ['}']

theorem valueText_argument (value : MemberValue) :
    JsonBuild.valueText value.argument = utf8 value.written := by
  cases value with
  | null => decide
  | integer value => rfl
  | text characters terminated =>
    have quote : literal "\"" = String.utf8EncodeChar '"' := by decide
    simp [MemberValue.argument, JsonBuild.valueText, MemberValue.written,
      cString_utf8 terminated, quote]

variable (members : List JsonMember)

theorem appendArgs_arguments (body : JsonBuild) :
    JsonBuild.appendArgs body (JsonMember.arguments members) =
      some (.ok (body ++ members.flatMap fun member =>
        utf8 member.written ++ [0x2C])) := by
  induction members generalizing body with
  | nil => simp [JsonMember.arguments, JsonBuild.appendArgs]
  | cons member rest induction =>
    have comma : literal "," = [0x2C] := by decide
    have quote : literal "\"" = String.utf8EncodeChar '"' := by decide
    have colon : literal "\":" = String.utf8EncodeChar '"' ++ String.utf8EncodeChar ':' := by decide
    have field : body.appendField (cString (utf8 member.key)) member.value.argument =
      body ++ (utf8 member.written ++ [0x2C]) := by
      simp [JsonBuild.appendField, JsonBuild.appendSqlValue, valueText_argument, JsonMember.written,
        cString_utf8 member.terminated, comma, quote, colon]
    change JsonBuild.appendArgs (body.appendField (cString (utf8 member.key)) member.value.argument)
      (JsonMember.arguments rest) = _
    rw [field, induction, flatMap_cons, append_assoc]

theorem appendObject_arguments (body : JsonBuild) :
    JsonBuild.appendObject body (JsonMember.arguments members) =
      some (.ok (body ++ utf8 (objectWritten members))) := by
  have tail : literal "\x7d" = String.utf8EncodeChar '}' := by decide
  have filled (rest : JsonBuild) (popped : JsonBuild.popLast
    (body.appendHead ++ members.flatMap fun member =>
      utf8 member.written ++ [0x2C]) = some (body ++ rest))
    (written : rest ++ String.utf8EncodeChar '}' = utf8 (objectWritten members)) :
    JsonBuild.appendObject body (JsonMember.arguments members) =
      some (.ok (body ++ utf8 (objectWritten members))) := by
    rw [JsonBuild.appendObject, appendArgs_arguments, Option.bind_some]
    dsimp only
    rw [popped, Option.map_some, JsonBuild.appendTail, tail, append_assoc, written]
  cases members with
  | nil =>
    refine filled [] ?_ (by decide)
    have head : literal "\x7b" = [0x7B] := by decide
    rw [flatMap_nil, append_nil, append_nil, JsonBuild.appendHead, head]
    exact popBack_concat body 0x7B
  | cons member rest =>
    have head : literal "\x7b" = String.utf8EncodeChar '{' := by decide
    have texts :
      (member :: rest).map (fun member => utf8 member.written) =
        ((member :: rest).map JsonMember.written).map utf8 := by
      simp
    refine filled
      (literal "\x7b" ++
        utf8 ([','].intercalate ((member :: rest).map JsonMember.written)))
      ?_ ?_
    · rw [JsonBuild.popLast, popBack_flatMap, texts, ← utf8_intercalate,
        JsonBuild.appendHead, append_assoc]
    · rw [objectWritten, if_neg (cons_ne_nil member rest), head]
      simp

theorem length_arguments : (JsonMember.arguments members).length % 2 = 0 := by
  induction members with
  | nil => rfl
  | cons member rest induction =>
    change ((JsonMember.arguments rest).length + 2) % 2 = 0
    rw [Nat.add_mod_right, induction]

theorem buildJson_arguments : buildJson (JsonMember.arguments members) =
    some (.ok (utf8 (objectWritten members))) := by
  rw [buildJson, if_neg (by simp [length_arguments]), appendObject_arguments]
  rfl

theorem repeatedSteps_arguments (rows : List (List JsonMember)) (body : JsonBuild) :
    repeatedSteps (some body) (rows.map JsonMember.arguments) =
      some (.ok (some (body ++ rows.flatMap fun members =>
        utf8 (objectWritten members) ++ [0x2C]))) := by
  induction rows generalizing body with
  | nil => simp [repeatedSteps]
  | cons members rest induction =>
    have comma : literal "," = [0x2C] := by decide
    have step :
      repeatedJsonStep (some body) (JsonMember.arguments members) =
        some (.ok (body ++ (utf8 (objectWritten members) ++ [0x2C]))) := by
      rw [repeatedJsonStep, Option.getD_some, appendObject_arguments]
      simp [Except.map, JsonBuild.appendCommon, comma]
    rw [map_cons, repeatedSteps, step, Option.bind_some]
    dsimp only
    rw [induction, flatMap_cons, append_assoc]

theorem intercalate_objectWritten (rest : List (List JsonMember)) : ∃ brace later,
    [','].intercalate ((members :: rest).map objectWritten) = brace :: later ∧
      (brace = '{' ∨ brace = '}') := by
  have first :
    ∃ brace later,
      objectWritten members = brace :: later ∧
        (brace = '{' ∨ brace = '}') := by
    unfold objectWritten
    split
    · exact ⟨'}', [], rfl, Or.inr rfl⟩
    · exact ⟨'{', _, rfl, Or.inl rfl⟩
  rcases first with ⟨brace, later, written, isBrace⟩
  cases rest with
  | nil => exact ⟨brace, later, by simp [written], isBrace⟩
  | cons next others =>
    have split :
      [','].intercalate ((members :: next :: others).map objectWritten) =
        brace :: (later ++
          ',' :: [','].intercalate ((next :: others).map objectWritten)) := by
      rw [map_cons, map_cons, List.intercalate_cons_cons, written]
      simp
    exact ⟨brace, _, split, isBrace⟩

theorem buildRepeatedJson_arguments (rest : List (List JsonMember)) :
    buildRepeatedJson ((members :: rest).map JsonMember.arguments) = some (.ok (some
      (utf8 ([','].intercalate ((members :: rest).map objectWritten))))) := by
  have first :
    repeatedSteps none ((members :: rest).map JsonMember.arguments) =
      repeatedSteps (some []) ((members :: rest).map JsonMember.arguments) :=
    rfl
  have texts :
    (members :: rest).map (fun members => utf8 (objectWritten members)) =
      ((members :: rest).map objectWritten).map utf8 := by
    simp
  have nonempty :
    utf8 ([','].intercalate ((members :: rest).map objectWritten)) ≠ [] := by
    rcases intercalate_objectWritten members rest with
      ⟨brace, later, written, rfl | rfl⟩
    · rw [written, utf8_cons, show String.utf8EncodeChar '{' = [0x7B] by decide]
      simp
    · rw [written, utf8_cons, show String.utf8EncodeChar '}' = [0x7D] by decide]
      simp
  rw [buildRepeatedJson, first, repeatedSteps_arguments, Option.bind_some]
  dsimp only
  rw [repeatedJsonFinal, JsonBuild.popLast, popBack_flatMap, texts,
    ← utf8_intercalate, nil_append, Option.map_some, if_neg nonempty]
  rfl

/-! ## What is read -/

section Reading

open Json Json.Reader

variable {before all : List Token} {rest : UnitString}

def MemberValue.units : MemberValue → UnitString
  | .null => [0x30]
  | .integer value => utf16 (decimal value.toInt)
  | .text characters _ => 0x22 :: (utf16 characters ++ [0x22])

def JsonMember.units (member : JsonMember) : UnitString :=
  0x22 :: (utf16 member.key ++ 0x22 :: 0x3A :: member.value.units)

def objectUnits (members : List JsonMember) : UnitString :=
  if members = [] then [0x7D]
  else 0x7B :: ([0x2C].intercalate (members.map JsonMember.units) ++ [0x7D])

theorem utf16_memberWritten (member : JsonMember) : utf16 member.written = member.units := by
  have quote : utf16Point 0x22 = [0x22] := by decide
  have colon : utf16Point 0x3A = [0x3A] := by decide
  have value : utf16 member.value.written = member.value.units := by
    cases member.value with
    | null => decide
    | integer value => rfl
    | text characters terminated => simp [MemberValue.written, MemberValue.units, quote]
  simp [JsonMember.written, JsonMember.units, value, quote, colon]

theorem utf16_objectWritten (members : List JsonMember) :
    utf16 (objectWritten members) = objectUnits members := by
  have head : utf16Point 0x7B = [0x7B] := by decide
  have tail : utf16Point 0x7D = [0x7D] := by decide
  have texts :
    (members.map JsonMember.written).map utf16 =
      members.map JsonMember.units := by
    rw [map_map]
    exact map_congr_left fun member _ => utf16_memberWritten member
  unfold objectWritten objectUnits
  split
  · decide
  · simp [utf16_intercalate, texts, head, tail]

theorem plain_utf16_iff (characters : List Char) :
    (∀ unit ∈ utf16 characters, Plain unit) ↔ Unescaped characters := by
  have without (number : UInt16) (basic : number.toNat < 0xD800)
    (excluded : Char) (same : excluded.toNat = number.toNat) :
    (∀ unit ∈ utf16 characters, unit ≠ number) ↔
      ∀ character ∈ characters, character ≠ excluded := by
    constructor
    · rintro absent character member rfl
      exact absent number
        ((mem_utf16_iff basic).2 ⟨character, member, same⟩) rfl
    · rintro absent unit member rfl
      rcases (mem_utf16_iff basic).1 member with ⟨character, listed, equal⟩
      exact absent character listed
        (Char.toNat_inj.1 (equal.trans same.symm))
  have printable := printable_utf16_iff characters
  have quote := without 0x22 (by decide) '"' rfl
  have slash := without 0x5C (by decide) '\\' rfl
  simp only [Plain, Unescaped, forall₂_and, printable, quote, slash]

theorem reads_value_iff {value : MemberValue} {unit : UInt16} {token : Token}
    (isMark : mark unit = some token) (expected : before ++ toTokens value.json <+: all) :
    Reads ⟨before, .between⟩ (value.units ++ unit :: rest) all ↔ Unescaped value.characters ∧
      Reads ⟨before ++ toTokens value.json, .between⟩ (unit :: rest) all := by
  have ends : isWordUnit unit = false := isWordUnit_of_mark (by rw [isMark]; rfl)
  have nothing : Unescaped [] := by simp [Unescaped]
  cases value with
  | null =>
    have meaning : wordToken [0x30] = some (.number (Number.ofRat 0)) := by
      have zero := wordToken_decimal 0
      rwa [show utf16 (decimal 0) = [0x30] by decide, Int.cast_zero] at zero
    refine Iff.trans ?_ (and_iff_right nothing).symm
    have units : ∀ unit ∈ ([0x30] : UnitString), isWordUnit unit = true := by
      intro unit member
      rw [mem_singleton.1 member]
      rfl
    exact reads_word_iff units meaning (cons_ne_nil _ _) ends
  | integer value =>
    refine Iff.trans ?_ (and_iff_right nothing).symm
    exact reads_word_iff (fun _ => isWordUnit_decimal)
      (wordToken_decimal value.toInt) (decimal_ne_nil value.toInt) ends
  | text characters terminated =>
    rw [← plain_utf16_iff, MemberValue.units, cons_append,
      append_assoc]
    exact reads_quoted_iff expected

theorem reads_member_iff {member : JsonMember} {unit : UInt16} {token : Token}
    (isMark : mark unit = some token) (expected : before ++ (.string (utf16 member.key) :: .colon ::
      toTokens member.value.json) <+: all) :
    Reads ⟨before, .between⟩ (member.units ++ unit :: rest) all ↔ member.IsUnescaped ∧ Reads
      ⟨before ++ (.string (utf16 member.key) :: .colon ::
        toTokens member.value.json), .between⟩ (unit :: rest) all := by
  have key : before ++ [.string (utf16 member.key)] <+: all := by
    refine List.IsPrefix.trans ?_ expected
    exact (prefix_append_right_inj _).2 (by simp)
  have value :
    (before ++ [.string (utf16 member.key)] ++ [.colon]) ++
      toTokens member.value.json <+: all := by
    simpa using expected
  rw [JsonMember.units, cons_append, append_assoc, cons_append,
    cons_append, reads_quoted_iff key, plain_utf16_iff,
    reads_mark_iff (show mark 0x3A = some .colon by rfl),
    reads_value_iff isMark value, JsonMember.IsUnescaped, and_assoc]
  simp

theorem reads_members_iff {members : List JsonMember} (nonempty : members ≠ []) (expected :
    before ++ (memberTokens (members.map JsonMember.json) ++ [.closeBrace]) <+: all) :
    Reads ⟨before, .between⟩ ([0x2C].intercalate (members.map JsonMember.units) ++ 0x7D :: rest)
      all ↔ (∀ member ∈ members, member.IsUnescaped) ∧ Reads
        ⟨before ++ (memberTokens (members.map JsonMember.json) ++
          [.closeBrace]), .between⟩ rest all := by
  induction members generalizing before with
  | nil => exact absurd rfl nonempty
  | cons member others induction =>
    cases others with
    | nil =>
      have first :
        before ++ (.string (utf16 member.key) :: .colon ::
          toTokens member.value.json) <+: all := by
        refine List.IsPrefix.trans ?_ expected
        exact (prefix_append_right_inj _).2 (prefix_append _ _)
      rw [map_singleton, intercalate_singleton,
        reads_member_iff (show mark 0x7D = some .closeBrace by rfl) first,
        reads_mark_iff (show mark 0x7D = some .closeBrace by rfl)]
      simp [memberTokens, JsonMember.json]
    | cons next others =>
      have split :
        memberTokens ((member :: next :: others).map JsonMember.json) =
          (.string (utf16 member.key) :: .colon ::
            toTokens member.value.json) ++
            .comma ::
              memberTokens ((next :: others).map JsonMember.json) :=
        rfl
      rw [split] at expected ⊢
      have first :
        before ++ (.string (utf16 member.key) :: .colon ::
          toTokens member.value.json) <+: all := by
        refine List.IsPrefix.trans ?_ expected
        refine (prefix_append_right_inj _).2 ?_
        rw [append_assoc]
        exact prefix_append _ _
      have later :
        (before ++ (.string (utf16 member.key) :: .colon ::
          toTokens member.value.json) ++ [.comma]) ++
          (memberTokens ((next :: others).map JsonMember.json) ++
            [.closeBrace]) <+: all := by
        simpa using expected
      rw [map_cons, map_cons, List.intercalate_cons_cons,
        append_assoc, append_assoc, singleton_append,
        reads_member_iff (show mark 0x2C = some .comma by rfl) first,
        reads_mark_iff (show mark 0x2C = some .comma by rfl),
        ← map_cons, induction (by simp) later]
      simp [and_assoc]

theorem reads_object_iff (before : List Token) (members : List JsonMember) (rest : UnitString)
    (expected : before ++ toTokens (.object (members.map JsonMember.json)) <+: all) :
    Reads ⟨before, .between⟩ (objectUnits members ++ rest) all ↔
      (members ≠ [] ∧ ∀ member ∈ members, member.IsUnescaped) ∧ Reads
        ⟨before ++ toTokens (.object (members.map JsonMember.json)), .between⟩ rest all := by
  by_cases none : members = []
  · subst none
    refine iff_of_false ?_ (fun both => both.1.1 rfl)
    intro reads
    have closed :
      Reads ⟨before ++ [.closeBrace], .between⟩ rest all :=
      (reads_mark_iff (show mark 0x7D = some .closeBrace by rfl)).1 reads
    rcases prefix_of_announces (announces_of_reads closed) with ⟨later, rfl⟩
    simp [toTokens, memberTokens] at expected
  · have inside :
      (before ++ [.openBrace]) ++
        (memberTokens (members.map JsonMember.json) ++ [.closeBrace]) <+:
          all := by
      simpa [toTokens] using expected
    rw [objectUnits, if_neg none, cons_append, append_assoc,
      reads_mark_iff (show mark 0x7B = some .openBrace by rfl),
      singleton_append, reads_members_iff none inside]
    simp [toTokens, none]

theorem reads_objects_iff (before : List Token) (rows : List (List JsonMember)) (rest : UnitString)
    (expected : before ++ (elementTokens (rows.map fun members =>
      .object (members.map JsonMember.json)) ++ [.closeBracket]) <+: all) :
    Reads ⟨before, .between⟩ ([0x2C].intercalate (rows.map objectUnits) ++ 0x5D :: rest) all ↔
      (∀ members ∈ rows, members ≠ [] ∧ ∀ member ∈ members, member.IsUnescaped) ∧ Reads ⟨before ++
        (elementTokens (rows.map fun members =>
          .object (members.map JsonMember.json)) ++ [.closeBracket]), .between⟩ rest all := by
  have values :
    List.Forall₂ (fun members element =>
      element = Json.object (members.map JsonMember.json)) rows
      (rows.map fun members => .object (members.map JsonMember.json)) := by
    rw [forall₂_map_right_iff, forall₂_same]
    exact fun _ _ => rfl
  refine reads_elements_iff (fun tokens => tokens <+: all)
    (fun first second => ?_) ?_ values before expected rest
  · exact fun longer => (prefix_append first second).trans longer
  · rintro members element rfl before rest unit token - known
    exact reads_object_iff before members (unit :: rest) known

end Reading

theorem decode_braced {text later : List Char} {brace : Char} (written : text = brace :: later)
    (isBrace : brace = '{' ∨ brace = '}') : TextDecoder.decode (utf8 text) = utf16 text := by
  apply TextDecoder.decode_utf8
  rcases isBrace with rfl | rfl
  · rw [written]
    simp
  · rw [written]
    simp

/--
`BuildJson` answers the object exactly when there is a member and no key and no
text holds a quote, a backslash or a control character.
-/
theorem buildsObject_iff : BuildsObject members ↔
    members ≠ [] ∧ ∀ member ∈ members, member.IsUnescaped := by
  have decoded :
    TextDecoder.decode (utf8 (objectWritten members)) =
      objectUnits members := by
    rcases intercalate_objectWritten members [] with
      ⟨brace, later, written, isBrace⟩
    rw [map_singleton, intercalate_singleton] at written
    rw [decode_braced written isBrace, utf16_objectWritten]
  unfold BuildsObject
  rw [buildJson_arguments]
  simp only [Option.some.injEq, Except.ok.injEq, exists_eq_left', decoded,
    Json.parse_eq_some_iff]
  have read := reads_object_iff [] members [] prefix_rfl
  rw [append_nil, nil_append] at read
  rw [read, and_iff_left Json.Reader.reads_end]

/--
`BuildRepeatedJson` answers the list of the objects exactly when there is a row
and each row has a member and needs no escapes.
-/
theorem buildsObjects_iff (rows : List (List JsonMember)) : BuildsObjects rows ↔
    rows ≠ [] ∧ ∀ members ∈ rows, members ≠ [] ∧ ∀ member ∈ members, member.IsUnescaped := by
  unfold BuildsObjects
  cases rows with
  | nil =>
    refine iff_of_false ?_ (fun both => both.1 rfl)
    rintro ⟨raw, built, -⟩
    cases built
  | cons members others =>
    have decoded :
      TextDecoder.decode
        (utf8 ([','].intercalate
          ((members :: others).map objectWritten))) =
        [0x2C].intercalate ((members :: others).map objectUnits) := by
      rcases intercalate_objectWritten members others with
        ⟨brace, later, written, isBrace⟩
      have units :
        ((members :: others).map objectWritten).map utf16 =
          (members :: others).map objectUnits := by
        rw [map_map]
        exact map_congr_left fun members _ => utf16_objectWritten members
      rw [decode_braced written isBrace, utf16_intercalate, units]
    rw [buildRepeatedJson_arguments]
    simp only [Option.some.injEq, Except.ok.injEq, exists_eq_left', decoded,
      Json.parse_eq_some_iff, ne_eq, cons_ne_nil, not_false_eq_true,
      true_and]
    have bracket : Json.mark 0x5B = some .openBracket := rfl
    have read :=
      reads_objects_iff [.openBracket] (members :: others) []
        prefix_rfl
    rw [cons_append, Json.Reader.reads_mark_iff bracket]
    exact read.trans (and_iff_left Json.Reader.reads_end)

/--
The builders answer JSON with exactly these members exactly when there is
something to build, each object has a member, and no key and no text holds a
quote, a backslash or a control character.
-/
theorem builders_iff (members : List JsonMember) (rows : List (List JsonMember)) :
    (BuildsObject members ↔ members ≠ [] ∧ ∀ member ∈ members, member.IsUnescaped) ∧
      (BuildsObjects rows ↔ rows ≠ [] ∧ ∀ members ∈ rows,
        members ≠ [] ∧ ∀ member ∈ members, member.IsUnescaped) :=
  ⟨buildsObject_iff members, buildsObjects_iff rows⟩

theorem quote_ends : ∀ character ∈ ['"'], character.toNat ≠ 0 := by simp

def quoteMember : JsonMember := ⟨['a'], .text ['"'] quote_ends, by simp⟩

theorem not_buildsObject_quoteMember : ¬ BuildsObject [quoteMember] := by
  intro built
  have unescaped := ((buildsObject_iff [quoteMember]).1 built).2 quoteMember (by simp)
  exact (unescaped.2 '"' (mem_singleton_self _)).1 rfl

end SysAnalyzer.Query
