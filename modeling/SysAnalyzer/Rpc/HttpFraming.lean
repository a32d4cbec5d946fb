import SysAnalyzer.Rpc.HttpServer

/-!
# The framing of requests

A request that has arrived as a whole is passed on with its own body, and while
it has not the bytes are kept.  What has arrived behind a request stays behind
it in the buffer although the fill level says that it is in front, so it is read
right only where the front of the buffer has the same bytes.
-/

namespace SysAnalyzer.Rpc

open Foundation List

/-! ## Requests -/

def isTokenByte (byte : UInt8) : Bool :=
  33 ≤ byte && byte ≤ 126 && !(literal "\"(),/:;<=>?@[\\]\x7b\x7d").contains byte

def isFieldByte (byte : UInt8) : Bool := (32 ≤ byte && byte != 127) || byte == 9

def isTargetByte (byte : UInt8) : Bool := 33 ≤ byte && byte ≤ 126

structure HeaderField where
  name : List UInt8
  value : List UInt8
  nameNonempty : name ≠ []
  nameToken : ∀ byte ∈ name, isTokenByte byte = true
  valueText : ∀ byte ∈ value, isFieldByte byte = true

namespace HeaderField

def line (field : HeaderField) : List UInt8 := field.name ++ 58 :: field.value

/-- The field is a `Content-Length`. -/
def IsLength (field : HeaderField) : Prop := field.name.map toLower = contentLength.map toLower

/-- The value of a field is a number, with blanks around it. -/
def Gives (field : HeaderField) (count : Nat) : Prop :=
  ∃ before digits after, field.value = before ++ digits ++ after ∧
    (∀ byte ∈ before ++ after, byte = 32 ∨ byte = 9) ∧
      digits ≠ [] ∧ (∀ byte ∈ digits, isDigit byte = true) ∧ digitsValue digits = count

end HeaderField

/-- A POST request whose header gives the length of its body. -/
structure HttpRequest where
  uri : List UInt8
  fields : List HeaderField
  body : List UInt8
  uriNonempty : uri ≠ []
  uriTarget : ∀ byte ∈ uri, isTargetByte byte = true
  hasLength : ∃ field ∈ fields, field.IsLength
  lengths : ∀ field ∈ fields, field.IsLength → field.Gives body.length

namespace HttpRequest

def requestLine (request : HttpRequest) : List UInt8 :=
  (literal " ").intercalate [literal "POST", request.uri, literal "HTTP/1.1"]

def lines (request : HttpRequest) : List (List UInt8) :=
  request.requestLine :: request.fields.map HeaderField.line

/-- The bytes in front of the empty line. -/
def header (request : HttpRequest) : List UInt8 := crlf.intercalate request.lines

def bytes (request : HttpRequest) : List UInt8 := request.header ++ (crlf ++ crlf ++ request.body)

def allBytes (requests : List HttpRequest) : List UInt8 := requests.flatMap bytes

def passed (request : HttpRequest) : Processed where
  stat := .ok
  method := literal "POST"
  uri := request.uri
  body := request.body

/--
Every field that is taken for the length, by its name being the beginning of
`Content-Length`, has the length of the body as its number.
-/
def LengthsAgree (request : HttpRequest) : Prop :=
  ∀ field ∈ request.fields, sameIgnoringCase field.name contentLength = true →
    toSize (atoi field.value) = request.body.length

variable {byte : UInt8}

theorem isTargetByte_ne (isTarget : isTargetByte byte = true) : byte ≠ 13 ∧ byte ≠ 32 := by
  constructor
  all_goals
    rintro rfl
    exact absurd isTarget (by decide)

theorem isFieldByte_ne (isField : isFieldByte byte = true) : byte ≠ 13 := by
  rintro rfl
  exact absurd isField (by decide)

theorem isTokenByte_ne (isToken : isTokenByte byte = true) : byte ≠ 13 ∧ byte ≠ 58 := by
  constructor
  all_goals
    rintro rfl
    exact absurd isToken (by decide)

section

variable (request : HttpRequest)
include request

theorem line_ne_nil {line : List UInt8} (member : line ∈ request.lines) : line ≠ [] := by
  rcases mem_cons.1 member with rfl | isField
  · simp [requestLine, literal]
  · rcases mem_map.1 isField with ⟨field, _, rfl⟩
    simp [HeaderField.line]

theorem line_no_return {line : List UInt8}
    (member : line ∈ request.lines) : (13 : UInt8) ∉ line := by
  rcases mem_cons.1 member with rfl | isField
  · intro isReturn
    have inUri : (13 : UInt8) ∈ request.uri := by
      simpa [requestLine, literal, List.intercalate_cons_cons] using isReturn
    exact (isTargetByte_ne (request.uriTarget 13 inUri)).1 rfl
  · rcases mem_map.1 isField with ⟨field, _, rfl⟩
    intro isReturn
    rcases mem_append.1 isReturn with inName | inValue
    · exact (isTokenByte_ne (field.nameToken 13 inName)).1 rfl
    · rcases mem_cons.1 inValue with isColon | inValue
      · exact absurd isColon (by decide)
      · exact isFieldByte_ne (field.valueText 13 inValue) rfl

theorem find_header (rest : List UInt8) :
    find (crlf ++ crlf) (request.header ++ (crlf ++ crlf ++ rest)) =
      some request.header.length := by
  have notInWord : (13 : UInt8) ∉ [(10 : UInt8)] := by decide
  have some : request.lines ≠ [] := cons_ne_nil _ _
  exact find_twice_intercalate some (fun _ => request.line_ne_nil)
    (fun _ => request.line_no_return) notInWord rest

theorem header_ne_nil : request.header ≠ [] := by
  intro isNil
  have lineIs := request.line_ne_nil mem_cons_self
  unfold header lines at isNil
  cases fieldsIs : request.fields with
  | nil =>
    rw [fieldsIs] at isNil
    exact lineIs (by simpa using isNil)
  | cons field fields =>
    rw [fieldsIs, map_cons, List.intercalate_cons_cons] at isNil
    simp at isNil
    exact lineIs isNil.1

end

theorem stringSplit_intercalate {first : UInt8} {word : List UInt8} {pieces : List (List UInt8)}
    (nonempty : ∀ piece ∈ pieces, piece ≠ []) (notIn : ∀ piece ∈ pieces, first ∉ piece) :
    stringSplit ((first :: word).intercalate pieces) (first :: word) = pieces := by
  have enough := length_le_length_intercalate (first :: word) nonempty
  rw [stringSplit, if_neg nofun]
  exact splitFuel_intercalate nonempty notIn (Nat.lt_succ_of_le enough)

theorem stringSplit_header (request : HttpRequest) :
    stringSplit request.header crlf = request.lines :=
  stringSplit_intercalate (fun _ => request.line_ne_nil) (fun _ => request.line_no_return)

theorem stringSplit_requestLine (request : HttpRequest) :
    stringSplit request.requestLine (literal " ") =
      [literal "POST", request.uri, literal "HTTP/1.1"] := by
  refine stringSplit_intercalate ?_ ?_
  · intro piece member
    simp only [mem_cons, not_mem_nil, or_false] at member
    rcases member with rfl | rfl | rfl
    · decide
    · exact request.uriNonempty
    · decide
  · intro piece member
    simp only [mem_cons, not_mem_nil, or_false] at member
    rcases member with rfl | rfl | rfl
    · decide
    · exact fun isBlank => (isTargetByte_ne (request.uriTarget 32 isBlank)).2 rfl
    · decide

theorem isDigit_not_space (digit : isDigit byte = true) : ¬ isSpace byte = true := by
  simp only [isDigit, isSpace, Bool.and_eq_true, Bool.or_eq_true,
    decide_eq_true_eq, beq_iff_eq] at digit ⊢
  rintro (rfl | ⟨_, below⟩)
  · exact absurd digit.1 (by decide)
  · exact absurd (UInt8.le_trans digit.1 below) (by decide)

variable {count : Nat}

theorem toSize_small (small : count < 2 ^ 31) :
    toSize (Int.bmod (min (count : Int) (2 ^ 63 - 1)) (2 ^ 32)) = count := by
  have cut : min (count : Int) (2 ^ 63 - 1) = count := by omega
  rw [cut, toSize, Int.bmod_def]
  omega

theorem toSize_atoi_of_gives {field : HeaderField} (gives : field.Gives count)
    (small : count < 2 ^ 31) : toSize (atoi field.value) = count := by
  rcases gives with
    ⟨before, digits, after, valueIs, blanks, nonempty, allDigits, countIs⟩
  have blankIsSpace : ∀ byte ∈ before ++ after, isSpace byte = true := by
    intro byte member
    rcases blanks byte member with rfl | rfl
    · decide
    · decide
  have blankNotDigit : ∀ byte ∈ before ++ after, isDigit byte = false := by
    intro byte member
    rcases blanks byte member with rfl | rfl
    · decide
    · decide
  cases digits with
  | nil => exact absurd rfl nonempty
  | cons first digits =>
    have firstDigit := allDigits first mem_cons_self
    have noBlanks : field.value.dropWhile isSpace = first :: digits ++ after := by
      rw [valueIs, append_assoc, dropWhile_append_of_pos fun byte member =>
        blankIsSpace byte (mem_append_left _ member)]
      exact dropWhile_cons_of_neg (isDigit_not_space firstDigit)
    have noSign : splitSign (first :: digits ++ after) = (false, first :: digits ++ after) := by
      unfold splitSign
      split
      · rename_i others isMinus
        rw [(List.cons.inj isMinus).1] at firstDigit
        cases firstDigit
      · rename_i others isPlus
        rw [(List.cons.inj isPlus).1] at firstDigit
        cases firstDigit
      · rfl
    have digitsIs : (first :: digits ++ after).takeWhile isDigit = first :: digits := by
      rw [takeWhile_append_of_pos allDigits]
      cases after with
      | nil => simp
      | cons byte after =>
        have notDigit := blankNotDigit byte (mem_append_right _ mem_cons_self)
        rw [takeWhile_cons_of_neg (by simp [notDigit]), append_nil]
    unfold atoi
    rw [noBlanks, noSign]
    dsimp only
    rw [digitsIs, countIs, if_neg (by decide)]
    exact toSize_small small

theorem sameIgnoringCase_of_map {text constant : List UInt8}
    (same : text.map toLower = constant.map toLower) : sameIgnoringCase text constant = true := by
  induction text generalizing constant with
  | nil => cases constant <;> rfl
  | cons byte text induction =>
    cases constant with
    | nil => cases same
    | cons letter constant =>
      rw [map_cons, map_cons, List.cons.injEq] at same
      simp [sameIgnoringCase, same.1, induction same.2]

theorem find_colon (field : HeaderField) : find [58] field.line = some field.name.length :=
  find_behind [] (fun isColon => (isTokenByte_ne (field.nameToken 58 isColon)).2 rfl) field.value

theorem parseHeaderLines_cons (field : HeaderField) (lines : List (List UInt8)) (bodyLen : Nat) :
    parseHeaderLines (field.line :: lines) bodyLen =
      if sameIgnoringCase field.name contentLength then
        if bodyLen < toSize (atoi field.value) then (.recving, bodyLen)
        else if toSize (atoi field.value) < bodyLen then
          parseHeaderLines lines (toSize (atoi field.value)) else parseHeaderLines lines bodyLen
      else parseHeaderLines lines bodyLen := by
  have tag : field.line.take field.name.length = field.name := take_left
  have value : field.line.drop (field.name.length + 1) = field.value := by
    rw [← drop_drop, HeaderField.line, drop_left]
    rfl
  rw [parseHeaderLines, find_colon]
  dsimp only
  rw [tag, value]

section

variable {fields : List HeaderField}
  (agree : ∀ field ∈ fields, sameIgnoringCase field.name contentLength = true → toSize (atoi field.value) = count)
include agree

theorem parseHeaderLines_short {bodyLen : Nat} (hasLength :
    ∃ field ∈ fields, sameIgnoringCase field.name contentLength = true)
    (short : bodyLen < count) :
    parseHeaderLines (fields.map HeaderField.line) bodyLen = (.recving, bodyLen) := by
  induction fields with
  | nil =>
    rcases hasLength with ⟨field, member, _⟩
    cases member
  | cons field fields induction =>
    rw [map_cons, parseHeaderLines_cons]
    by_cases isLength : sameIgnoringCase field.name contentLength = true
    · rw [if_pos isLength, agree field mem_cons_self isLength, if_pos short]
    · rw [if_neg isLength]
      refine induction (fun other member => agree other (mem_cons_of_mem _ member)) ?_
      rcases hasLength with ⟨other, member, otherLength⟩
      rcases mem_cons.1 member with rfl | member
      · exact absurd otherLength isLength
      · exact ⟨other, member, otherLength⟩

theorem parseHeaderLines_enough {bodyLen : Nat} (hasLength :
    bodyLen = count ∨ ∃ field ∈ fields, sameIgnoringCase field.name contentLength = true)
    (enough : count ≤ bodyLen) :
    parseHeaderLines (fields.map HeaderField.line) bodyLen = (.ok, count) := by
  induction fields generalizing bodyLen with
  | nil =>
    rcases hasLength with rfl | ⟨field, member, _⟩
    · rfl
    · cases member
  | cons field fields induction =>
    have agreeLater : ∀ other ∈ fields, sameIgnoringCase other.name contentLength = true →
      toSize (atoi other.value) = count :=
      fun other member => agree other (mem_cons_of_mem _ member)
    rw [map_cons, parseHeaderLines_cons]
    by_cases isLength : sameIgnoringCase field.name contentLength = true
    · rw [if_pos isLength, agree field mem_cons_self isLength, if_neg (Nat.not_lt_of_le enough)]
      split
      · exact induction agreeLater (.inl rfl) (le_refl _)
      · have isCount : bodyLen = count := by omega
        exact induction agreeLater (.inl isCount) enough
    · rw [if_neg isLength]
      refine induction agreeLater ?_ enough
      rcases hasLength with isCount | ⟨other, member, otherLength⟩
      · exact .inl isCount
      · rcases mem_cons.1 member with rfl | member
        · exact absurd otherLength isLength
        · exact .inr ⟨other, member, otherLength⟩

end

theorem has_length (request : HttpRequest) :
    ∃ field ∈ request.fields, sameIgnoringCase field.name contentLength = true := by
  rcases request.hasLength with ⟨field, member, isLength⟩
  exact ⟨field, member, sameIgnoringCase_of_map isLength⟩

theorem parseRequest_header (request : HttpRequest) (available : List UInt8) (httpReq : RequestST) :
    parseRequest (request.header ++ (crlf ++ crlf ++ available)) httpReq =
      let len := (request.header ++ (crlf ++ crlf ++ available)).length
      let bodyPos := request.header.length + (crlf ++ crlf).length
      let parsed := parseHeaderLines (request.fields.map HeaderField.line) available.length
      let named : RequestST :=
        { httpReq with
          stat := parsed.1
          method := literal "POST"
          uri := request.uri
          bodyLen := parsed.2 }
      match parsed.1 with
      | .bad => (0, named)
      | .recving => (len, named)
      | _ =>
        (len - (bodyPos + parsed.2),
          { named with
            body := if 0 < parsed.2 then bodyPos else httpReq.body }) := by
  have positive := length_pos_iff.2 request.header_ne_nil
  have behind : (request.header ++ (crlf ++ crlf ++ available)).length -
    (request.header.length + (crlf ++ crlf).length) = available.length := by
    simp only [length_append]
    omega
  unfold parseRequest
  rw [request.find_header]
  dsimp only
  split
  · rename_i isZero
    cases isZero
  · rename_i isZero
    rw [Option.some.injEq] at isZero
    omega
  · rename_i headerLen _ isLen
    rw [Option.some.injEq] at isLen
    subst isLen
    rw [take_left, behind, request.stringSplit_header, lines,
      headD_cons, request.stringSplit_requestLine]
    rfl

variable {request : HttpRequest}

theorem parseRequest_part (agree : request.LengthsAgree)
    (short : count < request.bytes.length) (httpReq : RequestST) :
    (parseRequest (request.bytes.take count) httpReq).1 = count ∧
      (parseRequest (request.bytes.take count) httpReq).2.stat = .recving := by
  by_cases inHeader : count < request.header.length + (crlf ++ crlf).length
  · have none :=
      find_take_eq_none (request.find_header request.body) inHeader
    unfold parseRequest
    rw [bytes, none]
    refine ⟨?_, rfl⟩
    rw [length_take]
    exact min_eq_left (le_of_lt short)
  · have inBody : count - request.header.length - (crlf ++ crlf).length < request.body.length := by
      rw [bytes, length_append, length_append] at short
      omega
    have received : request.bytes.take count = request.header ++
      (crlf ++ crlf ++ request.body.take (count - request.header.length -
        (crlf ++ crlf).length)) := by
      rw [bytes, take_append, take_append, take_of_length_le (by omega),
        take_of_length_le (by omega)]
    have arrived : (request.body.take (count - request.header.length -
      (crlf ++ crlf).length)).length < request.body.length := by
      rw [length_take]
      omega
    rw [received, parseRequest_header, parseHeaderLines_short agree request.has_length arrived]
    refine ⟨?_, rfl⟩
    rw [← received, length_take]
    exact min_eq_left (le_of_lt short)

theorem parseRequest_whole (agree : request.LengthsAgree) (extra : List UInt8)
    (httpReq : RequestST) : (parseRequest (request.bytes ++ extra) httpReq).1 = extra.length ∧
      (parseRequest (request.bytes ++ extra) httpReq).2.stat = .ok ∧ ∀ behind,
        ProcessClient.request (request.bytes ++ extra ++ behind)
          (parseRequest (request.bytes ++ extra) httpReq).2 =
          request.passed := by
  have received : request.bytes ++ extra =
    request.header ++ (crlf ++ crlf ++ (request.body ++ extra)) := by
    rw [bytes]
    simp only [append_assoc]
  have enough : request.body.length ≤ (request.body ++ extra).length := by
    rw [length_append]
    omega
  have parsed := parseHeaderLines_enough agree (.inr request.has_length) enough
  rw [received, parseRequest_header, parsed]
  refine ⟨?_, rfl, fun behind => ?_⟩
  · simp only [length_append]
    omega
  · unfold ProcessClient.request passed
    dsimp only
    congr 1
    by_cases noBody : request.body = []
    · rw [noBody, length_nil, take_zero]
    · rw [if_pos (length_pos_iff.2 noBody)]
      have text : request.header ++ (crlf ++ crlf ++ (request.body ++ extra)) ++ behind =
        request.header ++ ((crlf ++ crlf) ++ (request.body ++ (extra ++ behind))) := by
        simp only [append_assoc]
      rw [text, ← drop_drop, drop_left, drop_left, take_left]

/-! ## A run of receives -/

/--
Where a receive completes a request, the bytes behind the request are those at
the front of the buffer, and the last receive leaves none behind.  `pending` is
what has arrived of the requests that were not passed on.
-/
def InPlace : List HttpRequest → (pending : List UInt8) → List (List UInt8) → Prop
  | _, pending, [] => pending = []
  | [], _, _ :: _ => True
  | request :: requests, pending, received :: segments =>
    if request.bytes.length ≤ (pending ++ received).length then
      (pending ++ received).drop request.bytes.length <+: pending ++ received ∧ InPlace requests
        ((pending ++ received).drop request.bytes.length) segments
    else InPlace (request :: requests) (pending ++ received) segments

instance decidableInPlace :
    ∀ requests pending segments, Decidable (InPlace requests pending segments)
  | [], pending, [] => inferInstanceAs (Decidable (pending = []))
  | _ :: _, pending, [] => inferInstanceAs (Decidable (pending = []))
  | [], _, _ :: _ => isTrue trivial
  | request :: requests, pending, received :: segments =>
    have := decidableInPlace requests ((pending ++ received).drop request.bytes.length) segments
    have := decidableInPlace (request :: requests) (pending ++ received) segments
    inferInstanceAs (Decidable (if request.bytes.length ≤ (pending ++ received).length then
      (pending ++ received).drop request.bytes.length <+: pending ++ received ∧ InPlace requests
        ((pending ++ received).drop request.bytes.length) segments
      else InPlace (request :: requests) (pending ++ received) segments))

/-- The buffer starts with the bytes that are pending. -/
def Pending (client : ProcessClient) (pending : List UInt8) : Prop :=
  client.recvPos = pending.length ∧ client.recvBuf.take client.recvPos = pending

theorem bytes_ne_nil (request : HttpRequest) : request.bytes ≠ [] :=
  append_ne_nil_of_left_ne_nil request.header_ne_nil _

variable {client : ProcessClient} {pending : List UInt8}

section

variable (isPending : Pending client pending)
include isPending

theorem Pending.store (received : List UInt8) :
    ∃ behind, client.recvBuf.take client.recvPos ++ received ++
      client.recvBuf.drop (client.recvPos + received.length) = pending ++ received ++ behind ∧
      (pending ++ received ++ behind).take (client.recvPos + received.length) =
        pending ++ received := by
  refine ⟨_, by rw [isPending.2], ?_⟩
  rw [isPending.1, ← length_append, take_left]

theorem Pending.part (agree : request.LengthsAgree) {received rest more : List UInt8}
    (stream : pending ++ received ++ rest = request.bytes ++ more)
    (short : (pending ++ received).length < request.bytes.length) :
    Pending (client.processAndParseReq received) (pending ++ received) ∧
      (client.processAndParseReq received).passedOk = client.passedOk := by
  rcases isPending.store received with ⟨behind, stored, front⟩
  have isPart : pending ++ received = request.bytes.take (pending ++ received).length := by
    refine prefix_iff_eq_take.1 ?_
    refine prefix_of_prefix_length_le (prefix_append _ rest) ?_ (le_of_lt short)
    rw [stream]
    exact prefix_append _ _
  have parsed := parseRequest_part agree short client.reqST
  rw [← isPart] at parsed
  unfold ProcessClient.processAndParseReq
  rw [stored]
  dsimp only
  rw [front, if_pos parsed.2]
  refine ⟨⟨parsed.1, ?_⟩, rfl⟩
  dsimp only
  rw [parsed.1, take_left]

theorem Pending.whole (agree : request.LengthsAgree) {received rest more : List UInt8}
    (stream : pending ++ received ++ rest = request.bytes ++ more)
    (enough : request.bytes.length ≤ (pending ++ received).length) (inPlace :
      (pending ++ received).drop request.bytes.length <+: pending ++ received) :
    Pending (client.processAndParseReq received) ((pending ++ received).drop request.bytes.length) ∧
      (client.processAndParseReq received).passedOk = client.passedOk ++ [request.passed] := by
  rcases isPending.store received with ⟨behind, stored, front⟩
  have isWhole : pending ++ received = request.bytes ++
    (pending ++ received).drop request.bytes.length := by
    have isPrefix : request.bytes <+: pending ++ received := by
      refine prefix_of_prefix_length_le (prefix_append _ more) ?_ enough
      rw [← stream]
      exact prefix_append _ _
    rcases isPrefix with ⟨extra, extraIs⟩
    rw [← extraIs, drop_left]
  rcases parseRequest_whole agree
    ((pending ++ received).drop request.bytes.length) client.reqST with
    ⟨lenIs, isOk, passedIs⟩
  rw [← isWhole] at lenIs isOk passedIs
  have notRecving : (parseRequest (pending ++ received) client.reqST).2.stat ≠ .recving := by
    rw [isOk]
    exact nofun
  unfold ProcessClient.processAndParseReq
  rw [stored]
  dsimp only
  rw [front, if_neg notRecving]
  refine ⟨⟨lenIs, ?_⟩, ?_⟩
  · dsimp only
    rw [lenIs, take_append_of_le_length inPlace.length_le]
    exact (prefix_iff_eq_take.1 inPlace).symm
  · unfold ProcessClient.passedOk
    rw [passedIs, filter_append]
    rfl

end

theorem allBytes_cons (request : HttpRequest) (requests : List HttpRequest) :
    allBytes (request :: requests) = request.bytes ++ allBytes requests :=
  rfl

theorem passedOk_run {requests : List HttpRequest} {segments : List (List UInt8)}
    (isPending : Pending client pending) (stream : pending ++ segments.flatten = allBytes requests)
    (nonempty : ∀ received ∈ segments, received ≠ [])
    (agree : ∀ request ∈ requests, request.LengthsAgree)
    (inPlace : InPlace requests pending segments) :
    (run ProcessClient.processAndParseReq client segments).passedOk =
      client.passedOk ++ requests.map passed := by
  induction segments generalizing requests client pending with
  | nil =>
    cases requests with
    | nil => simp
    | cons request requests =>
      unfold InPlace at inPlace
      rw [inPlace, allBytes_cons] at stream
      have isNil := (append_eq_nil_iff.1 stream.symm).1
      exact absurd isNil request.bytes_ne_nil
  | cons received segments induction =>
    have later : ∀ other ∈ segments, other ≠ [] :=
      fun other member => nonempty other (mem_cons_of_mem _ member)
    cases requests with
    | nil =>
      have isNil := (append_eq_nil_iff.1 stream).2
      rw [flatten_cons] at isNil
      exact absurd (append_eq_nil_iff.1 isNil).1 (nonempty received mem_cons_self)
    | cons request requests =>
      rw [flatten_cons, ← append_assoc, allBytes_cons] at stream
      have requestAgrees := agree request mem_cons_self
      rw [run_cons]
      unfold InPlace at inPlace
      split at inPlace
      · rename_i enough
        rcases isPending.whole requestAgrees stream enough inPlace.1 with
          ⟨nextPending, passedIs⟩
        have rest : (pending ++ received).drop request.bytes.length ++ segments.flatten =
          allBytes requests := by
          rw [← drop_append_of_le_length enough, stream, drop_left]
        rw [induction nextPending rest later
          (fun other member => agree other (mem_cons_of_mem _ member))
          inPlace.2, passedIs]
        simp
      · rename_i short
        rcases isPending.part requestAgrees stream (Nat.lt_of_not_le short)
          with ⟨nextPending, passedIs⟩
        rw [← allBytes_cons] at stream
        rw [induction nextPending stream later agree inPlace, passedIs]

end HttpRequest

open HttpRequest

/--
The requests of a stream are passed on, in their order and with their own
bodies, where no other field is taken for the length of a body and no receive
brings bytes that belong in front of where they are left.
-/
theorem passedOk_eq_of_inPlace (requests : List HttpRequest) (segments : List (List UInt8))
    (fits : ∀ request ∈ requests, request.bytes.length ≤ maxlenRequest)
    (stream : segments.flatten = allBytes requests) (receives :
      EachStep ProcessClient.processAndParseReq ProcessClient.Receives
        ProcessClient.initial segments) (othersAgree :
      ∀ request ∈ requests, ∀ field ∈ request.fields,
        sameIgnoringCase field.name contentLength = true → ¬ field.IsLength →
          toSize (atoi field.value) = request.body.length)
    (inPlace : InPlace requests [] segments) :
    (run ProcessClient.processAndParseReq ProcessClient.initial segments).passedOk =
      requests.map passed := by
  have nonempty : ∀ received ∈ segments, received ≠ [] := by
    intro received member
    rcases append_of_mem member with ⟨before, after, rfl⟩
    rw [eachStep_append] at receives
    exact receives.2.1.1
  have agree : ∀ request ∈ requests, request.LengthsAgree := by
    intro request member field inFields isTaken
    by_cases isLength : field.IsLength
    · refine toSize_atoi_of_gives (request.lengths field inFields isLength) ?_
      have small := fits request member
      have limit : maxlenRequest < 2 ^ 31 := by decide
      rw [bytes, length_append, length_append] at small
      omega
    · exact othersAgree request member field inFields isTaken isLength
  exact passedOk_run ⟨rfl, rfl⟩ stream nonempty agree inPlace

/-- `Content-Length: 1`. -/
def lengthOne : HeaderField where
  name := literal "Content-Length"
  value := literal " 1"
  nameNonempty := by decide
  nameToken := all_eq_true.1 rfl
  valueText := all_eq_true.1 rfl

def oneByte (uri : List UInt8) (byte : UInt8) (nonempty : uri ≠ [])
    (isTarget : ∀ byte ∈ uri, isTargetByte byte = true) : HttpRequest where
  uri := uri
  fields := [lengthOne]
  body := [byte]
  uriNonempty := nonempty
  uriTarget := isTarget
  hasLength := ⟨lengthOne, mem_cons_self, rfl⟩
  lengths := by
    intro field member _
    rw [mem_singleton.1 member]
    exact ⟨[32], [49], [], rfl, by simp, by simp, all_eq_true.1 rfl, rfl⟩

def twoRequests : List HttpRequest :=
  [oneByte (literal "/parsedata") 97 (by decide) (all_eq_true.1 rfl),
    oneByte (literal "/sqlquery") 98 (by decide) (all_eq_true.1 rfl)]

def twoRequestsApart : List (List UInt8) :=
  [(allBytes twoRequests).take 30, ((allBytes twoRequests).drop 30).take 22,
    (allBytes twoRequests).drop 52]

theorem passedOk_eq_twoRequestsApart : InPlace twoRequests [] twoRequestsApart ∧
    (run ProcessClient.processAndParseReq ProcessClient.initial twoRequestsApart).passedOk =
      twoRequests.map passed := by
  have inPlace : InPlace twoRequests [] twoRequestsApart := by decide
  refine ⟨inPlace, ?_⟩
  refine
    passedOk_eq_of_inPlace twoRequests twoRequestsApart (by decide)
      (by decide) ?_ ?_ inPlace
  · exact ⟨by decide, by decide +kernel, by decide +kernel, trivial⟩
  · intro request member field inFields _ notLength
    refine absurd ?_ notLength
    simp only [twoRequests, mem_cons, not_mem_nil, or_false]
      at member
    rcases member with rfl | rfl
    · rw [mem_singleton.1 inFields]
      rfl
    · rw [mem_singleton.1 inFields]
      rfl

theorem not_passedOk_eq_oneReceive :
    (∀ request ∈ twoRequests, request.bytes.length ≤ maxlenRequest) ∧
      ¬ ∀ segments : List (List UInt8), segments.flatten = allBytes twoRequests →
        EachStep ProcessClient.processAndParseReq ProcessClient.Receives
          ProcessClient.initial segments →
          (run ProcessClient.processAndParseReq ProcessClient.initial segments).passedOk =
            twoRequests.map passed := by
  refine ⟨by decide, fun everySegmentation => ?_⟩
  have passedBoth := everySegmentation [allBytes twoRequests] (by simp) ⟨by decide, trivial⟩
  revert passedBoth
  decide

end SysAnalyzer.Rpc
