import SysAnalyzer.Hdc.Serialize

/-!
# The hdc handshake

`serializeSessionHandShake` writes five fields one behind the other, and
`parseHandshake` reads them back at assumed widths: one byte for the length of a
string and for the authentication type, three bytes for the session id.  The
length of a string is written in code units and consumed in bytes.

On handshakes whose fields have these widths every field comes back.  The error
of a field shifts all that follow it.
-/

namespace SysAnalyzer.Hdc

open Foundation List

/-- `SessionHandShake`; what is written are texts, what is read code units. -/
structure SessionHandShake (Text : Type) where
  banner : Text
  authType : Int
  sessionId : Int
  connectKey : Text
  buf : Text
  deriving DecidableEq

/-- The handshake whose strings are the code units of these texts. -/
def SessionHandShake.units (handShake : SessionHandShake (List Char)) :
    SessionHandShake UnitString :=
  { handShake with
    banner := utf16 handShake.banner
    connectKey := utf16 handShake.connectKey
    buf := utf16 handShake.buf }

namespace Serialize

def serializeSessionHandShake (handShake : SessionHandShake (List Char)) : List UInt8 :=
  let bannerValue := serializeToString 1 handShake.banner
  let authTypeValue := serializeU8 2 handShake.authType
  let sessionIdValue := serializeU32 3 handShake.sessionId
  let connectKey := serializeToString 4 handShake.connectKey
  let buf := serializeToString 5 handShake.buf
  bannerValue ++ authTypeValue ++ sessionIdValue ++ connectKey ++ buf

/-- `parseHandshake`; the tags are read too, but nothing looks at them. -/
def parseHandshake (bannerBuffer : List UInt8) : SessionHandShake UnitString :=
  let bannerLengthBuf := sliceFrom bannerBuffer 1
  let bannerSize := readVarIntU32 bannerLengthBuf
  let bannerDataBuffer := sliceFrom bannerLengthBuf 1
  let banner := parseString bannerDataBuffer bannerSize
  let authBuffer := sliceFrom bannerDataBuffer bannerSize
  let authDataBuffer := sliceFrom authBuffer 1
  let authType := parseU8 authDataBuffer 1
  let sessionIdBuffer := sliceFrom authDataBuffer 1
  let sessionDataBuffer := sliceFrom sessionIdBuffer 1
  let sessionId := parseU32 sessionDataBuffer 3
  let connectKeyBuffer := sliceFrom sessionDataBuffer 3
  let connectLengthBuffer := sliceFrom connectKeyBuffer 1
  let connectKeySize := readVarIntU32 connectLengthBuffer
  let connectDataBuffer := sliceFrom connectLengthBuffer 1
  let connectKey := parseString connectDataBuffer connectKeySize
  let bufBuffer := sliceFrom connectDataBuffer connectKeySize
  let lengthBuffer := sliceFrom bufBuffer 1
  let bufSize := readVarIntU32 lengthBuffer
  let dataBuffer := sliceFrom lengthBuffer 1
  let buf := parseString dataBuffer bufSize
  ⟨banner, authType, sessionId, connectKey, buf⟩

/-- A string field of the assumed width: ASCII, with a length of one byte. -/
structure ShortAscii (text : List Char) : Prop where
  ascii : ∀ character ∈ text, character.toNat < 128
  short : text.length < 128

section ShortAscii

variable {text : List Char}

theorem utf8_of_ascii (ascii : ∀ character ∈ text, character.toNat < 128) :
    utf8 text = text.map fun character => UInt8.ofNat character.toNat := by
  induction text with
  | nil => rfl
  | cons character rest induction =>
    rw [utf8_cons, utf8EncodeChar_ascii (ascii character mem_cons_self),
      induction fun other member => ascii other (.tail _ member)]
    rfl

theorem ShortAscii.lengths (fits : ShortAscii text) :
    (utf8 text).length = text.length ∧ (utf16 text).length = text.length := by
  rw [utf8_of_ascii fits.ascii, utf16_ascii fits.ascii]
  exact ⟨length_map _, length_map _⟩

theorem ShortAscii.decode_utf8 (fits : ShortAscii text) :
    TextDecoder.decode (utf8 text) = utf16 text := by
  refine TextDecoder.decode_utf8 ?_
  cases text with
  | nil => simp
  | cons character rest =>
    have small := fits.ascii character mem_cons_self
    simp only [List.head?_cons, Option.map_some, ne_eq, Option.some.injEq]
    omega

theorem ShortAscii.read (fits : ShortAscii text) {tag : Nat} (tagSmall : tag < 16)
    (rest : List UInt8) :
    let lengthBuffer := sliceFrom (serializeToString tag text ++ rest) 1
    let dataBuffer := sliceFrom lengthBuffer 1
    readVarIntU32 lengthBuffer = text.length ∧ parseString dataBuffer text.length = utf16 text ∧
      sliceFrom dataBuffer text.length = rest := by
  rcases fits.lengths with ⟨byteLength, unitLength⟩
  have short := fits.short
  have bytes : serializeToString tag text ++ rest = UInt8.ofNat (8 * tag + 2) ::
    (UInt8.ofNat text.length :: (utf8 text ++ rest)) := by
    rw [serializeToString_eq tag tagSmall (by omega), unitLength, shortestBytes_small short]
    simp
  have afterTag : sliceFrom (serializeToString tag text ++ rest) 1 =
    UInt8.ofNat text.length :: (utf8 text ++ rest) := by
    rw [bytes]
    exact sliceFrom_natCast _ 1
  have afterLength : sliceFrom (UInt8.ofNat text.length :: (utf8 text ++ rest)) 1 =
    utf8 text ++ rest :=
    sliceFrom_natCast _ 1
  intro lengthBuffer dataBuffer
  have asLength : lengthBuffer = _ := afterTag
  have asData : dataBuffer = utf8 text ++ rest := by rw [← afterLength, ← asLength]
  rw [asData, asLength]
  refine ⟨?_, ?_, ?_⟩
  · rw [← singleton_append, ← shortestBytes_small short]
    exact readVarIntU32_shortestBytes (by omega) _
  · rw [parseString, sliceTo_natCast, take_left' byteLength, fits.decode_utf8]
  · rw [sliceFrom_natCast, drop_left' byteLength]

end ShortAscii

theorem read_serializeU32 {tag value : Nat} (tagSmall : tag < 16) (small : value < 2 ^ 31)
    {width : Nat} (length : (shortestBytes value).length = width) (rest : List UInt8) :
    let dataBuffer := sliceFrom (serializeU32 tag value ++ rest) 1
    parseU32 dataBuffer width = value ∧ sliceFrom dataBuffer width = rest := by
  have afterTag : sliceFrom (serializeU32 tag value ++ rest) 1 = shortestBytes value ++ rest := by
    rw [serializeU32_eq tag tagSmall small]
    exact sliceFrom_natCast _ 1
  intro dataBuffer
  have asData : dataBuffer = shortestBytes value ++ rest := afterTag
  rw [asData]
  refine ⟨readVarIntU32_shortestBytes small rest, ?_⟩
  rw [sliceFrom_natCast, drop_left' length]

theorem length_shortestBytes_one {number : Nat} (small : number < 128) :
    (shortestBytes number).length = 1 := by
  rw [shortestBytes_small small]
  rfl

theorem length_shortestBytes_three {number : Nat} (low : 2 ^ 14 ≤ number) (high : number < 2 ^ 21) :
    (shortestBytes number).length = 3 := by
  rw [shortestBytes_large (by omega), shortestBytes_large (by omega),
    shortestBytes_small (by omega)]
  rfl

/-- Every field has the width at which the reader takes it. -/
structure AssumedWidths (handShake : SessionHandShake (List Char)) : Prop where
  banner : ShortAscii handShake.banner
  authType : 0 ≤ handShake.authType ∧ handShake.authType < 128
  sessionId : 2 ^ 14 ≤ handShake.sessionId ∧ handShake.sessionId < 2 ^ 21
  connectKey : ShortAscii handShake.connectKey
  buf : ShortAscii handShake.buf

/-- A handshake with fields of the assumed widths comes back. -/
theorem parseHandshake_serializeSessionHandShake {handShake : SessionHandShake (List Char)}
    (widths : AssumedWidths handShake) :
    parseHandshake (serializeSessionHandShake handShake) = handShake.units := by
  rcases handShake with ⟨banner, authType, sessionId, connectKey, buf⟩
  rcases widths with
    ⟨bannerFits, ⟨authTypeLow, authTypeHigh⟩, ⟨sessionIdLow, sessionIdHigh⟩,
      connectKeyFits, bufFits⟩
  simp only at bannerFits connectKeyFits bufFits
  simp only at authTypeLow authTypeHigh sessionIdLow sessionIdHigh
  lift authType to Nat using authTypeLow
  lift sessionId to Nat using (by omega)
  norm_cast at authTypeHigh sessionIdLow sessionIdHigh
  let fromBuf := serializeToString 5 buf ++ []
  let fromConnectKey := serializeToString 4 connectKey ++ fromBuf
  let fromSessionId := serializeU32 3 sessionId ++ fromConnectKey
  let fromAuthType := serializeU32 2 authType ++ fromSessionId
  have bytes : serializeSessionHandShake ⟨banner, authType, sessionId, connectKey, buf⟩ =
    serializeToString 1 banner ++ fromAuthType := by
    simp [serializeSessionHandShake, serializeU8, fromAuthType, fromSessionId,
      fromConnectKey, fromBuf]
  rcases bannerFits.read (show 1 < 16 by decide) fromAuthType with
    ⟨bannerSize, bannerRead, afterBanner⟩
  rcases read_serializeU32 (show 2 < 16 by decide)
    (show authType < 2 ^ 31 by omega)
    (length_shortestBytes_one authTypeHigh) fromSessionId with
    ⟨authTypeRead, afterAuthType⟩
  rcases read_serializeU32 (show 3 < 16 by decide)
    (show sessionId < 2 ^ 31 by omega)
    (length_shortestBytes_three sessionIdLow sessionIdHigh)
    fromConnectKey with
    ⟨sessionIdRead, afterSessionId⟩
  rcases connectKeyFits.read (show 4 < 16 by decide) fromBuf with
    ⟨connectKeySize, connectKeyRead, afterConnectKey⟩
  rcases bufFits.read (show 5 < 16 by decide) [] with
    ⟨bufSize, bufRead, _⟩
  -- the tags and widths of the rules are the literals of the program
  push_cast at bannerSize bannerRead afterBanner
  push_cast at authTypeRead afterAuthType sessionIdRead afterSessionId
  push_cast at connectKeySize connectKeyRead afterConnectKey bufSize bufRead
  rw [bytes]
  simp only [parseHandshake, parseU8, bannerSize, bannerRead, afterBanner,
    fromAuthType, authTypeRead, afterAuthType, fromSessionId, sessionIdRead,
    afterSessionId, fromConnectKey, connectKeySize, connectKeyRead,
    afterConnectKey, fromBuf, bufSize, bufRead, SessionHandShake.units]

theorem parseHandshake_serializeSessionHandShake_client :
    parseHandshake (serializeSessionHandShake ⟨['O', 'H', 'O', 'S', ' ', 'H', 'D', 'C'], 0, 2000000,
      ['1', '2', '7'], []⟩) =
      SessionHandShake.units ⟨['O', 'H', 'O', 'S', ' ', 'H', 'D', 'C'], 0, 2000000,
        ['1', '2', '7'], []⟩ :=
  parseHandshake_serializeSessionHandShake
    ⟨⟨by simp, by decide⟩, by decide, by decide, ⟨by simp, by decide⟩,
      ⟨by simp, by decide⟩⟩

/-- A session id of four bytes shifts the fields behind it. -/
theorem parseHandshake_longSessionId : parseHandshake (serializeSessionHandShake
    ⟨['O', 'H', 'O', 'S', ' ', 'H', 'D', 'C'], 0, 50000000, ['1', '2', '7'], []⟩) ≠
    SessionHandShake.units ⟨['O', 'H', 'O', 'S', ' ', 'H', 'D', 'C'], 0, 50000000,
      ['1', '2', '7'], []⟩ := by
  decide

end Serialize

end SysAnalyzer.Hdc
