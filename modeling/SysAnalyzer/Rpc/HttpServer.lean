import SysAnalyzer.Foundation.ByteSearch
import SysAnalyzer.Foundation.Run
import Mathlib

/-!
# Requests of the HTTP server

`HttpServer` reads a socket into `recvBuf` and parses what is there after every
receive.  `recvPos` is the fill level of the buffer, and `ParseRequest` changes
it through its reference parameter: after a whole request it is the number of
bytes behind the request.  Those bytes stay where they are.
-/

namespace SysAnalyzer.Rpc

open Foundation

/-! ## Text -/

def literal (text : String) : List UInt8 := text.toList.map fun char => UInt8.ofNat char.toNat

/-- `"\r\n"`. -/
def crlf : List UInt8 := [13, 10]

def toLower (byte : UInt8) : UInt8 := if 65 ≤ byte ∧ byte ≤ 90 then byte + 32 else byte

def isSpace (byte : UInt8) : Bool := byte == 32 || (9 ≤ byte && byte ≤ 13)

def isDigit (byte : UInt8) : Bool := 48 ≤ byte && byte ≤ 57

def digitsValue (digits : List UInt8) : Nat :=
  digits.foldl (fun value digit => 10 * value + (digit.toNat - 48)) 0

/-- The sign that `strtol` reads. -/
def splitSign : List UInt8 → Bool × List UInt8
  | 45 :: rest => (true, rest)
  | 43 :: rest => (false, rest)
  | rest => (false, rest)

/-- `atoi`: `strtol`, cut to an `int`. -/
def atoi (text : List UInt8) : Int :=
  let signed := splitSign (text.dropWhile isSpace)
  let value := digitsValue (signed.2.takeWhile isDigit)
  let long : Int :=
    if signed.1 then max (-(value : Int)) (-2 ^ 63)
    else min (value : Int) (2 ^ 63 - 1)
  Int.bmod long (2 ^ 32)

/-- An `int` as a `size_t`. -/
def toSize (value : Int) : Nat := (value % 2 ^ 64).toNat

/--
`strncasecmp(text, constant, text.size()) == 0`, where the constant ends with a
zero byte.
-/
def sameIgnoringCase : List UInt8 → List UInt8 → Bool
  | [], _ => true
  | byte :: _, [] => byte == 0
  | byte :: text, letter :: constant =>
    toLower byte == toLower letter && sameIgnoringCase text constant

def stringSplit (source split : List UInt8) : List (List UInt8) :=
  if split = [] then (if source = [] then [] else [source])
  else splitFuel split (source.length + 1) source

inductive RequstParseStat where
  | init
  | ok
  | bad
  | recving
  deriving DecidableEq

/-- `RequestST`; `body` is an offset in the buffer. -/
structure RequestST where
  stat : RequstParseStat
  method : List UInt8
  uri : List UInt8
  body : Nat
  bodyLen : Nat
  deriving DecidableEq

def contentLength : List UInt8 := literal "Content-Length"

/--
The loop over the header lines, with the status it leaves and `bodyLen`; the
status is `ok` where the loop gets to its end.
-/
def parseHeaderLines : List (List UInt8) → Nat → RequstParseStat × Nat
  | [], bodyLen => (.ok, bodyLen)
  | line :: lines, bodyLen =>
    match find [58] line with
    | none => (.bad, bodyLen)
    | some tagPos =>
      let tag := line.take tagPos
      if sameIgnoringCase tag contentLength then
        let conterntLen := toSize (atoi (line.drop (tagPos + 1)))
        if bodyLen < conterntLen then (.recving, bodyLen)
        else if conterntLen < bodyLen then parseHeaderLines lines conterntLen
        else parseHeaderLines lines bodyLen
      else parseHeaderLines lines bodyLen

/--
`ParseRequest` on the first `len` bytes of the buffer, with the `len` it leaves.
There always is a first header line.
-/
def parseRequest (requst : List UInt8) (httpReq : RequestST) : Nat × RequestST :=
  let len := requst.length
  match find (crlf ++ crlf) requst with
  | none => (len, { httpReq with stat := .recving })
  | some 0 => (0, { httpReq with stat := .bad })
  | some headerLen =>
    let header := requst.take headerLen
    let bodyPos := headerLen + (crlf ++ crlf).length
    let headerlines := stringSplit header crlf
    match stringSplit (headerlines.headD []) (literal " ") with
    | [method, uri, version] =>
      if version ≠ literal "HTTP/1.1" then
        (0, { httpReq with stat := .bad, bodyLen := len - bodyPos })
      else
        let parsed := parseHeaderLines headerlines.tail (len - bodyPos)
        let named : RequestST :=
          { httpReq with
            stat := parsed.1
            method := method
            uri := uri
            bodyLen := parsed.2 }
        match parsed.1 with
        | .bad => (0, named)
        | .recving => (len, named)
        | _ =>
          (len - (bodyPos + parsed.2), { named with
            body := if 0 < parsed.2 then bodyPos else httpReq.body })
    | _ => (0, { httpReq with stat := .bad, bodyLen := len - bodyPos })

def maxlenRequest : Nat := 2 * 1024 + 1024 * 1024

/-- A request as `ProcessRequest` reads it. -/
structure Processed where
  stat : RequstParseStat
  method : List UInt8
  uri : List UInt8
  body : List UInt8
  deriving DecidableEq

/--
The variables of `ProcessClient`, with the requests it has passed on.  `recvBuf`
has the bytes that were ever received into it; nothing behind them is read.
-/
structure ProcessClient where
  recvBuf : List UInt8
  recvPos : Nat
  recvLen : Nat
  reqST : RequestST
  processed : List Processed

namespace ProcessClient

def initial : ProcessClient where
  recvBuf := []
  recvPos := 0
  recvLen := maxlenRequest
  reqST := ⟨.init, [], [], 0, 0⟩
  processed := []

/-- What `ProcessRequest` reads. -/
def request (recvBuf : List UInt8) (reqST : RequestST) : Processed where
  stat := reqST.stat
  method := reqST.method
  uri := reqST.uri
  body := (recvBuf.drop reqST.body).take reqST.bodyLen

/-- `ProcessAndParseReq` for a receive that brings `received`. -/
def processAndParseReq (client : ProcessClient) (received : List UInt8) : ProcessClient :=
  let recvBuf :=
    client.recvBuf.take client.recvPos ++ received ++
      client.recvBuf.drop (client.recvPos + received.length)
  let recvPos := client.recvPos + received.length
  let parsed := parseRequest (recvBuf.take recvPos) client.reqST
  let recvLen := maxlenRequest - parsed.1
  if parsed.2.stat = .recving then
    { client with
      recvBuf := recvBuf
      recvPos := parsed.1
      recvLen := recvLen
      reqST := parsed.2 }
  else
    { recvBuf := recvBuf
      recvPos := parsed.1
      recvLen := recvLen
      reqST := { parsed.2 with stat := .init }
      processed := client.processed ++ [request recvBuf parsed.2] }

/-- What `Recv` may bring. -/
def Receives (client : ProcessClient) (received : List UInt8) : Prop :=
  received ≠ [] ∧ received.length ≤ client.recvLen

instance (client : ProcessClient) (received : List UInt8) : Decidable (client.Receives received) :=
  inferInstanceAs (Decidable (_ ∧ _))

def passedOk (client : ProcessClient) : List Processed :=
  client.processed.filter fun processed => processed.stat == .ok

end ProcessClient

end SysAnalyzer.Rpc
