/-
# `WebkitProxy.Handshake` — the requests before the frames

The first two states of `websocket.c`: a request line, then the headers up to an
empty line.  What they are answered with is the business of `WebkitProxy.HttpRequests`.

* A line ends at the first `"\r\n"` that `strnstr` finds, which does not look behind a
  `NUL`; so no line has one in it, and `strndup` copies a part of it whole.
* The fields of the request stay from one request on a connection to the next, and so
  `Sec-WebSocket-Key` does when the next one has none.
* The value of a header without a colon is read from behind the line up to the next `NUL`,
  which may stand behind the input (`beyond`).
* `Sec-WebSocket-Version` is handed to `on_upgrade`, which does not look at it, and is
  left out.  No state leads to `STATE_KEEP_ALIVE`.
-/
import IDeviceStack.Libplist.Xplist.Content
import IDeviceStack.WebkitProxy.Webinspector
import IDeviceStack.WebkitProxy.Websocket

namespace IDeviceStack.WebkitProxy

open Lib Libplist Libplist.Xplist

def space : UInt8 := 32
def colon : UInt8 := 58
def crlf : List UInt8 := [13, 10]

/-- `strnstr`, for the number of bytes in front of the needle. -/
def strnstr : List UInt8 → List UInt8 → Option Nat
  | [], _ => none
  | c :: u, needle =>
    if c = 0 then none
    else if needle.isPrefixOf (c :: u) then some 0
    else (strnstr u needle).map (· + 1)

/-- `tolower`. -/
def lower (c : UInt8) : UInt8 := if 65 ≤ c ∧ c ≤ 90 then c + 32 else c

/-- `!strcasecmp(s, t)`. -/
def eqNoCase (s t : List UInt8) : Bool := s.map lower == t.map lower

/-- `strcasestr` finds `t` in `s`. -/
def hasNoCase : List UInt8 → List UInt8 → Bool
  | [], t => t.isEmpty
  | c :: s, t => (t.map lower).isPrefixOf ((c :: s).map lower) || hasNoCase s t

/-- `strndup(s, strrchr(s, c) - s)`: what stands before the last `c`, or all of `s`. -/
def beforeLast (c : UInt8) (s : List UInt8) : List UInt8 :=
  if c ∈ s then (s.reverse.dropWhile (· ≠ c)).tail.reverse else s

/-- The fields of `struct ws_private` that the handshake sets. -/
structure Http where
  method : Option (List UInt8)
  resource : Option (List UInt8)
  httpVersion : Option (List UInt8)
  reqHost : Option (List UInt8)
  protocol : Option (List UInt8)
  secKey : Option (List UInt8)
  isWebsocket : Bool
  deriving DecidableEq

def Http.blank : Http := ⟨none, none, none, none, none, none, false⟩

/-! ## The request line -/

/-- A turn of the loop over `trio`: a word, and the rest of the line. -/
def readWord (line : List UInt8) : Option (List UInt8) × List UInt8 :=
  let s := line.dropWhile (· = space)
  let word := s.takeWhile (· ≠ space)
  (if word = [] then none else some word, s.drop word.length)

/-- `ws_read_http_request` on a line. -/
def wsReadHttpRequest (http : Http) (line : List UInt8) : Http :=
  let (method, line) := readWord line
  let (resource, line) := readWord line
  let (httpVersion, _) := readWord line
  { http with method := method, resource := resource, httpVersion := httpVersion }

/-! ## Headers -/

/-- The outcome of `ws_read_http_header`. -/
inductive HeaderLine where
  /-- `on_error`; `in_head` stays. -/
  | error
  /-- The empty line. -/
  | done
  /-- A header, in a line of this length. -/
  | field (key val : List UInt8) (length : Nat)
  deriving DecidableEq

def wsReadHttpHeader (beyond u : List UInt8) : HeaderLine :=
  match strnstr u crlf with
  | none => .error
  | some length =>
    if length = 0 then .done
    else if u.headD 0 = space then .error
    else
      let line := u.take length
      let key := line.take 1 ++ (line.drop 1).takeWhile (· ≠ colon)
      -- without a colon `v_start` is behind `v_end`, and their difference is the largest `size_t`
      if key.length = length then .field key (cstr (u.drop (length + 1) ++ beyond)) length
      else
        let val := (line.drop (key.length + 1)).dropWhile (· = space)
        .field key (val.reverse.dropWhile (· = space)).reverse length

/-- What the loop of `ws_read_headers` knows. -/
structure Headers where
  isConnection : Bool
  isUpgrade : Bool
  http : Http

def Headers.field (h : Headers) (key val : List UInt8) : Headers :=
  if eqNoCase key (ascii "Connection") then
    { h with isConnection := hasNoCase val (ascii "Upgrade") }
  else if eqNoCase key (ascii "Upgrade") then
    { h with isUpgrade := eqNoCase val (ascii "WebSocket") }
  else if eqNoCase key (ascii "Sec-WebSocket-Protocol") then
    { h with http := { h.http with protocol := some val } }
  else if eqNoCase key (ascii "Sec-WebSocket-Key") then
    { h with http := { h.http with secKey := some val } }
  else if eqNoCase key (ascii "Host") then
    { h with http := { h.http with reqHost := some (beforeLast colon val) } }
  else h

/-- The loop of `ws_read_headers`, with the bytes that are left. -/
def headersLoop (beyond : List UInt8) : Nat → Headers → List UInt8 → Headers × List UInt8
  | 0, h, u => (h, u)
  | fuel + 1, h, u =>
    match wsReadHttpHeader beyond u with
    | .error => (h, u)
    | .done => (h, u.drop 2)
    | .field key val length => headersLoop beyond fuel (h.field key val) (u.drop (length + 2))

/-- `ws_read_headers`; every header takes three bytes at least. -/
def wsReadHeaders (beyond : List UInt8) (http : Http) (u : List UInt8) : Http × List UInt8 :=
  let (h, rest) := headersLoop beyond (u.length + 1) ⟨false, false, http⟩ u
  ({ h.http with isWebsocket := h.isConnection && h.isUpgrade && h.http.secKey.isSome }, rest)

/-! ## The connection -/

inductive WsPhase where
  | readHttpRequest
  | readHttpHeaders
  /-- The states behind the handshake, which are those of `Ws`. -/
  | frames
  /-- `STATE_CLOSED` and `STATE_ERROR`. -/
  | ended
  deriving DecidableEq, Repr

/-- `struct ws_private`; `input` is what stands between `in_head` and `in_tail`. -/
structure WsConn where
  phase : WsPhase
  http : Http
  ws : Ws
  input : List UInt8

/-- The handshake is over, one way or the other. -/
def WsConn.Late (conn : WsConn) : Prop := conn.phase = .frames ∨ conn.phase = .ended

def wsPrivateNew : WsConn := ⟨.readHttpRequest, .blank, wsUpgraded, []⟩

/-! ## Numbers -/

/-- `strtol(s, &end, 0)`: the value, and how many characters were used.  A `long` has `bits`
bits. -/
def strtol (bits : Nat) (s : List UInt8) : Int × Nat :=
  let blanks := (s.takeWhile isSpace).length
  let s := s.drop blanks
  let sign := if s.headD 0 = 45 ∨ s.headD 0 = 43 then 1 else 0
  let negative := s.headD 0 = 45
  let s := s.drop sign
  let (base, pre) := numberBase 0 s
  let digits := digitsOf base (s.drop pre)
  if digits = [] then (0, 0)
  else
    let v := digits.foldl (fun v c => v * base + digitValue c) 0
    let top := 2 ^ (bits - 1)
    (if negative then -(min v top : Nat) else (min v (top - 1) : Nat),
      blanks + sign + pre + digits.length)

/-- A `long` as an `int`. -/
def toInt (v : Int) : Int := Int.bmod v (2 ^ 32)

end IDeviceStack.WebkitProxy
