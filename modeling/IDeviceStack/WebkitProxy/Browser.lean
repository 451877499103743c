/-
# `WebkitProxy.Browser` — what a browser sends

The requests and the frames of a websocket client: `ws_recv_loop` of `websocket.c` with
the callbacks of `ios_webkit_debug_proxy.c`.  The states behind the handshake are those
of `WebkitProxy.Websocket`; here is what the callbacks do with the other objects.

* Of a page that is sent only the texts that the device manager and the tables of ports
  and pages make are left to the outside.
* `Utility::decode` writes into a local array of 1025 bytes.  What it writes there goes to
  the device manager, which answers from outside; here it is only counted.
* `/closeproxy/` ends the program once its answer is sent.
-/
import IDeviceStack.WebkitProxy.Closing

namespace IDeviceStack.WebkitProxy.Iwdp

open Lib Libplist Libplist.Xplist

/-- The decimal digits of a number. -/
def decimal (n : Nat) : Str := ascii (toString n)

/-- `!strncmp(s, t, strlen(t))`. -/
def startsWith (s : Str) (t : String) : Bool := (ascii t).isPrefixOf s

/-- `!strncasecmp(s, t, strlen(t))`. -/
def startsWithNoCase (s : Str) (t : String) : Bool :=
  ((ascii t).map lower).isPrefixOf (s.map lower)

/-- What stands behind the last `c`, if there is one. -/
def afterLast (c : UInt8) (s : Str) : Option Str :=
  if c ∈ s then some (s.reverse.takeWhile (· ≠ c)).reverse else none

def slash : UInt8 := 47
def dot : UInt8 := 46

/-! ## Pages -/

def extToMime : List (Str × Str) :=
  [(ascii "css", ascii "text/css"), (ascii "gif", ascii "image/gif; charset=binary"),
    (ascii "html", ascii "text/html; charset=UTF-8"), (ascii "ico", ascii "image/x-icon"),
    (ascii "js", ascii "application/javascript"),
    (ascii "json", ascii "application/json; charset=UTF-8"),
    (ascii "png", ascii "image/png; charset=binary"), (ascii "txt", ascii "text/plain")]

/-- `iwdp_get_content_type`, for a path that is no file. -/
def iwdpGetContentType (path : Str) : Option Str :=
  (afterLast dot path).bind fun ext =>
    (extToMime.find? fun entry => eqNoCase ext entry.1).map Prod.snd

/-- The lines in front of a page. -/
def httpHead (status : Str) (length : Nat) (ctype : Option Str) : Str :=
  ascii "HTTP/1.1 " ++ status ++ crlf ++ ascii "Content-length: " ++ decimal length ++ crlf ++
    ascii "Connection: close" ++
    (match ctype with
      | some ctype => crlf ++ ascii "Content-Type: " ++ ctype
      | none => []) ++ crlf ++ crlf

def iwdpSendHttp (env : Outside) (s : Ptr) (isHead : Bool) (status resource : String)
    (content : Str) : Handler Bool :=
  iwdpSendData env s (httpHead (ascii status) content.length (iwdpGetContentType (ascii resource)) ++
    if isHead then [] else content)

def iwdpOnNotFound (env : Outside) (s : Ptr) (isHead : Bool) (resource : Str) (details : String) :
    Handler Bool :=
  iwdpSendHttp env s isHead "404 Not Found" ".html"
    (ascii "<html><title>Error 404 (Not Found)</title>\n<p><b>404.</b> <ins>That's an error.</ins>\n" ++
      ascii "<p>The requested URL <code>" ++ resource ++ ascii "</code> was not found.\n" ++
      ascii details ++ ascii "</html>")

/-- The objects of a table, one after the other. -/
def visit {α : Type} (get : Ptr → Handler α) (ps : List Ptr) : Handler Unit :=
  ps.forM fun p => do
    let _ ← get p
    pure ()

/-- The objects of a list: the pages of the device of a port, or all ports. -/
def visitListed (iport : Iport) : Handler Unit :=
  match iport.deviceId with
  | some _ => do
      let i ← notNull iport.iwi
      let iwi ← getIwi i
      visit getIpage iwi.pageNumToIpage.values
  | none => do
      let w ← get
      visit getIport w.graph.deviceIdToIport.values

def iwdpOnListRequest (env : Outside) (s : Ptr) (isHead wantJson : Bool) (host : Option Str) :
    Handler Bool := do
  let iws ← getIws s
  let iport ← getIport iws.iport
  visitListed iport
  let n ← ask
  iwdpSendHttp env s isHead "200 OK" (if wantJson then ".json" else ".html")
    (env.listText n wantJson host)

/-! ## Devtools -/

def devtoolsPage : String := "/devtools/page/"

/-- The number in `/devtools/page/<page_num>`, and -1 if it is none. -/
def pageNumOf (env : Outside) (resource : Str) : Int :=
  let text := resource.drop (ascii devtoolsPage).length
  let (value, length) := strtol env.longBits text
  if length ≠ text.length ∨ text = [] then -1 else toInt value

/-- The page with this number, of the inspector `iwi`. -/
def pageWithNum (iwi : Iwi) (pageNum : Int) : Option Ptr :=
  if 0 < pageNum ∧ pageNum ≤ iwi.maxPageNum then iwi.pageNumToIpage.lookup pageNum.toNat else none

/-- The page that a resource asks for, if the inspector of the port has it. -/
def requestedPage (env : Outside) (iport : Iport) (resource : Str) : Handler (Option Ptr) :=
  match iport.iwi with
  | none => pure none
  | some i => do
      let iwi ← getIwi i
      pure (pageWithNum iwi (pageNumOf env resource))

def iwdpOnDevtoolsRequest (env : Outside) (s : Ptr) (resource : Str) : Handler Bool := do
  let iws ← getIws s
  let iport ← getIport iws.iport
  match ← requestedPage env iport resource with
  | none => iwdpOnNotFound env s false resource "Unknown page id"
  | some q => iwdpStartDevtools env q s

/-! ## Static pages -/

/-- The characters that a path may have. -/
def isPathChar (c : UInt8) : Bool :=
  (97 ≤ c && c ≤ 122) || (65 ≤ c && c ≤ 90) || (48 ≤ c && c ≤ 57) || c ∈ ascii "-./_"

def iwdpGetFrontendPath (fePath resource : Str) : Option Str :=
  let feFile := afterLast slash fePath
  let fePathLen := match feFile with
    | some file => fePath.length - file.length
    | none => 0
  if ¬ startsWith resource "/devtools/" then none
  else
    let res := resource.drop 10
    let slashes := (res.takeWhile (· = slash)).length
    let resLen := slashes + ((res.drop slashes).takeWhile isPathChar).length
    if (strnstr (res.take resLen) (ascii "..")).isSome then none
    else
      some (fePath.take fePathLen ++
        match feFile with
        | some file => if resLen = 0 then file else res.take resLen
        | none => res.take resLen)

/-- The loop that sends a file: how many bytes went out. -/
def sendReads (env : Outside) (s : Ptr) : List (List UInt8) → Handler Nat
  | [] => pure 0
  | bytes :: reads =>
    if bytes = [] then pure 0
    else do
      if ← iwdpSendData env s bytes then do
        let n ← sendReads env s reads
        pure (bytes.length + n)
      else pure 0

def iwdpOnStaticRequestForFile (env : Outside) (s : Ptr) (isHead : Bool) (resource fePath : Str) :
    Handler Bool := do
  let iws ← getIws s
  let _ ← getIport iws.iport
  match iwdpGetFrontendPath fePath resource with
  | none => iwdpSendHttp env s isHead "403 Forbidden" ".txt" (ascii "Invalid path")
  | some path => do
      let n ← ask
      match env.openFile n path with
      | .missing isQrc =>
        iwdpOnNotFound env s isHead resource
          (if isQrc then "Missing code-generated WebKit file" else "")
      | .notFile => iwdpSendHttp env s isHead "403 Forbidden" ".txt" (ascii "Not a file")
      | .file length ctype reads => do
          let ok ← iwdpSendData env s (httpHead (ascii "200 OK") length ctype)
          if ¬ ok ∨ isHead ∨ length = 0 then pure ok
          else do
            let n ← sendReads env s reads
            pure (n == length)

/-- `"%s %s HTTP/1.1\r\nHost: …"`, for the file server. -/
def fileRequest (isHead : Bool) (path host : Str) : Str :=
  ascii (if isHead then "HEAD" else "GET") ++ [space] ++ path ++ ascii " HTTP/1.1" ++ crlf ++
    ascii "Host: " ++ host ++ crlf ++ ascii "Connection: close" ++ crlf ++ ascii "Accept: */*" ++
    crlf ++ crlf

/-- The host and the port in a frontend URL, given what stands before its path. -/
def hostAndPort (env : Outside) (site : Str) : Str × Int :=
  let host := site.takeWhile (· ≠ colon)
  if colon ∈ site then
    let port := toInt (strtol env.longBits (site.drop (host.length + 1))).1
    (host, if 0 < port then port else 80)
  else (host, 80)

/-- `iwdp_on_static_request_for_http`; the second result is `*to_keep_alive`. -/
def iwdpOnStaticRequestForHttp (env : Outside) (s : Ptr) (isHead : Bool) (resource feUrl : Str) :
    Handler (Bool × Bool) := do
  let iws ← getIws s
  let _ ← getIport iws.iport
  let feHost := feUrl.drop 7
  if slash ∉ feHost then do
    let ok ← iwdpSendHttp env s isHead "500 Server Error" ".txt" (ascii "Invalid frontend URL?")
    pure (ok, false)
  else
    let site := feHost.takeWhile (· ≠ slash)
    match iwdpGetFrontendPath (feHost.drop site.length) resource with
    | none => do
        let ok ← iwdpSendHttp env s isHead "403 Forbidden" ".txt" (ascii "Invalid path")
        pure (ok, false)
    | some path => do
        let (host, port) := hostAndPort env site
        let n ← ask
        if ¬ env.connects n host port then do
          let ok ← iwdpSendHttp env s isHead "500 Server Error" ".txt"
            (ascii "Unable to connect to " ++ host ++ [colon] ++ ascii (toString port))
          pure (ok, false)
        else do
          let fsFd ← newFd env
          let f ← malloc
          link fun g => g.setIfs f ⟨some s, fsFd⟩
          let iws ← getIws s
          link fun g => g.setIws s { iws with ifs := some f }
          if ← smAddFd fsFd (.ifs f) then do
            let ok ← sendFd env fsFd (fileRequest isHead path host)
            pure (ok, true)
          else pure (false, false)

/-- `strstr(s, "://")`. -/
def hasScheme (s : Str) : Bool := (strnstr s (ascii "://")).isSome

def iwdpOnStaticRequest (env : Outside) (s : Ptr) (isHead : Bool) (resource : Str) :
    Handler (Bool × Bool) := do
  let iws ← getIws s
  let _ ← getIport iws.iport
  match env.frontend with
  | none => do
      let ok ← iwdpOnNotFound env s isHead resource "Frontend is disabled."
      pure (ok, false)
  | some feUrl =>
    if ¬ hasScheme feUrl then do
      let ok ← iwdpOnStaticRequestForFile env s isHead resource feUrl
      pure (ok, false)
    else if startsWithNoCase feUrl "file://" then do
      let ok ← iwdpOnStaticRequestForFile env s isHead resource (feUrl.drop 7)
      pure (ok, false)
    else if startsWithNoCase feUrl "http://" then
      iwdpOnStaticRequestForHttp env s isHead resource feUrl
    else do
      let ok ← iwdpOnNotFound env s isHead resource "Invalid frontend URL?"
      pure (ok, false)

/-! ## Requests -/

/-- `Utility::ishex`. -/
def isHex (c : UInt8) : Bool := digitValue c < 16

/-- How many bytes `Utility::decode` writes, the `NUL` at the end of the string included. -/
def decodeLength : Str → Nat
  | [] => 1
  | c :: rest =>
    if c = 37 then
      match rest with
      | a :: b :: rest => if isHex a && isHex b then decodeLength rest + 1 else 0
      | _ => 0
    else decodeLength rest + 1

/-- `Utility::decode` into the array of `iwdp_on_http_request`. -/
def decode (resource : Str) : Handler Unit :=
  if 1025 < decodeLength resource then throw .overrun else pure ()

def requestIsDeviceBusy : String := "/isDeviceBusy"
def requestCleanupDevice : String := "/cleanupdevicedata"

/-- A page, and no `*to_keep_alive`. -/
def page (m : Handler Bool) : Handler (Bool × Bool) := do
  let ok ← m
  pure (ok, false)

/-- The branch of `iwdp_on_http_request` for requests that are no websocket's. -/
def onPlainRequest (env : Outside) (s : Ptr) (isHead : Bool) (resource : Str) (host : Option Str) :
    Handler (Bool × Bool) :=
  if resource = [] ∨ resource = ascii "/" then page (iwdpOnListRequest env s isHead false host)
  else if resource = ascii "/json" ∨ resource = ascii "/json/list" then
    page (iwdpOnListRequest env s isHead true host)
  else if startsWith resource "/devtools/" then iwdpOnStaticRequest env s isHead resource
  else if startsWith resource "/closeproxy/" then do
    let _ ← iwdpSendHttp env s isHead "200 OK" ".html" (ascii "close proxy")
    throw .exited
  else if startsWith resource "/proxystatus/" then do
    let n ← ask
    page (iwdpSendHttp env s isHead "200 OK" ".html"
      (ascii (if env.hasError n then "not_ready" else "alive")))
  else page (iwdpOnNotFound env s isHead resource "")

/-- `iwdp_on_http_request`; the second result is `*to_keep_alive`. -/
def iwdpOnHttpRequest (env : Outside) (s : Ptr) (method resource : Str) (host : Option Str)
    (isWebsocket : Bool) : Handler (Bool × Bool) := do
  let isGet := method == ascii "GET"
  let isHead := !isGet && method == ascii "HEAD"
  if startsWith resource requestIsDeviceBusy then do
    decode resource
    let n ← ask
    page (iwdpSendHttp env s isHead "200 OK" ".html" (ascii (if env.isBusy n then "0" else "-1")))
  else if startsWith resource requestCleanupDevice then do
    decode resource
    page (iwdpSendHttp env s isHead "200 OK" ".html" (ascii "0"))
  else if isWebsocket then
    if isGet && startsWith resource devtoolsPage then page (iwdpOnDevtoolsRequest env s resource)
    else page (iwdpOnNotFound env s isHead resource "")
  else if !isGet && !isHead then page (iwdpOnNotFound env s isHead resource "Method Not Allowed")
  else onPlainRequest env s isHead resource host

/-- The answer of `ws_send_upgrade`. -/
def upgradeBytes (protocol : Option Str) (secAnswer : Str) : Str :=
  ascii "HTTP/1.1 101 WebSocket Protocol Handshake" ++ crlf ++ ascii "Upgrade: WebSocket" ++ crlf ++
    ascii "Connection: Upgrade" ++ crlf ++
    (match protocol with
      | some protocol => ascii "Sec-WebSocket-Protocol: " ++ protocol ++ crlf
      | none => []) ++
    ascii "Sec-WebSocket-Accept: " ++ secAnswer ++ crlf ++ crlf

def modifyWs (s : Ptr) (f : WsConn → WsConn) : Handler Unit :=
  modify fun w => { w with ws := Function.update w.ws s (f (w.ws s)) }

/-- `ws_send_upgrade`, which is all that `iwdp_on_upgrade` does.  What stands around the answer and
the protocol takes less than 1024 bytes. -/
def wsSendUpgrade (env : Outside) (s : Ptr) (http : Http) : Handler Bool := do
  let w ← get
  match http.resource, http.secKey with
  | some _, some secKey => do
      let bytes := upgradeBytes http.protocol (env.answer secKey)
      let needed := 1024 + (env.answer secKey).length + (http.protocol.getD []).length
      match cbEnsureCapacity env.machine (cbClear (w.ws s).ws.out) needed with
      | (out, false) => do
          modifyWs s fun conn => { conn with ws := { conn.ws with out := out } }
          pure false
      | (out, true) => do
          modifyWs s fun conn => { conn with ws := { conn.ws with out := out.put bytes } }
          iwdpSendData env s bytes
  | _, _ => pure false

/-! ## Frames -/

/-- The page that a websocket has lost, if it had one. -/
def lostPage (iwi : Iwi) (pageNum : Nat) : Handler (Option Bool) :=
  if pageNum = 0 then pure none
  else
    match iwi.pageNumToIpage.lookup pageNum with
    | none => pure none
    | some q => do
        let ipage ← getIpage q
        pure (some ipage.iws.isSome)

/-- `iwdp_on_frame` for `OPCODE_BINARY`. -/
def onBinary (env : Outside) (s : Ptr) (frame : Frame) : Handler Bool :=
  if ¬ frame.isFin then pure true
  else if ¬ frame.isMasking then sendClose env s closeProtocolError (ascii "Clients must mask")
  else do
    let iws ← getIws s
    let iport ← getIport iws.iport
    match iport.iwi with
    | none => sendClose env s closeGoingAway (ascii "inspector closed?")
    | some i => do
        let iwi ← getIwi i
        match iws.ipage with
        | none => do
            let lost ← lostPage iwi iws.pageNum
            sendClose env s closeGoingAway
              (ascii "Page " ++ ascii (toString iport.port) ++ [slash] ++
                ascii (toString (toInt iws.pageNum)) ++ [space] ++
                ascii (match lost with
                  | some true => "claimed by local"
                  | some false => "claimed by remote"
                  | none => "not found"))
        | some q => do
            let ipage ← getIpage q
            sendForwardSocketData env i iwi.connectionId ipage.appId ipage.pageId ipage.senderId
              (some frame.data)

def iwdpOnFrame (env : Outside) (s : Ptr) (frame : Frame) : Handler Bool :=
  if frame.opcode = opcodeBinary then onBinary env s frame
  else if frame.opcode = opcodeClose then sendClose env s closeNormal []
  else if frame.opcode = opcodePing then sendFrame env s (plainFrame opcodePong frame.data)
  else if frame.opcode = opcodePong then pure true
  else pure false

/-! ## The receive loop -/

/-- The outcome of one turn of `ws_recv_loop`. -/
inductive Next where
  /-- More bytes are needed. -/
  | wait
  | go (consumed : Nat)
  /-- `STATE_CLOSED` and `STATE_ERROR`. -/
  | halt (consumed : Nat)
  deriving DecidableEq

/-- `my->state = STATE_CLOSED`, or `STATE_ERROR`. -/
def endWs (s : Ptr) (consumed : Nat) : Handler Next := do
  modifyWs s fun conn => { conn with phase := .ended }
  pure (.halt consumed)

def wsRecvRequest (s : Ptr) (u : List UInt8) : Handler Next := do
  let w ← get
  match strnstr u crlf with
  | none => pure .wait
  | some length => do
      let http := wsReadHttpRequest (w.ws s).http (u.take length)
      modifyWs s fun conn => { conn with http := http }
      if http.httpVersion.isSome then do
        modifyWs s fun conn => { conn with phase := .readHttpHeaders }
        pure (.go length)
      else endWs s length

/-- The end of `ws_recv_headers`, after `on_http_request`. -/
def afterRequest (env : Outside) (s : Ptr) (http : Http) (consumed : Nat) :
    Bool × Bool → Handler Next
  | (false, _) => endWs s consumed
  | (true, keepAlive) =>
    if ¬ http.isWebsocket then
      if keepAlive then do
        modifyWs s fun conn => { conn with phase := .readHttpRequest }
        pure (.go consumed)
      else endWs s consumed
    else do
      if ← wsSendUpgrade env s http then do
        modifyWs s fun conn => { conn with phase := .frames }
        pure (.go consumed)
      else endWs s consumed

/-- `ws_recv_headers`; `u` begins with the end of the request line. -/
def wsRecvHeaders (env : Outside) (s : Ptr) (u : List UInt8) : Handler Next := do
  let w ← get
  if (strnstr u (crlf ++ crlf)).isNone then pure .wait
  else do
    let (http, rest) := wsReadHeaders env.beyond (w.ws s).http (u.drop 2)
    modifyWs s fun conn => { conn with http := http }
    let answer ← iwdpOnHttpRequest env s (http.method.getD []) (http.resource.getD []) http.reqHost
      http.isWebsocket
    afterRequest env s http (u.length - rest.length) answer

/-- The end of `ws_recv_frame`, after `on_frame`. -/
def afterOnFrame (s : Ptr) (frame : Frame) (consumed : Nat) (ok : Bool) : Handler Next :=
  if ¬ ok then endWs s consumed
  else do
    modifyWs s fun conn => { conn with ws := { conn.ws with
        data := if frame.isFin then cbClear conn.ws.data else conn.ws.data
        continuedOpcode :=
          if frame.isFin then 0
          else if frame.opcode ≠ opcodeContinuation then frame.opcode
          else conn.ws.continuedOpcode
        state := .readFrameLength } }
    if frame.opcode = opcodeClose then endWs s consumed else pure (.go consumed)

/-- `ws_recv_frame`.  `should_keep` is set before `on_frame` and never cleared. -/
def recvFrame (env : Outside) (s : Ptr) (u : List UInt8) : Handler Next := do
  let w ← get
  let ws := (w.ws s).ws
  if ws.neededLength ≠ 0 ∨ ws.frameLength = 0 ∨ u.length < ws.frameLength then pure .wait
  else
    match wsReadFrame (wsEnv env true) ws u with
    | .error ws consumed e => do
        modifyWs s fun conn => { conn with ws := ws.call (.onError e) }
        endWs s consumed
    | .crash => throw .overrun
    | .ok ws consumed isFin opcode isMasking => do
        let frame : Frame := ⟨isFin, opcode, isMasking, ws.data.block.take ws.data.tail⟩
        modifyWs s fun conn => { conn with ws := ws.call (.onFrame frame) }
        let ok ← iwdpOnFrame env s frame
        afterOnFrame s frame consumed ok

/-- `ws_recv_frame_length`. -/
def recvFrameLength (env : Outside) (s : Ptr) (u : List UInt8) : Handler Next := do
  let w ← get
  match wsReadFrameLength env.machine.bits (w.ws s).ws u with
  | (ws, some e) => do
      modifyWs s fun conn => { conn with ws := ws.call (.onError e) }
      endWs s 0
  | (ws, none) => do
      modifyWs s fun conn => { conn with ws := ws }
      if ws.neededLength ≠ 0 ∨ ws.frameLength = 0 then pure .wait
      else do
        modifyWs s fun conn => { conn with ws := { ws with state := .readFrame } }
        pure (.go 0)

/-- One turn of the `while` in `ws_recv_loop`. -/
def wsTurn (env : Outside) (s : Ptr) (u : List UInt8) : Handler Next := do
  let w ← get
  match (w.ws s).phase with
  | .readHttpRequest => wsRecvRequest s u
  | .readHttpHeaders => wsRecvHeaders env s u
  | .frames => if (w.ws s).ws.state = .readFrame then recvFrame env s u else recvFrameLength env s u
  | .ended => pure (.halt 0)

/-- `ws_recv_loop`, with the bytes that are left and whether it succeeds. -/
def wsRecvLoop (env : Outside) (s : Ptr) : Nat → List UInt8 → Handler (List UInt8 × Bool)
  | 0, u => pure (u, true)
  | fuel + 1, u => do
      match ← wsTurn env s u with
      | .wait => pure (u, true)
      | .halt consumed => pure (u.drop consumed, false)
      | .go consumed =>
        if (u.drop consumed).isEmpty then pure ([], true)
        else wsRecvLoop env s fuel (u.drop consumed)

/-- A turn that uses no byte leads to one that does. -/
def loopFuel (u : List UInt8) : Nat := 2 * u.length + 2

/-- `ws_on_recv`, on a chunk that is not empty. -/
def wsOnRecv (env : Outside) (s : Ptr) (buf : List UInt8) : Handler Bool := do
  let _ ← getIws s
  let w ← get
  let u := (w.ws s).input ++ buf
  let (rest, ok) ← wsRecvLoop env s (loopFuel u) u
  modifyWs s fun conn => { conn with input := rest }
  pure ok

end IDeviceStack.WebkitProxy.Iwdp
