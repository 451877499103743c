/-
# `WebkitProxy.Listings` — the lists of ports and of pages

`iwdp_iports_to_text` and `iwdp_ipages_to_text` of `ios_webkit_debug_proxy.c`, and what a
JSON reader makes of their texts.  A title, an `appId` and the names of a device are escaped;
a url, the host of the request and the path of the frontend are not, and the escape of a
control character has its number in decimal digits where JSON has hexadecimal ones.

* A string is the bytes in front of its `NUL`, and shorter than a sixth of 2³¹: `len * 6 + 1` is an
  `int`.
* `qsort` is any sort: the keys of a table of pages are their numbers, so that no two are alike.
* The names of a device are there when an HTML page is made of them.
-/
import IDeviceStack.Lib.Json
import IDeviceStack.WebkitProxy.Browser

namespace IDeviceStack.WebkitProxy.Iwdp

open Lib Libplist Libplist.Xplist List Option

/-- `%d`. -/
def decimalInt (n : Int) : Str := ascii (toString n)

def iwdpEscapeJsonStringVal (str : Str) : Str :=
  str.flatMap fun c =>
    if c < 32 then ascii "\\u" ++ (decimal c.toNat).leftpad 4 48
    else if c = 34 ∨ c = 92 then [92, c]
    else [c]

/-- The loop over the sorted entries: `sumLen` is the length of the items so far. -/
def itemsOf {α : Type} (item : Nat → α → Option Str) : Nat → List α → List Str
  | _, [] => []
  | sumLen, x :: xs =>
    match item sumLen x with
    | some s => s :: itemsOf item (sumLen + s.length) xs
    | none => itemsOf item sumLen xs

/-! ## Ports -/

/-- What `iwdp_iports_to_text` reads of a port. -/
structure NamedIport where
  iport : Iport
  deviceName : Option Str

/-- `iwdp_iport_cmp`, which compares two ports as numbers without a sign. -/
def iportLe (p q : NamedIport) : Bool :=
  p.iport.port % 2 ^ 32 ≤ q.iport.port % 2 ^ 32

def hostText (host : Option Str) : Str := host.getD (ascii "localhost")

/-- The item of a port that has a device. -/
def iportToJson (host : Option Str) (sumLen : Nat) (deviceId : Str) (p : NamedIport) : Str :=
  (if sumLen ≠ 0 then ascii "," else []) ++ ascii "\x7b\n" ++
    ascii "   \"deviceId\": \"" ++ iwdpEscapeJsonStringVal deviceId ++ ascii "\",\n" ++
    ascii "   \"deviceName\": \"" ++ iwdpEscapeJsonStringVal (p.deviceName.getD []) ++
      ascii "\",\n" ++
    ascii "   \"url\": \"" ++ hostText host ++ ascii ":" ++ decimalInt p.iport.port ++
      ascii "\"\n" ++
    ascii "\x7d"

def iportToHtml (host : Option Str) (deviceId : Str) (p : NamedIport) : Str :=
  ascii "<li><a" ++
    (if p.iport.iwi.isSome then
      ascii " href=\"http://" ++ hostText host ++ ascii ":" ++ decimalInt p.iport.port ++
        ascii "/\""
    else []) ++
    ascii ">" ++ hostText host ++ ascii ":" ++ decimalInt p.iport.port ++
    ascii "</a> - <a title=\"" ++ deviceId ++ ascii "\">" ++ p.deviceName.getD (ascii "?") ++
    ascii "</a></li>\n"

/-- The item of a port: none for the registry, and in JSON none for a device that has gone. -/
def iportItem (wantJson : Bool) (host : Option Str) (sumLen : Nat) (p : NamedIport) : Option Str :=
  match p.iport.deviceId with
  | none => none
  | some deviceId =>
    if wantJson then
      if p.iport.iwi.isSome then some (iportToJson host sumLen deviceId p) else none
    else some (iportToHtml host deviceId p)

def iwdpIportsToText (iports : List NamedIport) (wantJson : Bool) (host : Option Str) : Str :=
  let items := itemsOf (iportItem wantJson host) 0 (iports.mergeSort iportLe)
  (if wantJson then ascii "["
    else ascii "<html><head><title>iOS Devices</title></head><body>iOS Devices:<p><ol>\n") ++
    items.flatten ++
    (if wantJson then ascii "]" else ascii "</ol></body></html>")

/-! ## Pages -/

/-- `iwdp_ipage_cmp`. -/
def ipageLe (p q : Ipage) : Bool := p.pageNum ≤ q.pageNum

/-- `host:port/devtools/page/page_num`. -/
def pagePath (host : Option Str) (port : Int) (ipage : Ipage) : Str :=
  hostText host ++ ascii ":" ++ decimalInt port ++ ascii "/devtools/page/" ++
    decimalInt (toInt ipage.pageNum)

def ipageHref (frontendUrl host : Option Str) (port : Int) (ipage : Ipage) : Option Str :=
  frontendUrl.map fun url => url ++ ascii "?ws=" ++ pagePath host port ipage

/-- The link that is given for a page that no one inspects. -/
def freeHref (frontendUrl host : Option Str) (port : Int) (ipage : Ipage) : Str :=
  if ipage.iws.isNone then (ipageHref frontendUrl host port ipage).getD [] else []

def ipageToJson (frontendUrl host : Option Str) (port : Int) (sumLen : Nat) (ipage : Ipage) : Str :=
  (if sumLen ≠ 0 then ascii "," else []) ++ ascii "\x7b\n" ++
    ascii "   \"devtoolsFrontendUrl\": \"" ++ freeHref frontendUrl host port ipage ++
      ascii "\",\n" ++
    ascii "   \"faviconUrl\": \"\",\n" ++
    ascii "   \"thumbnailUrl\": \"/thumb/" ++ ipage.url.getD [] ++ ascii "\",\n" ++
    ascii "   \"title\": \"" ++ iwdpEscapeJsonStringVal (ipage.title.getD []) ++ ascii "\",\n" ++
    ascii "   \"url\": \"" ++ ipage.url.getD [] ++ ascii "\",\n" ++
    ascii "   \"webSocketDebuggerUrl\": \"ws://" ++ pagePath host port ipage ++ ascii "\",\n" ++
    ascii "   \"appId\": \"" ++ iwdpEscapeJsonStringVal ipage.appId ++ ascii "\"\n" ++
    ascii "\x7d"

def ipageToHtml (frontendUrl host : Option Str) (port : Int) (ipage : Ipage) : Str :=
  ascii "<li value=\"" ++ decimalInt (toInt ipage.pageNum) ++ ascii "\"><a" ++
    (match ipageHref frontendUrl host port ipage with
      | some href =>
        ascii (if ipage.iws.isSome then " alt=\"" else " href=\"") ++ href ++ ascii "\""
      | none => []) ++
    ascii " title=\"" ++ ipage.title.getD (ascii "?") ++ ascii "\">" ++
    ipage.url.getD (ascii "?") ++ ascii "</a></li>\n"

def ipageItem (wantJson : Bool) (frontendUrl host : Option Str) (port : Int) (sumLen : Nat)
    (ipage : Ipage) : Option Str :=
  some (if wantJson then ipageToJson frontendUrl host port sumLen ipage
    else ipageToHtml frontendUrl host port ipage)

/-- What stands below the links of a frontend that is a part of the browser. -/
def chromeNote : Str :=
  ascii ("<p><b>Note:</b> Your browser may block<sup><a href=\"" ++
    "https://code.google.com/p/chromium/issues/detail?id=87815" ++ "\"1\">1,</a><a href=\"" ++
    "https://codereview.chromium.org/12621008#msg11" ++
    "\">2</a></sup> the above links with JavaScript console error:<br><tt>" ++
    "&nbsp;&nbsp;Not allowed to load local resource: chrome-devtools://..." ++
    "</tt><br>To open a link: right-click on the link (control-click on" ++
    " Mac), 'Copy Link Address', and paste it into address bar.")

def iwdpIpagesToText (ipages : List Ipage) (wantJson : Bool) (deviceId deviceName : Str)
    (frontendUrl host : Option Str) (port : Int) : Str :=
  let items := itemsOf (ipageItem wantJson frontendUrl host port) 0 (ipages.mergeSort ipageLe)
  let isChromeDev := 0 < items.flatten.length &&
    frontendUrl.any (startsWithNoCase · "chrome-devtools://")
  (if wantJson then ascii "["
    else ascii "<html><head><title>" ++ deviceName ++ ascii "</title></head>" ++
      ascii "<body>Inspectable pages for <a title=\"" ++ deviceId ++ ascii "\">" ++ deviceName ++
      ascii "</a>:<p><ol>\n") ++
    items.flatten ++
    (if wantJson then ascii "]"
    else ascii "</ol>" ++ (if isChromeDev then chromeNote else []) ++ ascii "</body></html>")

/-! ## What the texts mean -/

/-- The device that a port is listed for. -/
def shownId (p : NamedIport) : Option Str := if p.iport.iwi.isSome then p.iport.deviceId else none

/-- What the item of a port says. -/
def portJson (host : Option Str) (p : NamedIport) (deviceId : Str) : Json :=
  .obj [(ascii "deviceId", .str deviceId), (ascii "deviceName", .str (p.deviceName.getD [])),
    (ascii "url", .str (hostText host ++ ascii ":" ++ decimalInt p.iport.port))]

/-- What the item of a page says. -/
def pageJson (frontendUrl host : Option Str) (port : Int) (ipage : Ipage) : Json :=
  .obj [(ascii "devtoolsFrontendUrl", .str (freeHref frontendUrl host port ipage)),
    (ascii "faviconUrl", .str []),
    (ascii "thumbnailUrl", .str (ascii "/thumb/" ++ ipage.url.getD [])),
    (ascii "title", .str (ipage.title.getD [])), (ascii "url", .str (ipage.url.getD [])),
    (ascii "webSocketDebuggerUrl", .str (ascii "ws://" ++ pagePath host port ipage)),
    (ascii "appId", .str ipage.appId)]

/-- The list of ports is a JSON text with one object for each port that has a device, in the order
of the ports, and the objects say what the ports are. -/
structure ListsPorts (iports : List NamedIport) (host : Option Str) : Prop where
  all : (iports.mergeSort iportLe).Perm iports
  ordered : (iports.mergeSort iportLe).Pairwise
    fun p q => p.iport.port % 2 ^ 32 ≤ q.iport.port % 2 ^ 32
  read : Json.parse (iwdpIportsToText iports true host) =
    some (.arr ((iports.mergeSort iportLe).filterMap fun p => (shownId p).map (portJson host p)))

/-- The list of pages is a JSON text with one object for each page, in the order of the numbers,
and the objects say what the pages are. -/
structure ListsPages (ipages : List Ipage) (deviceId deviceName : Str)
    (frontendUrl host : Option Str) (port : Int) : Prop where
  all : (ipages.mergeSort ipageLe).Perm ipages
  ordered : (ipages.mergeSort ipageLe).Pairwise fun p q => p.pageNum ≤ q.pageNum
  read : Json.parse (iwdpIpagesToText ipages true deviceId deviceName frontendUrl host port) =
    some (.arr ((ipages.mergeSort ipageLe).map (pageJson frontendUrl host port)))

/-- The escaped string is one that JSON reads as the string itself. -/
def Unescapes (s : Str) : Prop := Json.Reads (iwdpEscapeJsonStringVal s) s

/-- No control character from the newline on: those below have the same number in decimal and in
hexadecimal digits. -/
def NoLateControl (s : Str) : Prop := ∀ c ∈ s, ¬ (10 ≤ c ∧ c < 32)

instance (s : Str) : Decidable (NoLateControl s) := inferInstanceAs (Decidable (∀ c ∈ s, _))

/-! ## Escapes -/

/-- The number that JSON reads in the two decimal digits of a control character. -/
def misreadNat (n : Nat) : Nat := n + 6 * (n / 10)

/-- What JSON reads for an escaped byte. -/
def misread (c : UInt8) : UInt8 := if c < 32 then UInt8.ofNat (misreadNat c.toNat) else c

theorem control_digits : ∀ n < 32, Json.codeUnit 48 48 (UInt8.ofNat (48 + n / 10))
      (UInt8.ofNat (48 + n % 10)) = some (misreadNat n) ∧
    (decimal n).leftpad 4 48 =
      [48, 48, UInt8.ofNat (48 + n / 10), UInt8.ofNat (48 + n % 10)] ∧
    Json.utf8 (misreadNat n) = [UInt8.ofNat (misreadNat n)] := by
  decide +kernel

theorem misreadNat_lt {n : Nat} (hn : n < 32) : misreadNat n < 64 := by
  unfold misreadNat
  omega

/-- An escaped byte, as JSON takes it apart. -/
def escapedPart (c : UInt8) : Json.Part :=
  if c < 32 then .unit (misreadNat c.toNat) else .byte c

theorem escape_cons (c : UInt8) (s : Str) :
    iwdpEscapeJsonStringVal (c :: s) =
      iwdpEscapeJsonStringVal [c] ++ iwdpEscapeJsonStringVal s := by
  simp only [iwdpEscapeJsonStringVal, flatMap_cons, flatMap_nil, append_nil]

theorem parts_escape_byte (c : UInt8) (u : List UInt8) :
    Json.parts (iwdpEscapeJsonStringVal [c] ++ u) =
      (Json.parts u).map fun p => (escapedPart c :: p.1, p.2) := by
  by_cases hc : c < 32
  · obtain ⟨hunit, hpad, -⟩ := control_digits c.toNat (UInt8.lt_iff_toNat_lt.1 hc)
    have hone : iwdpEscapeJsonStringVal [c] = [Json.backslash, 117, 48, 48,
        UInt8.ofNat (48 + c.toNat / 10), UInt8.ofNat (48 + c.toNat % 10)] := by
      simp only [iwdpEscapeJsonStringVal, flatMap_cons, flatMap_nil, if_pos hc, hpad]
      rfl
    rw [hone, escapedPart, if_pos hc]
    exact Json.parts_unit hunit u
  · by_cases hesc : c = 34 ∨ c = 92
    · have hone : iwdpEscapeJsonStringVal [c] = [Json.backslash, c] := by
        simp only [iwdpEscapeJsonStringVal, flatMap_cons, flatMap_nil, if_neg hc, if_pos hesc]
        rfl
      have hshort : c ≠ 117 ∧ Json.shortEscape c = some c := by
        obtain rfl | rfl := hesc <;> decide
      rw [hone, escapedPart, if_neg hc]
      exact Json.parts_short hshort.1 hshort.2 u
    · have hone : iwdpEscapeJsonStringVal [c] = [c] := by
        simp only [iwdpEscapeJsonStringVal, flatMap_cons, flatMap_nil, if_neg hc,
          if_neg hesc, append_nil]
      rw [hone, escapedPart, if_neg hc]
      exact Json.parts_cons_plain
        ((Json.isPlain_iff c).2 ⟨fun h => hesc (.inl h), fun h => hesc (.inr h), hc⟩) u

theorem parts_escape (s t : Str) :
    Json.parts (iwdpEscapeJsonStringVal s ++ Json.quote :: t) = some (s.map escapedPart, t) := by
  induction s with
  | nil => exact Json.parts_quote t
  | cons c s ih =>
    rw [escape_cons, append_assoc, parts_escape_byte, ih]
    rfl

theorem bytesOf_escaped (s : Str) : Json.bytesOf (s.map escapedPart) = some (s.map misread) := by
  induction s with
  | nil => rfl
  | cons c s ih =>
    rw [map_cons, map_cons, escapedPart, misread]
    by_cases hc : c < 32
    · have hn : c.toNat < 32 := UInt8.lt_iff_toNat_lt.1 hc
      have hlt := misreadNat_lt hn
      have hhigh : Json.isHighSurrogate (misreadNat c.toNat) = false := by
        simp only [Json.isHighSurrogate, Bool.and_eq_false_iff, decide_eq_false_iff_not]
        omega
      have hlow : Json.isLowSurrogate (misreadNat c.toNat) = false := by
        simp only [Json.isLowSurrogate, Bool.and_eq_false_iff, decide_eq_false_iff_not]
        omega
      rw [if_pos hc, if_pos hc, Json.bytesOf.eq_def]
      simp only [hhigh, hlow, ih, (control_digits c.toNat hn).2.2]
      rfl
    · rw [if_neg hc, if_neg hc, Json.bytesOf.eq_def]
      simp only [ih, map_some]

theorem reads_escape (s : Str) : Json.Reads (iwdpEscapeJsonStringVal s) (s.map misread) := by
  intro t
  simp only [Json.stringBody, parts_escape, bytesOf_escaped, bind, bind_some]
  rfl

theorem misread_eq_iff (c : UInt8) : misread c = c ↔ ¬ (10 ≤ c ∧ c < 32) := by
  by_cases hc : c < 32
  · have hn : c.toNat < 32 := UInt8.lt_iff_toNat_lt.1 hc
    have hlt := misreadNat_lt hn
    rw [misread, if_pos hc, ← UInt8.toNat_inj, UInt8.le_iff_toNat_le]
    simp only [UInt8.toNat_ofNat', UInt8.reduceToNat, hc, and_true]
    unfold misreadNat at *
    omega
  · simp [misread, hc]

/-- **Escapes.** JSON reads an escaped string as the string itself if and only if it has no control
character from the newline on. -/
theorem unescapes_iff_noLateControl (s : Str) : Unescapes s ↔ NoLateControl s := by
  have hsame : s.map misread = s ↔ NoLateControl s := by
    induction s with
    | nil => simp [NoLateControl]
    | cons c s ih =>
      rw [map_cons, List.cons.injEq, ih, misread_eq_iff]
      simp only [NoLateControl, forall_mem_cons]
  rw [← hsame]
  constructor
  · intro h
    exact (reads_escape s).unique h
  · intro h
    have hreads := reads_escape s
    rwa [h] at hreads

/-! ## Numbers and hosts -/

theorem isPlain_digit {c : Char} (h : c.isDigit = true) :
    Json.isPlain (UInt8.ofNat c.toNat) = true := by
  obtain ⟨hlow, hhigh⟩ : 48 ≤ c.toNat ∧ c.toNat ≤ 57 := by
    simpa [Char.isDigit, UInt32.le_iff_toNat_le] using h
  generalize c.toNat = n at *
  interval_cases n <;> decide

theorem plain_repr (n : Nat) : Json.Plain (ascii n.repr) := by
  intro b hb
  rw [ascii, Nat.repr_eq_ofList_toDigits, String.toList_ofList, List.mem_map] at hb
  obtain ⟨c, hc, rfl⟩ := hb
  exact isPlain_digit (Nat.isDigit_of_mem_toDigits (by decide) (by decide) hc)

theorem plain_decimalInt (n : Int) : Json.Plain (decimalInt n) := by
  rw [decimalInt, Int.toString_eq_repr, Int.repr_eq_if]
  split
  · exact plain_repr _
  · have hsplit : ascii ("-" ++ (-n).toNat.repr) = 45 :: ascii (-n).toNat.repr := by
      simp only [ascii, String.toList_append, map_append]
      rfl
    rw [hsplit, Json.plain_cons]
    exact ⟨by decide, plain_repr _⟩

theorem plain_texts : (Json.Plain (ascii "/devtools/page/") ∧ Json.Plain (ascii ":") ∧
      Json.Plain (ascii "?ws=") ∧ Json.Plain (ascii "/thumb/") ∧ Json.Plain (ascii "ws://")) ∧
    ∀ name ∈ ["deviceId", "deviceName", "url", "devtoolsFrontendUrl", "faviconUrl", "thumbnailUrl",
      "title", "webSocketDebuggerUrl", "appId"], Json.Plain (ascii name) := by
  decide +kernel

theorem plain_pagePath (host : Option Str) (port : Int) (ipage : Ipage) :
    Json.Plain (pagePath host port ipage) ↔ Json.Plain (hostText host) := by
  obtain ⟨⟨hpath, hcolon, -⟩, -⟩ := plain_texts
  simp only [pagePath, Json.plain_append, plain_decimalInt, hpath, hcolon, and_true]

/-! ## The texts as lists of objects -/

def escapedField (name : String) (s : Str) : Json.Field :=
  ⟨ascii name, iwdpEscapeJsonStringVal s, s⟩

def rawField (name : String) (s : Str) : Json.Field := ⟨ascii name, s, s⟩

def portRow (host : Option Str) (p : NamedIport) (deviceId : Str) : Json.Row :=
  (escapedField "deviceId" deviceId, [escapedField "deviceName" (p.deviceName.getD []),
      rawField "url" (hostText host ++ ascii ":" ++ decimalInt p.iport.port)])

def pageRow (frontendUrl host : Option Str) (port : Int) (ipage : Ipage) : Json.Row :=
  (rawField "devtoolsFrontendUrl" (freeHref frontendUrl host port ipage), [rawField "faviconUrl" [],
      rawField "thumbnailUrl" (ascii "/thumb/" ++ ipage.url.getD []),
      escapedField "title" (ipage.title.getD []), rawField "url" (ipage.url.getD []),
      rawField "webSocketDebuggerUrl" (ascii "ws://" ++ pagePath host port ipage),
      escapedField "appId" ipage.appId])

/-- The comma in front of all items but the first. -/
def separator (sumLen : Nat) : Str := if sumLen ≠ 0 then [Json.comma] else []

/-- A line of an item, up to what stands between the quotes. -/
def lineStart (name : String) : Str := ascii "   \"" ++ ascii name ++ ascii "\": \""

theorem item_texts : ascii "   \"" = List.replicate 3 32 ++ [Json.quote] ∧
    ascii "\": \"" = [Json.quote, 58, 32, Json.quote] ∧ ascii "," = [Json.comma] ∧
    ascii "\x7b\n" = [123, 10] ∧ ascii "\",\n" = [Json.quote, Json.comma, 10] ∧
    ascii "\"\n" = [Json.quote, 10] ∧ ascii "\x7d" = [125] ∧ ascii "[" = [91] ∧ ascii "]" = [93] := by
  decide +kernel

theorem line_texts : ascii "   \"deviceId\": \"" = lineStart "deviceId" ∧
    ascii "   \"deviceName\": \"" = lineStart "deviceName" ∧
    ascii "   \"url\": \"" = lineStart "url" ∧
    ascii "   \"devtoolsFrontendUrl\": \"" = lineStart "devtoolsFrontendUrl" ∧
    ascii "   \"faviconUrl\": \"\",\n" =
      lineStart "faviconUrl" ++ [Json.quote, Json.comma, 10] ∧
    ascii "   \"thumbnailUrl\": \"/thumb/" = lineStart "thumbnailUrl" ++ ascii "/thumb/" ∧
    ascii "   \"title\": \"" = lineStart "title" ∧
    ascii "   \"webSocketDebuggerUrl\": \"ws://" =
      lineStart "webSocketDebuggerUrl" ++ ascii "ws://" ∧
    ascii "   \"appId\": \"" = lineStart "appId" := by
  decide +kernel

theorem field_text (name : String) (written meant : Str) :
    Json.Field.text 3 ⟨ascii name, written, meant⟩ =
      10 :: (lineStart name ++ (written ++ [Json.quote])) := by
  have hstart : lineStart name = List.replicate 3 32 ++ Json.quote :: (ascii name ++
      [Json.quote, 58, 32, Json.quote]) := by
    obtain ⟨hopen, hclose, -⟩ := item_texts
    simp only [lineStart, hopen, hclose, append_assoc, cons_append, nil_append]
  simp only [Json.Field.text, hstart, append_assoc, cons_append, nil_append]

theorem iportToJson_eq (host : Option Str) (sumLen : Nat) (p : NamedIport) (deviceId : Str) :
    iportToJson host sumLen deviceId p = separator sumLen ++ (portRow host p deviceId).text 3 := by
  obtain ⟨-, -, hcomma, hopen, hnext, hend, hclose, -⟩ := item_texts
  obtain ⟨hid, hname, hurl, -⟩ := line_texts
  simp only [iportToJson, separator, portRow, Json.Row.text, Json.objectText, escapedField,
    rawField, field_text, hcomma, hopen, hid, hname, hurl, hnext, hend, hclose,
    flatMap_cons, flatMap_nil, append_nil, append_assoc, cons_append, nil_append]

theorem ipageToJson_eq (frontendUrl host : Option Str) (port : Int) (sumLen : Nat)
    (ipage : Ipage) : ipageToJson frontendUrl host port sumLen ipage =
      separator sumLen ++ (pageRow frontendUrl host port ipage).text 3 := by
  obtain ⟨-, -, hcomma, hopen, hnext, hend, hclose, -⟩ := item_texts
  obtain ⟨-, -, hurl, hfrontend, hfavicon, hthumb, htitle, hsocket, happ⟩ := line_texts
  unfold ipageToJson
  rw [hopen, hfrontend, hfavicon, hthumb, htitle, hurl, hsocket, happ, hnext, hend, hclose, hcomma,
    pageRow, Json.Row.text, Json.objectText]
  simp only [escapedField, rawField, field_text, flatMap_cons, flatMap_nil,
    append_nil, append_assoc, cons_append, nil_append]
  rw [separator]

section Loop

variable {α : Type} {item : Nat → α → Option Str} {row : α → Option Json.Row}

theorem itemsOf_behind {sumLen : Nat} (hsum : sumLen ≠ 0)
    (hitem : ∀ n x, item n x = (row x).map fun r => separator n ++ r.text 3) (xs : List α) :
    (itemsOf item sumLen xs).flatten =
      (xs.filterMap row).flatMap fun r => Json.comma :: r.text 3 := by
  induction xs generalizing sumLen with
  | nil => rfl
  | cons x xs ih =>
    cases hx : row x with
    | none => simp only [itemsOf, hitem, hx, map_none, filterMap_cons_none hx, ih hsum]
    | some r =>
      have hbehind := @ih (sumLen + (separator sumLen ++ r.text 3).length) (by omega)
      simp only [itemsOf, hitem, hx, map_some, filterMap_cons_some hx,
        flatten_cons, flatMap_cons, hbehind]
      rw [separator, if_pos hsum]
      rfl

theorem itemsOf_text
    (hitem : ∀ n x, item n x = (row x).map fun r => separator n ++ r.text 3) (xs : List α) :
    [91] ++ (itemsOf item 0 xs).flatten ++ [93] =
      Json.arrayText ((xs.filterMap row).map (Json.Row.text 3)) := by
  induction xs with
  | nil => rfl
  | cons x xs ih =>
    cases hx : row x with
    | none => simp only [itemsOf, hitem, hx, map_none, filterMap_cons_none hx, ih]
    | some r =>
      have hpos : 0 + (separator 0 ++ r.text 3).length ≠ 0 := by
        simp [separator, Json.Row.text, Json.objectText]
      simp only [itemsOf, hitem, hx, map_some, filterMap_cons_some hx,
        flatten_cons, itemsOf_behind hpos hitem, map_cons, Json.arrayText,
        flatMap_map, append_assoc, cons_append, nil_append]
      rfl

end Loop

theorem escapedField_sound {name : String} (hname : Json.Plain (ascii name)) (s : Str) :
    (escapedField name s).Sound :=
  ⟨hname, (reads_escape s).exact s⟩

theorem rawField_sound {name : String} (hname : Json.Plain (ascii name)) (s : Str) :
    (rawField name s).Sound :=
  ⟨hname, Json.plain_exact s⟩

theorem escapedField_right_iff (name : String) (s : Str) :
    (escapedField name s).Right ↔ NoLateControl s :=
  unescapes_iff_noLateControl s

theorem rawField_right_iff (name : String) (s : Str) : (rawField name s).Right ↔ Json.Plain s :=
  Json.reads_self_iff s

/-! ## Ports -/

theorem portRow_sound (host : Option Str) (p : NamedIport) (deviceId : Str) :
    ∀ f ∈ (portRow host p deviceId).fields, f.Sound := by
  simp only [Json.Row.fields, portRow, forall_mem_cons, not_mem_nil, false_implies,
    implies_true, and_true]
  have hkeys := plain_texts.2
  exact ⟨escapedField_sound (hkeys _ (by simp)) _, escapedField_sound (hkeys _ (by simp)) _,
    rawField_sound (hkeys _ (by simp)) _⟩

/-- The strings of a port that can be listed. -/
def PortFits (host : Option Str) (p : NamedIport) (deviceId : Str) : Prop :=
  NoLateControl deviceId ∧ NoLateControl (p.deviceName.getD []) ∧ Json.Plain (hostText host)

theorem portRow_right_iff (host : Option Str) (p : NamedIport) (deviceId : Str) :
    (∀ f ∈ (portRow host p deviceId).fields, f.Right) ↔ PortFits host p deviceId := by
  obtain ⟨⟨-, hcolon, -⟩, -⟩ := plain_texts
  simp only [Json.Row.fields, portRow, forall_mem_cons, not_mem_nil, false_implies,
    implies_true, and_true, escapedField_right_iff, rawField_right_iff, Json.plain_append,
    plain_decimalInt, hcolon, PortFits]

theorem iportItem_eq (host : Option Str) (sumLen : Nat) (p : NamedIport) :
    iportItem true host sumLen p =
      ((shownId p).map (portRow host p)).map fun r => separator sumLen ++ r.text 3 := by
  cases hid : p.iport.deviceId <;> cases hiwi : p.iport.iwi.isSome <;>
    simp [iportItem, shownId, hid, hiwi, iportToJson_eq]

theorem iwdpIportsToText_eq (iports : List NamedIport) (host : Option Str) :
    iwdpIportsToText iports true host =
      Json.arrayText (((iports.mergeSort iportLe).filterMap fun p =>
        (shownId p).map (portRow host p)).map (Json.Row.text 3)) := by
  obtain ⟨-, -, -, -, -, -, -, hopen, hclose⟩ := item_texts
  rw [← itemsOf_text (iportItem_eq host)]
  simp only [iwdpIportsToText, if_pos, hopen, hclose]

theorem pairwise_mergeSort_key {α : Type} {le : α → α → Bool} {key : α → Int}
    (hle : ∀ x y, le x y = decide (key x ≤ key y)) (xs : List α) :
    (xs.mergeSort le).Pairwise fun x y => key x ≤ key y := by
  have hsorted : (xs.mergeSort le).Pairwise fun x y => le x y = true := by
    apply pairwise_mergeSort
    · intro x y z
      simp only [hle, decide_eq_true_eq]
      exact le_trans
    · intro x y
      simp only [hle, Bool.or_eq_true, decide_eq_true_eq]
      exact le_total _ _
  exact hsorted.imp fun h => by simpa [hle] using h

theorem listsPorts_iff (iports : List NamedIport) (host : Option Str) :
    ListsPorts iports host ↔ ∀ p ∈ iports, ∀ d ∈ shownId p, PortFits host p d := by
  have hperm := mergeSort_perm iports iportLe
  have hmeant : ∀ p, ((shownId p).map (portRow host p)).map Json.Row.json =
      (shownId p).map (portJson host p) := fun p => by
    rw [Option.map_map]
    rfl
  have hparse := Json.parse_arrayText_iff 3
    ((iports.mergeSort iportLe).filterMap fun p => (shownId p).map (portRow host p))
    (by
      intro row hrow
      obtain ⟨p, -, hp⟩ := mem_filterMap.1 hrow
      obtain ⟨d, -, rfl⟩ := map_eq_some_iff.1 hp
      exact portRow_sound host p d)
  rw [← iwdpIportsToText_eq, map_filterMap] at hparse
  simp only [hmeant] at hparse
  have hread : ListsPorts iports host ↔ Json.parse (iwdpIportsToText iports true host) = some
      (.arr ((iports.mergeSort iportLe).filterMap fun p => (shownId p).map (portJson host p))) :=
    ⟨fun h => h.read, fun h => ⟨hperm, pairwise_mergeSort_key (fun _ _ => rfl) iports, h⟩⟩
  rw [hread, hparse]
  constructor
  · intro h p hp d hd
    refine (portRow_right_iff host p d).1 (h _ (mem_filterMap.2 ⟨p, hperm.mem_iff.2 hp, ?_⟩))
    rw [mem_def.1 hd]
    rfl
  · intro h row hrow
    obtain ⟨p, hp, hrow⟩ := mem_filterMap.1 hrow
    obtain ⟨d, hd, rfl⟩ := map_eq_some_iff.1 hrow
    exact (portRow_right_iff host p d).2 (h p (hperm.mem_iff.1 hp) d hd)

/-! ## Pages -/

theorem pageRow_sound (frontendUrl host : Option Str) (port : Int) (ipage : Ipage) :
    ∀ f ∈ (pageRow frontendUrl host port ipage).fields, f.Sound := by
  simp only [Json.Row.fields, pageRow, forall_mem_cons, not_mem_nil, false_implies,
    implies_true, and_true]
  have hkeys := plain_texts.2
  exact ⟨rawField_sound (hkeys _ (by simp)) _, rawField_sound (hkeys _ (by simp)) _,
    rawField_sound (hkeys _ (by simp)) _, escapedField_sound (hkeys _ (by simp)) _,
    rawField_sound (hkeys _ (by simp)) _, rawField_sound (hkeys _ (by simp)) _,
    escapedField_sound (hkeys _ (by simp)) _⟩

/-- The strings of a page that can be listed: its title and its application without a late control
character, and its url, the host and, where it is shown, the frontend without anything that would
have to be escaped. -/
structure PageFits (frontendUrl host : Option Str) (ipage : Ipage) : Prop where
  title : NoLateControl (ipage.title.getD [])
  appId : NoLateControl ipage.appId
  url : Json.Plain (ipage.url.getD [])
  host : Json.Plain (hostText host)
  frontend : ipage.iws = none → ∀ url ∈ frontendUrl, Json.Plain url

theorem plain_freeHref (frontendUrl host : Option Str) (port : Int) (ipage : Ipage)
    (hhost : Json.Plain (hostText host)) :
    Json.Plain (freeHref frontendUrl host port ipage) ↔
      (ipage.iws = none → ∀ url ∈ frontendUrl, Json.Plain url) := by
  obtain ⟨⟨-, -, hquery, -⟩, -⟩ := plain_texts
  cases frontendUrl <;> cases hiws : ipage.iws <;>
    simp [freeHref, ipageHref, hiws, plain_pagePath, hhost, hquery]

theorem pageRow_right_iff (frontendUrl host : Option Str) (port : Int) (ipage : Ipage) :
    (∀ f ∈ (pageRow frontendUrl host port ipage).fields, f.Right) ↔
      PageFits frontendUrl host ipage := by
  obtain ⟨⟨-, -, -, hthumb, hsocket⟩, -⟩ := plain_texts
  simp only [Json.Row.fields, pageRow, forall_mem_cons, not_mem_nil, false_implies,
    implies_true, and_true, escapedField_right_iff, rawField_right_iff, Json.plain_append,
    Json.plain_nil, plain_pagePath, hthumb, hsocket, true_and]
  constructor
  · rintro ⟨hhref, -, htitle, hurl, hhost, happ⟩
    exact ⟨htitle, happ, hurl, hhost, (plain_freeHref frontendUrl host port ipage hhost).1 hhref⟩
  · intro h
    exact ⟨(plain_freeHref frontendUrl host port ipage h.host).2 h.frontend, h.url, h.title, h.url,
      h.host, h.appId⟩

theorem iwdpIpagesToText_eq (ipages : List Ipage) (deviceId deviceName : Str)
    (frontendUrl host : Option Str) (port : Int) :
    iwdpIpagesToText ipages true deviceId deviceName frontendUrl host port =
      Json.arrayText (((ipages.mergeSort ipageLe).map (pageRow frontendUrl host port)).map
        (Json.Row.text 3)) := by
  obtain ⟨-, -, -, -, -, -, -, hopen, hclose⟩ := item_texts
  have hitem : ∀ n p, ipageItem true frontendUrl host port n p =
      (some (pageRow frontendUrl host port p)).map fun r => separator n ++ r.text 3 := fun n p => by
    rw [ipageItem, if_pos rfl, ipageToJson_eq, map_some]
  have htext := itemsOf_text hitem (ipages.mergeSort ipageLe)
  rw [filterMap_eq_map'] at htext
  rw [← htext]
  simp only [iwdpIpagesToText, if_pos, hopen, hclose]

theorem listsPages_iff (ipages : List Ipage) (deviceId deviceName : Str)
    (frontendUrl host : Option Str) (port : Int) :
    ListsPages ipages deviceId deviceName frontendUrl host port ↔
      ∀ p ∈ ipages, PageFits frontendUrl host p := by
  have hperm := List.mergeSort_perm ipages ipageLe
  have hparse := Json.parse_arrayText_iff 3
    ((ipages.mergeSort ipageLe).map (pageRow frontendUrl host port))
    (List.forall_mem_map.2 fun p _ => pageRow_sound frontendUrl host port p)
  rw [← iwdpIpagesToText_eq ipages deviceId deviceName, List.map_map, List.forall_mem_map] at hparse
  have hread : ListsPages ipages deviceId deviceName frontendUrl host port ↔
      Json.parse (iwdpIpagesToText ipages true deviceId deviceName frontendUrl host port) =
        some (.arr ((ipages.mergeSort ipageLe).map (pageJson frontendUrl host port))) :=
    ⟨fun h => h.read, fun h => ⟨hperm, (@pairwise_mergeSort_key _ ipageLe
      (fun p => (p.pageNum : Int)) (fun x y => by simp [ipageLe]) ipages).imp
        fun h => by simpa using h, h⟩⟩
  rw [hread]
  refine hparse.trans ?_
  simp only [pageRow_right_iff]
  exact forall_congr' fun p => by rw [hperm.mem_iff]

/-! ## Both lists -/

/-- **Listings.** The lists of ports and of pages are JSON texts that say what was to be listed if
and only if no title, application or name of a device has a control character from the newline on,
and no url, host or frontend has a character that would have to be escaped; and the escape is
undone by JSON exactly for the strings without such a control character. -/
theorem listings_iff (iports : List NamedIport) (ipages : List Ipage) (deviceId deviceName : Str)
    (frontendUrl host : Option Str) (port : Int) (s : Str) :
    (ListsPorts iports host ↔ ∀ p ∈ iports, ∀ d ∈ shownId p, PortFits host p d) ∧
      (ListsPages ipages deviceId deviceName frontendUrl host port ↔
        ∀ p ∈ ipages, PageFits frontendUrl host p) ∧
      (Unescapes s ↔ NoLateControl s) :=
  ⟨listsPorts_iff iports host, listsPages_iff ipages deviceId deviceName frontendUrl host port,
    unescapes_iff_noLateControl s⟩

/-- A page whose title has two lines. -/
def twoLines : Ipage where
  pageNum := 1
  appId := ascii "PID:1"
  pageId := 1
  connectionId := none
  title := some (ascii "a\nb")
  url := some (ascii "http://a/")
  senderId := none
  iws := none

/-- The newline of a title is read as another character, and a quote in a url ends it. -/
theorem listings_broken :
    ¬ Unescapes (ascii "a\nb") ∧ ¬ ListsPages [twoLines] [] [] none none 9222 ∧
      Json.parse (iwdpIpagesToText [{ twoLines with url := some (ascii "http://a/?\"") }] true [] []
        none none 9222) = none := by
  refine ⟨fun h => ?_, fun h => ?_, ?_⟩
  · exact absurd ((unescapes_iff_noLateControl _).1 h) (by decide +kernel)
  · exact absurd ((listsPages_iff _ _ _ _ _ _).1 h twoLines (by simp)).title (by decide +kernel)
  · rw [iwdpIpagesToText_eq, mergeSort_singleton, ← isNone_iff_eq_none]
    decide +kernel

end IDeviceStack.WebkitProxy.Iwdp
