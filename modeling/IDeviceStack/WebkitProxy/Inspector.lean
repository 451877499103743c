/-
# `WebkitProxy.Inspector` — messages of an inspector

How `ios_webkit_debug_proxy.c` links a page with a websocket and takes the link away,
and what it does with the messages of `rpc.c`.  The steps are those of the source, in
its order.

* A message is a plist.  The asserts of libplist are on: a string with a length that is
  not its own ends the program, and so does one that is not there.
* `strdup` of an application's name that is missing ends the program, or gives `NULL`
  (`strdupNull`).
-/
import IDeviceStack.WebkitProxy.Iwdp

namespace IDeviceStack.WebkitProxy.Iwdp

open Lib Libplist Libplist.Xplist

def modifyIwi (i : Ptr) (f : Iwi → Iwi) : Handler Unit := do
  let iwi ← getIwi i
  link fun g => g.setIwi i (f iwi)

def modifyIpage (q : Ptr) (f : Ipage → Ipage) : Handler Unit := do
  let ipage ← getIpage q
  link fun g => g.setIpage q (f ipage)

/-! ## Pages and websockets -/

/-- Whether `iwdp_stop_devtools` tells the inspector `iwi` about the end of `ipage`. -/
def ownedBy (ipage : Ipage) (iwi : Iwi) : Bool :=
  iwi.connectionId.isSome && (ipage.connectionId.isNone || ipage.connectionId == iwi.connectionId)

/-- The message to the inspector of `iport` about the end of `ipage`. -/
def tellClosed (env : Outside) (iport : Iport) (ipage : Ipage) : Handler Unit :=
  match iport.iwi with
  | none => pure ()
  | some i => do
      let iwi ← getIwi i
      if ownedBy ipage iwi then do
        let _ ← sendForwardDidClose env i iwi.connectionId ipage.appId ipage.pageId ipage.senderId
        pure ()
      else pure ()

def iwdpStopDevtools (env : Outside) (q : Ptr) : Handler Bool := do
  let ipage ← getIpage q
  match ipage.iws with
  | none => pure true
  | some s => do
      let iws ← getOwner s
      if iws.ipage ≠ some q then pure false
      else
        match ipage.senderId with
        | none => pure false
        | some senderId => do
            let iport ← getIport iws.iport
            if iport.wsIdToIws.lookup senderId ≠ some s then pure false
            else do
              tellClosed env iport ipage
              link fun g => g.setIws s { iws with ipage := none, pageNum := 0 }
              link fun g => g.setIpage q { ipage with iws := none, senderId := none }
              pure true

/-- The part of `iwdp_start_devtools` that takes the page from another websocket. -/
def takeFromOther (env : Outside) (q : Ptr) (iwi : Iwi) (ipage : Ipage) : Handler Unit :=
  match ipage.iws with
  | none => pure ()
  | some s2 => do
      let p ← notNull iwi.iport
      let _ ← getIport p
      let _ ← getOwner s2
      let _ ← iwdpStopDevtools env q
      let iws2 ← getOwner s2
      link fun g => g.setIws s2 { iws2 with pageNum := ipage.pageNum }

def iwdpStartDevtools (env : Outside) (q s : Ptr) : Handler Bool := do
  let iws ← getIws s
  let iport ← getIport iws.iport
  match iport.iwi with
  | none => pure false
  | some i => do
      let iwi ← getIwi i
      let ipage ← getIpage q
      takeFromOther env q iwi ipage
      let iws ← getIws s
      link fun g => g.setIws s { iws with ipage := some q, pageNum := ipage.pageNum }
      modifyIpage q fun ipage => { ipage with iws := some s, senderId := some iws.wsId }
      sendForwardSocketSetup env i iwi.connectionId ipage.appId ipage.pageId (some iws.wsId)

/-! ## Applications -/

def iwdpAddAppId (env : Outside) (i : Ptr) (appId : Str) : Handler Bool := do
  let iwi ← getIwi i
  if appId ∈ iwi.appIdToTrue then pure true
  else do
    link fun g => g.setIwi i { iwi with appIdToTrue := iwi.appIdToTrue.insert appId () }
    emit (.known i appId)
    sendForwardGetListing env i iwi.connectionId appId

/-- `rpc_set_app`, with `rpc_copy_app`. -/
def rpcSetApp (env : Outside) (i : Ptr) (app : RpcApp) : Handler Unit :=
  if app.appName.isNone ∧ ¬ env.strdupNull then throw .noString
  else modifyIwi i fun iwi => { iwi with app := some app }

def iwdpOnApplicationConnected (env : Outside) (i : Ptr) (app : RpcApp) : Handler Bool := do
  rpcSetApp env i app
  iwdpAddAppId env i app.appId

/-- `iwdp_stop_devtools`, `ht_remove`, and `iwdp_ipage_free`. -/
def dropPage (env : Outside) (i q : Ptr) (pageNum : Nat) : Handler Unit := do
  let _ ← iwdpStopDevtools env q
  modifyIwi i fun iwi => { iwi with pageNumToIpage := iwi.pageNumToIpage.erase pageNum }
  link fun g => g.freeIpage q

def iwdpRemoveAppId (env : Outside) (i : Ptr) (appId : Str) : Handler Bool := do
  let iwi ← getIwi i
  if appId ∉ iwi.appIdToTrue then pure true
  else do
    link fun g => g.setIwi i { iwi with appIdToTrue := iwi.appIdToTrue.erase appId }
    iwi.pageNumToIpage.values.forM fun q => do
      let ipage ← getIpage q
      if appId = ipage.appId then dropPage env i q ipage.pageNum else pure ()
    pure true

def iwdpOnApplicationDisconnected (env : Outside) (i : Ptr) (app : RpcApp) : Handler Bool :=
  iwdpRemoveAppId env i app.appId

def iwdpOnReportConnectedApplicationList (env : Outside) (i : Ptr) (apps : List RpcApp) :
    Handler Bool := do
  let iwi ← getIwi i
  if apps = [] then pure true
  else do
    iwi.appIdToTrue.keys.forM fun oa => do
      if ∃ a ∈ apps, a.appId = oa then pure ()
      else do
        let _ ← iwdpRemoveAppId env i oa
        pure ()
    apps.forM fun a => do
      rpcSetApp env i a
      let _ ← iwdpAddAppId env i a.appId
      pure ()
    pure true

def iwdpOnApplicationUpdated (env : Outside) (i : Ptr) (appId destId : Str) : Handler Bool := do
  if ← iwdpRemoveAppId env i appId then iwdpAddAppId env i destId else pure false

/-! ## Listings -/

/-- `struct rpc_page_struct`. -/
structure RpcPage where
  pageId : Nat
  connectionId : Option Str
  title : Option Str
  url : Option Str
  deriving DecidableEq

/-- The loop that looks for a page among `ipages`. -/
def findPage (appId : Str) (pageId : Nat) : List Ptr → Handler (Option Ptr)
  | [] => pure none
  | q :: qs => do
      let ipage ← getIpage q
      if ipage.pageId = pageId ∧ appId = ipage.appId then pure (some q)
      else findPage appId pageId qs

/-- A new page, with the next number. -/
def newPage (i : Ptr) (appId : Str) (pageId : Nat) : Handler Ptr := do
  let q ← malloc
  let iwi ← getIwi i
  let pageNum := (iwi.maxPageNum + 1) % 2 ^ 32
  link fun g => g.setIpage q ⟨pageNum, appId, pageId, none, none, none, none, none⟩
  link fun g => g.setIwi i
    { iwi with maxPageNum := pageNum, pageNumToIpage := iwi.pageNumToIpage.insert pageNum q }
  pure q

/-- A page of the list is claimed by another inspector. -/
def claimedByRemote (iwi : Iwi) (page : RpcPage) : Bool :=
  page.connectionId.isSome && iwi.connectionId.isSome && page.connectionId != iwi.connectionId

/-- The page that was found, or a new one. -/
def orNewPage (i : Ptr) (appId : Str) (pageId : Nat) : Option Ptr → Handler Ptr
  | some q => pure q
  | none => newPage i appId pageId

/-- The websocket of a page that another inspector has claimed. -/
def loseClaimed (iwi : Iwi) (ipage : Ipage) (page : RpcPage) : Handler Unit :=
  match ipage.iws with
  | none => pure ()
  | some s =>
    if claimedByRemote iwi page then do
      let iws ← getOwner s
      link fun g => g.setIws s { iws with ipage := none }
    else pure ()

/-- A turn of the first loop of `iwdp_on_applicationSentListing`. -/
def listPage (i : Ptr) (appId : Str) (ipages : List Ptr) (page : RpcPage) : Handler Unit := do
  let found ← findPage appId page.pageId ipages
  let q ← orNewPage i appId page.pageId found
  modifyIpage q fun ipage => { ipage with title := page.title, url := page.url }
  let ipage ← getIpage q
  let iwi ← getIwi i
  loseClaimed iwi ipage page
  modifyIpage q fun ipage => { ipage with connectionId := page.connectionId }

/-- A turn of the second. -/
def unlistPage (env : Outside) (i : Ptr) (appId : Str) (pages : List RpcPage) (q : Ptr) :
    Handler Unit := do
  let ipage ← getIpage q
  if ipage.appId ≠ appId then pure ()
  else if ∃ page ∈ pages, page.pageId = ipage.pageId then pure ()
  else dropPage env i q ipage.pageNum

def iwdpOnApplicationSentListing (env : Outside) (i : Ptr) (appId : Str) (pages : List RpcPage) :
    Handler Bool := do
  let iwi ← getIwi i
  match iwi.iport with
  | none => pure false
  | some p => do
      let _ ← getIport p
      if appId ∉ iwi.appIdToTrue then
        match iwi.app with
        | some app => do
            emit (.unknown i appId)
            sendForwardGetListing env i iwi.connectionId app.appId
        | none => pure false
      else do
        let ipages := iwi.pageNumToIpage.values
        pages.forM (listPage i appId ipages)
        ipages.forM (unlistPage env i appId pages)
        pure true

def iwdpOnApplicationSentData (env : Outside) (i : Ptr) (destId : Str) (data : List UInt8) :
    Handler Bool := do
  let iwi ← getIwi i
  let p ← notNull iwi.iport
  let iport ← getIport p
  match iport.wsIdToIws.lookup destId with
  | none => pure true
  | some s => sendFrame env s (plainFrame opcodeText data)

/-- `iwdp_on_reportSetup`; `iwdp_log_connect` looks at the port. -/
def iwdpOnReportSetup (i : Ptr) : Handler Bool := do
  let iwi ← getIwi i
  let p ← notNull iwi.iport
  let _ ← getIport p
  pure true

/-! ## Reading a message -/

/-- `plist_get_string_val` and `plist_get_key_val`, on the string of a node and its length. -/
def strVal (strval : List UInt8) (length : Nat) : Except Fault Str :=
  if length = strlen strval then pure (cstr strval) else throw .assertion

/-- `rpc_dict_get_required_string`, `none` for `RPC_ERROR`. -/
def rpcDictGetRequiredString (node : Option Plist) (key : Str) : Except Fault (Option Str) :=
  match node.bind (dictGetItem · key) with
  | some (.scalar (.string strval) length) => some <$> strVal strval length
  | _ => pure none

def rpcDictGetOptionalString (node : Option Plist) (key : Str) : Except Fault (Option (Option Str)) :=
  match node with
  | none => pure none
  | some dict =>
    if (dictGetItem dict key).isSome then do
      let value ← rpcDictGetRequiredString node key
      pure (value.map some)
    else pure (some none)

/-- `rpc_dict_get_optional_bool`, on a value that is `false` before. -/
def rpcDictGetOptionalBool (node : Option Plist) (key : Str) : Option Bool :=
  match node with
  | none => none
  | some dict =>
    match dictGetItem dict key with
    | none => some false
    | some (.scalar (.boolean boolval) _) => some (boolval ≠ 0)
    | some _ => none

def rpcDictGetRequiredUint (node : Option Plist) (key : Str) : Except Fault (Option Nat) :=
  match node.bind (dictGetItem · key) with
  | some (.scalar (.uint intval) length) =>
    if length = 8 ∨ length = 16 then
      pure (if intval.toNat < 2 ^ 32 then some intval.toNat else none)
    else throw .assertion
  | _ => pure none

def rpcDictGetRequiredData (node : Option Plist) (key : Str) : Option (List UInt8) :=
  match node.bind (dictGetItem · key) with
  | some item => (getDataVal item).filter (·.length < 2 ^ 32)
  | none => none

def wirApplicationIdentifierKey : Str := ascii "WIRApplicationIdentifierKey"
def wirApplicationNameKey : Str := ascii "WIRApplicationNameKey"
def wirIsApplicationProxyKey : Str := ascii "WIRIsApplicationProxyKey"
def wirApplicationDictionaryKey : Str := ascii "WIRApplicationDictionaryKey"
def wirHostApplicationIdentifierKey : Str := ascii "WIRHostApplicationIdentifierKey"
def wirListingKey : Str := ascii "WIRListingKey"
def wirPageIdentifierKey : Str := ascii "WIRPageIdentifierKey"
def wirConnectionIdentifierKey : Str := ascii "WIRConnectionIdentifierKey"
def wirTitleKey : Str := ascii "WIRTitleKey"
def wirUrlKey : Str := ascii "WIRURLKey"
def wirDestinationKey : Str := ascii "WIRDestinationKey"
def wirMessageDataKey : Str := ascii "WIRMessageDataKey"
def selectorKey : Str := ascii "__selector"
def argumentKey : Str := ascii "__argument"

def rpcParseApp (node : Option Plist) : Except Fault (Option RpcApp) := do
  match ← rpcDictGetRequiredString node wirApplicationIdentifierKey with
  | none => pure none
  | some appId =>
    match ← rpcDictGetOptionalString node wirApplicationNameKey with
    | none => pure none
    | some appName =>
      pure ((rpcDictGetOptionalBool node wirIsApplicationProxyKey).map fun isProxy =>
        ⟨appId, appName, isProxy⟩)

/-- `plist_get_key_val` on a child of a dictionary. -/
def keyVal : Plist → Except Fault Str
  | .scalar (.key strval) length => strVal strval length
  | _ => throw .null

/-- The loop of `rpc_parse_apps`. -/
def parseAppsLoop : List Plist → Except Fault (Option (List RpcApp))
  | key :: value :: rest => do
      let k ← keyVal key
      match ← rpcParseApp (some value) with
      | none => pure none
      | some app =>
        if k = app.appId then do
          let apps ← parseAppsLoop rest
          pure (apps.map (app :: ·))
        else pure none
  | _ => pure (some [])

def rpcParseApps (node : Option Plist) : Except Fault (Option (List RpcApp)) :=
  match node with
  | some (.dict children) => parseAppsLoop children
  | _ => pure none

def rpcParsePage (node : Option Plist) : Except Fault (Option RpcPage) := do
  match ← rpcDictGetRequiredUint node wirPageIdentifierKey with
  | none => pure none
  | some pageId =>
    match ← rpcDictGetOptionalString node wirConnectionIdentifierKey with
    | none => pure none
    | some connectionId =>
      match ← rpcDictGetOptionalString node wirTitleKey with
      | none => pure none
      | some title =>
        let url ← rpcDictGetOptionalString node wirUrlKey
        pure (url.map fun url => ⟨pageId, connectionId, title, url⟩)

/-- `page->page_id == strtol(key, NULL, 0)`.  A `long` of 32 bits becomes unsigned for it. -/
def isPageKey (longBits pageId : Nat) (key : Str) : Bool :=
  let v := (strtol longBits key).1
  (pageId : Int) = if longBits = 32 then v % 2 ^ 32 else v

/-- The loop of `rpc_parse_pages`. -/
def parsePagesLoop (longBits : Nat) : List Plist → Except Fault (Option (List RpcPage))
  | key :: value :: rest => do
      let k ← keyVal key
      match ← rpcParsePage (some value) with
      | none => pure none
      | some page =>
        if isPageKey longBits page.pageId k then do
          let pages ← parsePagesLoop longBits rest
          pure (pages.map (page :: ·))
        else pure none
  | _ => pure (some [])

def rpcParsePages (longBits : Nat) (node : Option Plist) : Except Fault (Option (List RpcPage)) :=
  match node with
  | some (.dict children) => parsePagesLoop longBits children
  | _ => pure none

/-- `rpc_recv_applicationUpdated`, before the callback: the old name and the new one. -/
def parseUpdate (args : Option Plist) : Except Fault (Option (Str × Str)) := do
  let appId ← match ← rpcDictGetRequiredString args wirHostApplicationIdentifierKey with
    | some appId => pure (some appId)
    | none => rpcDictGetRequiredString args wirApplicationNameKey
  match appId with
  | none => pure none
  | some appId => do
      let destId ← rpcDictGetRequiredString args wirApplicationIdentifierKey
      pure (destId.map (appId, ·))

/-- A message with its arguments read. -/
inductive Message where
  | reportSetup
  | reportConnectedApplicationList (apps : List RpcApp)
  | applicationConnected (app : RpcApp)
  | applicationDisconnected (app : RpcApp)
  | applicationSentListing (appId : Str) (pages : List RpcPage)
  | applicationSentData (destId : Str) (data : List UInt8)
  | applicationUpdated (appId destId : Str)
  | reportConnectedDriverList
  deriving DecidableEq

/-- The first part of `rpc_recv_msg` and of the functions it calls: `none` for a message that is
not understood. -/
def rpcParseMsg (env : Outside) (selector : Str) (args : Option Plist) :
    Except Fault (Option Message) := do
  if selector = ascii "_rpc_reportSetup:" then
    match args with
    | some (.dict _) => pure (some .reportSetup)
    | _ => pure none
  else if selector = ascii "_rpc_reportConnectedApplicationList:" then do
    let apps ← rpcParseApps (args.bind (dictGetItem · wirApplicationDictionaryKey))
    pure (apps.map .reportConnectedApplicationList)
  else if selector = ascii "_rpc_applicationConnected:" then do
    let app ← rpcParseApp args
    pure (app.map .applicationConnected)
  else if selector = ascii "_rpc_applicationDisconnected:" then do
    let app ← rpcParseApp args
    pure (app.map .applicationDisconnected)
  else if selector = ascii "_rpc_applicationSentListing:" then
    match ← rpcDictGetRequiredString args wirApplicationIdentifierKey with
    | none => pure none
    | some appId => do
        let pages ← rpcParsePages env.longBits (args.bind (dictGetItem · wirListingKey))
        pure (pages.map (.applicationSentListing appId))
  else if selector = ascii "_rpc_applicationSentData:" then
    match ← rpcDictGetRequiredString args wirApplicationIdentifierKey with
    | none => pure none
    | some _ =>
      match ← rpcDictGetRequiredString args wirDestinationKey with
      | none => pure none
      | some destId =>
        pure ((rpcDictGetRequiredData args wirMessageDataKey).map (.applicationSentData destId))
  else if selector = ascii "_rpc_applicationUpdated:" then do
    let names ← parseUpdate args
    pure (names.map fun n => .applicationUpdated n.1 n.2)
  else if selector = ascii "_rpc_reportConnectedDriverList:" then
    pure (some .reportConnectedDriverList)
  else pure none

/-- The callbacks of `rpc_t`. -/
def onMessage (env : Outside) (i : Ptr) : Message → Handler Bool
  | .reportSetup => iwdpOnReportSetup i
  | .reportConnectedApplicationList apps => iwdpOnReportConnectedApplicationList env i apps
  | .applicationConnected app => iwdpOnApplicationConnected env i app
  | .applicationDisconnected app => iwdpOnApplicationDisconnected env i app
  | .applicationSentListing appId pages => iwdpOnApplicationSentListing env i appId pages
  | .applicationSentData destId data => iwdpOnApplicationSentData env i destId data
  | .applicationUpdated appId destId => iwdpOnApplicationUpdated env i appId destId
  | .reportConnectedDriverList => pure true

/-- `rpc_recv_plist`, before the callback; `strlen` of a selector that is not there ends the
program. -/
def rpcMessage (env : Outside) (rpcDict : Plist) : Except Fault (Option Message) := do
  match ← rpcDictGetRequiredString (some rpcDict) selectorKey with
  | none => throw .null
  | some selector => rpcParseMsg env selector (dictGetItem rpcDict argumentKey)

def rpcRecvPlist (env : Outside) (i : Ptr) (rpcDict : Plist) : Handler Bool :=
  match rpcMessage env rpcDict with
  | .error fault => throw fault
  | .ok none => pure false
  | .ok (some message) => onMessage env i message

end IDeviceStack.WebkitProxy.Iwdp
