/-
# `Usbmuxd.PairRecords` — the records in the configuration directory

`SavePairRecord`, `ReadPairRecord` and `DeletePairRecord` of `client_command`, with
`config_set_device_record`, `config_get_device_record` and `config_remove_device_record`, and
`config_get_value` for the `SystemBUID`.

* The identifiers are those that `plist_get_string_val` hands out, and the data those of
  `plist_get_data_val`; `none` is a `NULL`.
* The configuration directory is there, and a name in it that ends with `.plist` is no directory, so
  that the files can be written (`Ready`), and one that is there can be removed: `errno` is
  `ENOENT` where `remove` fails.
* `libplist` may crash on the data; then the daemon is gone.

**Proved here.**  `records_confined`, `records_escape`.
-/
import IDeviceStack.Lib.FileTree
import IDeviceStack.Lib.Fault
import IDeviceStack.Libplist.Bplist.Parse
import IDeviceStack.Libplist.Xplist.Roundtrip

namespace IDeviceStack.Usbmuxd.PairRecords

open Lib Libplist Libplist.Xplist List

/-! ## Property lists -/

/-- How `libplist` is built and called: its conversions, where its buffers are, and a bound for its
loops. -/
structure Codec where
  build : Bplist.Build
  widen : Nat → Nat
  base : Nat
  conv : Conv
  pconv : PrintConv
  fuel : Nat

/-- A crash of `libplist`. -/
inductive Crash where
  | bin (s : Bplist.Stop)
  | xml (s : Stop)

/-- `plist_from_bin` or `plist_from_xml`; the length is a `uint32_t`. -/
def Codec.plistFrom (codec : Codec) (binary : Bool) (buffer : List UInt8) :
    Except Crash (Option Plist) :=
  let length := buffer.length % 2 ^ 32
  if binary then
    match Bplist.plistFromBin ⟨.machine, codec.build, ⟨codec.base, buffer.take length⟩, codec.widen⟩
        codec.fuel with
    | .ok (plist, _) => .ok plist
    | .error s => .error (.bin s)
  else
    match plistFromXml codec.conv buffer length codec.fuel with
    | .ok (nodes, some root) => .ok (treeAt nodes nodes.length root)
    | .ok (_, none) => .ok none
    | .error s => .error (.xml s)

def magic : List UInt8 := lit "bplist00"

/-- The dictionary in the data of a record, if there is one. -/
def Codec.recordPlist (codec : Codec) (data : List UInt8) : Except Crash (Option Plist) :=
  if data.length < 8 then .ok none
  else
    match codec.plistFrom (data.take 8 = magic) data with
    | .ok (some (.dict children)) => .ok (some (.dict children))
    | .ok _ => .ok none
    | .error e => .error e

/-- The file that `plist_write_to_filename` writes. -/
def Codec.fileOf (codec : Codec) (plist : Plist) : List UInt8 :=
  (plistToXml codec.pconv plist).1.take (plistToXml codec.pconv plist).2

/-! ## Files -/

/-- `config_get_config_dir`. -/
def configDir : List UInt8 := lit "/var/lib/lockdown"

/-- Where it is. -/
def configPath : Path := [lit "var", lit "lib", lit "lockdown"]

/-- `CONFIG_EXT`. -/
def CONFIG_EXT : List UInt8 := lit ".plist"

/-- The path of a record: `string_concat(config_path, DIR_SEP_S, udid, CONFIG_EXT, NULL)`. -/
def recordFile (udid : List UInt8) : List UInt8 := configDir ++ slash :: (udid ++ CONFIG_EXT)

/-- The path of `CONFIG_FILE`. -/
def configFile : List UInt8 := recordFile (lit "SystemConfiguration")

def EINVAL : Nat := 22

def ENOENT : Nat := 2

/-- `config_set_device_record`: an `errno`, or 0. -/
def configSetDeviceRecord (codec : Codec) (udid data : List UInt8) (d : Disk) :
    Except Crash (Nat × Disk) :=
  match codec.recordPlist data with
  | .error e => .error e
  | .ok none => .ok (EINVAL, d)
  | .ok (some plist) =>
    let d := (d.remove (recordFile udid)).2
    .ok (0, d.write (recordFile udid) (codec.fileOf plist))

/-- `config_get_device_record`: `buffer_read_from_filename` makes nothing of an empty file. -/
def configGetDeviceRecord (udid : List UInt8) (d : Disk) : Option (List UInt8) × Disk :=
  let (content, d) := d.read (recordFile udid)
  (content.filter fun data => data ≠ [], d)

def configRemoveDeviceRecord (udid : List UInt8) (d : Disk) : Nat × Disk :=
  let (removed, d) := d.remove (recordFile udid)
  (if removed then 0 else ENOENT, d)

/-! ## Requests -/

/-- A message, with its `PairRecordID` and its `PairRecordData`. -/
inductive Request where
  | readPairRecord (id : Option (List UInt8))
  | savePairRecord (id data : Option (List UInt8))
  | deletePairRecord (id : Option (List UInt8))

/-- What the client gets. -/
inductive Reply where
  | result (number : Nat)
  | pairRecordData (data : List UInt8)

/-- The branches of `client_command`. -/
def clientCommand (codec : Codec) (d : Disk) : Request → Except Crash (Reply × Disk)
  | .readPairRecord none => .ok (.result EINVAL, d)
  | .readPairRecord (some id) =>
    let (data, d) := configGetDeviceRecord id d
    match data with
    | some data => .ok (.pairRecordData data, d)
    | none => .ok (.result ENOENT, d)
  | .savePairRecord (some id) (some data) =>
    match configSetDeviceRecord codec id data d with
    | .ok (res, d) => .ok (.result res, d)
    | .error e => .error e
  | .savePairRecord _ _ => .ok (.result EINVAL, d)
  | .deletePairRecord none => .ok (.result EINVAL, d)
  | .deletePairRecord (some id) =>
    let (res, d) := configRemoveDeviceRecord id d
    .ok (.result res, d)

/-- A request is served. -/
def step (codec : Codec) (d : Disk) (r : Request) : Except Crash Disk :=
  (clientCommand codec d r).map Prod.snd

/-- The value of a key in the children of a dictionary. -/
def childValue (key : List UInt8) : List Plist → Option Plist
  | .scalar (.key k) _ :: value :: children =>
    if cstr k = key then some value else childValue key children
  | _ => none

/-- `config_get_value` for `CONFIG_SYSTEM_BUID_KEY`, if it is a string: the `SystemBUID`. -/
def systemBuid (codec : Codec) (d : Disk) : Except Crash (Option (List UInt8)) :=
  match ((d.read configFile).1.filter fun data => data ≠ []) with
  | none => .ok none
  | some data =>
    match codec.plistFrom (data.length > 8 ∧ data.take 8 = magic) data with
    | .error e => .error e
    | .ok (some (.dict children)) =>
      match childValue (lit "SystemBUID") children with
      | some (.scalar (.string s) _) => .ok (some (cstr s))
      | _ => .ok none
    | .ok _ => .ok none

/-! ## What the store is for -/

/-- Where the record of an identifier belongs. -/
def recordPath (id : List UInt8) : Path := configPath ++ [id ++ CONFIG_EXT]

/-- Where the configuration of the daemon is. -/
def systemPath : Path := recordPath (lit "SystemConfiguration")

/-- An identifier that stands for a file in the configuration directory, and not for the
configuration. -/
def PlainId (id : List UInt8) : Prop := slash ∉ id ∧ id ≠ lit "SystemConfiguration"

instance (id : List UInt8) : Decidable (PlainId id) := inferInstanceAs (Decidable (_ ∧ _))

/-- The records can be written. -/
structure Ready (t : FileTree) : Prop where
  config : t.Denotes configDir configPath
  file : ∀ name, t.isDir (configPath ++ [name ++ CONFIG_EXT]) = false

def Request.id : Request → Option (List UInt8)
  | .readPairRecord id => id
  | .savePairRecord id _ => id
  | .deletePairRecord id => id

/-- The last word on a record: a dictionary that was saved, or `none` if it was deleted. -/
abbrev Word := Option (Option Plist)

/-- What a request says about the record of `id`. -/
def said (codec : Codec) (id : List UInt8) (word : Word) : Request → Word
  | .savePairRecord (some id') (some data) =>
    if id' = id then
      match codec.recordPlist data with
      | .ok (some plist) => some (some plist)
      | _ => word
    else word
  | .deletePairRecord (some id') => if id' = id then some none else word
  | _ => word

/-- What some requests say about it in the end. -/
def lastSaid (codec : Codec) (id : List UInt8) (requests : List Request) : Word :=
  requests.foldl (said codec id) none

/-- The file that goes with it; `old` is the file before anything was said. -/
def Word.file (codec : Codec) (old : Option (List UInt8)) : Word → Option (List UInt8)
  | none => old
  | some none => none
  | some (some plist) => some (plistToXml codec.pconv plist).1

/-- The answer to a `ReadPairRecord`. -/
def readReply (file : Option (List UInt8)) : Reply :=
  match file.filter fun data => data ≠ [] with
  | some data => .pairRecordData data
  | none => .result ENOENT

/-- What a `ReadPairRecord` answers after that. -/
def Word.reply (codec : Codec) (old : Option (List UInt8)) : Word → Reply
  | none => readReply old
  | some none => .result ENOENT
  | some (some plist) => .pairRecordData (plistToXml codec.pconv plist).1

/-- What is asked of a request: it stays with its own record. -/
structure Confined (codec : Codec) (d : Disk) (r : Request) : Prop where
  /-- It touches a record in the configuration directory, and not the configuration. -/
  touched : ∀ reply d', clientCommand codec d r = .ok (reply, d') →
    ∃ new, d'.touched = d.touched ++ new ∧
      ∀ p ∈ new, p ≠ systemPath ∧ ∃ id, r.id = some id ∧ p = recordPath id
  /-- Other records are what they were. -/
  others : ∀ reply d', clientCommand codec d r = .ok (reply, d') →
    ∀ id, PlainId id → r.id ≠ some id →
      d'.tree.files (recordPath id) = d.tree.files (recordPath id)
  /-- The answer does not depend on them. -/
  reply : ∀ d₂ : Disk, d₂.tree.isDir = d.tree.isDir →
    (∀ id, r.id = some id → d₂.tree.files (recordPath id) = d.tree.files (recordPath id)) →
      (clientCommand codec d₂ r).map Prod.fst = (clientCommand codec d r).map Prod.fst
  buid : ∀ reply d', clientCommand codec d r = .ok (reply, d') →
    systemBuid codec d' = systemBuid codec d

/-- The identifier whose file a request opens or removes; a `SavePairRecord` without a dictionary stops
before that. -/
def Request.reaches (codec : Codec) : Request → Option (List UInt8)
  | .readPairRecord id => id
  | .savePairRecord id (some data) =>
    match codec.recordPlist data with
    | .ok (some _) => id
    | _ => none
  | .savePairRecord _ none => none
  | .deletePairRecord id => id

/-- It reaches a file by a plain identifier, or none at all. -/
def Harmless (codec : Codec) (t : FileTree) (r : Request) : Prop :=
  ∀ id, r.reaches codec = some id → t.locate (recordFile id) = none ∨ PlainId id

/-- The text of a dictionary is shorter than the lengths of `libplist` can tell. -/
def Short (codec : Codec) (r : Request) : Prop :=
  ∀ id data plist, r = .savePairRecord (some id) (some data) →
    codec.recordPlist data = .ok (some plist) → (plistToXml codec.pconv plist).1.length < 2 ^ 32

/-! ## Where the records are -/

variable {codec : Codec} {d d' : Disk} {t t' : FileTree} {id : List UInt8}

theorem Ready.congr (h : Ready t) (hdir : t'.isDir = t.isDir) : Ready t' where
  config := by
    rw [FileTree.Denotes, FileTree.walk_congr hdir]
    exact h.config
  file := fun name => by rw [hdir, h.file name]

theorem isDots_record (id : List UInt8) : isDots (id ++ CONFIG_EXT) = false := by
  have hlen : 6 ≤ (id ++ CONFIG_EXT).length := by
    rw [length_append]
    exact Nat.le_add_left 6 id.length
  have hne : ∀ s : List UInt8, s.length < 6 → id ++ CONFIG_EXT ≠ s := fun s hs h => by
    rw [h] at hlen
    omega
  have h0 := hne [] (by decide)
  have h1 := hne [46] (by decide)
  have h2 := hne [46, 46] (by decide)
  simp only [isDots, h0, h1, h2, or_self, decide_false]

theorem slash_record (h : slash ∉ id) : slash ∉ id ++ CONFIG_EXT := by
  rw [mem_append]
  exact not_or.mpr ⟨h, by decide⟩

theorem Ready.locate (hready : Ready t) (h : slash ∉ id) :
    t.locate (recordFile id) = some (recordPath id) :=
  FileTree.locate_child hready.config (slash_record h) (isDots_record id)

theorem recordPath_inj {id' : List UInt8} : recordPath id = recordPath id' ↔ id = id' := by
  rw [recordPath, recordPath, append_cancel_left_eq, singleton_inj, append_cancel_right_eq]

/-- One record is `file` now, and nothing else has been touched. -/
structure Changed (d : Disk) (id : List UInt8) (file : Option (List UInt8)) (d' : Disk) : Prop where
  isDir : d'.tree.isDir = d.tree.isDir
  files : ∀ p, d'.tree.files p = if p = recordPath id then file else d.tree.files p
  touched : ∃ n, d'.touched = d.touched ++ List.replicate n (recordPath id)

section Operations

variable (hready : Ready d.tree) (h : slash ∉ id)

include hready h

theorem visit_touched : (d.visit (recordFile id)).touched = d.touched ++ [recordPath id] := by
  rw [Disk.visit, hready.locate h]
  rfl

theorem read_record : (d.read (recordFile id)).1 = d.tree.files (recordPath id) ∧
    Changed d id (d.tree.files (recordPath id)) (d.read (recordFile id)).2 := by
  rw [Disk.read, hready.locate h]
  refine ⟨rfl, rfl, fun p => ?_, 1, visit_touched hready h⟩
  show d.tree.files p = _
  split
  · next hp => rw [hp]
  · rfl

theorem remove_record :
    (d.remove (recordFile id)).1 = (d.tree.files (recordPath id)).isSome ∧
      Changed d id none (d.remove (recordFile id)).2 := by
  have hdir : d.tree.isDir (recordPath id) = false := hready.file id
  rw [Disk.remove, hready.locate h]
  simp only [dif_pos hdir]
  exact ⟨trivial, rfl, fun p => rfl, 1, visit_touched hready h⟩

theorem write_record (content : List UInt8) :
    Changed d id (some content) (d.write (recordFile id) content) := by
  have hdir : d.tree.isDir (recordPath id) = false := hready.file id
  rw [Disk.write, hready.locate h]
  simp only [dif_pos hdir]
  exact ⟨rfl, fun p => rfl, 1, visit_touched hready h⟩

end Operations

theorem Changed.trans {file file' : Option (List UInt8)} {d'' : Disk} (h : Changed d id file d')
    (h' : Changed d' id file' d'') : Changed d id file' d'' where
  isDir := h'.isDir.trans h.isDir
  files := fun p => by
    rw [h'.files p, h.files p]
    split <;> rfl
  touched := by
    obtain ⟨n, hn⟩ := h.touched
    obtain ⟨m, hm⟩ := h'.touched
    exact ⟨n + m, by rw [hm, hn, append_assoc, replicate_append_replicate]⟩

/-! ## One record -/

/-- A request, seen from its record: the answer, and what becomes of the file. -/
def effect (codec : Codec) (file : Option (List UInt8)) :
    Request → Except Crash (Reply × Option (List UInt8))
  | .readPairRecord (some _) => .ok (readReply file, file)
  | .savePairRecord (some _) (some data) =>
    match codec.recordPlist data with
    | .error e => .error e
    | .ok none => .ok (.result EINVAL, file)
    | .ok (some plist) => .ok (.result 0, some (codec.fileOf plist))
  | .deletePairRecord (some _) => .ok (.result (if file.isSome then 0 else ENOENT), none)
  | _ => .ok (.result EINVAL, file)

/-- The daemon does to the record of the request what `effect` says, and nothing else. -/
def Serves (codec : Codec) (d : Disk) (r : Request) (id : List UInt8) :
    Except Crash (Reply × Option (List UInt8)) → Prop
  | .error e => clientCommand codec d r = .error e
  | .ok (reply, file) => ∃ d', clientCommand codec d r = .ok (reply, d') ∧ Changed d id file d'

variable {r : Request}

/-- **One request.** -/
theorem clientCommand_effect (codec : Codec) (hready : Ready d.tree) (h : slash ∉ id)
    (hid : r.id = some id) :
    Serves codec d r id (effect codec (d.tree.files (recordPath id)) r) := by
  cases r with
  | readPairRecord id' =>
    cases hid
    obtain ⟨hcontent, hchanged⟩ := read_record hready h
    rw [effect, Serves]
    refine ⟨_, ?_, hchanged⟩
    rw [clientCommand, configGetDeviceRecord, ← hcontent, readReply]
    simp only
    split <;> rfl
  | deletePairRecord id' =>
    cases hid
    obtain ⟨hremoved, hchanged⟩ := remove_record hready h
    rw [effect, Serves]
    refine ⟨_, ?_, hchanged⟩
    rw [clientCommand, configRemoveDeviceRecord, ← hremoved]
  | savePairRecord id' data =>
    cases hid
    cases data with
    | none => 
      refine ⟨d, rfl, rfl, fun p => ?_, 0, (append_nil _).symm⟩
      split
      · next hp => rw [hp]
      · rfl
    | some data =>
      rw [effect]
      cases hparse : codec.recordPlist data with
      | error e => 
        rw [Serves, clientCommand, configSetDeviceRecord, hparse]
      | ok plist =>
        cases plist with
        | none =>
          refine ⟨d, ?_, rfl, fun p => ?_, 0, (append_nil _).symm⟩
          · rw [clientCommand, configSetDeviceRecord, hparse]
          · split
            · next hp => rw [hp]
            · rfl
        | some plist =>
          obtain ⟨-, hremoved⟩ := remove_record hready h
          have hwritten := write_record (hready.congr hremoved.isDir) h (codec.fileOf plist)
          refine ⟨_, ?_, hremoved.trans hwritten⟩
          rw [clientCommand, configSetDeviceRecord, hparse]

theorem clientCommand_still
    (h : ∀ id, r.reaches codec = some id → d.tree.locate (recordFile id) = none) :
    clientCommand codec d r = (effect codec none r).map fun result => (result.1, d) := by
  have hremove : ∀ {id}, d.tree.locate (recordFile id) = none →
      d.remove (recordFile id) = (false, d) := fun hlost => by
    rw [Disk.remove, hlost, Disk.visit_of_none hlost]
  cases r with
  | readPairRecord id =>
    cases id with
    | none => rfl
    | some id =>
      have hlost := h id rfl
      have hread : d.read (recordFile id) = (none, d) := by
        rw [Disk.read, hlost, Disk.visit_of_none hlost, Option.bind_none]
      rw [clientCommand, configGetDeviceRecord, hread]
      rfl
  | deletePairRecord id =>
    cases id with
    | none => rfl
    | some id =>
      rw [clientCommand, configRemoveDeviceRecord, hremove (h id rfl)]
      rfl
  | savePairRecord id data =>
    cases id with
    | none => rfl
    | some id =>
      cases data with
      | none => rfl
      | some data =>
        rw [clientCommand, configSetDeviceRecord, effect]
        cases hparse : codec.recordPlist data with
        | error e => rfl
        | ok plist =>
          cases plist with
          | none => rfl
          | some plist =>
            have hlost : d.tree.locate (recordFile id) = none := h id (by
              rw [Request.reaches, hparse])
            have hwrite : ∀ content, d.write (recordFile id) content = d := fun content => by
              rw [Disk.write, hlost, Disk.visit_of_none hlost]
            simp only [hremove hlost, hwrite]
            rfl

theorem Request.id_of_reaches (h : r.reaches codec = some id) : r.id = some id := by
  cases r with
  | readPairRecord id' => exact h
  | deletePairRecord id' => exact h
  | savePairRecord id' data =>
    cases data with
    | none => cases h
    | some data =>
      rw [Request.reaches] at h
      split at h
      · exact h
      · cases h

theorem Harmless.cases {r : Request} (h : Harmless codec t r) :
    (∀ id, r.reaches codec = some id → t.locate (recordFile id) = none) ∨
      ∃ id, r.id = some id ∧ PlainId id := by
  cases hreach : r.reaches codec with
  | none => exact .inl (by rintro id ⟨⟩)
  | some id =>
    rcases h id hreach with hlost | hplain
    · refine .inl ?_
      rintro id' ⟨⟩
      exact hlost
    · exact .inr ⟨id, Request.id_of_reaches hreach, hplain⟩

theorem clientCommand_ok (hready : Ready d.tree) {reply : Reply} (hharm : Harmless codec d.tree r)
    (h : clientCommand codec d r = .ok (reply, d')) :
    d' = d ∨ ∃ id file, r.id = some id ∧ PlainId id ∧ Changed d id file d' := by
  rcases hharm.cases with hstill | ⟨id, hid, hplain⟩
  · rw [clientCommand_still hstill] at h
    cases heffect : effect codec none r with
    | error e =>
      rw [heffect] at h
      cases h
    | ok result =>
      rw [heffect] at h
      cases h
      exact .inl rfl
  · have hserves := clientCommand_effect codec hready hplain.1 hid
    cases heffect : effect codec (d.tree.files (recordPath id)) r with
    | error e =>
      rw [heffect, Serves, h] at hserves
      cases hserves
    | ok result =>
      obtain ⟨reply', file⟩ := result
      rw [heffect, Serves] at hserves
      obtain ⟨d1, hcommand, hchanged⟩ := hserves
      rw [h] at hcommand
      cases hcommand
      exact .inr ⟨id, file, hid, hplain, hchanged⟩

theorem step_ok (h : step codec d r = .ok d') :
    ∃ reply, clientCommand codec d r = .ok (reply, d') := by
  rw [step] at h
  obtain ⟨result, hcommand, rfl⟩ : ∃ result, clientCommand codec d r = .ok result ∧ result.2 = d' := by
    cases hcommand : clientCommand codec d r with
    | error e =>
      rw [hcommand] at h
      cases h
    | ok result =>
      rw [hcommand] at h
      cases h
      exact ⟨result, rfl, rfl⟩
  exact ⟨result.1, hcommand⟩

theorem clientCommand_isDir (hready : Ready d.tree) (hharm : Harmless codec d.tree r)
    (h : step codec d r = .ok d') : d'.tree.isDir = d.tree.isDir := by
  obtain ⟨reply, hcommand⟩ := step_ok h
  rcases clientCommand_ok hready hharm hcommand with rfl | ⟨id, file, -, -, hchanged⟩
  · rfl
  · exact hchanged.isDir

theorem systemBuid_congr (hready : Ready d.tree) (hdir : d'.tree.isDir = d.tree.isDir)
    (hfile : d'.tree.files systemPath = d.tree.files systemPath) :
    systemBuid codec d' = systemBuid codec d := by
  have hslash : slash ∉ lit "SystemConfiguration" := by decide
  have hread : (d.read configFile).1 = d.tree.files systemPath := (read_record hready hslash).1
  have hread' : (d'.read configFile).1 = d'.tree.files systemPath :=
    (read_record (hready.congr hdir) hslash).1
  rw [systemBuid, systemBuid, hread, hread', hfile]

theorem Harmless.confined (hready : Ready d.tree) (hharm : Harmless codec d.tree r) :
    Confined codec d r where
  touched := by
    intro reply d' h
    rcases clientCommand_ok hready hharm h with rfl | ⟨id, file, hid, hplain, hchanged⟩
    · exact ⟨[], (append_nil _).symm, fun p hp => absurd hp not_mem_nil⟩
    · obtain ⟨n, hn⟩ := hchanged.touched
      refine ⟨_, hn, fun p hp => ?_⟩
      rw [eq_of_mem_replicate hp]
      exact ⟨fun heq => hplain.2 (recordPath_inj.mp heq), id, hid, rfl⟩
  others := by
    intro reply d' h id' _ hne
    rcases clientCommand_ok hready hharm h with rfl | ⟨id, file, hid, -, hchanged⟩
    · rfl
    · rw [hchanged.files, if_neg]
      intro heq
      rw [recordPath_inj.mp heq] at hne
      exact hne hid
  reply := by
    intro d2 hdir hfiles
    rcases hharm.cases with hstill | ⟨id, hid, hplain⟩
    · have hstill2 : ∀ id, r.reaches codec = some id → d2.tree.locate (recordFile id) = none :=
        fun id hid => by rw [FileTree.locate_congr hdir, hstill id hid]
      rw [clientCommand_still hstill, clientCommand_still hstill2]
      cases effect codec none r <;> rfl
    · have hserves := clientCommand_effect codec hready hplain.1 hid
      have hserves2 := clientCommand_effect codec (hready.congr hdir) hplain.1 hid
      rw [hfiles id hid] at hserves2
      cases heffect : effect codec (d.tree.files (recordPath id)) r with
      | error e =>
        rw [heffect, Serves] at hserves hserves2
        rw [hserves, hserves2]
      | ok result =>
        obtain ⟨reply, file⟩ := result
        rw [heffect, Serves] at hserves hserves2
        obtain ⟨d1, hcommand, -⟩ := hserves
        obtain ⟨d3, hcommand2, -⟩ := hserves2
        rw [hcommand, hcommand2]
        rfl
  buid := by
    intro reply d' h
    rcases clientCommand_ok hready hharm h with rfl | ⟨id, file, hid, hplain, hchanged⟩
    · rfl
    · refine systemBuid_congr hready hchanged.isDir ?_
      rw [hchanged.files, if_neg]
      exact fun heq => hplain.2 (recordPath_inj.mp heq.symm)

theorem clientCommand_touched {r : Request} {p : Path} (hreach : r.reaches codec = some id)
    (hp : d.tree.locate (recordFile id) = some p) :
    ∃ reply d' new, clientCommand codec d r = .ok (reply, d') ∧
      d'.touched = d.touched ++ p :: new := by
  have hremove : (d.remove (recordFile id)).2.touched = d.touched ++ [p] := by
    rw [Disk.remove, hp]
    simp only
    split <;> exact Disk.visit_of_some hp
  cases r with
  | readPairRecord id' =>
    cases hreach
    rw [clientCommand, configGetDeviceRecord]
    simp only
    split
    · exact ⟨_, _, [], rfl, Disk.visit_of_some hp⟩
    · exact ⟨_, _, [], rfl, Disk.visit_of_some hp⟩
  | deletePairRecord id' =>
    cases hreach
    exact ⟨_, _, [], rfl, hremove⟩
  | savePairRecord id' data =>
    cases data with
    | none => cases hreach
    | some data =>
      rw [Request.reaches] at hreach
      split at hreach
      · next plist hparse =>
        cases hreach
        obtain ⟨d1, hd1⟩ : ∃ d1, (d.remove (recordFile id)).2 = d1 := ⟨_, rfl⟩
        rw [hd1] at hremove
        obtain ⟨new, hnew⟩ : ∃ new, (d1.write (recordFile id) (codec.fileOf plist)).touched =
            d1.touched ++ new := by
          rw [Disk.write]
          split
          · exact ⟨_, rfl⟩
          · split <;> exact ⟨_, rfl⟩
        refine ⟨.result 0, d1.write (recordFile id) (codec.fileOf plist), new, ?_, ?_⟩
        · rw [clientCommand, configSetDeviceRecord, hparse]
          simp only [hd1]
        · rw [hnew, hremove, append_assoc]
          rfl
      · cases hreach

/-- **A request stays with its record** if and only if it is harmless. -/
theorem confined_iff (hready : Ready d.tree) : Confined codec d r ↔ Harmless codec d.tree r := by
  refine ⟨fun h id hreach => ?_, fun h => h.confined hready⟩
  cases hp : d.tree.locate (recordFile id) with
  | none => exact .inl rfl
  | some p =>
    refine .inr ?_
    obtain ⟨reply, d', new, hcommand, htouched⟩ := clientCommand_touched hreach hp
    obtain ⟨new', hnew', hplaces⟩ := h.touched reply d' hcommand
    have hmem : p ∈ new' := by
      rw [← append_cancel_left (htouched.symm.trans hnew')]
      exact mem_cons_self
    obtain ⟨hsystem, id', hid', hpath⟩ := hplaces p hmem
    rw [Request.id_of_reaches hreach] at hid'
    cases hid'
    have hslash : slash ∉ id := by
      obtain ⟨dir, name, hname, hno⟩ := FileTree.locate_name hp
      have hlast : name = id ++ CONFIG_EXT := by
        rw [hpath, recordPath] at hname
        exact (singleton_inj.mp (append_inj_right' hname rfl)).symm
      intro hin
      rw [hlast] at hno
      exact hno (mem_append_left _ hin)
    refine ⟨hslash, fun heq => ?_⟩
    rw [hpath, heq] at hsystem
    exact hsystem rfl

/-! ## Runs -/

/-- Every record is what was said last. -/
structure Kept (codec : Codec) (old : FileTree) (words : List UInt8 → Word) (d : Disk) : Prop where
  ready : Ready d.tree
  file : ∀ id, PlainId id →
    d.tree.files (recordPath id) = (words id).file codec (old.files (recordPath id))

theorem fileOf_eq {plist : Plist} (h : (plistToXml codec.pconv plist).1.length < 2 ^ 32) :
    codec.fileOf plist = (plistToXml codec.pconv plist).1 := by
  have hlength : (plistToXml codec.pconv plist).2 = (plistToXml codec.pconv plist).1.length :=
    Nat.mod_eq_of_lt h
  rw [Codec.fileOf, hlength, take_length]

theorem effect_said {reply : Reply} {word : Word} {old file : Option (List UInt8)}
    (hshort : Short codec r) (hid : r.id = some id)
    (h : effect codec (word.file codec old) r = .ok (reply, file)) :
    file = (said codec id word r).file codec old := by
  cases r with
  | readPairRecord id' =>
    cases hid
    cases h
    rfl
  | deletePairRecord id' =>
    cases hid
    cases h
    rw [said, if_pos rfl]
    rfl
  | savePairRecord id' data =>
    cases hid
    cases data with
    | none =>
      cases h
      rfl
    | some data =>
      rw [said, if_pos rfl]
      rw [effect] at h
      cases hparse : codec.recordPlist data with
      | error e =>
        rw [hparse] at h
        cases h
      | ok plist =>
        rw [hparse] at h
        cases plist with
        | none =>
          cases h
          rfl
        | some plist =>
          cases h
          exact congrArg some (fileOf_eq (hshort id data plist rfl hparse))

theorem said_other {word : Word} (h : r.id ≠ some id) : said codec id word r = word := by
  cases r with
  | readPairRecord id' => rfl
  | deletePairRecord id' =>
    cases id' with
    | none => rfl
    | some id' => rw [said, if_neg fun heq => h (congrArg some heq)]
  | savePairRecord id' data =>
    cases id' with
    | none => rfl
    | some id' =>
      cases data with
      | none => rfl
      | some data => rw [said, if_neg fun heq => h (congrArg some heq)]

theorem readReply_file (old : Option (List UInt8)) (word : Word) :
    readReply (word.file codec old) = word.reply codec old := by
  rcases word with _ | _ | plist
  · rfl
  · rfl
  · have htext : ∀ plist, (plistToXml codec.pconv plist).1 ≠ [] := by
      intro plist h
      have hprolog : xmlPlistProlog = [] := (append_eq_nil_iff.mp (append_eq_nil_iff.mp h).1).1
      exact absurd hprolog (by decide)
    rw [Word.file, readReply, Option.filter_some, if_pos (by simpa using htext plist)]
    rfl

theorem Kept.step_ok {old : FileTree} {words : List UInt8 → Word} (h : Kept codec old words d)
    (hharm : Harmless codec d.tree r) (hshort : Short codec r) (hstep : step codec d r = .ok d') :
    Kept codec old (fun id => said codec id (words id) r) d' := by
  obtain ⟨reply, hcommand⟩ := PairRecords.step_ok hstep
  refine ⟨h.ready.congr (clientCommand_isDir h.ready hharm hstep), fun id hplain => ?_⟩
  by_cases hid : r.id = some id
  · have hserves := clientCommand_effect codec h.ready hplain.1 hid
    rw [h.file id hplain] at hserves
    cases heffect : effect codec ((words id).file codec (old.files (recordPath id))) r with
    | error e =>
      rw [heffect, Serves, hcommand] at hserves
      cases hserves
    | ok result =>
      obtain ⟨reply', file⟩ := result
      rw [heffect, Serves] at hserves
      obtain ⟨d1, hcommand1, hchanged⟩ := hserves
      rw [hcommand] at hcommand1
      cases hcommand1
      rw [hchanged.files, if_pos rfl]
      exact effect_said hshort hid heffect
  · have hother : said codec id (words id) r = words id := said_other hid
    simp only [hother]
    rw [← h.file id hplain]
    exact (hharm.confined h.ready).others reply _ hcommand id hplain hid

theorem Kept.run_ok {old : FileTree} {words : List UInt8 → Word} {requests : List Request}
    (h : Kept codec old words d)
    (hsafe : Along (step codec) (fun d r => Harmless codec d.tree r ∧ Short codec r) d requests)
    (hrun : runAll (step codec) d requests = .ok d') :
    Kept codec old (fun id => requests.foldl (said codec id) (words id)) d' := by
  induction requests generalizing d words with
  | nil =>
    cases hrun
    exact h
  | cons r requests ih =>
    obtain ⟨⟨hharm, hshort⟩, hrest⟩ := hsafe
    rw [runAll] at hrun
    cases hstep : step codec d r with
    | error e =>
      rw [hstep] at hrun
      cases hrun
    | ok d1 =>
      rw [hstep] at hrun
      exact ih (h.step_ok hharm hshort hstep) (hrest d1 hstep) hrun

theorem along_confined_iff (hready : Ready d.tree) (requests : List Request) :
    Along (step codec) (Confined codec) d requests ↔
      Along (step codec) (fun d r => Harmless codec d.tree r) d requests := by
  induction requests generalizing d with
  | nil => exact Iff.rfl
  | cons r requests ih =>
    rw [Along, Along, confined_iff hready]
    refine and_congr_right fun hharm => forall_congr' fun d1 => imp_congr_right fun hstep => ?_
    exact ih (hready.congr (clientCommand_isDir hready hharm hstep))

/-- **The store of pair records.**  In a run every request stays with its own record if and only if it
reaches a file only by an identifier without a slash that is not `SystemConfiguration`.  After
such a run a `ReadPairRecord` brings the text of the dictionary that was saved last under the
identifier, if it was not deleted since. -/
theorem records_confined (hready : Ready d.tree) (requests : List Request) :
    (Along (step codec) (Confined codec) d requests ↔
      Along (step codec) (fun d r => Harmless codec d.tree r) d requests) ∧
    (Along (step codec) (fun d r => Harmless codec d.tree r ∧ Short codec r) d requests →
      ∀ d', runAll (step codec) d requests = .ok d' → ∀ id, PlainId id →
        (clientCommand codec d' (.readPairRecord (some id))).map Prod.fst =
          .ok ((lastSaid codec id requests).reply codec (d.tree.files (recordPath id)))) := by
  refine ⟨along_confined_iff hready requests, fun hsafe d' hrun id hplain => ?_⟩
  have hstart : Kept codec d.tree (fun _ => none) d := ⟨hready, fun id _ => rfl⟩
  have hkept := hstart.run_ok hsafe hrun
  have hserves : Serves codec d' (.readPairRecord (some id)) id _ :=
    clientCommand_effect _ hkept.ready hplain.1 rfl
  rw [effect, Serves, hkept.file id hplain] at hserves
  obtain ⟨d₁, hcommand, -⟩ := hserves
  rw [hcommand, ← readReply_file, lastSaid]
  rfl

/-! ## A small disk -/

/-- Two files, one of them the configuration. -/
def smallTree : FileTree where
  isDir := fun p => p ∈ [[], [lit "var"], [lit "var", lit "lib"], configPath, [lit "etc"]]
  files := fun p => if p = systemPath ∨ p = [lit "etc", lit "hosts.plist"] then some [60] else none
  apart := by
    intro p hp
    simp only [mem_cons, not_mem_nil, or_false, decide_eq_true_eq] at hp
    rcases hp with rfl | rfl | rfl | rfl | rfl <;> decide

theorem smallTree_ready : Ready smallTree where
  config := by
    rw [FileTree.Denotes]
    decide
  file := fun name => by
    have hlen : ∀ p : Path, p.length < 4 → configPath ++ [name ++ CONFIG_EXT] ≠ p := fun p hp h => by
      have hfour : (configPath ++ [name ++ CONFIG_EXT]).length = 4 := rfl
      rw [h] at hfour
      omega
    have h0 := hlen [] (by decide)
    have h1 := hlen [lit "var"] (by decide)
    have h2 := hlen [lit "var", lit "lib"] (by decide)
    have h3 := hlen configPath (by decide)
    have h4 := hlen [lit "etc"] (by decide)
    simp only [smallTree, mem_cons, not_mem_nil, h0, h1, h2, h3, h4, or_self, decide_false]

def smallDisk : Disk := ⟨smallTree, []⟩

def smallCodec : Codec :=
  ⟨.shipped, fun n => n, 4096, ⟨fun _ => 0, fun _ => 0, fun _ => 0⟩, ⟨fun _ => [], fun _ => none⟩, 100⟩

/-- Two requests; the first saves an empty dictionary. -/
def smallRequests : List Request :=
  [.savePairRecord (some (lit "abc")) (some (lit "<plist><dict/></plist>")),
    .deletePairRecord (some (lit "abd"))]

theorem smallRequests_saved :
    ∃ d', runAll (step smallCodec) smallDisk smallRequests = .ok d' ∧
      (clientCommand smallCodec d' (.readPairRecord (some (lit "abc")))).map Prod.fst =
        .ok (.pairRecordData (plistToXml smallCodec.pconv (.dict [])).1) := by
  have hplain : ∀ name, PlainId name → ∀ t : FileTree,
      t.locate (recordFile name) = none ∨ PlainId name := fun name h t => .inr h
  have hparse : smallCodec.recordPlist (lit "<plist><dict/></plist>") = .ok (some (.dict [])) := rfl
  obtain ⟨d', hrun⟩ : ∃ d', runAll (step smallCodec) smallDisk smallRequests = .ok d' := ⟨_, rfl⟩
  refine ⟨d', hrun, ?_⟩
  refine (records_confined smallTree_ready smallRequests).2 ?_ d' hrun (lit "abc") (by decide)
  refine ⟨⟨?_, ?_⟩, fun d₁ _ => ⟨⟨?_, ?_⟩, fun _ _ => trivial⟩⟩
  · rintro id ⟨⟩
    exact hplain _ (by decide) _
  · rintro id data plist ⟨⟩ h
    rw [hparse] at h
    cases h
    have hnode : (nodeToXml smallCodec.pconv 0 (.dict [])).length = 15 := by decide
    rw [plistToXml, length_append, length_append, xmlPlistProlog_length, hnode]
    decide
  · rintro id ⟨⟩
    exact hplain _ (by decide) _
  · rintro id data plist ⟨⟩

/-- An identifier with `..` in it removes a file elsewhere, and `SystemConfiguration` the
configuration. -/
theorem records_escape :
    Ready smallDisk.tree ∧
      (∃ d', clientCommand smallCodec smallDisk
          (.deletePairRecord (some (lit "../../../etc/hosts"))) = .ok (.result 0, d') ∧
        d'.touched = [[lit "etc", lit "hosts.plist"]] ∧
        smallDisk.tree.files [lit "etc", lit "hosts.plist"] = some [60] ∧
        d'.tree.files [lit "etc", lit "hosts.plist"] = none) ∧
      ∃ d', clientCommand smallCodec smallDisk
          (.deletePairRecord (some (lit "SystemConfiguration"))) = .ok (.result 0, d') ∧
        d'.touched = [systemPath] ∧ smallDisk.tree.files systemPath = some [60] ∧
        d'.tree.files systemPath = none := by
  refine ⟨smallTree_ready, ⟨_, rfl, ?_, ?_, ?_⟩, ⟨_, rfl, ?_, ?_, ?_⟩⟩
  · decide
  · decide
  · decide
  · decide
  · decide
  · decide

end IDeviceStack.Usbmuxd.PairRecords
