/-
# `Libimobiledevice.DebugserverHex` — hex digits, written and read

`debugserver_encode_string`, `debugserver_decode_string` and the `A` packet of
`debugserver_client_set_argv`, which writes its digits by a loop of its own.

* `debugserver_int2hex` indexes a string of 16 digits.  `*q >> 4` of a byte above 127 is
  negative there, where the macros mask it.
* An `int` that overflows, and an access outside of a buffer, is `none`.

**Proved here.**  `hexCodecs_iff`.
-/
import IDeviceStack.Lib.Decimal
import IDeviceStack.Libimobiledevice.DebugserverReply
import Mathlib.Data.Int.Bitwise

namespace IDeviceStack.Libimobiledevice

open Lib List Option

/-! ## The decoder -/

/-- `debugserver_hex2int(*f) << 4 | debugserver_hex2int(f[1])`, as a `char`. -/
def decodeByte (c d : UInt8) : UInt8 :=
  UInt8.ofBitVec ((debugserverHex2int c <<< 4 ||| debugserverHex2int d).setWidth 8)

/-- The loop of `debugserver_decode_string`, with what is left of the input and of the buffer. -/
def decodeLoop : List UInt8 → Nat → Option (List UInt8)
  | [], room => if 0 < room then some [] else none
  | [_], _ => none
  | c :: d :: f, room =>
    if 0 < room then (decodeLoop f (room - 1)).map (decodeByte c d :: ·) else none

/-- `debugserver_decode_string`: the buffer, without the `NUL` at its end. -/
def debugserverDecodeString (encoded : List UInt8) : Option (List UInt8) :=
  decodeLoop encoded (encoded.length / 2 + 1)

def encodedLength (buffer : List UInt8) : Nat :=
  (2 * (buffer.length % 2 ^ 32) + checksumHashLength + 1) % 2 ^ 32

/-- The bytes in front of the first `NUL`. -/
def cString (buffer : List UInt8) : List UInt8 := buffer.takeWhile (· ≠ 0)

/-- The digits are read back as the string, and so is the buffer of `encoded_length` that they
lie in. -/
def Undone (s : List UInt8) : Prop :=
  ∃ digits, debugserverEncodeString s = some digits ∧ debugserverDecodeString digits = some s ∧
    ∃ decoded, debugserverDecodeString
        (digits ++ List.replicate (encodedLength s - digits.length) 0) = some decoded ∧
      cString decoded = s

/-! ## The arguments -/

def charComma : UInt8 := 0x2C

/-- The arguments that the loops see: up to `argc`, and up to a `NULL`. -/
def argvSeen : Nat → List (Option (List UInt8)) → List (List UInt8)
  | n + 1, some arg :: argv => arg :: argvSeen n argv
  | _, _ => []

/-- `arg_hexlen`.  From 2³⁰ bytes on it is no `int`, or that of a truncated length, and the digits
do not fit into the buffer that has it. -/
def argHexlen (arg : List UInt8) : Option Nat :=
  if 2 * arg.length < 2 ^ 31 then some (2 * arg.length) else none

/-- `,%d,%d,`. -/
def argHeader (hexlen i : Nat) : List UInt8 :=
  charComma :: Decimal.print hexlen ++ charComma :: Decimal.print i ++ [charComma]

/-- The total length, from the argument at `i` on. -/
def argvLength (i : Nat) : List (List UInt8) → Option Nat
  | [] => some 0
  | arg :: argv => do
      let hexlen ← argHexlen arg
      let length ← argvLength (i + 1) argv
      some ((argHeader hexlen i).length + hexlen + length)

/-- `debugserver_int2hex` on an `int`. -/
def int2hexAt (x : Int) : Option UInt8 :=
  if 0 ≤ x ∧ x < 16 then some (debugserverInt2hex x.toNat) else none

/-- The digits of an argument. -/
def argDigits : List UInt8 → Option (List UInt8)
  | [] => some []
  | q :: arg => do
      let first ← int2hexAt (q.toBitVec.toInt >>> 4)
      let second ← int2hexAt (q.toNat % 16)
      let digits ← argDigits arg
      some (first :: second :: digits)

/-- What is copied into the packet, from the argument at `i` on. -/
def argvBytes (i : Nat) : List (List UInt8) → Option (List UInt8)
  | [] => some []
  | arg :: argv => do
      let hexlen ← argHexlen arg
      let digits ← argDigits arg
      let bytes ← argvBytes (i + 1) argv
      some (argHeader hexlen i ++ digits ++ bytes)

/-- `strdup` of a buffer: without a `NUL` in it, it reads on behind it. -/
def strdupBuffer (buffer : List UInt8) : Option (List UInt8) :=
  if 0 ∈ buffer then some (cString buffer) else none

inductive ArgvPacket where
  /-- `DEBUGSERVER_E_INVALID_ARG`. -/
  | invalidArg
  /-- The name of the command that is sent. -/
  | packet (name : List UInt8)
  | outside
  deriving DecidableEq, Repr

/-- The packet of the arguments that are seen. -/
def argvPacket (args : List (List UInt8)) : Option (List UInt8) := do
  let pktLen ← argvLength 0 args
  if pktLen + 1 < 2 ^ 31 then
    let bytes ← argvBytes 0 args
    if bytes.length ≤ pktLen + 1 then
      strdupBuffer ((bytes ++ List.replicate (pktLen + 1 - bytes.length) 0).set 0 0x41)
    else none
  else none

/-- `debugserver_client_set_argv`, up to the command that it sends. -/
def debugserverClientSetArgv (argc : Int) (argv : Option (List (Option (List UInt8)))) :
    ArgvPacket :=
  if argc = 0 then .invalidArg
  else
    match argvPacket (argvSeen argc.toNat (argv.getD [])) with
    | some name => .packet name
    | none => .outside

/-! ## What an `A` packet stands for -/

/-- The bytes that hex digits stand for. -/
def hexBytes : List UInt8 → Option (List UInt8)
  | [] => some []
  | [_] => none
  | c :: d :: digits => do
      let hi ← hexDigitVal c
      let lo ← hexDigitVal d
      let bytes ← hexBytes digits
      some (UInt8.ofNat (16 * hi + lo) :: bytes)

/-- A number up to a comma, and what follows it. -/
def readField (bytes : List UInt8) : Option (Nat × List UInt8) :=
  match bytes.dropWhile (· ≠ charComma) with
  | _ :: rest => (Decimal.read (bytes.takeWhile (· ≠ charComma))).map fun n => (n, rest)
  | [] => none

/-- The arguments with their indices: hex length, index and digits, with commas between. -/
def readArguments : Nat → List UInt8 → Option (List (Nat × List UInt8))
  | 0, _ => none
  | fuel + 1, bytes => do
      let (hexlen, bytes) ← readField bytes
      let (i, bytes) ← readField bytes
      if hexlen ≤ bytes.length then
        let arg ← hexBytes (bytes.take hexlen)
        match bytes.drop hexlen with
        | [] => some [(i, arg)]
        | c :: bytes =>
          if c = charComma then (readArguments fuel bytes).map ((i, arg) :: ·) else none
      else none

/-- The arguments of an `A` packet. -/
def readArgv : List UInt8 → Option (List (Nat × List UInt8))
  | c :: bytes => if c = 0x41 then readArguments (bytes.length + 1) bytes else none
  | [] => none

/-- The packet is refused, or stands for the arguments, each with its index. -/
def ArgvRight (argc : Int) (argv : Option (List (Option (List UInt8)))) : Prop :=
  match debugserverClientSetArgv argc argv with
  | .invalidArg => True
  | .packet name => readArgv name =
      some ((argvSeen argc.toNat (argv.getD [])).zipIdx.map Prod.swap)
  | .outside => False

/-- The length that the packet of the arguments from `i` on needs. -/
def argvSize (i : Nat) : List (List UInt8) → Nat
  | [] => 0
  | arg :: argv => (argHeader (2 * arg.length) i).length + 2 * arg.length + argvSize (i + 1) argv

/-! ## Encoding and decoding -/

section Decode

variable {s : List UInt8}

theorem decodeLoop_isSome (encoded : List UInt8) (room : Nat) :
    (decodeLoop encoded room).isSome ↔ encoded.length % 2 = 0 ∧ encoded.length / 2 < room := by
  induction encoded, room using decodeLoop.induct with
  | case1 room hroom => simp [decodeLoop, hroom]
  | case2 room hroom => simp [decodeLoop, Nat.eq_zero_of_not_pos hroom]
  | case3 c room => simp [decodeLoop]
  | case4 room c d f hroom ih =>
    rw [decodeLoop, if_pos hroom, isSome_map, ih, length_cons, length_cons]
    omega
  | case5 room c d f hroom =>
    rw [decodeLoop, if_neg hroom, length_cons, length_cons]
    simp only [isSome_none, Bool.false_eq_true, false_iff, not_and]
    omega

theorem decodeLoop_length {encoded decoded : List UInt8} {room : Nat}
    (h : decodeLoop encoded room = some decoded) : encoded.length = 2 * decoded.length := by
  induction encoded, room using decodeLoop.induct generalizing decoded with
  | case1 room hroom =>
    rw [decodeLoop, if_pos hroom] at h
    cases h
    rfl
  | case2 room hroom =>
    rw [decodeLoop, if_neg hroom] at h
    cases h
  | case3 c room => cases h
  | case4 room c d f hroom ih =>
    rw [decodeLoop, if_pos hroom] at h
    obtain ⟨rest, hrest, rfl⟩ := map_eq_some_iff.1 h
    simp only [length_cons, ih hrest]
    omega
  | case5 room c d f hroom =>
    rw [decodeLoop, if_neg hroom] at h
    cases h

theorem decodeString_isSome (encoded : List UInt8) :
    (debugserverDecodeString encoded).isSome ↔ encoded.length % 2 = 0 := by
  rw [debugserverDecodeString, decodeLoop_isSome]
  omega

theorem decodeByte_encoded (c : UInt8) :
    decodeByte (hexEncodeFirst c.toNat) (hexEncodeSecond c.toNat) = c := by
  have hall : ∀ n < 256, decodeByte (hexEncodeFirst n) (hexEncodeSecond n) = UInt8.ofNat n := by
    decide +kernel
  rw [hall _ c.toNat_lt, UInt8.ofNat_toNat]

theorem hexEncoded_cons (c : UInt8) (s : List UInt8) :
    hexEncoded (c :: s) = hexEncodeFirst c.toNat :: hexEncodeSecond c.toNat :: hexEncoded s := rfl

theorem decodeLoop_encoded (s more : List UInt8) {room : Nat} (hroom : s.length ≤ room) :
    decodeLoop (hexEncoded s ++ more) room =
      (decodeLoop more (room - s.length)).map (s ++ ·) := by
  induction s generalizing room with
  | nil => simp [hexEncoded]
  | cons c s ih =>
    rw [length_cons] at hroom
    rw [hexEncoded_cons, List.cons_append, List.cons_append, decodeLoop, if_pos (by omega),
      ih (by omega), decodeByte_encoded, Option.map_map, List.length_cons,
      show room - 1 - s.length = room - (s.length + 1) by omega]
    rfl

theorem decodeString_encoded (s : List UInt8) :
    debugserverDecodeString (hexEncoded s) = some s := by
  have h := decodeLoop_encoded s [] (Nat.le_succ s.length)
  rw [append_nil, decodeLoop, if_pos (by omega)] at h
  rw [debugserverDecodeString, length_hexEncoded, Nat.mul_div_cancel_left _ (by decide), h,
    map_some, append_nil]

theorem decodeString_padded (s : List UInt8) :
    debugserverDecodeString (hexEncoded s ++ List.replicate 4 0) = some (s ++ [0, 0]) := by
  have hlen : (hexEncoded s ++ List.replicate 4 0).length / 2 + 1 = s.length + 3 := by
    rw [length_append, length_hexEncoded, length_replicate]
    omega
  rw [debugserverDecodeString, hlen, decodeLoop_encoded s _ (by omega),
    show s.length + 3 - s.length = 3 by omega]
  rfl

theorem cString_append (h0 : 0 ∉ s) (rest : List UInt8) : cString (s ++ 0 :: rest) = s := by
  have hs : ∀ c ∈ s, (decide (c ≠ 0)) = true := fun c hc => by
    simpa using fun h : c = 0 => h0 (h ▸ hc)
  rw [cString, takeWhile_append_of_pos hs]
  simp

theorem encodeLoop_inside {encodedLength index : Nat} {buffer encoded : List UInt8}
    (h : encodeLoop encodedLength index buffer = some encoded) :
    encoded.length = 2 * buffer.length ∧
      ∀ j < buffer.length, (index + j) * 2 % 2 ^ 32 + 1 < encodedLength := by
  induction buffer generalizing index encoded with
  | nil =>
    cases h
    exact ⟨rfl, fun j hj => absurd hj (Nat.not_lt_zero j)⟩
  | cons c buffer ih =>
    rw [encodeLoop] at h
    split at h
    · next hroom =>
      obtain ⟨rest, hrest, rfl⟩ := map_eq_some_iff.1 h
      obtain ⟨hlen, hinside⟩ := ih hrest
      refine ⟨by simp only [length_cons, hlen]; omega, ?_⟩
      intro j hj
      cases j with
      | zero => exact hroom
      | succ j =>
        have hj := hinside j (Nat.lt_of_succ_lt_succ hj)
        rwa [show index + 1 + j = index + (j + 1) by omega] at hj
    · cases h

theorem encodeString_length {digits : List UInt8} (hlong : ¬ s.length + 2 < 2 ^ 31)
    (h : debugserverEncodeString s = some digits) : digits.length < 2 * s.length := by
  rw [debugserverEncodeString] at h
  obtain ⟨hlen, hinside⟩ := encodeLoop_inside h
  rw [length_take, Nat.min_eq_left (Nat.mod_le _ _)] at hlen hinside
  by_cases hmod : s.length < 2 ^ 32
  · have hfirst := hinside (min (s.length - 1) (2 ^ 31 - 1)) (by omega)
    simp only [checksumHashLength] at hfirst
    omega
  · omega

/-- **Encoding and decoding.**  It is the identity up to what 32 bits allow. -/
theorem undone_iff (h0 : 0 ∉ s) : Undone s ↔ s.length + 2 < 2 ^ 31 := by
  constructor
  · rintro ⟨digits, hencode, hdecode, -⟩
    by_contra hlong
    have hlen := encodeString_length hlong hencode
    rw [decodeLoop_length hdecode] at hlen
    exact Nat.lt_irrefl _ hlen
  · intro hlen
    refine ⟨hexEncoded s, encodeString_eq (by omega), decodeString_encoded s, s ++ [0, 0], ?_,
      cString_append h0 [0]⟩
    have hpad : encodedLength s - (hexEncoded s).length = 4 := by
      rw [length_hexEncoded]
      simp only [encodedLength, checksumHashLength]
      omega
    rw [hpad]
    exact decodeString_padded s

end Decode

/-! ## The packet of the arguments -/

/-- The packet, with a comma for its `A`. -/
def argvText (i : Nat) : List (List UInt8) → List UInt8
  | [] => []
  | arg :: argv => argHeader (2 * arg.length) i ++ hexEncoded arg ++ argvText (i + 1) argv

/-- Every byte of the arguments is an ASCII character. -/
def Ascii (args : List (List UInt8)) : Prop := ∀ arg ∈ args, ∀ c ∈ arg, c < 0x80

instance (args : List (List UInt8)) : Decidable (Ascii args) :=
  inferInstanceAs (Decidable (∀ arg ∈ args, ∀ c ∈ arg, c < 0x80))

section Argv

variable {args : List (List UInt8)} {arg : List UInt8}

theorem length_argvText (i : Nat) (args : List (List UInt8)) :
    (argvText i args).length = argvSize i args := by
  induction args generalizing i with
  | nil => rfl
  | cons arg args ih =>
    rw [argvText, argvSize, length_append, length_append, length_hexEncoded, ih]

theorem int2hexAt_first (c : UInt8) : int2hexAt (c.toBitVec.toInt >>> 4) =
    if c < 0x80 then some (hexEncodeFirst c.toNat) else none := by
  have hall : ∀ n < 256, int2hexAt ((UInt8.ofNat n).toBitVec.toInt >>> 4) =
      if UInt8.ofNat n < 0x80 then some (hexEncodeFirst (UInt8.ofNat n).toNat) else none := by
    decide +kernel
  have h := hall c.toNat c.toNat_lt
  rwa [UInt8.ofNat_toNat] at h

theorem int2hexAt_second (c : UInt8) :
    int2hexAt (c.toNat % 16) = some (hexEncodeSecond c.toNat) := by
  rw [int2hexAt, if_pos (by omega)]
  rfl

theorem argDigits_eq (arg : List UInt8) :
    argDigits arg = if ∀ c ∈ arg, c < 0x80 then some (hexEncoded arg) else none := by
  induction arg with
  | nil => exact (if_pos fun _ h => absurd h not_mem_nil).symm
  | cons c arg ih =>
    have hcons : (∀ b ∈ c :: arg, b < 0x80) ↔ c < 0x80 ∧ ∀ b ∈ arg, b < 0x80 :=
      forall_mem_cons
    rw [argDigits, int2hexAt_first, int2hexAt_second, ih]
    by_cases hc : c < 0x80
    · by_cases harg : ∀ b ∈ arg, b < 0x80
      · rw [if_pos hc, if_pos harg, if_pos (hcons.2 ⟨hc, harg⟩)]
        rfl
      · rw [if_pos hc, if_neg harg, if_neg fun h => harg (hcons.1 h).2]
        rfl
    · rw [if_neg hc, if_neg fun h => hc (hcons.1 h).1]
      rfl

theorem argvLength_eq (i : Nat) (args : List (List UInt8)) :
    argvLength i args =
      if ∀ arg ∈ args, 2 * arg.length < 2 ^ 31 then some (argvSize i args) else none := by
  induction args generalizing i with
  | nil => rfl
  | cons arg args ih =>
    have hcons : (∀ b ∈ arg :: args, 2 * b.length < 2 ^ 31) ↔
        2 * arg.length < 2 ^ 31 ∧ ∀ b ∈ args, 2 * b.length < 2 ^ 31 := forall_mem_cons
    rw [argvLength, argHexlen, ih]
    by_cases hlen : 2 * arg.length < 2 ^ 31
    · by_cases hargs : ∀ b ∈ args, 2 * b.length < 2 ^ 31
      · rw [if_pos hlen, if_pos hargs, if_pos (hcons.2 ⟨hlen, hargs⟩)]
        rfl
      · rw [if_pos hlen, if_neg hargs, if_neg fun h => hargs (hcons.1 h).2]
        rfl
    · rw [if_neg hlen, if_neg fun h => hlen (hcons.1 h).1]
      rfl

theorem argvBytes_eq (i : Nat) {args : List (List UInt8)}
    (hlen : ∀ arg ∈ args, 2 * arg.length < 2 ^ 31) :
    argvBytes i args = if Ascii args then some (argvText i args) else none := by
  induction args generalizing i with
  | nil => rfl
  | cons arg args ih =>
    obtain ⟨harg, hargs⟩ : 2 * arg.length < 2 ^ 31 ∧ ∀ b ∈ args, 2 * b.length < 2 ^ 31 :=
      forall_mem_cons.1 hlen
    have hcons : Ascii (arg :: args) ↔ (∀ c ∈ arg, c < 0x80) ∧ Ascii args := forall_mem_cons
    rw [argvBytes, argHexlen, if_pos harg, argDigits_eq, ih (i + 1) hargs]
    by_cases hc : ∀ c ∈ arg, c < 0x80
    · by_cases hrest : Ascii args
      · rw [if_pos hc, if_pos hrest, if_pos (hcons.2 ⟨hc, hrest⟩)]
        rfl
      · rw [if_pos hc, if_neg hrest, if_neg fun h => hrest (hcons.1 h).2]
        rfl
    · rw [if_neg hc, if_neg fun h => hc (hcons.1 h).1]
      rfl

theorem argvSize_summand {i : Nat} (hsize : argvSize i args + 1 < 2 ^ 31) :
    ∀ arg ∈ args, 2 * arg.length < 2 ^ 31 := by
  induction args generalizing i with
  | nil => exact fun arg harg => nomatch harg
  | cons arg args ih =>
    rw [argvSize] at hsize
    exact forall_mem_cons.2 ⟨by omega, ih (i := i + 1) (by omega)⟩

theorem ne_zero_of_mem_print {n : Nat} {c : UInt8} (h : c ∈ Decimal.print n) :
    c ≠ 0 ∧ c ≠ charComma := by
  obtain ⟨hlow, hhigh⟩ := Decimal.isDigit_of_mem_print h
  constructor
  · rintro rfl
    exact absurd hlow (by decide)
  · rintro rfl
    exact absurd hlow (by decide)

theorem argvText_ne_zero (i : Nat) (args : List (List UInt8)) : 0 ∉ argvText i args := by
  induction args generalizing i with
  | nil => exact not_mem_nil
  | cons arg args ih =>
    have hcomma : (0 : UInt8) ≠ charComma := by decide
    have hprint : ∀ n, (0 : UInt8) ∉ Decimal.print n := fun n h => (ne_zero_of_mem_print h).1 rfl
    have hdigits : (0 : UInt8) ∉ hexEncoded arg := fun h => (hexEncoded_ne h).1 rfl
    simp only [argvText, argHeader, mem_append, mem_cons, not_mem_nil, hcomma,
      hprint, hdigits, ih, or_false, not_false_eq_true]

theorem argvPacket_eq (args : List (List UInt8)) :
    argvPacket args =
      if args ≠ [] ∧ Ascii args ∧ argvSize 0 args + 1 < 2 ^ 31 then
        some (0x41 :: (argvText 0 args).tail)
      else none := by
  by_cases hsize : argvSize 0 args + 1 < 2 ^ 31
  swap
  · rw [if_neg fun h => hsize h.2.2, argvPacket, argvLength_eq]
    split
    · exact if_neg hsize
    · rfl
  have hlen := argvSize_summand hsize
  rw [argvPacket, argvLength_eq, if_pos hlen]
  simp only [bind_eq_bind, bind_some]
  rw [if_pos hsize, argvBytes_eq 0 hlen]
  by_cases hascii : Ascii args
  swap
  · rw [if_neg hascii, if_neg fun h => hascii h.2.1]
    rfl
  rw [if_pos hascii, bind_some, length_argvText, if_pos (by omega), Nat.add_sub_cancel_left]
  cases args with
  | nil => rfl
  | cons arg args =>
    have h0 : 0 ∉ (0x41 : UInt8) :: (argvText 0 (arg :: args)).tail := by
      have h0 := argvText_ne_zero 0 (arg :: args)
      rw [mem_cons, not_or]
      exact ⟨by decide, fun h => h0 (mem_of_mem_tail h)⟩
    have hset : (argvText 0 (arg :: args) ++ List.replicate 1 0).set 0 0x41 =
        (0x41 :: (argvText 0 (arg :: args)).tail) ++ [0] := rfl
    rw [if_pos ⟨cons_ne_nil _ _, hascii, hsize⟩, hset, strdupBuffer,
      if_pos (mem_append_right _ (.head _)), cString_append h0]

/-! ## Reading the packet -/

theorem takeWhile_field {digits : List UInt8} (h : charComma ∉ digits) (rest : List UInt8) :
    (digits ++ charComma :: rest).takeWhile (· ≠ charComma) = digits ∧
      (digits ++ charComma :: rest).dropWhile (· ≠ charComma) = charComma :: rest := by
  have hdigits : ∀ c ∈ digits, (decide (c ≠ charComma)) = true := fun c hc => by
    simpa using fun heq : c = charComma => h (heq ▸ hc)
  rw [takeWhile_append_of_pos hdigits, dropWhile_append_of_pos hdigits]
  simp

theorem readField_print (n : Nat) (rest : List UInt8) :
    readField (Decimal.print n ++ charComma :: rest) = some (n, rest) := by
  obtain ⟨htake, hdrop⟩ := takeWhile_field
    (fun h => (ne_zero_of_mem_print (n := n) h).2 rfl) rest
  rw [readField, htake, hdrop]
  dsimp only
  rw [Decimal.read_print]
  rfl

theorem hexDigitVal_int2hex {x : Nat} (h : x < 16) :
    hexDigitVal (debugserverInt2hex x) = some x := by
  revert x
  decide

theorem hexBytes_encoded (arg : List UInt8) : hexBytes (hexEncoded arg) = some arg := by
  induction arg with
  | nil => rfl
  | cons c arg ih =>
    have hc := c.toNat_lt
    have hbyte : UInt8.ofNat (16 * (c.toNat >>> 4 % 16) + c.toNat % 16) = c := by
      rw [Nat.shiftRight_eq_div_pow, show 16 * (c.toNat / 2 ^ 4 % 16) + c.toNat % 16 = c.toNat by
        omega, UInt8.ofNat_toNat]
    rw [hexEncoded_cons, hexBytes, hexEncodeFirst, hexEncodeSecond,
      hexDigitVal_int2hex (Nat.mod_lt _ (by decide)),
      hexDigitVal_int2hex (Nat.mod_lt _ (by decide)), ih]
    simp only [bind_eq_bind, bind_some, hbyte]

theorem readArguments_text {args : List (List UInt8)} (i fuel : Nat) (hne : args ≠ [])
    (hfuel : args.length ≤ fuel) :
    readArguments fuel (argvText i args).tail = some ((args.zipIdx i).map Prod.swap) := by
  induction args generalizing i fuel with
  | nil => exact absurd rfl hne
  | cons arg args ih =>
    obtain ⟨fuel, rfl⟩ := Nat.exists_eq_succ_of_ne_zero (Nat.ne_of_gt (Nat.lt_of_lt_of_le
      (Nat.succ_pos args.length) hfuel))
    have htail : (argvText i (arg :: args)).tail = Decimal.print (2 * arg.length) ++ charComma ::
        (Decimal.print i ++ charComma :: (hexEncoded arg ++ argvText (i + 1) args)) := by
      simp [argvText, argHeader]
    have hroom : 2 * arg.length ≤ (hexEncoded arg ++ argvText (i + 1) args).length := by
      rw [length_append, length_hexEncoded]
      exact Nat.le_add_right _ _
    have htake : (hexEncoded arg ++ argvText (i + 1) args).take (2 * arg.length) =
        hexEncoded arg := take_left' (length_hexEncoded arg)
    have hdrop : (hexEncoded arg ++ argvText (i + 1) args).drop (2 * arg.length) =
        argvText (i + 1) args := drop_left' (length_hexEncoded arg)
    rw [htail, readArguments, readField_print]
    simp only [bind_eq_bind, bind_some, readField_print]
    rw [if_pos hroom, htake, hexBytes_encoded, hdrop, bind_some]
    cases args with
    | nil => rfl
    | cons next args =>
      have ih := ih (i + 1) fuel (cons_ne_nil _ _) (Nat.le_of_succ_le_succ hfuel)
      have hcomma : argvText (i + 1) (next :: args) =
          charComma :: (argvText (i + 1) (next :: args)).tail := rfl
      rw [hcomma]
      dsimp only
      rw [if_pos rfl, ih]
      rfl

theorem length_le_argvSize (i : Nat) (args : List (List UInt8)) :
    args.length ≤ argvSize i args := by
  induction args generalizing i with
  | nil => exact Nat.le_refl 0
  | cons arg args ih =>
    have := ih (i + 1)
    rw [argvSize, argHeader, length_cons, length_append, length_singleton]
    omega

/-- **The `A` packet.**  It stands for the arguments exactly if there is one to send, every byte
is ASCII, and its length fits into an `int`. -/
theorem argvRight_iff (argc : Int) (argv : Option (List (Option (List UInt8)))) :
    ArgvRight argc argv ↔ argc = 0 ∨
      argvSeen argc.toNat (argv.getD []) ≠ [] ∧ Ascii (argvSeen argc.toNat (argv.getD [])) ∧
        argvSize 0 (argvSeen argc.toNat (argv.getD [])) + 1 < 2 ^ 31 := by
  rw [ArgvRight, debugserverClientSetArgv, argvPacket_eq]
  generalize argvSeen argc.toNat (argv.getD []) = args
  by_cases hargc : argc = 0
  · rw [if_pos hargc]
    exact iff_of_true trivial (.inl hargc)
  by_cases hargs : args ≠ [] ∧ Ascii args ∧ argvSize 0 args + 1 < 2 ^ 31
  · have hread : readArgv (0x41 :: (argvText 0 args).tail) =
        some (args.zipIdx.map Prod.swap) := by
      have hfuel : args.length ≤ (argvText 0 args).tail.length + 1 := by
        have := length_le_argvSize 0 args
        rw [length_tail, length_argvText]
        omega
      rw [readArgv, if_pos rfl]
      exact readArguments_text 0 _ hargs.1 hfuel
    rw [if_neg hargc, if_pos hargs]
    exact iff_of_true hread (.inr hargs)
  · rw [if_neg hargc, if_neg hargs]
    exact iff_of_false id fun h => h.elim hargc hargs

end Argv

/-- **The hex codecs.**  What each of them needs to be right. -/
theorem hexCodecs_iff {s : List UInt8} (h0 : 0 ∉ s) (encoded : List UInt8) (argc : Int)
    (argv : Option (List (Option (List UInt8)))) :
    (Undone s ↔ s.length + 2 < 2 ^ 31) ∧
      ((debugserverDecodeString encoded).isSome ↔ encoded.length % 2 = 0) ∧
      (ArgvRight argc argv ↔ argc = 0 ∨
        argvSeen argc.toNat (argv.getD []) ≠ [] ∧ Ascii (argvSeen argc.toNat (argv.getD [])) ∧
          argvSize 0 (argvSeen argc.toNat (argv.getD [])) + 1 < 2 ^ 31) :=
  ⟨undone_iff h0, decodeString_isSome encoded, argvRight_iff argc argv⟩

/-- The string `hé`, two digits, and the arguments `ls -l`. -/
theorem hexCodecs_ls :
    Undone [0x68, 0xC3, 0xA9] ∧ (debugserverDecodeString [0x36, 0x38]).isSome ∧
      ArgvRight 2 (some [some [0x6C, 0x73], some [0x2D, 0x6C]]) := by
  obtain ⟨hundone, hdecode, hargv⟩ := @hexCodecs_iff [0x68, 0xC3, 0xA9] (by decide) [0x36, 0x38] 2
    (some [some [0x6C, 0x73], some [0x2D, 0x6C]])
  refine ⟨hundone.2 (by decide), hdecode.2 (by decide), hargv.2 (.inr ⟨?_, by decide +kernel, ?_⟩)⟩
  · exact cons_ne_nil _ _
  · decide +kernel

/-- A single digit, an argument `é`, and no argument at all. -/
theorem hexCodecs_refuted :
    debugserverDecodeString [0x41] = none ∧ ¬ ArgvRight 1 (some [some [0xC3, 0xA9]]) ∧
      ¬ ArgvRight 1 (some [none]) :=
  ⟨rfl, id, id⟩

end IDeviceStack.Libimobiledevice
