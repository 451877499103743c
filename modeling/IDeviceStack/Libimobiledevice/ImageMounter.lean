/-
# `Libimobiledevice.ImageMounter` — the upload of a developer image

`mobile_image_mounter_upload_image`: a request, the image as the callback brings it, and the answer
of the device.

* What the callback returns and what the transport takes depends on the turn of the loop, and is an
  argument, like the answers of the device.  The callback brings at most what it is asked for.
* The loop counts what the callback brought.  It is not bounded by a number of turns: each one that
  goes on has brought something.
* The client, the type of the image and the callback are not `NULL`, and memory is not short.

**Proved here.**  `uploadRight_iff`.
-/
import IDeviceStack.Libimobiledevice.Lockdown

namespace IDeviceStack.Libimobiledevice

open Libplist Libplist.Xplist List

namespace ImageMounter

/-! ## The program -/

/-- `mobile_image_mounter_error_t`. -/
inductive MobileImageMounterError where
  | success | invalidArg | plistError | connFailed | commandFailed | unknownError
  deriving DecidableEq, Repr

/-- What `property_list_service_receive_plist` brings. -/
inductive MounterAnswer where
  | reply (dict : Dict)
  | failed (e : MobileImageMounterError) (h : e ≠ .success)

/-- The callback and the transport, turn by turn. -/
structure UploadTurns where
  /-- What `upload_cb` brings when it is asked for some bytes; `none` is a negative result. -/
  given : Nat → Nat → Option (List UInt8)
  given_le : ∀ turn amount data, given turn amount = some data → data.length ≤ amount
  /-- How much of the data the transport takes; `none` is an error. -/
  taken : Nat → List UInt8 → Option Nat
  taken_le : ∀ turn data n, taken turn data = some n → n ≤ data.length
  /-- Whether the connection is encrypted. -/
  sslData : Bool

/-- What happens around an upload. -/
structure UploadExchanges where
  sent : MobileImageMounterError
  acknowledged : MounterAnswer
  turns : UploadTurns
  completed : MounterAnswer

/-- What goes over the connection. -/
inductive UploadAction where
  | request (dict : Dict)
  | answer (a : MounterAnswer)
  /-- The bytes that the transport has taken. -/
  | data (bytes : List UInt8)

/-- `plist_new_data`. -/
def newData (bytes : List UInt8) : Plist := .scalar (.data bytes) bytes.length

/-- The request of `mobile_image_mounter_upload_image`. -/
def uploadRequest (imageType : List UInt8) (imageSize : Nat) (signature : List UInt8) : Dict :=
  let dict := Dict.setItem [] "Command" (newString (lit "ReceiveBytes"))
  let dict := if signature ≠ [] then dict.setItem "ImageSignature" (newData signature) else dict
  let dict := dict.setItem "ImageSize" (.scalar (.uint (UInt64.ofNat imageSize)) 8)
  dict.setItem "ImageType" (newString imageType)

/-- The status of an answer. -/
def statusOf (dict : Dict) : Option (List UInt8) := (dict.getItem "Status").bind stringVal

def bufsize : Nat := 65536

/-- `service_send` in a turn: its result, and the bytes that are taken. -/
def UploadTurns.send (turns : UploadTurns) (turn : Nat) (data : List UInt8) :
    ServiceError × List UInt8 :=
  let r := (serviceSend ⟨turns.sslData, []⟩ data (turns.taken turn data)).1
  (r.1, data.take r.2)

theorem UploadTurns.send_success {turns : UploadTurns} {turn : Nat} {data : List UInt8}
    (h : (turns.send turn data).1 = .success) : 0 < data.length := by
  rw [length_pos_iff]
  rintro rfl
  cases h

/-- The loop of `mobile_image_mounter_upload_image`: `tx` at its end, and what was sent. -/
def uploadLoop (turns : UploadTurns) (imageSize turn tx : Nat) : Nat × List UploadAction :=
  if tx < imageSize then
    match turns.given turn (min (imageSize - tx) bufsize) with
    | none => (tx, [])
    | some data =>
      let r := turns.send turn data
      if h : r.1 = .success then
        have := UploadTurns.send_success h
        let rest := uploadLoop turns imageSize (turn + 1) (tx + data.length)
        (rest.1, .data r.2 :: rest.2)
      else (tx, [.data r.2])
  else (tx, [])
termination_by imageSize - tx

/-- What is made of the last answer. -/
def uploadResult : MounterAnswer → MobileImageMounterError
  | .failed e _ => e
  | .reply dict => if statusOf dict = some (lit "Complete") then .success else .commandFailed

/-- `mobile_image_mounter_upload_image` behind the request. -/
def uploadImage (imageSize : Nat) (x : UploadExchanges) :
    MobileImageMounterError × List UploadAction :=
  match x.acknowledged with
  | .failed e h => (e, [.answer (.failed e h)])
  | .reply dict =>
    if statusOf dict = some (lit "ReceiveBytesAck") then
      let r := uploadLoop x.turns imageSize 0 0
      if r.1 < imageSize then (.commandFailed, .answer (.reply dict) :: r.2)
      else (uploadResult x.completed, .answer (.reply dict) :: (r.2 ++ [.answer x.completed]))
    else (.commandFailed, [.answer (.reply dict)])

def mobileImageMounterUploadImage (imageType : List UInt8) (imageSize : Nat)
    (signature : List UInt8) (x : UploadExchanges) :
    MobileImageMounterError × List UploadAction :=
  if imageSize = 0 then (.invalidArg, [])
  else
    let request := UploadAction.request (uploadRequest imageType imageSize signature)
    if x.sent ≠ .success then (x.sent, [request])
    else
      let r := uploadImage imageSize x
      (r.1, request :: r.2)

/-! ## The image -/

section Image

variable (turns : UploadTurns) (imageSize : Nat)

/-- The bytes that the callback brings in a turn, where it has brought `tx` bytes before. -/
def UploadTurns.piece (turn tx : Nat) : List UInt8 :=
  (turns.given turn (min (imageSize - tx) bufsize)).getD []

/-- What the callback has brought before a turn. -/
def UploadTurns.image : Nat → List UInt8
  | 0 => []
  | turn + 1 => image turn ++ turns.piece imageSize turn (image turn).length

/-- The data of a turn. -/
def UploadTurns.pieceAt (turn : Nat) : List UInt8 :=
  turns.piece imageSize turn (turns.image imageSize turn).length

theorem UploadTurns.image_succ (turn : Nat) : turns.image imageSize (turn + 1) =
    turns.image imageSize turn ++ turns.pieceAt imageSize turn := rfl

/-- The loop goes on behind a turn: there was something left to ask for, the callback has brought
some of it, and the transport has not failed. -/
structure UploadTurns.GoesOn (turn : Nat) : Prop where
  left : (turns.image imageSize turn).length < imageSize
  brought : turns.pieceAt imageSize turn ≠ []
  sent : ∃ n, turns.taken turn (turns.pieceAt imageSize turn) = some n ∧
    (turns.sslData → n = (turns.pieceAt imageSize turn).length)

/-- The callback brings the whole image in some turns, and no send fails. -/
structure UploadTurns.Brings (turn : Nat) : Prop where
  goesOn : ∀ i < turn, turns.GoesOn imageSize i
  whole : (turns.image imageSize turn).length = imageSize

end Image

/-- The answer has this status. -/
def MounterAnswer.HasStatus (a : MounterAnswer) (status : String) : Prop :=
  ∃ dict, a = .reply dict ∧ statusOf dict = some (lit status)

/-- The bytes that were handed over. -/
def UploadAction.bytes : UploadAction → List UInt8
  | .data bytes => bytes
  | _ => []

/-- Between an answer that the device is ready for the bytes and an answer that it has them, all the
bytes of the image were handed over, as the callback brought them. -/
def HandedOver (turns : UploadTurns) (imageSize : Nat) (log : List UploadAction) : Prop :=
  ∃ request ack sends done turn,
    log = .request request :: .answer ack :: (sends ++ [.answer done]) ∧
    ack.HasStatus "ReceiveBytesAck" ∧ done.HasStatus "Complete" ∧
    (∀ a ∈ sends, ∃ bytes, a = .data bytes) ∧
    sends.flatMap UploadAction.bytes = turns.image imageSize turn ∧
    (turns.image imageSize turn).length = imageSize

/-- A success is true. -/
def UploadRight (imageType : List UInt8) (imageSize : Nat) (signature : List UInt8)
    (x : UploadExchanges) : Prop :=
  (mobileImageMounterUploadImage imageType imageSize signature x).1 = .success →
    HandedOver x.turns imageSize
      (mobileImageMounterUploadImage imageType imageSize signature x).2

/-! ## The loop -/

section Loop

variable {turns : UploadTurns} {imageSize : Nat}

theorem UploadTurns.send_cases (turns : UploadTurns) (turn : Nat) (data : List UInt8) :
    (turns.send turn data).1 = .success ∧ data ≠ [] ∧
        (∃ n, turns.taken turn data = some n ∧ (turns.sslData → n = data.length) ∧
          (turns.send turn data).2 = data.take n) ∨
      (turns.send turn data).1 ≠ .success ∧
        ¬ (data ≠ [] ∧
          ∃ n, turns.taken turn data = some n ∧ (turns.sslData → n = data.length)) := by
  by_cases hdata : data = []
  · refine .inr ⟨?_, fun h => h.1 hdata⟩
    rw [send, serviceSend, if_pos hdata]
    rintro ⟨⟩
  simp only [send, serviceSend, if_neg hdata, Connection.send]
  cases hn : turns.taken turn data with
  | none =>
    refine .inr ⟨?_, ?_⟩
    · cases turns.sslData <;> rintro ⟨⟩
    · rintro ⟨_, n, h, _⟩
      cases h
  | some n =>
    have hle := turns.taken_le turn data n hn
    cases hssl : turns.sslData with
    | false =>
      refine .inl ⟨rfl, hdata, n, rfl, by simp, ?_⟩
      rw [if_neg Bool.false_ne_true]
      dsimp only
      rw [Nat.min_eq_left hle]
    | true =>
      rw [if_pos rfl]
      by_cases hall : n = data.length
      · rw [if_pos (congrArg some hall)]
        exact .inl ⟨rfl, hdata, n, rfl, fun _ => hall, by rw [hall]⟩
      · rw [if_neg fun h => hall (Option.some.inj h)]
        refine .inr ⟨by rintro ⟨⟩, ?_⟩
        rintro ⟨-, _, ⟨⟩, h⟩
        exact hall (h rfl)

theorem UploadTurns.length_pieceAt (turns : UploadTurns) (imageSize turn : Nat) :
    (turns.pieceAt imageSize turn).length ≤
      imageSize - (turns.image imageSize turn).length := by
  rw [pieceAt, piece]
  cases hgiven : turns.given turn
      (min (imageSize - (turns.image imageSize turn).length) bufsize) with
  | none => exact Nat.zero_le _
  | some data =>
    have hle := turns.given_le _ _ _ hgiven
    rw [Option.getD_some]
    omega

theorem UploadTurns.length_image (turns : UploadTurns) (imageSize turn : Nat) :
    (turns.image imageSize turn).length ≤ imageSize := by
  induction turn with
  | zero => exact Nat.zero_le _
  | succ turn ih =>
    have hpiece := turns.length_pieceAt imageSize turn
    rw [image_succ, length_append]
    omega

/-- What is sent in a turn. -/
def UploadTurns.sendAt (turns : UploadTurns) (imageSize turn : Nat) : UploadAction :=
  .data (turns.send turn (turns.pieceAt imageSize turn)).2

theorem uploadLoop_goesOn {turn : Nat} (h : turns.GoesOn imageSize turn) :
    uploadLoop turns imageSize turn (turns.image imageSize turn).length =
      ((uploadLoop turns imageSize (turn + 1) (turns.image imageSize (turn + 1)).length).1,
        turns.sendAt imageSize turn ::
          (uploadLoop turns imageSize (turn + 1) (turns.image imageSize (turn + 1)).length).2) := by
  obtain ⟨hleft, hbrought, hsent⟩ := h
  have hgiven : turns.given turn (min (imageSize - (turns.image imageSize turn).length) bufsize) =
      some (turns.pieceAt imageSize turn) := by
    rw [UploadTurns.pieceAt, UploadTurns.piece] at hbrought ⊢
    cases hgiven : turns.given turn
        (min (imageSize - (turns.image imageSize turn).length) bufsize) with
    | none =>
      rw [hgiven] at hbrought
      exact absurd rfl hbrought
    | some data => rfl
  have hsuccess : (turns.send turn (turns.pieceAt imageSize turn)).1 = .success := by
    rcases turns.send_cases turn (turns.pieceAt imageSize turn) with ⟨h, -⟩ | ⟨-, h⟩
    · exact h
    · exact absurd ⟨hbrought, hsent⟩ h
  rw [uploadLoop, if_pos hleft, hgiven]
  dsimp only
  rw [dif_pos hsuccess, UploadTurns.image_succ, length_append]
  rfl

theorem uploadLoop_stops {turn : Nat} (h : ¬ turns.GoesOn imageSize turn) :
    (uploadLoop turns imageSize turn (turns.image imageSize turn).length).1 =
        (turns.image imageSize turn).length ∧
      ((turns.image imageSize turn).length = imageSize →
        (uploadLoop turns imageSize turn (turns.image imageSize turn).length).2 = []) := by
  rw [uploadLoop]
  by_cases hleft : (turns.image imageSize turn).length < imageSize
  · rw [if_pos hleft]
    refine ⟨?_, fun h => absurd hleft (by omega)⟩
    cases hgiven : turns.given turn
        (min (imageSize - (turns.image imageSize turn).length) bufsize) with
    | none => rfl
    | some data =>
      have hdata : turns.pieceAt imageSize turn = data := by
        rw [UploadTurns.pieceAt, UploadTurns.piece, hgiven]
        rfl
      have hfails : ¬ (turns.send turn data).1 = .success := by
        rcases turns.send_cases turn data with ⟨-, hne, n, hn, hssl, -⟩ | ⟨hno, -⟩
        · exact absurd ⟨hleft, by rwa [hdata], n, by rwa [hdata], by rwa [hdata]⟩ h
        · exact hno
      dsimp only
      rw [dif_neg hfails]
  · rw [if_neg hleft]
    exact ⟨rfl, fun _ => rfl⟩

/-- **The loop ends**: after some turns that go on, the image is whole or a turn does not go on. -/
theorem uploadLoop_ends (turns : UploadTurns) (imageSize turn : Nat) :
    ∃ k, turn ≤ k ∧ (∀ i, turn ≤ i → i < k → turns.GoesOn imageSize i) ∧
      ¬ turns.GoesOn imageSize k ∧
      (uploadLoop turns imageSize turn (turns.image imageSize turn).length).1 =
        (turns.image imageSize k).length ∧
      ((turns.image imageSize k).length = imageSize →
        (uploadLoop turns imageSize turn (turns.image imageSize turn).length).2 =
          (List.range' turn (k - turn)).map (turns.sendAt imageSize)) := by
  induction hn : imageSize - (turns.image imageSize turn).length using Nat.strong_induction_on
    generalizing turn with
  | _ n ih =>
    by_cases hgo : turns.GoesOn imageSize turn
    · have hpos := length_pos_iff.mpr hgo.brought
      have hlt : imageSize - (turns.image imageSize (turn + 1)).length < n := by
        have hleft := hgo.left
        rw [UploadTurns.image_succ, length_append]
        omega
      obtain ⟨k, hk, hall, hstop, htx, hlog⟩ := ih _ hlt (turn + 1) rfl
      refine ⟨k, by omega, fun i hi hik => ?_, hstop, ?_, fun hwhole => ?_⟩
      · rcases Nat.eq_or_lt_of_le hi with rfl | hi
        · exact hgo
        · exact hall i hi hik
      · rw [uploadLoop_goesOn hgo]
        exact htx
      · rw [uploadLoop_goesOn hgo]
        simp only [hlog hwhole]
        obtain ⟨m, rfl⟩ : ∃ m, k = turn + 1 + m := ⟨k - (turn + 1), by omega⟩
        rw [show turn + 1 + m - turn = m + 1 by omega, show turn + 1 + m - (turn + 1) = m by omega,
          List.range'_succ]
        rfl
    · obtain ⟨htx, hlog⟩ := uploadLoop_stops hgo
      refine ⟨turn, Nat.le_refl _, fun i hi hik => absurd hi (by omega), hgo, htx, fun hwhole => ?_⟩
      rw [hlog hwhole, Nat.sub_self]
      rfl

theorem UploadTurns.Brings.unique {k l : Nat} (hk : turns.Brings imageSize k)
    (hl : turns.Brings imageSize l) : k = l := by
  have hlt : ∀ {k l}, turns.Brings imageSize k → turns.Brings imageSize l → ¬ k < l :=
    fun hk hl hkl => absurd (hl.goesOn _ hkl).left (by rw [hk.whole]; omega)
  have h1 := hlt hk hl
  have h2 := hlt hl hk
  omega

theorem UploadTurns.Brings.image_eq {k m : Nat} (hk : turns.Brings imageSize k)
    (hm : (turns.image imageSize m).length = imageSize) :
    turns.image imageSize k = turns.image imageSize m := by
  have hle : k ≤ m := by
    by_contra hlt
    exact absurd (hk.goesOn m (by omega)).left (by omega)
  obtain ⟨n, rfl⟩ := Nat.exists_eq_add_of_le hle
  clear hle hm
  induction n with
  | zero => rfl
  | succ n ih =>
    have hpiece := turns.length_pieceAt imageSize (k + n)
    rw [← ih, hk.whole, Nat.sub_self] at hpiece
    rw [← Nat.add_assoc, UploadTurns.image_succ, ← ih,
      eq_nil_of_length_eq_zero (Nat.le_zero.mp hpiece), append_nil]

theorem UploadTurns.GoesOn.bytes {i : Nat} (h : turns.GoesOn imageSize i) :
    (turns.sendAt imageSize i).bytes.length ≤ (turns.pieceAt imageSize i).length ∧
      ((turns.sendAt imageSize i).bytes = turns.pieceAt imageSize i ↔
        turns.taken i (turns.pieceAt imageSize i) =
          some (turns.pieceAt imageSize i).length) := by
  rcases turns.send_cases i (turns.pieceAt imageSize i) with ⟨-, -, n, hn, -, hbytes⟩ | ⟨-, hno⟩
  · have hle := turns.taken_le _ _ _ hn
    have hlength : (turns.sendAt imageSize i).bytes.length = n := by
      rw [sendAt, UploadAction.bytes, hbytes, length_take, Nat.min_eq_left hle]
    refine ⟨by omega, ?_, ?_⟩
    · intro heq
      rw [hn, ← hlength, heq]
    · intro hall
      rw [sendAt, UploadAction.bytes, hbytes, Option.some.inj (hn.symm.trans hall), take_length]
  · exact absurd ⟨h.brought, h.sent⟩ hno

theorem sends_bytes {k : Nat} (hgo : ∀ i < k, turns.GoesOn imageSize i) :
    (((List.range k).map (turns.sendAt imageSize)).flatMap UploadAction.bytes).length ≤
        (turns.image imageSize k).length ∧
      (((List.range k).map (turns.sendAt imageSize)).flatMap UploadAction.bytes =
          turns.image imageSize k ↔ ∀ i < k, turns.taken i (turns.pieceAt imageSize i) =
          some (turns.pieceAt imageSize i).length) := by
  induction k with
  | zero => exact ⟨Nat.le_refl _, iff_of_true rfl nofun⟩
  | succ k ih =>
    obtain ⟨hle, hiff⟩ := ih fun i hi => hgo i (by omega)
    obtain ⟨hle', hiff'⟩ := (hgo k (Nat.lt_succ_self k)).bytes
    have hsplit : ((List.range (k + 1)).map (turns.sendAt imageSize)).flatMap UploadAction.bytes =
        ((List.range k).map (turns.sendAt imageSize)).flatMap UploadAction.bytes ++
          (turns.sendAt imageSize k).bytes := by
      rw [range_succ, map_append, flatMap_append]
      simp only [map_cons, map_nil, flatMap_cons, flatMap_nil, append_nil]
    rw [hsplit, UploadTurns.image_succ, length_append, length_append]
    refine ⟨by omega, ?_, ?_⟩
    · intro heq
      have hlengths := congrArg List.length heq
      rw [length_append, length_append] at hlengths
      obtain ⟨hfront, hlast⟩ := append_inj heq (by omega)
      intro i hi
      rcases Nat.lt_succ_iff_lt_or_eq.mp hi with hi | rfl
      · exact hiff.mp hfront i hi
      · exact hiff'.mp hlast
    · intro hall
      rw [hiff.mpr fun i hi => hall i (by omega), hiff'.mpr (hall k (Nat.lt_succ_self k))]

end Loop

/-! ## Uploads -/

section Uploads

variable {imageSize : Nat}

theorem uploadImage_cases (x : UploadExchanges) :
    ((uploadImage imageSize x).1 = .success ∧ x.acknowledged.HasStatus "ReceiveBytesAck" ∧
        x.completed.HasStatus "Complete" ∧ ∃ k, x.turns.Brings imageSize k ∧
        (uploadImage imageSize x).2 = .answer x.acknowledged ::
          ((List.range k).map (x.turns.sendAt imageSize) ++ [.answer x.completed])) ∨
      (uploadImage imageSize x).1 ≠ .success ∧
        ¬ (x.acknowledged.HasStatus "ReceiveBytesAck" ∧ x.completed.HasStatus "Complete" ∧
          ∃ k, x.turns.Brings imageSize k) := by
  rw [uploadImage]
  cases hack : x.acknowledged with
  | failed e h =>
    refine .inr ⟨h, ?_⟩
    rintro ⟨⟨_, ⟨⟩, _⟩, -⟩
  | reply dict =>
    dsimp only
    by_cases hstatus : statusOf dict = some (lit "ReceiveBytesAck")
    · rw [if_pos hstatus]
      obtain ⟨k, -, hgo, hstop, htx, hlog⟩ := uploadLoop_ends x.turns imageSize 0
      have hstart : (x.turns.image imageSize 0).length = 0 := rfl
      rw [hstart] at htx hlog
      have hle := x.turns.length_image imageSize k
      by_cases hwhole : (x.turns.image imageSize k).length = imageSize
      · have hbrings : x.turns.Brings imageSize k :=
          ⟨fun i hi => hgo i (Nat.zero_le _) hi, hwhole⟩
        rw [if_neg (by omega)]
        cases hdone : x.completed with
        | failed e h =>
          refine .inr ⟨h, ?_⟩
          rintro ⟨-, ⟨_, ⟨⟩, _⟩, -⟩
        | reply done =>
          by_cases hcomplete : statusOf done = some (lit "Complete")
          · refine .inl ⟨if_pos hcomplete, ⟨dict, rfl, hstatus⟩, ⟨done, rfl, hcomplete⟩, k,
              hbrings, ?_⟩
            rw [hlog hwhole, Nat.sub_zero, range_eq_range']
          · refine .inr ⟨?_, ?_⟩
            · rw [uploadResult, if_neg hcomplete]
              nofun
            · rintro ⟨-, ⟨_, ⟨⟩, h⟩, -⟩
              exact hcomplete h
      · rw [if_pos (by omega)]
        refine .inr ⟨nofun, ?_⟩
        rintro ⟨-, -, l, hl⟩
        -- the turns that bring the image go on, so the loop has not stopped before them
        rcases Nat.lt_trichotomy k l with h | rfl | h
        · exact hstop (hl.goesOn k h)
        · exact hwhole hl.whole
        · exact absurd (hgo l (Nat.zero_le _) h).left (by rw [hl.whole]; omega)
    · rw [if_neg hstatus]
      refine .inr ⟨nofun, ?_⟩
      rintro ⟨⟨_, ⟨⟩, h⟩, -⟩
      exact hstatus h

theorem handedOver_iff {turns : UploadTurns} {k : Nat} (hk : turns.Brings imageSize k)
    {request : Dict} {ack done : MounterAnswer} (hack : ack.HasStatus "ReceiveBytesAck")
    (hdone : done.HasStatus "Complete") :
    HandedOver turns imageSize (.request request :: .answer ack ::
        ((List.range k).map (turns.sendAt imageSize) ++ [.answer done])) ↔
      ∀ i < k, turns.taken i (turns.pieceAt imageSize i) =
        some (turns.pieceAt imageSize i).length := by
  constructor
  · rintro ⟨_, _, sends, _, m, heq, -, -, -, hbytes, hwhole⟩
    simp only [List.cons.injEq] at heq
    obtain ⟨hsends, -⟩ := append_inj' heq.2.2 rfl
    rw [← hsends, ← hk.image_eq hwhole] at hbytes
    exact (sends_bytes hk.goesOn).2.mp hbytes
  · intro hall
    refine ⟨_, _, (List.range k).map (turns.sendAt imageSize), _, k, rfl, hack, hdone, ?_,
      (sends_bytes hk.goesOn).2.mpr hall, hk.whole⟩
    intro a ha
    obtain ⟨i, -, rfl⟩ := mem_map.mp ha
    exact ⟨_, rfl⟩

theorem mobileImageMounterUploadImage_eq (imageType : List UInt8) (hsize : imageSize ≠ 0)
    (signature : List UInt8) {x : UploadExchanges} (hsent : x.sent = .success) :
    mobileImageMounterUploadImage imageType imageSize signature x =
      ((uploadImage imageSize x).1,
        .request (uploadRequest imageType imageSize signature) :: (uploadImage imageSize x).2) := by
  rw [mobileImageMounterUploadImage, if_neg hsize, if_neg (not_not.mpr hsent)]

/-- **A success of an upload is true exactly if no send is short.**  If the request is sent, the
device is ready, the callback brings the image in `k` turns of which no send fails, and the device
has it all, then each of these sends must take all that it is given. -/
theorem uploadRight_iff (imageType : List UInt8) (imageSize : Nat) (signature : List UInt8)
    (x : UploadExchanges) : UploadRight imageType imageSize signature x ↔
      (imageSize ≠ 0 → x.sent = .success → x.acknowledged.HasStatus "ReceiveBytesAck" →
        x.completed.HasStatus "Complete" → ∀ k, x.turns.Brings imageSize k →
        ∀ i < k, x.turns.taken i (x.turns.pieceAt imageSize i) =
          some (x.turns.pieceAt imageSize i).length) := by
  by_cases hsize : imageSize = 0
  · rw [UploadRight, mobileImageMounterUploadImage, if_pos hsize]
    exact iff_of_true nofun fun h => absurd hsize h
  by_cases hsent : x.sent = .success
  swap
  · rw [UploadRight, mobileImageMounterUploadImage, if_neg hsize, if_pos hsent]
    exact iff_of_true (fun h => absurd h hsent) fun _ h => absurd h hsent
  rw [UploadRight, mobileImageMounterUploadImage_eq imageType hsize signature hsent]
  rcases uploadImage_cases x with ⟨hok, hack, hdone, k, hk, hlog⟩ | ⟨hno, hcond⟩
  · rw [hlog]
    constructor
    · intro h _ _ _ _ l hl
      obtain rfl := hl.unique hk
      exact (handedOver_iff hk hack hdone).mp (h hok)
    · intro h _
      exact (handedOver_iff hk hack hdone).mpr (h hsize hsent hack hdone k hk)
  · exact iff_of_true (fun h => absurd h hno) fun _ _ hack hdone k hk =>
      absurd ⟨hack, hdone, k, hk⟩ hcond

/-- The device is ready and takes everything; the callback brings zeros, and the transport one byte
of each send. -/
def shortUpload : UploadExchanges where
  sent := .success
  acknowledged := .reply [(lit "Status", newString (lit "ReceiveBytesAck"))]
  turns := {
    given := fun _ amount => some (List.replicate amount 0)
    given_le := by
      rintro _ amount _ ⟨⟩
      exact Nat.le_of_eq length_replicate
    taken := fun _ data => some (min 1 data.length)
    taken_le := by
      rintro _ data _ ⟨⟩
      exact Nat.min_le_right _ _
    sslData := false }
  completed := .reply [(lit "Status", newString (lit "Complete"))]

/-- An image of two bytes, of which one was sent. -/
theorem upload_refuted : ¬ ∀ imageType imageSize signature x,
    UploadRight imageType imageSize signature x := by
  intro hall
  have hright := hall (lit "Developer") 2 [] shortUpload
  have hbrings : shortUpload.turns.Brings 2 1 := by
    refine ⟨fun i hi => ?_, by decide⟩
    obtain rfl : i = 0 := by omega
    exact ⟨by decide, by decide, 1, by decide, nofun⟩
  have hack : shortUpload.acknowledged.HasStatus "ReceiveBytesAck" := ⟨_, rfl, by decide +kernel⟩
  have hdone : shortUpload.completed.HasStatus "Complete" := ⟨_, rfl, by decide +kernel⟩
  rw [UploadRight, mobileImageMounterUploadImage_eq _ (by decide) _ rfl] at hright
  rcases @uploadImage_cases 2 shortUpload with ⟨hok, -, -, k, hk, hlog⟩ | ⟨-, hno⟩
  · obtain rfl := hk.unique hbrings
    rw [hlog] at hright
    have htaken := (handedOver_iff hk hack hdone).mp (hright hok) 0 (by decide)
    exact absurd htaken (by decide)
  · exact hno ⟨hack, hdone, 1, hbrings⟩

end Uploads

end ImageMounter

end IDeviceStack.Libimobiledevice
