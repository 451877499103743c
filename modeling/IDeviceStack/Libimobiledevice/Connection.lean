/-
# `Libimobiledevice.Connection` — connections and their encryption

The part of `idevice.c` and `service.c` that decides whether data is encrypted.  A connection
starts without; `idevice_connection_enable_ssl` sets `ssl_data` when a handshake has succeeded,
and each send looks whether it is set.

* What the transport and the TLS library do is an argument: `SslOutcome` for the way that enabling
  takes, the number of bytes for a send, the bytes for a read.  A negative result is `none`.
* `wire` keeps what was sent, with a note whether it was encrypted.  The handshake itself is
  not in it.

**Proved here.**  `Connection.sends_encrypted`.
-/
import Mathlib.Data.List.Basic

namespace IDeviceStack.Libimobiledevice

/-! ## Errors -/

/-- `idevice_error_t`. -/
inductive IdeviceError where
  | success | invalidArg | unknownError | noDevice | notEnoughData | badHeader | sslError
  deriving DecidableEq, Repr

/-- `service_error_t`. -/
inductive ServiceError where
  | success | invalidArg | muxError | sslError | startServiceError | unknownError
  deriving DecidableEq, Repr

def ideviceToServiceError : IdeviceError → ServiceError
  | .success => .success
  | .invalidArg => .invalidArg
  | .sslError => .sslError
  | _ => .unknownError

/-! ## Connections -/

/-- A connection: whether `ssl_data` is set, and what was sent. -/
structure Connection where
  sslData : Bool
  wire : List (Bool × List UInt8)

/-- Which way `idevice_connection_enable_ssl` takes when `ssl_data` is not set. -/
inductive SslOutcome where
  /-- There is no pair record. -/
  | noPairRecord
  /-- The BIO, the context or the session could not be made. -/
  | noSetup
  | handshakeFailed
  | handshakeDone
  deriving DecidableEq, Repr

/-- `idevice_connection_enable_ssl`, of the flag alone. -/
def enableSsl (sslData : Bool) (outcome : SslOutcome) : IdeviceError × Bool :=
  if sslData then (.invalidArg, true)
  else if outcome = .handshakeDone then (.success, true)
  else (.sslError, false)

/-- `idevice_connection_disable_ssl`, of the flag alone. -/
def disableSsl (_sslData : Bool) : IdeviceError × Bool := (.success, false)

/-- `idevice_connection_send`, with `*sent_bytes`. -/
def Connection.send (c : Connection) (data : List UInt8) (sent : Option Nat) :
    (IdeviceError × Nat) × Connection :=
  let log : List UInt8 → Connection := fun d => { c with wire := c.wire ++ [(c.sslData, d)] }
  if c.sslData then
    if sent = some data.length then ((.success, data.length), log data)
    else ((.sslError, 0), log data)
  else
    match sent with
    | none => ((.unknownError, 0), c)
    | some n => ((.success, min n data.length), log (data.take n))

/-! ## Services -/

/-- `struct lockdownd_service_descriptor`. -/
structure ServiceDescriptor where
  port : UInt16
  sslEnabled : UInt8

/-- `service_client_new`, with the connection of the new client.  `connected` tells whether
`idevice_connect` succeeds. -/
def serviceClientNew (service : ServiceDescriptor) (connected : Bool) (outcome : SslOutcome) :
    ServiceError × Option Connection :=
  if service.port = 0 then (.invalidArg, none)
  else if !connected then (.muxError, none)
  else
    let connection : Connection := ⟨false, []⟩
    -- the result of `service_enable_ssl` is not looked at
    if service.sslEnabled = 1 then
      (.success, some { connection with sslData := (enableSsl connection.sslData outcome).2 })
    else (.success, some connection)

/-- What can be done with a service client. -/
inductive ServiceCall where
  | send (data : List UInt8) (sent : Option Nat)
  | receive (size : Nat) (received : Option (List UInt8))

/-- `service_send`, with `*sent`. -/
def serviceSend (c : Connection) (data : List UInt8) (sent : Option Nat) :
    (ServiceError × Nat) × Connection :=
  if data = [] then ((.invalidArg, 0), c)
  else
    let r := c.send data sent
    ((ideviceToServiceError r.1.1, r.1.2), r.2)

def ServiceCall.exec (c : Connection) : ServiceCall → Connection
  | .send data sent => (serviceSend c data sent).2
  | .receive _ _ => c

/-- The connection after some calls. -/
def Connection.run (c : Connection) (calls : List ServiceCall) : Connection :=
  calls.foldl ServiceCall.exec c

/-- No byte went out as it is. -/
def Connection.NoPlaintext (c : Connection) : Prop := ∀ e ∈ c.wire, e.1 = false → e.2 = []

instance (c : Connection) : Decidable c.NoPlaintext :=
  inferInstanceAs (Decidable (∀ e ∈ c.wire, e.1 = false → e.2 = []))

section Encrypted

variable {c : Connection}

theorem ServiceCall.exec_encrypted (call : ServiceCall) (hssl : c.sslData = true)
    (hc : c.NoPlaintext) : (call.exec c).sslData = true ∧ (call.exec c).NoPlaintext := by
  cases call with
  | receive size received => exact ⟨hssl, hc⟩
  | send data sent =>
    rw [exec, serviceSend]
    by_cases hdata : data = []
    · rw [if_pos hdata]
      exact ⟨hssl, hc⟩
    · rw [if_neg hdata]
      have hwire : (c.send data sent).2 = { c with wire := c.wire ++ [(true, data)] } := by
        simp only [Connection.send, hssl, if_true]
        split <;> rfl
      simp only [hwire]
      refine ⟨hssl, fun e he hplain => ?_⟩
      rcases List.mem_append.mp he with hold | hnew
      · exact hc e hold hplain
      · rw [List.mem_singleton.mp hnew] at hplain
        cases hplain

/-- **An encrypted connection stays encrypted**, and nothing goes out as it is. -/
theorem Connection.sends_encrypted (calls : List ServiceCall) (hssl : c.sslData = true)
    (hc : c.NoPlaintext) : (c.run calls).sslData = true ∧ (c.run calls).NoPlaintext := by
  induction calls generalizing c with
  | nil => exact ⟨hssl, hc⟩
  | cons call calls ih =>
    obtain ⟨hssl', hc'⟩ := call.exec_encrypted hssl hc
    exact ih hssl' hc'

end Encrypted

/-- What is asked of a service that has to be encrypted: `service_client_new` tells a success only
if `ssl_data` is set, and whatever is done with the client, no byte goes out as it is. -/
def Secured (r : ServiceError × Option Connection) (calls : List ServiceCall) : Prop :=
  (r.1 = .success → ∃ c, r.2 = some c ∧ c.sslData = true) ∧
    ∀ c, r.2 = some c → (c.run calls).NoPlaintext

/-- A service with `ssl_enabled = 1` is encrypted if and only if there is no connection, or enabling
has succeeded. -/
theorem serviceClientNew_secured_iff (port : UInt16) (connected : Bool) (outcome : SslOutcome)
    (calls : List ServiceCall) :
    Secured (serviceClientNew ⟨port, 1⟩ connected outcome) calls ↔
      (port = 0 ∨ connected = false ∨ outcome = .handshakeDone) := by
  rw [serviceClientNew]
  by_cases hport : port = 0
  · rw [if_pos hport]
    exact iff_of_true ⟨nofun, nofun⟩ (.inl hport)
  rw [if_neg hport]
  cases connected with
  | false => exact iff_of_true ⟨nofun, nofun⟩ (.inr (.inl rfl))
  | true =>
    simp only [Bool.not_true, Bool.false_eq_true, if_false, if_true, enableSsl]
    by_cases hdone : outcome = .handshakeDone
    · rw [if_pos hdone]
      refine iff_of_true ⟨fun _ => ⟨_, rfl, rfl⟩, ?_⟩ (.inr (.inr hdone))
      rintro c hc
      cases hc
      exact (Connection.sends_encrypted calls rfl fun _ he => absurd he List.not_mem_nil).2
    · rw [if_neg hdone]
      refine iff_of_false ?_ ?_
      · rintro ⟨hsuccess, -⟩
        obtain ⟨c, hc, hssl⟩ := hsuccess rfl
        cases hc
        cases hssl
      · rintro (h | h | h)
        · exact hport h
        · cases h
        · exact hdone h

end IDeviceStack.Libimobiledevice
