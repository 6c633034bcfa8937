import FreeSampler.Framework.Bytes

namespace FreeSampler.Tlm

open Framework

inductive Command where
  | read
  | write
  | ignore
  deriving DecidableEq, Repr

inductive ResponseStatus where
  | ok
  | incomplete
  | genericError
  | addressError
  | commandError
  | burstError
  | byteEnableError
  deriving DecidableEq, Repr

/-- The generic payload. `data` is the buffer that the data pointer addresses. -/
structure GenericPayload where
  command : Command
  address : UInt64
  data : List UInt8
  dataLength : UInt32
  byteEnablePtr : Ptr UInt8
  streamingWidth : UInt32
  dmiAllowed : Bool
  responseStatus : ResponseStatus
  deriving DecidableEq, Repr

namespace GenericPayload

/-- The default constructor. -/
def new : GenericPayload where
  command := .ignore
  address := 0
  data := []
  dataLength := 0
  byteEnablePtr := none
  streamingWidth := 0
  dmiAllowed := false
  responseStatus := .incomplete

/-- `is_response_error()`: every status but `TLM_OK_RESPONSE` counts, an incomplete one too. -/
def isResponseError (trans : GenericPayload) : Bool := trans.responseStatus != .ok

/-- The bytes of a transaction: `len` of them from its address on. -/
def covers (trans : GenericPayload) (x : Nat) : Prop :=
  trans.address.toNat ≤ x ∧ x < trans.address.toNat + trans.dataLength.toNat

instance (trans : GenericPayload) (x : Nat) : Decidable (trans.covers x) :=
  inferInstanceAs (Decidable (_ ∧ _))

end GenericPayload

/-- An `SC_REPORT_ERROR`, which is displayed only. -/
structure Report where
  msgType : String
  msg : String
  deriving DecidableEq, Repr

/-- What a blocking transport call gives back: the payload, the delay in ns and the reports. -/
structure Transport where
  trans : GenericPayload
  delay : Nat
  reports : List Report
  deriving DecidableEq, Repr

inductive DmiAccess where
  | none
  | read
  | write
  | readWrite
  deriving DecidableEq, Repr

/-- The DMI descriptor: the pointer to the start of an array, given by the array's number, and
the byte addresses of the region it backs. -/
structure Dmi where
  grantedAccess : DmiAccess
  dmiPtr : Nat
  startAddress : UInt64
  endAddress : UInt64
  readLatency : Nat
  writeLatency : Nat
  deriving DecidableEq, Repr

/-- A blocking transport target. It may write into the initiator's buffer, not resize it. -/
structure Target (σ : Type) where
  b_transport : σ → GenericPayload → Nat → Except Fault (Transport × σ)
  data_length : ∀ s trans delay r s', b_transport s trans delay = .ok (r, s') →
    r.trans.data.length = trans.data.length

/-- A blocking transport call: the payload, and the delay that it brings along. -/
structure Transaction where
  trans : GenericPayload
  delay : Nat
  deriving DecidableEq, Repr

def Target.step {σ : Type} (T : Target σ) (s : σ) (c : Transaction) :
    Except Fault (Transport × σ) := T.b_transport s c.trans c.delay

end FreeSampler.Tlm
