import FreeSampler.CacheStore.CacheStore
import FreeSampler.Tlm.Payload

namespace FreeSampler

open Framework Tlm

/-- The cache module, with the state of the target that `initiator_socket` is bound to. -/
structure RealCache (σ : Type) where
  m_cacheStore : CacheStore
  m_cachetrans : GenericPayload
  memory : σ

namespace RealCache

/-- A transport call with its surroundings: the words that lie behind a line buffer on the
heap, and what `sc_time_stamp()` prints. -/
structure Call where
  trans : GenericPayload
  delay : Nat
  past : Nat → UInt32
  sc_time_stamp : String

/-- A transaction on the four bytes at an address, as the initiator sets it up. -/
def Call.onWord (command : Command) (address : UInt64) (data : List UInt8) : Call where
  trans :=
    { command := command
      address := address
      data := data
      dataLength := 4
      byteEnablePtr := none
      streamingWidth := 4
      dmiAllowed := false
      responseStatus := .incomplete }
  delay := 0
  past := fun _ => 0
  sc_time_stamp := "0 s"

/-- The way a call went, with the payloads that the target answered on its behalf. -/
inductive Branch where
  | readHit
  | readMiss (fill : GenericPayload)
  | writeHit
  | writeMiss (write fill : GenericPayload)
  | writeError (write : GenericPayload)
  | ignored
  deriving DecidableEq, Repr

/-- What a call gives back to the initiator, and the way it went. -/
structure Answer where
  trans : GenericPayload
  delay : Nat
  reports : List Report
  branch : Branch
  deriving DecidableEq, Repr

/-- The constructor, bound to a target in a given state. -/
def construct {σ : Type} (memorySize cacheSize lineSize numWays : UInt64) (memory : σ) :
    Except Fault (RealCache σ) := do
  let store ← CacheStore.construct memorySize cacheSize lineSize numWays
  return { m_cacheStore := store, m_cachetrans := GenericPayload.new, memory := memory }

variable {σ : Type} (T : Target σ)

/-- `new uint8_t[m_cacheStore.p_LineSize]()`. -/
def newLine (c : RealCache σ) : List UInt8 := List.replicate c.m_cacheStore.p_LineSize.toNat 0

def byteIndex (c : RealCache σ) (adr : UInt64) : Nat := (c.m_cacheStore.getByteIndex adr).toNat

/-- A line buffer as the `uint32_t*` that `setDataLine` gets: its own words, and the
words behind it, since the load reads `p_LineSize` words. -/
def lineBuffer (c : RealCache σ) (dataout : List UInt8) (past : Nat → UInt32) : List UInt32 :=
  toWords dataout ++ (List.range c.m_cacheStore.p_LineSize.toNat).map past

/-- `getDataLine` into a new line buffer: hit or miss, and the buffer. -/
def lookupLine (c : RealCache σ) (adr : UInt64) : Except Fault (Bool × List UInt8) := do
  let dataout := c.newLine
  let (bHit, words) ← c.m_cacheStore.getDataLine adr (some (toWords dataout))
  return (bHit, overlay dataout (words.getD []))

/-- Delegate an access to the memory; an error response is reported. -/
def accessDataFromMemory (c : RealCache σ) (call : Call) (trans : GenericPayload) (delay : Nat) :
    Except Fault (Bool × Transport × RealCache σ) := do
  let (r, memory) ← T.b_transport c.memory trans delay
  let c := { c with memory := memory }
  if r.trans.isResponseError then
    let report := ⟨"RealCache",
      "Response error from b_transport call to Memory, " ++ call.sc_time_stamp⟩
    return (false, { r with reports := r.reports ++ [report] }, c)
  else return (true, r, c)

/-- The payload that asks the memory for a line. -/
def lineRequest (c : RealCache σ) (adr : UInt64) (dataout : List UInt8) : GenericPayload :=
  { c.m_cachetrans with
    command := .read
    address := c.m_cacheStore.getWordIndex adr
    data := dataout
    dataLength := c.m_cacheStore.p_LineSize.toUInt32
    streamingWidth := c.m_cacheStore.p_LineSize.toUInt32
    byteEnablePtr := none
    dmiAllowed := false }

def readLineFromMemory (c : RealCache σ) (call : Call) (adr : UInt64) (dataout : List UInt8)
    (delay : Nat) : Except Fault (Transport × RealCache σ) := do
  let (_, r, c) ← c.accessDataFromMemory T call (c.lineRequest adr dataout) delay
  return (r, { c with m_cachetrans := r.trans })

/-- Read the line of an address from the memory and cache it. -/
def fillLine (c : RealCache σ) (call : Call) (adr : UInt64) (dataout : List UInt8) (delay : Nat) :
    Except Fault (Transport × RealCache σ) := do
  let (r, c) ← c.readLineFromMemory T call adr dataout delay
  let (_, store) ← c.m_cacheStore.setDataLine (c.m_cacheStore.getLineAddress adr)
    (some (c.lineBuffer r.trans.data call.past))
  return (r, { c with m_cacheStore := store })

/-- The answer to the initiator: whatever happened, the status is `TLM_OK_RESPONSE`. -/
def respond (trans : GenericPayload) (delay : Nat) (reports : List Report) (branch : Branch) :
    Answer := ⟨{ trans with responseStatus := .ok }, delay, reports, branch⟩

def readByte (c : RealCache σ) (call : Call) : Except Fault (Answer × RealCache σ) := do
  let trans := call.trans
  let adr := trans.address
  let (bHit, dataout) ← c.lookupLine adr
  if bHit then
    let dByte ← elementAt dataout (c.byteIndex adr)
    let data ← storeAt trans.data 0 dByte
    return (respond { trans with data := data } call.delay [] .readHit, c)
  else
    let (r, c) ← c.fillLine T call adr c.newLine call.delay
    let dByte ← elementAt r.trans.data (c.byteIndex adr)
    let data ← storeAt trans.data 0 dByte
    return (respond { trans with data := data } r.delay r.reports (.readMiss r.trans), c)

def writeByte (c : RealCache σ) (call : Call) : Except Fault (Answer × RealCache σ) := do
  let trans := call.trans
  let adr := trans.address
  let (bHit, dataout) ← c.lookupLine adr
  if bHit then
    let dByte ← elementAt trans.data 0
    let dataout ← storeAt dataout (c.byteIndex adr) dByte
    let (_, store) ← c.m_cacheStore.setDataLine adr (some (c.lineBuffer dataout call.past))
    return (respond trans call.delay [] .writeHit, { c with m_cacheStore := store })
  else
    let (_, r, c) ← c.accessDataFromMemory T call trans call.delay
    if r.trans.isResponseError then
      return (respond r.trans r.delay r.reports (.writeError r.trans), c)
    else
      let (f, c) ← c.fillLine T call adr dataout r.delay
      return (respond r.trans f.delay (r.reports ++ f.reports) (.writeMiss r.trans f.trans), c)

def b_transport (c : RealCache σ) (call : Call) : Except Fault (Answer × RealCache σ) :=
  if call.trans.dataLength ≠ 4 then .error .assertion
  else match call.trans.command with
    | .read => c.readByte T call
    | .write => c.writeByte T call
    | .ignore => .ok (respond call.trans call.delay [] .ignored, c)

end RealCache

end FreeSampler
