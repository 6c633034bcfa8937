import FreeSampler.CacheStore.CacheLine
import FreeSampler.Framework.Run

namespace FreeSampler

open Framework

/-- The cache storage. A `CacheLine*` into `m_cacheLines` is an index of that list. -/
@[ext] structure CacheStore where
  p_MemorySize : UInt64
  p_CacheSize : UInt64
  p_LineSize : UInt64
  p_NumWays : UInt64
  m_cacheLines : List CacheLine
  m_numMemoryLines : UInt64
  m_numCacheLines : UInt64
  m_numCacheBlocks : UInt64
  m_cacheBlockIndexMask : UInt64
  m_bitsForLine : UInt64
  m_bitShiftForCacheTag : UInt64
  deriving DecidableEq, Repr

namespace CacheStore

/-- The constructor. `pow(2, n) - 1` is exact: `n` comes from a 32-bit logarithm. -/
def construct (memorySize cacheSize lineSize numWays : UInt64) : Except Fault CacheStore :=
  if lineSize = 0 ∨ numWays = 0 then .error .divideByZero
  else do
    let m_numCacheBlocks := cacheSize / lineSize / numWays
    let bitsForLine ← logbase2 lineSize.toUInt32
    let cacheBlockIndex_NumBits ← logbase2 m_numCacheBlocks.toUInt32
    return {
      p_MemorySize := memorySize
      p_CacheSize := cacheSize
      p_LineSize := lineSize
      p_NumWays := numWays
      m_cacheLines := List.replicate (cacheSize / lineSize).toNat CacheLine.new
      m_numMemoryLines := memorySize / lineSize
      m_numCacheLines := cacheSize / lineSize
      m_numCacheBlocks := m_numCacheBlocks
      m_cacheBlockIndexMask := UInt64.ofNat (2 ^ cacheBlockIndex_NumBits.toNat - 1)
      m_bitsForLine := bitsForLine.toUInt64
      m_bitShiftForCacheTag := cacheBlockIndex_NumBits.toUInt64 + bitsForLine.toUInt64 }

def getCacheBlockIndex (s : CacheStore) (memoryAddress : UInt64) : UInt64 :=
  (memoryAddress >>> s.m_bitsForLine) &&& s.m_cacheBlockIndexMask

def getCacheTag (s : CacheStore) (memoryAddress : UInt64) : UInt64 :=
  memoryAddress >>> s.m_bitShiftForCacheTag

def getByteIndex (s : CacheStore) (memoryAddress : UInt64) : UInt64 :=
  memoryAddress &&& (s.p_LineSize - 1)

def getWordIndex (s : CacheStore) (memoryAddress : UInt64) : UInt64 :=
  s.getByteIndex memoryAddress / 4

def getLineAddress (s : CacheStore) (memoryAddress : UInt64) : UInt64 :=
  (memoryAddress >>> s.m_bitsForLine) <<< s.m_bitsForLine

/-- `&m_cacheLines[cacheBlockIndex * p_NumWays]`. -/
def getCacheBlock (s : CacheStore) (cacheBlockIndex : UInt64) : Nat :=
  (cacheBlockIndex * s.p_NumWays).toNat

/-- `for( ii...; ii < p_NumWays; ii++)` over a block, up to the first line with a property:
the loop of both `getCacheLine` and `pickOrEvict`. `left` counts the ways still to visit. -/
def scanWays (lines : List CacheLine) (cacheBlock : Nat) (found : CacheLine → Bool) :
    (left ii : Nat) → Except Fault (Option Nat)
  | 0, _ => .ok none
  | left + 1, ii => do
    let cl ← elementAt lines (cacheBlock + ii)
    if found cl then return some (cacheBlock + ii)
    else scanWays lines cacheBlock found left (ii + 1)

/-- `NULL`, or the line of the block that carries the address's tag. -/
def getCacheLine (s : CacheStore) (memoryAddress : UInt64) : Except Fault (Option Nat) :=
  let cacheBlock := s.getCacheBlock (s.getCacheBlockIndex memoryAddress)
  let cacheTag := s.getCacheTag memoryAddress
  scanWays s.m_cacheLines cacheBlock (fun cl => cl.getTag == cacheTag) s.p_NumWays.toNat 0

/-- Some way of the address's block carries its tag. -/
def IsResident (s : CacheStore) (a : UInt64) : Prop :=
  ∃ w cl, w < s.p_NumWays.toNat ∧
    s.m_cacheLines[s.getCacheBlock (s.getCacheBlockIndex a) + w]? = some cl ∧
    cl.getTag = s.getCacheTag a

instance (s : CacheStore) (a : UInt64) : Decidable (s.IsResident a) :=
  decidable_of_iff (∃ w, w < s.p_NumWays.toNat ∧
    (s.m_cacheLines[s.getCacheBlock (s.getCacheBlockIndex a) + w]?.any
      (fun cl => cl.getTag == s.getCacheTag a)) = true)
    (by simp [IsResident, Option.any_eq_true])

/-- The first empty line, else the block's first line. -/
def pickOrEvict (s : CacheStore) (cacheBlock : Nat) : Except Fault Nat := do
  match ← scanWays s.m_cacheLines cacheBlock CacheLine.getEmpty s.p_NumWays.toNat 0 with
  | some returnCacheLine => return returnCacheLine
  | none => return cacheBlock

def newCacheLine (s : CacheStore) (memoryAddress : UInt64) : Except Fault (Nat × CacheStore) := do
  let cacheBlock := s.getCacheBlock (s.getCacheBlockIndex memoryAddress)
  let newLine ← s.pickOrEvict cacheBlock
  let cl ← elementAt s.m_cacheLines newLine
  return (newLine, { s with m_cacheLines := s.m_cacheLines.set newLine cl.setEmpty })

/-- Hit or miss, and the target buffer after the call. -/
def getDataLine (s : CacheStore) (memoryAddress : UInt64) (toBuffer : Ptr UInt32) :
    Except Fault (Bool × Ptr UInt32) :=
  match toBuffer with
  | none => .ok (false, none)
  | some toWords => do
    match ← s.getCacheLine memoryAddress with
    | none => return (false, some toWords)
    | some cl =>
      let line ← elementAt s.m_cacheLines cl
      match line.getData 0 with
      | none => throw .nullPointer
      | some fromWords =>
        let toWords ← copyWords (s.p_LineSize / 4).toNat fromWords toWords
        return (true, some toWords)

def setDataLine (s : CacheStore) (memoryAddress : UInt64) (fromBuffer : Ptr UInt32) :
    Except Fault (Bool × CacheStore) := do
  let (cl, s, cacheHit) ← match ← s.getCacheLine memoryAddress with
    | some cl => pure (cl, s, true)
    | none => do
      let (cl, s) ← s.newCacheLine memoryAddress
      pure (cl, s, false)
  let line ← elementAt s.m_cacheLines cl
  let line ← line.load (s.getCacheTag memoryAddress) fromBuffer s.p_LineSize.toNat
  return (cacheHit, { s with m_cacheLines := s.m_cacheLines.set cl line })

def invalidate (s : CacheStore) (memoryAddress : UInt64) : Except Fault CacheStore := do
  match ← s.getCacheLine memoryAddress with
  | none => return s
  | some cl =>
    let line ← elementAt s.m_cacheLines cl
    return { s with m_cacheLines := s.m_cacheLines.set cl (line.setValid false) }

end CacheStore

/-- A call of the store's line interface with a non-null buffer. -/
inductive StoreOp where
  | setDataLine (memoryAddress : UInt64) (fromBuffer : List UInt32)
  | getDataLine (memoryAddress : UInt64) (toBuffer : List UInt32)
  | invalidate (memoryAddress : UInt64)
  deriving DecidableEq, Repr

/-- What a call gives back to its caller. -/
inductive StoreResult where
  | set (cacheHit : Bool)
  | get (cacheHit : Bool) (toBuffer : Ptr UInt32)
  | invalidated
  deriving DecidableEq, Repr

def CacheStore.step (s : CacheStore) : StoreOp → Except Fault (StoreResult × CacheStore)
  | .setDataLine a fromBuffer => do
    let (hit, s) ← s.setDataLine a (some fromBuffer)
    return (.set hit, s)
  | .getDataLine a toBuffer => do
    let (hit, toBuffer) ← s.getDataLine a (some toBuffer)
    return (.get hit toBuffer, s)
  | .invalidate a => do
    let s ← s.invalidate a
    return (.invalidated, s)

end FreeSampler
