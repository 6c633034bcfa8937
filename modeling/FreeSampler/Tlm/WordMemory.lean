import FreeSampler.Framework.Run
import FreeSampler.Tlm.Payload
import Mathlib.Logic.Function.Basic
import Mathlib.Tactic.MkIffOfInductiveProp

namespace FreeSampler.Tlm

open Framework

/-- What a memory is for: it keeps `size` words. Of some of them the value is known. -/
structure WordMemory where
  size : Nat
  known : UInt64 → Option UInt32

/-- The word that an address belongs to. -/
def GenericPayload.word (trans : GenericPayload) : UInt64 := trans.address / 4

/-- A transfer of four bytes at a word of a memory of `size` words. -/
@[mk_iff] structure MovesWord (size : Nat) (trans : GenericPayload) : Prop where
  inside : trans.word.toNat < size
  dataLength_eq : trans.dataLength = 4
  byteEnablePtr_eq : trans.byteEnablePtr = none
  streamingWidth_le : 4 ≤ trans.streamingWidth
  data_le : 4 ≤ trans.data.length

instance (size : Nat) (trans : GenericPayload) : Decidable (MovesWord size trans) :=
  decidable_of_iff' _ (movesWord_iff size trans)

/-- What the initiator of a call sees of its answer. -/
structure WordReply where
  data : List UInt8
  delay : Nat
  responseStatus : ResponseStatus
  reports : List Report
  deriving DecidableEq, Repr

def WordReply.of (r : Transport) : WordReply :=
  ⟨r.trans.data, r.delay, r.trans.responseStatus, r.reports⟩

/-- The answer with the given data: 100 ns later, without an error and without a report. -/
def WordReply.served (c : Transaction) (data : List UInt8) : WordReply :=
  ⟨data, c.delay + 100, .ok, []⟩

namespace WordMemory

/-- The memory after a word was stored. -/
def store (m : WordMemory) (w : UInt64) (v : UInt32) : WordMemory :=
  { m with known := Function.update m.known w (some v) }

theorem store_known (m : WordMemory) (w x : UInt64) (v : UInt32) :
    (m.store w v).known x = if x = w then some v else m.known x :=
  Function.update_apply m.known w (some v) x

/-- The data that a call is to be answered with, and the memory after it. Nothing is asked for
where a call moves no word, or reads a word that is not known. -/
def step (m : WordMemory) (c : Transaction) : Except Unit (List UInt8 × WordMemory) :=
  if MovesWord m.size c.trans then
    match c.trans.command with
    | .read =>
      match m.known c.trans.word with
      | some v => .ok (wordBytes v ++ c.trans.data.drop 4, m)
      | none => .error ()
    | .write =>
      match loadWord c.trans.data with
      | .ok v => .ok (c.trans.data, m.store c.trans.word v)
      | .error _ => .error ()
    | .ignore => .error ()
  else .error ()

theorem step_read (m m' : WordMemory) (c : Transaction) (data : List UInt8)
    (hc : c.trans.command = .read) : m.step c = .ok (data, m') ↔ MovesWord m.size c.trans ∧
      ∃ v, m.known c.trans.word = some v ∧ data = wordBytes v ++ c.trans.data.drop 4 ∧ m' = m := by
  by_cases hm : MovesWord m.size c.trans
  · rw [step, if_pos hm, hc]
    cases hk : m.known c.trans.word with
    | none => simp
    | some v => simp [hm, eq_comm]
  · rw [step, if_neg hm]
    simp [hm]

theorem step_write (m m' : WordMemory) (c : Transaction) (data : List UInt8)
    (hc : c.trans.command = .write) : m.step c = .ok (data, m') ↔ MovesWord m.size c.trans ∧
      ∃ v, loadWord c.trans.data = .ok v ∧ data = c.trans.data ∧ m' = m.store c.trans.word v := by
  by_cases hm : MovesWord m.size c.trans
  · rw [step, if_pos hm, hc]
    cases hv : loadWord c.trans.data with
    | error e => simp
    | ok v => simp [hm, eq_comm]
  · rw [step, if_neg hm]
    simp [hm]

theorem step_ignore (m : WordMemory) (c : Transaction) (hc : c.trans.command = .ignore) :
    m.step c = .error () := by
  rw [step, hc]
  exact ite_self _

/-- The step with the reply that it asks for. -/
def promised : WordMemory → Transaction → Except Unit (WordReply × WordMemory) :=
  observed step (fun c data _ => WordReply.served c data)

end WordMemory

/-- The answer of a target to a call that is to be answered with the given data. -/
structure Presents (c : Transaction) (data : List UInt8) (r : Transport) : Prop where
  trans_eq : ∃ dmiAllowed, r.trans =
    { c.trans with data := data, dmiAllowed := dmiAllowed, responseStatus := .ok }
  delay_eq : r.delay = c.delay + 100
  reports_eq : r.reports = []

theorem Presents.reply_eq (c : Transaction) (data : List UInt8) (r : Transport)
    (h : Presents c data r) : WordReply.of r = WordReply.served c data := by
  obtain ⟨⟨dmiAllowed, htrans⟩, hdelay, hreports⟩ := h
  rw [WordReply.of, htrans, hdelay, hreports]
  rfl

namespace Target

variable {σ : Type} (T : Target σ)

/-- Over related states a target answers as the words that are known ask for. -/
def Serves (R : σ → WordMemory → Prop) : Prop :=
  ∀ s m c data m', R s m → m.step c = .ok (data, m') →
    ∃ r s', T.step s c = .ok (r, s') ∧ Presents c data r ∧ R s' m'

/-- The target as its initiator sees it. -/
def shown : σ → Transaction → Except Fault (WordReply × σ) :=
  observed T.step (fun _ r _ => WordReply.of r)

/-- The replies of a target that serves words are those that the word memory promises. -/
theorem run_serves (R : σ → WordMemory → Prop) (hT : T.Serves R) (s : σ) (m m' : WordMemory)
    (hR : R s m) (calls : List Transaction) (replies : List WordReply)
    (h : run WordMemory.promised m calls = .ok (replies, m')) :
    ∃ s', run T.shown s calls = .ok (replies, s') ∧ R s' m' := by
  refine run_simulates WordMemory.promised T.shown (fun m s => R s m) m m' s calls replies ?_ hR h
  intro c _ m s reply m' hR hs
  simp only [WordMemory.promised, observed, bind_eq_ok, Prod.exists] at hs
  obtain ⟨data, u, hstep, hreply⟩ := hs
  obtain ⟨rfl, rfl⟩ := ok_inj hreply
  obtain ⟨r, s', hr, hp, hnext⟩ := hT s m c data u hR hstep
  have hseen := observed_ok T.step (fun _ r _ => WordReply.of r) s s' c r hr
  rw [hp.reply_eq] at hseen
  exact ⟨s', hseen, hnext⟩

end Target

end FreeSampler.Tlm
