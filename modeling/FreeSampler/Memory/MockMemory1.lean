import FreeSampler.Tlm.Payload

namespace FreeSampler

open Framework Tlm

/-- The mock memory. It models no storage, so it has no state. -/
structure MockMemory1 where
  deriving DecidableEq, Repr

namespace MockMemory1

/-- What a call leaves in the initiator's buffer: a read gets the parity of its word index,
whatever the data length. -/
def access (trans : GenericPayload) : Except Fault (List UInt8) :=
  let adr := trans.address / 4
  match trans.command with
  | .read => if adr % 2 = 0 then storeWord 0 trans.data else storeWord 1 trans.data
  | .write => .ok trans.data
  | .ignore => .ok trans.data

def b_transport (m : MockMemory1) (trans : GenericPayload) (delay : Nat) :
    Except Fault (Transport × MockMemory1) := do
  let delay := delay + 100
  let data ← access trans
  return (⟨{ trans with data := data, responseStatus := .ok }, delay, []⟩, m)

/-- The debug path computes what the transport path does. -/
def transport_dbg (m : MockMemory1) (trans : GenericPayload) :
    Except Fault ((UInt32 × GenericPayload) × MockMemory1) := do
  let data ← access trans
  return ((4, { trans with data := data, responseStatus := .ok }), m)

theorem b_transport_ok (m m' : MockMemory1) (trans : GenericPayload) (delay : Nat)
    (r : Transport) : m.b_transport trans delay = .ok (r, m') ↔
      ∃ data, access trans = .ok data ∧
        r = ⟨{ trans with data := data, responseStatus := .ok }, delay + 100, []⟩ := by
  simp only [b_transport, bind_eq_ok]
  constructor
  · intro h
    obtain ⟨data, ha, hr⟩ := h
    obtain ⟨rfl, -⟩ := ok_inj hr
    exact ⟨data, ha, rfl⟩
  · intro h
    obtain ⟨data, ha, rfl⟩ := h
    exact ⟨data, ha, rfl⟩

theorem access_length (trans : GenericPayload) (data : List UInt8)
    (h : access trans = .ok data) : data.length = trans.data.length := by
  cases hc : trans.command with
  | read =>
    simp only [access, hc] at h
    split_ifs at h
    · exact storeWord_length _ _ _ h
    · exact storeWord_length _ _ _ h
  | write =>
    simp only [access, hc] at h
    rw [← Except.ok.inj h]
  | ignore =>
    simp only [access, hc] at h
    rw [← Except.ok.inj h]

theorem access_read (trans : GenericPayload) (hc : trans.command = .read)
    (hd : 4 ≤ trans.data.length) : access trans =
      .ok (wordBytes (UInt32.ofNat ((trans.address / 4).toNat % 2)) ++ trans.data.drop 4) := by
  have hparity : trans.address / 4 % 2 = 0 ↔ (trans.address / 4).toNat % 2 = 0 := by
    rw [← UInt64.toNat_inj, UInt64.toNat_mod]
    rfl
  simp only [access, hc]
  by_cases heven : (trans.address / 4).toNat % 2 = 0
  · rw [if_pos (hparity.mpr heven), heven]
    exact storeWord_ok 0 trans.data hd
  · have hodd : (trans.address / 4).toNat % 2 = 1 := by omega
    rw [if_neg (fun hz => heven (hparity.mp hz)), hodd]
    exact storeWord_ok 1 trans.data hd

def target : Target MockMemory1 where
  b_transport := b_transport
  data_length := by
    intro m trans delay r m' h
    obtain ⟨data, ha, rfl⟩ := (b_transport_ok m m' trans delay r).mp h
    exact access_length trans data ha

end MockMemory1

end FreeSampler
