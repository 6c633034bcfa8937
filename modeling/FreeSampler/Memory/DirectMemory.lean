import FreeSampler.Memory.SparseMemory

namespace FreeSampler

open Framework Tlm

namespace SparseMemory

/-- Where the transport path finds a byte address: the page, and the byte within the page. -/
def byteLocation (m : SparseMemory) (x : UInt64) : Option (Nat × Nat) :=
  (m.m_writtenAddresses.find (pageID (x / 4))).map
    (fun page => (page, 4 * (pageOffset (x / 4)).val + (x % 4).toNat))

/-- A granted region contains the address it was asked for, and each of its byte addresses
is backed by the byte that the transport path accesses there. -/
structure DmiAgrees (m : SparseMemory) (dmi_data : Dmi) (a : UInt64) : Prop where
  contains : dmi_data.startAddress ≤ a ∧ a ≤ dmi_data.endAddress
  backed : ∀ x, dmi_data.startAddress ≤ x → x ≤ dmi_data.endAddress →
    m.byteLocation x = some (dmi_data.dmiPtr, (x - dmi_data.startAddress).toNat)

section Region

variable (m : SparseMemory) (new : Page) (trans : GenericPayload)

private theorem startAddress_toNat :
    (m.get_direct_mem_ptr new trans).1.2.startAddress.toNat = trans.address.toNat / 4096 * 1024 := by
  have ha := trans.address.toNat_lt
  simp only [get_direct_mem_ptr, UInt64.toNat_mul, UInt64.toNat_div, UInt64.reduceToNat]
  omega

private theorem endAddress_toNat :
    (m.get_direct_mem_ptr new trans).1.2.endAddress.toNat =
      trans.address.toNat / 4096 * 1024 + 1023 := by
  have ha := trans.address.toNat_lt
  have hs := startAddress_toNat m new trans
  simp only [get_direct_mem_ptr] at hs ⊢
  rw [UInt64.toNat_sub_of_le]
  · rw [UInt64.toNat_add, hs]
    simp only [UInt64.reduceToNat]
    omega
  · rw [UInt64.le_iff_toNat_le, UInt64.toNat_add, hs]
    simp only [UInt64.reduceToNat]
    omega

theorem dmiPtr_eq : (m.get_direct_mem_ptr new trans).2.m_writtenAddresses.find
    (pageID (trans.address / 4)) = some (m.get_direct_mem_ptr new trans).1.2.dmiPtr :=
  m.m_writtenAddresses.find_fetch_self _ _

end Region

/-- The region is given in word units. As byte addresses it is right exactly where the two
agree: in the first 1024 bytes. -/
theorem dmiAgrees_iff (m : SparseMemory) (new : Page) (trans : GenericPayload) :
    DmiAgrees (m.get_direct_mem_ptr new trans).2 (m.get_direct_mem_ptr new trans).1.2
      trans.address ↔ trans.address < 1024 := by
  have hs := startAddress_toNat m new trans
  have he := endAddress_toNat m new trans
  have hp := dmiPtr_eq m new trans
  rw [UInt64.lt_iff_toNat_lt]
  constructor
  · intro ha
    have hle := ha.contains.2
    rw [UInt64.le_iff_toNat_le, he] at hle
    simp only [UInt64.reduceToNat]
    omega
  · intro hlt
    simp only [UInt64.reduceToNat] at hlt
    have hzero : trans.address.toNat / 4096 = 0 := by omega
    rw [hzero] at hs he
    refine ⟨⟨?_, ?_⟩, ?_⟩
    · rw [UInt64.le_iff_toNat_le, hs]
      omega
    · rw [UInt64.le_iff_toNat_le, he]
      omega
    · intro x hsx hxe
      have hx : x.toNat ≤ 1023 := by
        rw [UInt64.le_iff_toNat_le, he] at hxe
        omega
      have hid : pageID (x / 4) = pageID (trans.address / 4) := by
        apply UInt64.toNat_inj.mp
        simp only [pageID, UInt64.toNat_div, UInt64.reduceToNat]
        omega
      have hsub : (x - (m.get_direct_mem_ptr new trans).1.2.startAddress).toNat = x.toNat := by
        rw [UInt64.toNat_sub_of_le _ _ hsx, hs]
        omega
      rw [byteLocation, hid, hp, hsub, Option.map_some]
      have hoff : 4 * (pageOffset (x / 4)).val + (x % 4).toNat = x.toNat := by
        simp only [pageOffset, UInt64.toNat_div, UInt64.toNat_mod, UInt64.reduceToNat]
        omega
      rw [hoff]

/-- Byte address 1024 is granted a region that ends at byte address 1023. -/
theorem dmiAgrees_fails :
    let trans := { GenericPayload.new with address := 1024 }
    (construct.get_direct_mem_ptr (fun _ => 0) trans).1.1 = true ∧
    (construct.get_direct_mem_ptr (fun _ => 0) trans).1.2.startAddress = 0 ∧
    (construct.get_direct_mem_ptr (fun _ => 0) trans).1.2.endAddress = 1023 ∧
    ¬ DmiAgrees (construct.get_direct_mem_ptr (fun _ => 0) trans).2
      (construct.get_direct_mem_ptr (fun _ => 0) trans).1.2 trans.address := by
  refine ⟨rfl, by decide, by decide, ?_⟩
  intro h
  exact absurd h.contains.2 (by decide)

end SparseMemory

end FreeSampler
