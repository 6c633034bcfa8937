import FreeSampler.Memory.SparseRuns

namespace FreeSampler

open Framework Tlm

namespace SparseMemory

/-- A call of one of the three callbacks that the socket registers. -/
inductive EntryPoint where
  | b_transport (call : Call)
  | get_direct_mem_ptr (request : GenericPayload) (new : Page)
  | transport_dbg (request : GenericPayload)

inductive Returned where
  | b_transport (r : Transport)
  | get_direct_mem_ptr (granted : Bool) (dmi_data : Dmi)
  | transport_dbg (bytes : UInt32) (request : GenericPayload)

def enter (m : SparseMemory) : EntryPoint → Except Fault (Returned × SparseMemory)
  | .b_transport call => do
    let (r, m) ← m.step call
    return (.b_transport r, m)
  | .get_direct_mem_ptr request new =>
    let ((granted, dmi_data), m) := m.get_direct_mem_ptr new request
    return (.get_direct_mem_ptr granted dmi_data, m)
  | .transport_dbg request => do
    let ((bytes, request), m) ← m.transport_dbg request
    return (.transport_dbg bytes request, m)

/-- A request for direct access that is granted is one the transport path would not reject. -/
def GrantAdmitted : EntryPoint × Returned → Prop
  | (.get_direct_mem_ptr request _, .get_direct_mem_ptr true _) =>
    errorResponse request ≠ some .addressError
  | _ => True

/-- The direct path admits what the transport path does, and the page map stays bounded. -/
structure PagesAdmitted (h : List (EntryPoint × Returned)) (m : SparseMemory) : Prop where
  grants_admitted : ∀ x ∈ h, GrantAdmitted x
  pageIDs_lt : ∀ id ∈ m.pageIDs, id < MAXSIZEMEM / 1024
  pages_le : m.pageIDs.length ≤ 1024

/-- A request for direct access stays below the limit of the transport path. -/
def EntryPoint.WithinLimit : EntryPoint → Prop
  | .get_direct_mem_ptr request _ => request.address / 4 < MAXSIZEMEM
  | _ => True

theorem errorResponse_addressError (trans : GenericPayload) :
    errorResponse trans = some .addressError ↔ MAXSIZEMEM ≤ trans.address / 4 := by
  simp only [errorResponse]
  split_ifs with h <;> simp [h]

theorem pageID_lt (adr : UInt64) : pageID adr < MAXSIZEMEM / 1024 ↔ adr < MAXSIZEMEM := by
  have hmax : (MAXSIZEMEM / 1024).toNat = 1024 := by decide
  have hmem : MAXSIZEMEM.toNat = 1048576 := rfl
  rw [UInt64.lt_iff_toNat_lt, UInt64.lt_iff_toNat_lt, hmax, hmem, pageID, UInt64.toNat_div]
  simp only [UInt64.reduceToNat]
  omega

theorem pagesAdmitted_of_pages (h : List (EntryPoint × Returned)) (m : SparseMemory)
    (hg : ∀ x ∈ h, GrantAdmitted x) (hp : ∀ id ∈ m.pageIDs, id < MAXSIZEMEM / 1024) :
    PagesAdmitted h m :=
  ⟨hg, hp, m.pageIDs_length_le 1024 (fun id hid => UInt64.lt_iff_toNat_lt.mp (hp id hid))⟩

theorem pagesAdmitted_concat (h : List (EntryPoint × Returned)) (m m' : SparseMemory)
    (x : EntryPoint × Returned) (hm : PagesAdmitted h m) (hx : GrantAdmitted x)
    (hp : ∀ id ∈ m'.pageIDs, id < MAXSIZEMEM / 1024) : PagesAdmitted (h ++ [x]) m' := by
  apply pagesAdmitted_of_pages _ _ _ hp
  rw [List.forall_mem_append]
  exact ⟨hm.grants_admitted, List.forall_mem_singleton.mpr hx⟩

theorem pageIDs_lt_transport (m m' : SparseMemory) (call : Call) (r : Transport)
    (hp : ∀ id ∈ m.pageIDs, id < MAXSIZEMEM / 1024) (hs : m.step call = .ok (r, m')) :
    ∀ id ∈ m'.pageIDs, id < MAXSIZEMEM / 1024 := by
  intro id hid
  rcases m.step_cases m' call r hs with ⟨-, -, rfl⟩ | ⟨he, -, hids⟩
  · exact hp id hid
  · rcases (hids id).mp hid with rfl | hold
    · rw [pageID_lt, ← UInt64.not_le]
      intro hle
      rw [(errorResponse_addressError call.trans).mpr hle] at he
      simp at he
    · exact hp id hold

/-- One call keeps the pages admitted exactly when it stays within the limit. -/
theorem pagesAdmitted_step (h : List (EntryPoint × Returned)) (m m' : SparseMemory)
    (e : EntryPoint) (o : Returned) (hm : PagesAdmitted h m) (hs : m.enter e = .ok (o, m')) :
    PagesAdmitted (h ++ [(e, o)]) m' ↔ e.WithinLimit := by
  cases e with
  | b_transport call =>
    simp only [enter, bind_eq_ok, Prod.exists] at hs
    obtain ⟨r, u, ht, hr⟩ := hs
    obtain ⟨rfl, rfl⟩ := ok_inj hr
    have hpages := pageIDs_lt_transport m u call r hm.pageIDs_lt ht
    exact iff_of_true (pagesAdmitted_concat h m u _ hm trivial hpages) trivial
  | get_direct_mem_ptr request new =>
    simp only [enter] at hs
    obtain ⟨rfl, rfl⟩ := ok_inj hs
    have hids := m.fetch_pageIDs new (request.address / 4)
    have hlimit : errorResponse request ≠ some .addressError ↔
        request.address / 4 < MAXSIZEMEM := by
      rw [ne_eq, errorResponse_addressError, UInt64.not_le]
    constructor
    · intro hnext
      exact hlimit.mp (hnext.grants_admitted _ (List.mem_append_right _ (List.mem_singleton_self _)))
    · intro hwithin
      refine pagesAdmitted_concat h m _ _ hm (hlimit.mpr hwithin) ?_
      intro id hid
      rcases (hids id).mp hid with rfl | hold
      · exact (pageID_lt _).mpr hwithin
      · exact hm.pageIDs_lt id hold
  | transport_dbg request =>
    simp only [enter, transport_dbg, bind_assoc, pure_bind, bind_eq_ok] at hs
    obtain ⟨data, _, hr⟩ := hs
    obtain ⟨rfl, rfl⟩ := ok_inj hr
    exact iff_of_true (pagesAdmitted_concat h m m _ hm trivial hm.pageIDs_lt) trivial

theorem pagesAdmitted_construct : PagesAdmitted [] construct := by
  apply pagesAdmitted_of_pages
  · exact List.forall_mem_nil _
  · exact List.forall_mem_nil _

/-- The direct path has no check of its own: in a run of calls of the three callbacks it admits
only what the transport path does, and the page map stays bounded, exactly when no request for
direct access lies at the limit or beyond. -/
theorem pagesAdmitted_iff (calls : List EntryPoint) (returned : List Returned) (m : SparseMemory)
    (hrun : run enter construct calls = .ok (returned, m)) :
    EveryState enter construct PagesAdmitted calls ↔
      ∀ request new, EntryPoint.get_direct_mem_ptr request new ∈ calls →
        request.address / 4 < MAXSIZEMEM := by
  rw [everyState_iff_forall enter PagesAdmitted EntryPoint.WithinLimit construct m calls returned
    (fun e _ h u o v hu hs => pagesAdmitted_step h u v e o hu hs) pagesAdmitted_construct hrun]
  constructor
  · intro h request new hmem
    exact h _ hmem
  · intro h e hmem
    cases e with
    | b_transport call => trivial
    | get_direct_mem_ptr request new => exact h request new hmem
    | transport_dbg request => trivial

/-- A call, a debug read at the limit, and a request for direct access just below it. -/
theorem pagesAdmitted_iff_below :
    let calls : List EntryPoint := [
      .b_transport ⟨⟨.ignore, 0x1000, [], 0, none, 0, false, .incomplete⟩, 0, fun _ => 7⟩,
      .transport_dbg ⟨.read, 0x400000, [0, 0, 0, 0], 4, none, 4, false, .incomplete⟩,
      .get_direct_mem_ptr { GenericPayload.new with address := 0x3fffff } (fun _ => 7)]
    EveryState enter construct PagesAdmitted calls ↔
      ∀ request new, EntryPoint.get_direct_mem_ptr request new ∈ calls →
        request.address / 4 < MAXSIZEMEM := by
  intro calls
  obtain ⟨⟨returned, m⟩, hrun⟩ := exists_ok (run enter construct calls) (by decide +kernel)
  exact pagesAdmitted_iff calls returned m hrun

/-- Byte address 0x400000 is rejected by the transport path, and granted as page 1024. -/
theorem grant_beyond_limit :
    let request := { GenericPayload.new with address := 0x400000 }
    errorResponse request = some .addressError ∧
    (construct.get_direct_mem_ptr (fun _ => 7) request).1.1 = true ∧
    (construct.get_direct_mem_ptr (fun _ => 7) request).2.pageIDs = [1024] ∧
    ¬ EveryState enter construct PagesAdmitted [.get_direct_mem_ptr request (fun _ => 7)] := by
  intro request
  have hpages : (construct.get_direct_mem_ptr (fun _ => 7) request).2.pageIDs = [1024] := by
    decide +kernel
  refine ⟨by decide, rfl, hpages, ?_⟩
  intro hall
  have hlast := hall [.get_direct_mem_ptr request (fun _ => 7)] [] _ _ rfl rfl
  exact absurd (hlast.pageIDs_lt 1024 (hpages ▸ List.mem_singleton_self _)) (by decide)

end SparseMemory

end FreeSampler
