import FreeSampler.Memory.InitialImage

namespace FreeSampler

open Framework Tlm

namespace SparseMemory

/-- The word that a debug read shows. Its divisor is meant for byte addresses. -/
def debugWord (adr : UInt64) : UInt32 := if adr % 8 = 0 then 0 else 1

/-- A debug read shows the word that a transport read delivers, and leaves the memory alone. -/
def ShowsMemory (m : SparseMemory) (request : GenericPayload) (call : Call) : Prop :=
  ∃ v, (∃ request', m.transport_dbg request = .ok ((4, request'), m) ∧
    request'.data = wordBytes v ++ request.data.drop 4) ∧
    ∃ r m', m.step call = .ok (r, m') ∧ Delivers call.trans r v

/-- The word that a history spells at a word address: the one stored last by either path, or
the initial one of its page, over `new` if no event touched that. -/
def storedWord (h : List (Event × Reply)) (new : Page) (w : UInt64) : UInt32 :=
  (lazyValue (storedTo w) (touchedFor w) h).getD (initPage new (pageOffset w))

theorem debugData_read (request : GenericPayload) (hc : request.command = .read)
    (hd : 4 ≤ request.data.length) : debugData request =
      .ok (wordBytes (debugWord (request.address / 4)) ++ request.data.drop 4) := by
  simp only [debugData, hc, debugWord]
  split_ifs with h8
  · exact storeWord_ok 0 request.data hd
  · exact storeWord_ok 1 request.data hd

theorem transport_dbg_read (m : SparseMemory) (request : GenericPayload)
    (hc : request.command = .read) (hd : 4 ≤ request.data.length) :
    ∃ request', m.transport_dbg request = .ok ((4, request'), m) ∧
      request'.data = wordBytes (debugWord (request.address / 4)) ++ request.data.drop 4 := by
  rw [transport_dbg, debugData_read request hc hd]
  exact ⟨_, rfl, rfl⟩

theorem showsMemory_shown (m : SparseMemory) (request : GenericPayload) (call : Call)
    (hc : request.command = .read) (hd : 4 ≤ request.data.length)
    (hw : request.address / 4 < MAXSIZEMEM) (hr : ReadsWord (request.address / 4) call.trans) :
    m.ShowsMemory request call ↔
      m.shown call.new (request.address / 4) = debugWord (request.address / 4) := by
  obtain ⟨request', hdbg, hdata⟩ := m.transport_dbg_read request hc hd
  obtain ⟨r, m', hs, hdeliver⟩ := m.read_shown call _ hw hr
  constructor
  · intro h
    obtain ⟨v, ⟨shownTo, hdbg', hdata'⟩, r', u, hs', hdeliver'⟩ := h
    obtain ⟨hpair, -⟩ := ok_unique hdbg hdbg'
    rw [← (Prod.mk.inj hpair).2, hdata] at hdata'
    obtain ⟨rfl, -⟩ := ok_unique hs hs'
    rw [delivers_unique _ _ _ _ hdeliver hdeliver']
    exact wordBytes_inj _ _ (List.append_cancel_right hdata'.symm)
  · intro h
    rw [h] at hdeliver
    exact ⟨_, ⟨request', hdbg, hdata⟩, r, m', hs, hdeliver⟩

theorem shown_storedWord (h : List (Event × Reply)) (s : Session) (hm : HoldsStored h s)
    (new : Page) (w : UInt64) : s.memory.shown new w = storedWord h new w := by
  rw [shown, hm.word_eq w, storedWord]

/-- After every run a debug read shows the word that a transport read delivers exactly where the
word stored there, or the initial one, is the word of its formula. -/
theorem run_showsMemory_iff (events : List Event) (ha : Admissible 0 events) :
    ∃ replies s, run Session.step Session.start events = .ok (replies, s) ∧
      ∀ request call, request.command = .read → 4 ≤ request.data.length →
        request.address / 4 < MAXSIZEMEM → ReadsWord (request.address / 4) call.trans →
        (s.memory.ShowsMemory request call ↔
          storedWord (events.zip replies) call.new (request.address / 4) =
            debugWord (request.address / 4)) := by
  obtain ⟨replies, s, hr, hend, -⟩ := run_holdsStored [] Session.start holdsStored_start events ha
  refine ⟨replies, s, hr, ?_⟩
  intro request call hc hd hw hread
  rw [s.memory.showsMemory_shown request call hc hd hw hread, shown_storedWord _ s hend]
  rfl

/-- One write, of the word that the formula happens to show there. -/
theorem run_showsMemory_iff_one_write :
    let call : Call := ⟨⟨.write, 0x8, [1, 0, 0, 0], 4, none, 4, false, .incomplete⟩, 0, fun _ => 7⟩
    ∃ replies s, run Session.step Session.start [.transport call] = .ok (replies, s) ∧
      ∀ request call', request.command = .read → 4 ≤ request.data.length →
        request.address / 4 < MAXSIZEMEM → ReadsWord (request.address / 4) call'.trans →
        (s.memory.ShowsMemory request call' ↔
          storedWord ([Event.transport call].zip replies) call'.new (request.address / 4) =
            debugWord (request.address / 4)) :=
  run_showsMemory_iff _ (by simp [Admissible, Event.Admitted])

/-- Word 2 of a fresh memory: a transport read delivers its 0, a debug read shows 1. -/
theorem fresh_word_misshown :
    ¬ construct.ShowsMemory (wordRead 2) ⟨wordRead 2, 0, fun _ => 7⟩ := by
  have hread : ReadsWord ((wordRead 2).address / 4) (wordRead 2) :=
    readsWord_wordRead 2 (by decide)
  intro h
  have hword := (construct.showsMemory_shown (wordRead 2) ⟨wordRead 2, 0, fun _ => 7⟩ rfl
    (Nat.le_refl 4) (by decide) hread).mp h
  have hw : (wordRead 2).address / 4 = 2 := by decide
  have hempty : construct.word 2 = none := rfl
  rw [hw, shown, hempty, Option.getD_none, initPage_initialized _ 2 (by decide)] at hword
  exact absurd hword (by decide)

end SparseMemory

end FreeSampler
