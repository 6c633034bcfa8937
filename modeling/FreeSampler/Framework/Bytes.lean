import FreeSampler.Framework.Memory

namespace FreeSampler.Framework

/-- The four bytes of a 32-bit word, least significant first. -/
def wordBytes (w : UInt32) : List UInt8 :=
  [UInt8.ofNat w.toNat, UInt8.ofNat (w.toNat / 256), UInt8.ofNat (w.toNat / 65536),
    UInt8.ofNat (w.toNat / 16777216)]

/-- The word that four bytes spell, least significant first. -/
def bytesWord (a b c d : UInt8) : UInt32 :=
  UInt32.ofNat (a.toNat + 256 * b.toNat + 65536 * c.toNat + 16777216 * d.toNat)

/-- A `uint32_t*` seen as an `unsigned char*`. -/
def toBytes (ws : List UInt32) : List UInt8 := ws.flatMap wordBytes

/-- An `unsigned char*` seen as a `uint32_t*`; an incomplete last word is not part of the view. -/
def toWords : List UInt8 → List UInt32
  | a :: b :: c :: d :: rest => bytesWord a b c d :: toWords rest
  | _ => []

@[simp] theorem wordBytes_length (w : UInt32) : (wordBytes w).length = 4 := rfl

theorem wordBytes_bytesWord (a b c d : UInt8) : wordBytes (bytesWord a b c d) = [a, b, c, d] := by
  have ha := a.toNat_lt
  have hb := b.toNat_lt
  have hc := c.toNat_lt
  have hd := d.toNat_lt
  have hv : (bytesWord a b c d).toNat =
      a.toNat + 256 * b.toNat + 65536 * c.toNat + 16777216 * d.toNat := by
    simp only [bytesWord, UInt32.toNat_ofNat']
    omega
  have byte (n : Nat) (x : UInt8) (h : n % 256 = x.toNat) : UInt8.ofNat n = x := by
    apply UInt8.toNat_inj.mp
    simpa using h
  simp only [wordBytes, hv, List.cons.injEq, and_true]
  exact ⟨byte _ _ (by omega), byte _ _ (by omega), byte _ _ (by omega), byte _ _ (by omega)⟩

theorem wordBytes_inj (v w : UInt32) (h : wordBytes v = wordBytes w) : v = w := by
  have hv := v.toNat_lt
  have hw := w.toNat_lt
  have byte (m n : Nat) (hb : UInt8.ofNat m = UInt8.ofNat n) : m % 256 = n % 256 := by
    have ht := congrArg UInt8.toNat hb
    simpa using ht
  simp only [wordBytes, List.cons.injEq, and_true] at h
  obtain ⟨h0, h1, h2, h3⟩ := h
  have b0 := byte _ _ h0
  have b1 := byte _ _ h1
  have b2 := byte _ _ h2
  have b3 := byte _ _ h3
  apply UInt32.toNat_inj.mp
  omega

@[simp] theorem toBytes_nil : toBytes [] = [] := rfl

@[simp] theorem toBytes_cons (w : UInt32) (ws : List UInt32) :
    toBytes (w :: ws) = wordBytes w ++ toBytes ws := rfl

@[simp] theorem toBytes_length (ws : List UInt32) : (toBytes ws).length = 4 * ws.length := by
  induction ws with
  | nil => rfl
  | cons w ws ih =>
    simp only [toBytes_cons, List.length_append, wordBytes_length, ih, List.length_cons]
    omega

theorem toWords_length (bs : List UInt8) : (toWords bs).length = bs.length / 4 := by
  induction bs using toWords.induct with
  | case1 a b c d rest ih =>
    simp only [toWords, List.length_cons, ih]
    omega
  | case2 bs h =>
    match bs, h with
    | [], _ => rfl
    | [_], _ => simp [toWords]
    | [_, _], _ => simp [toWords]
    | [_, _, _], _ => simp [toWords]
    | a :: b :: c :: d :: rest, h => exact absurd rfl (h a b c d rest)

/-- A byte buffer after words were written through its `uint32_t*` view. -/
def overlay (bytes : List UInt8) (words : List UInt32) : List UInt8 :=
  toBytes words ++ bytes.drop (4 * words.length)

/-- The words of a buffer, written back, leave it as it was. -/
theorem overlay_toWords (bs : List UInt8) : overlay bs (toWords bs) = bs := by
  induction bs using toWords.induct with
  | case1 a b c d rest ih =>
    rw [overlay] at ih
    simp only [overlay, toWords, toBytes_cons, wordBytes_bytesWord, List.length_cons, Nat.mul_succ,
      List.cons_append, List.nil_append, List.drop_succ_cons, ih]
  | case2 bs h =>
    have hwords : toWords bs = [] := by
      rw [toWords]
      exact h
    rw [overlay, hwords]
    rfl

theorem toBytes_toWords (n : Nat) (bs : List UInt8) (h : bs.length = 4 * n) :
    toBytes (toWords bs) = bs := by
  have hrest : bs.drop (4 * (toWords bs).length) = [] := by
    apply List.drop_eq_nil_of_le
    rw [toWords_length]
    omega
  have hall := overlay_toWords bs
  rwa [overlay, hrest, List.append_nil] at hall

/-- `*ptr` for a `uint32_t*` at the start of a byte buffer. -/
def loadWord : List UInt8 → Except Fault UInt32
  | a :: b :: c :: d :: _ => .ok (bytesWord a b c d)
  | _ => .error .outOfBounds

/-- `*ptr = w` for a `uint32_t*` at the start of a byte buffer. -/
def storeWord (w : UInt32) : List UInt8 → Except Fault (List UInt8)
  | _ :: _ :: _ :: _ :: rest => .ok (wordBytes w ++ rest)
  | _ => .error .outOfBounds

theorem loadWord_ok (bs : List UInt8) (h : 4 ≤ bs.length) :
    ∃ w, loadWord bs = .ok w ∧ wordBytes w = bs.take 4 := by
  match bs, h with
  | a :: b :: c :: d :: _, _ => exact ⟨bytesWord a b c d, rfl, wordBytes_bytesWord a b c d⟩

theorem storeWord_ok (w : UInt32) (bs : List UInt8) (h : 4 ≤ bs.length) :
    storeWord w bs = .ok (wordBytes w ++ bs.drop 4) := by
  match bs, h with
  | _ :: _ :: _ :: _ :: _, _ => rfl

theorem storeWord_length (w : UInt32) (bs result : List UInt8) (h : storeWord w bs = .ok result) :
    result.length = bs.length := by
  match bs, h with
  | _ :: _ :: _ :: _ :: rest, h =>
    rw [← Except.ok.inj h]
    simp
    omega

theorem loadWord_inside (bs : List UInt8) (w : UInt32) (h : loadWord bs = .ok w) :
    4 ≤ bs.length := by
  match bs, h with
  | _ :: _ :: _ :: _ :: _, _ => simp

theorem storeWord_inside (w : UInt32) (bs result : List UInt8) (h : storeWord w bs = .ok result) :
    4 ≤ bs.length := by
  match bs, h with
  | _ :: _ :: _ :: _ :: _, _ => simp

/-- Byte `i` of a word array is byte `i % 4` of word `i / 4`. -/
theorem toBytes_getElem? (ws : List UInt32) (i : Nat) :
    (toBytes ws)[i]? = ws[i / 4]?.bind (fun w => (wordBytes w)[i % 4]?) := by
  induction ws generalizing i with
  | nil => simp
  | cons w ws ih =>
    rw [toBytes_cons]
    by_cases hi : i < 4
    · rw [List.getElem?_append_left hi, Nat.div_eq_of_lt hi, Nat.mod_eq_of_lt hi]
      rfl
    · have hd : i / 4 = (i - 4) / 4 + 1 := by omega
      have hm : i % 4 = (i - 4) % 4 := by omega
      rw [List.getElem?_append_right (by simpa using hi), wordBytes_length, ih, hd, hm,
        List.getElem?_cons_succ]

theorem toBytes_word (ws : List UInt32) (w : Nat) (v : UInt32) (h : ws[w]? = some v) :
    ((toBytes ws).drop (4 * w)).take 4 = wordBytes v := by
  apply List.ext_getElem?
  intro j
  by_cases hj : j < 4
  · have hd : (4 * w + j) / 4 = w := by omega
    have hm : (4 * w + j) % 4 = j := by omega
    rw [List.getElem?_take_of_lt hj, List.getElem?_drop, toBytes_getElem?, hd, hm, h,
      Option.bind_some]
  · rw [List.getElem?_take_eq_none (by omega), List.getElem?_eq_none]
    rw [wordBytes_length]
    omega

/-- A word that no changed byte belongs to stays. -/
theorem getElem?_of_bytes (ws ws' : List UInt32) (w : Nat) (hl : ws'.length = ws.length)
    (h : ∀ j < 4, (toBytes ws')[4 * w + j]? = (toBytes ws)[4 * w + j]?) : ws'[w]? = ws[w]? := by
  cases hw : ws[w]? with
  | none =>
    rw [List.getElem?_eq_none_iff] at hw ⊢
    omega
  | some v =>
    obtain ⟨hlt, -⟩ := List.getElem?_eq_some_iff.mp hw
    have hw' := List.getElem?_eq_getElem (hl ▸ hlt : w < ws'.length)
    rw [hw']
    apply congrArg some
    apply wordBytes_inj
    rw [← toBytes_word ws' w _ hw', ← toBytes_word ws w v hw]
    apply List.ext_getElem?
    intro j
    by_cases hj : j < 4
    · rw [List.getElem?_take_of_lt hj, List.getElem?_take_of_lt hj, List.getElem?_drop,
        List.getElem?_drop, h j hj]
    · rw [List.getElem?_take_eq_none (by omega), List.getElem?_take_eq_none (by omega)]

end FreeSampler.Framework
