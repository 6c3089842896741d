import Mathlib.Data.String.Basic
import Mathlib.Tactic.SplitIfs
import ResolverGate.Bytes

/-! # The order of texts

Texts stand in the order of their octets. A code point is spelt by a first octet, which
grows with it, and by its low digits to the base 64.
-/

namespace ResolverGate

namespace Bytes

/-! ## One code point -/

/-- The low `k` digits to the base 64, each in an octet of its own. -/
def continuation : Nat → Nat → Bytes
  | 0, _ => []
  | k + 1, v => UInt8.ofNat (v / 64 ^ k % 64 + 128) :: continuation k v

def further (v : Nat) : Nat :=
  if v < 0x80 then 0 else if v < 0x800 then 1 else if v < 0x10000 then 2 else 3

def lead (v : Nat) : Nat :=
  if v < 0x80 then v
  else if v < 0x800 then v / 64 + 192
  else if v < 0x10000 then v / 4096 + 224
  else v / 262144 + 240

theorem toNat_lt_codePoints (c : Char) : c.toNat < 0x110000 := by
  have valid := c.valid
  simp only [UInt32.isValidChar, Nat.isValidChar, Char.toNat_val] at valid
  omega

theorem utf8EncodeChar_eq (c : Char) : String.utf8EncodeChar c =
    UInt8.ofNat (lead c.toNat) :: continuation (further c.toNat) c.toNat := by
  have most := toNat_lt_codePoints c
  simp only [String.utf8EncodeChar, Char.toNat_val, ← Nat.lt_succ_iff, Nat.succ_eq_add_one,
    Nat.reduceAdd]
  generalize c.toNat = v at most ⊢
  unfold lead further
  split_ifs with one two three
  · rfl
  · rw [Nat.mod_eq_of_lt (show v / 64 < 32 by omega)]
    simp [continuation]
  · rw [Nat.mod_eq_of_lt (show v / 4096 < 16 by omega)]
    simp [continuation]
  · rw [Nat.mod_eq_of_lt (show v / 262144 < 8 by omega)]
    simp [continuation]

theorem lead_lt {v : Nat} (h : v < 0x110000) : lead v < 256 := by
  unfold lead
  split_ifs <;> omega

/-- The first octets of two code points stand in their order, or are equal and the digits
behind them stand in it. -/
theorem lead_lt_or {v w : Nat} (h : v < w) (most : w < 0x110000) :
    lead v < lead w ∨ lead v = lead w ∧ further v = further w ∧
      v % 64 ^ further v < w % 64 ^ further v := by
  unfold lead further
  split_ifs <;> simp only [Nat.reducePow, true_and] <;> omega

theorem continuation_append_lt {k v w : Nat} (h : v % 64 ^ k < w % 64 ^ k) (m n : Bytes) :
    continuation k v ++ m < continuation k w ++ n := by
  induction k with
  | zero => simp [Nat.mod_one] at h
  | succ k ih =>
    have octet (u : Nat) : (UInt8.ofNat (u / 64 ^ k % 64 + 128)).toNat = u / 64 ^ k % 64 + 128 := by
      rw [UInt8.toNat_ofNat', Nat.mod_eq_of_lt (by omega)]
    rw [Nat.pow_succ, Nat.mod_mul, Nat.mod_mul] at h
    simp only [continuation, List.cons_append, List.cons_lt_cons_iff, UInt8.lt_iff_toNat_lt,
      ← UInt8.toNat_inj, octet]
    -- The highest digit decides, or is the same in both; it is not greater in the lesser number.
    rcases Nat.lt_trichotomy (v / 64 ^ k % 64) (w / 64 ^ k % 64) with lt | eq | gt
    · exact .inl (Nat.add_lt_add_right lt 128)
    · rw [eq] at h ⊢
      exact .inr ⟨rfl, ih (Nat.lt_of_add_lt_add_right h)⟩
    · have low := Nat.mod_lt w (Nat.pow_pos (n := k) (show 0 < 64 by decide))
      have high := Nat.mul_le_mul_left (64 ^ k) (Nat.succ_le_of_lt gt)
      rw [Nat.mul_succ] at high
      omega

theorem utf8EncodeChar_append_lt {c d : Char} (h : c < d) (m n : Bytes) :
    String.utf8EncodeChar c ++ m < String.utf8EncodeChar d ++ n := by
  have most := toNat_lt_codePoints d
  have before : c.toNat < d.toNat := h
  have octet {v : Nat} (hv : v < 0x110000) : (UInt8.ofNat (lead v)).toNat = lead v := by
    rw [UInt8.toNat_ofNat', Nat.mod_eq_of_lt (lead_lt hv)]
  rw [utf8EncodeChar_eq, utf8EncodeChar_eq, List.cons_append, List.cons_append,
    List.cons_lt_cons_iff, UInt8.lt_iff_toNat_lt, ← UInt8.toNat_inj, octet most,
    octet (Nat.lt_trans before most)]
  rcases lead_lt_or before most with lt | ⟨eq, as_many, rest⟩
  · exact .inl lt
  · exact .inr ⟨eq, as_many ▸ continuation_append_lt rest m n⟩

/-! ## Texts -/

theorem ofText_eq (s : String) : ofText s = s.toList.flatMap String.utf8EncodeChar := by
  rw [ofText, String.toUTF8, ← s.ofList_toList, String.toByteArray_ofList, String.toList_ofList,
    List.utf8Encode, List.toList_data_toByteArray]

theorem flatMap_utf8EncodeChar_lt {cs ds : List Char} (h : cs < ds) :
    cs.flatMap String.utf8EncodeChar < ds.flatMap String.utf8EncodeChar := by
  induction h with
  | nil =>
    rw [List.flatMap_nil, List.flatMap_cons, utf8EncodeChar_eq]
    exact List.nil_lt_cons _ _
  | rel h => exact utf8EncodeChar_append_lt h _ _
  | cons _ ih => exact List.append_left_lt ih

theorem ofText_lt_ofText {s t : String} (h : s < t) : ofText s < ofText t := by
  rw [ofText_eq, ofText_eq]
  exact flatMap_utf8EncodeChar_lt (String.lt_iff_toList_lt.mp h)

end Bytes

end ResolverGate
