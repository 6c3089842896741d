import ResolverGate.Bytes

/-! # Octets by value and by position

A fact of all octets is a fact of the numbers below 256. Readers by position fetch what they
need from a buffer: what they fetch must stand in it, and what follows a position is a suffix
of it.
-/

namespace ResolverGate

namespace Bytes

theorem forall_octet {p : UInt8 → Prop} (h : ∀ n < 256, p (UInt8.ofNat n)) (b : UInt8) : p b := by
  have at_number := h b.toNat b.toNat_lt
  rwa [UInt8.ofNat_toNat] at at_number

theorem exists_of_four_le : ∀ {m : Bytes}, 4 ≤ m.length →
    ∃ a b c d rest, m = a :: b :: c :: d :: rest
  | a :: b :: c :: d :: rest, _ => ⟨a, b, c, d, rest, rfl⟩

theorem exists_of_ten_le : ∀ {m : Bytes}, 10 ≤ m.length →
    ∃ a b c d e f g h i j rest, m = a :: b :: c :: d :: e :: f :: g :: h :: i :: j :: rest
  | a :: b :: c :: d :: e :: f :: g :: h :: i :: j :: rest, _ =>
    ⟨a, b, c, d, e, f, g, h, i, j, rest, rfl⟩

/-- The `n` octets from `pos` on. Nothing can be fetched from outside of the buffer. -/
def fetch? (m : Bytes) (pos n : Nat) : Option Bytes :=
  if pos + n ≤ m.length then some ((m.drop pos).take n) else none

def start (m rest : Bytes) : Nat := m.length - rest.length

variable {m rest : Bytes} {pos n : Nat}

theorem fetch?_of_le (inside : pos + n ≤ m.length) :
    m.fetch? pos n = some ((m.drop pos).take n) := if_pos inside

theorem fetch?_append (front word back : Bytes) :
    fetch? (front ++ (word ++ back)) front.length word.length = some word := by
  have inside : front.length + word.length ≤ (front ++ (word ++ back)).length := by
    rw [List.length_append, List.length_append]
    omega
  rw [fetch?_of_le inside, List.drop_left, List.take_left]

theorem exists_drop_eq_cons (inside : pos < m.length) :
    ∃ b, m[pos]? = some b ∧ m.drop pos = b :: m.drop (pos + 1) :=
  ⟨m[pos], List.getElem?_eq_getElem inside, List.drop_eq_getElem_cons inside⟩

theorem splitAt?_drop (inside : pos ≤ m.length) : splitAt? n (m.drop pos) =
    if pos + n ≤ m.length then some ((m.drop pos).take n, m.drop (pos + n)) else none := by
  have room : n ≤ (m.drop pos).length ↔ pos + n ≤ m.length := by
    rw [List.length_drop]
    omega
  simp only [splitAt?, hasAtLeast_eq, decide_eq_true_eq, room, List.drop_drop]

theorem start_drop (inside : pos ≤ m.length) : m.start (m.drop pos) = pos := by
  rw [start, List.length_drop]
  omega

theorem drop_start (h : rest <:+ m) : m.drop (m.start rest) = rest :=
  (List.suffix_iff_eq_drop.mp h).symm

theorem start_add_length (h : rest <:+ m) : m.start rest + rest.length = m.length :=
  Nat.sub_add_cancel h.length_le

theorem start_le (m rest : Bytes) : m.start rest ≤ m.length := Nat.sub_le _ _

end Bytes

end ResolverGate
