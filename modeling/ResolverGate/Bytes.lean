/-! # Octet strings

Octet strings, the big-endian words in them, and cutting them in two. A cut
loses nothing, and a number reads back as it was written.
-/

namespace ResolverGate

abbrev Bytes := List UInt8

namespace Bytes

/-- Looks at no more than the first `n` octets. -/
def hasAtLeast : Nat → Bytes → Bool
  | 0, _ => true
  | _ + 1, [] => false
  | n + 1, _ :: m => hasAtLeast n m

def splitAt? (n : Nat) (m : Bytes) : Option (Bytes × Bytes) :=
  if hasAtLeast n m then some (m.take n, m.drop n) else none

/-- The number that big-endian octets spell. -/
def toNumber (m : Bytes) : Nat :=
  m.foldl (fun n b => n * 256 + b.toNat) 0

/-- So many octets hold the numbers below it. -/
def bound : Nat → Nat
  | 0 => 1
  | width + 1 => bound width * 256

/-- The low `width` octets of a number, most significant first. -/
def ofNumber : Nat → Nat → Bytes
  | 0, _ => []
  | width + 1, n => UInt8.ofNat (n / bound width) :: ofNumber width n

def read16? : Bytes → Option (UInt16 × Bytes)
  | a :: b :: m => some (UInt16.ofNat (toNumber [a, b]), m)
  | _ => none

def read32? : Bytes → Option (UInt32 × Bytes)
  | a :: b :: c :: d :: m => some (UInt32.ofNat (toNumber [a, b, c, d]), m)
  | _ => none

def read64? : Bytes → Option (UInt64 × Bytes)
  | a :: b :: c :: d :: e :: f :: g :: h :: m =>
      some (UInt64.ofNat (toNumber [a, b, c, d, e, f, g, h]), m)
  | _ => none

def of16 (w : UInt16) : Bytes := ofNumber 2 w.toNat

def of32 (w : UInt32) : Bytes := ofNumber 4 w.toNat

def of64 (w : UInt64) : Bytes := ofNumber 8 w.toNat

def ofText (s : String) : Bytes := s.toUTF8.data.toList

/-- The text that the octets spell in UTF-8, if they are valid. -/
def toText? (m : Bytes) : Option String := String.fromUTF8? ⟨m.toArray⟩

@[simp] theorem hasAtLeast_eq (n : Nat) (m : Bytes) :
    hasAtLeast n m = decide (n ≤ m.length) := by
  induction n generalizing m with
  | zero => simp [hasAtLeast]
  | succ n ih => cases m <;> simp [hasAtLeast, ih]

theorem splitAt?_eq_some_iff {n : Nat} {m front rest : Bytes} :
    splitAt? n m = some (front, rest) ↔ m = front ++ rest ∧ front.length = n := by
  simp only [splitAt?, hasAtLeast_eq, decide_eq_true_eq]
  constructor
  · intro h
    split at h
    · next hn =>
      simp only [Option.some.injEq, Prod.mk.injEq] at h
      rw [← h.1, ← h.2]
      exact ⟨(List.take_append_drop n m).symm, by simp [hn]⟩
    · simp at h
  · rintro ⟨rfl, rfl⟩
    simp

theorem splitAt?_eq_none_iff {n : Nat} {m : Bytes} : splitAt? n m = none ↔ m.length < n := by
  simp [splitAt?]

theorem splitAt?_append (front rest : Bytes) :
    splitAt? front.length (front ++ rest) = some (front, rest) :=
  splitAt?_eq_some_iff.mpr ⟨rfl, rfl⟩

@[simp] theorem length_ofNumber (width n : Nat) : (ofNumber width n).length = width := by
  induction width with
  | zero => rfl
  | succ width ih => simp [ofNumber, ih]

@[simp] theorem length_of16 (w : UInt16) : (of16 w).length = 2 := by simp [of16]

@[simp] theorem length_of32 (w : UInt32) : (of32 w).length = 4 := by simp [of32]

@[simp] theorem length_of64 (w : UInt64) : (of64 w).length = 8 := by simp [of64]

theorem foldl_ofNumber (width n a : Nat) :
    (ofNumber width n).foldl (fun n b => n * 256 + b.toNat) a
      = a * bound width + n % bound width := by
  induction width generalizing a with
  | zero => simp [ofNumber, bound, Nat.mod_one]
  | succ width ih =>
    have split : n % (bound width * 256)
        = n / bound width % 256 * bound width + n % bound width := by
      rw [Nat.mod_mul, Nat.mul_comm (n / bound width % 256), Nat.add_comm]
    simp only [ofNumber, bound, List.foldl_cons, ih, UInt8.toNat_ofNat', Nat.reducePow]
    rw [split, Nat.add_mul, Nat.mul_assoc a, Nat.mul_comm 256, Nat.add_assoc]

theorem toNumber_ofNumber (width n : Nat) : toNumber (ofNumber width n) = n % bound width := by
  simp [toNumber, foldl_ofNumber]

theorem toNumber_of16 (w : UInt16) : toNumber (of16 w) = w.toNat := by
  rw [of16, toNumber_ofNumber]
  exact Nat.mod_eq_of_lt w.toNat_lt

theorem toNumber_of32 (w : UInt32) : toNumber (of32 w) = w.toNat := by
  rw [of32, toNumber_ofNumber]
  exact Nat.mod_eq_of_lt w.toNat_lt

theorem toNumber_of64 (w : UInt64) : toNumber (of64 w) = w.toNat := by
  rw [of64, toNumber_ofNumber]
  exact Nat.mod_eq_of_lt w.toNat_lt

theorem read16?_of16 (w : UInt16) (m : Bytes) : read16? (of16 w ++ m) = some (w, m) := by
  have number := toNumber_of16 w
  simp only [of16, ofNumber] at number ⊢
  simp only [List.cons_append, List.nil_append, read16?, number, UInt16.ofNat_toNat]

theorem read32?_of32 (w : UInt32) (m : Bytes) : read32? (of32 w ++ m) = some (w, m) := by
  have number := toNumber_of32 w
  simp only [of32, ofNumber] at number ⊢
  simp only [List.cons_append, List.nil_append, read32?, number, UInt32.ofNat_toNat]

theorem read64?_of64 (w : UInt64) (m : Bytes) : read64? (of64 w ++ m) = some (w, m) := by
  have number := toNumber_of64 w
  simp only [of64, ofNumber] at number ⊢
  simp only [List.cons_append, List.nil_append, read64?, number, UInt64.ofNat_toNat]

theorem foldl_eq_toNumber (m : Bytes) (a : Nat) :
    m.foldl (fun n b => n * 256 + b.toNat) a = a * bound m.length + toNumber m := by
  induction m generalizing a with
  | nil => simp [toNumber, bound]
  | cons b m ih =>
    have hm : toNumber (b :: m) = b.toNat * bound m.length + toNumber m := by
      rw [toNumber, List.foldl_cons, ih, Nat.zero_mul, Nat.zero_add]
    rw [List.foldl_cons, ih, hm, List.length_cons, bound, Nat.add_mul, Nat.mul_assoc,
      Nat.mul_comm 256, Nat.add_assoc]

theorem toNumber_cons (b : UInt8) (m : Bytes) :
    toNumber (b :: m) = b.toNat * bound m.length + toNumber m := by
  rw [toNumber, List.foldl_cons, foldl_eq_toNumber, Nat.zero_mul, Nat.zero_add]

theorem bound_pos (width : Nat) : 0 < bound width := by
  induction width with
  | zero => exact Nat.zero_lt_one
  | succ width ih => exact Nat.mul_pos ih (by decide)

theorem toNumber_lt (m : Bytes) : toNumber m < bound m.length := by
  induction m with
  | nil => exact Nat.zero_lt_one
  | cons b m ih =>
    have hb := Nat.mul_le_mul_right (bound m.length) (Nat.le_of_lt_succ b.toNat_lt)
    rw [toNumber_cons, List.length_cons, bound]
    omega

theorem ofNumber_mul_add (width k n : Nat) :
    ofNumber width (k * bound width + n) = ofNumber width n := by
  induction width generalizing k with
  | zero => rfl
  | succ width ih =>
    have shift : k * bound (width + 1) + n = k * 256 * bound width + n := by
      rw [bound, Nat.mul_comm (bound width), Nat.mul_assoc]
    rw [shift, ofNumber, ofNumber, ih, Nat.add_comm, Nat.add_mul_div_right _ _ (bound_pos width)]
    congr 1
    apply UInt8.toNat_inj.mp
    simp

theorem ofNumber_toNumber (m : Bytes) : ofNumber m.length (toNumber m) = m := by
  induction m with
  | nil => rfl
  | cons b m ih =>
    have hdiv : toNumber (b :: m) / bound m.length = b.toNat := by
      rw [toNumber_cons, Nat.add_comm, Nat.add_mul_div_right _ _ (bound_pos _),
        Nat.div_eq_of_lt (toNumber_lt m), Nat.zero_add]
    rw [List.length_cons, ofNumber, hdiv, toNumber_cons, ofNumber_mul_add, ih, UInt8.ofNat_toNat]

theorem of16_toNumber (a b : UInt8) : of16 (UInt16.ofNat (toNumber [a, b])) = [a, b] := by
  have small : toNumber [a, b] < 2 ^ 16 := by simpa [bound] using toNumber_lt [a, b]
  rw [of16, UInt16.toNat_ofNat', Nat.mod_eq_of_lt small]
  exact ofNumber_toNumber [a, b]

theorem exists_of16_of16 {m : Bytes} (h : m.length = 4) : ∃ v w, m = of16 v ++ of16 w := by
  match m with
  | [a, b, c, d] =>
    refine ⟨UInt16.ofNat (toNumber [a, b]), UInt16.ofNat (toNumber [c, d]), ?_⟩
    rw [of16_toNumber, of16_toNumber]
    rfl

theorem of32_toNumber (a b c d : UInt8) :
    of32 (UInt32.ofNat (toNumber [a, b, c, d])) = [a, b, c, d] := by
  have small : toNumber [a, b, c, d] < 2 ^ 32 := by
    simpa [bound] using toNumber_lt [a, b, c, d]
  rw [of32, UInt32.toNat_ofNat', Nat.mod_eq_of_lt small]
  exact ofNumber_toNumber [a, b, c, d]

theorem of64_toNumber (a b c d e f g h : UInt8) :
    of64 (UInt64.ofNat (toNumber [a, b, c, d, e, f, g, h])) = [a, b, c, d, e, f, g, h] := by
  have small : toNumber [a, b, c, d, e, f, g, h] < 2 ^ 64 := by
    simpa [bound] using toNumber_lt [a, b, c, d, e, f, g, h]
  rw [of64, UInt64.toNat_ofNat', Nat.mod_eq_of_lt small]
  exact ofNumber_toNumber [a, b, c, d, e, f, g, h]

theorem exists_pair_of16 (w : UInt16) :
    ∃ a b, of16 w = [a, b] ∧ UInt16.ofNat (toNumber [a, b]) = w := by
  refine ⟨_, _, rfl, ?_⟩
  exact (congrArg UInt16.ofNat (toNumber_of16 w)).trans UInt16.ofNat_toNat

theorem read16?_eq_some_iff {m rest : Bytes} {w : UInt16} :
    read16? m = some (w, rest) ↔ m = of16 w ++ rest := by
  constructor
  · intro h
    match m with
    | a :: b :: m =>
      obtain ⟨rfl, rfl⟩ : _ = w ∧ m = rest := by simpa [read16?] using h
      rw [of16_toNumber]
      rfl
  · rintro rfl
    exact read16?_of16 w rest

theorem read32?_eq_some_iff {m rest : Bytes} {w : UInt32} :
    read32? m = some (w, rest) ↔ m = of32 w ++ rest := by
  constructor
  · intro h
    match m with
    | a :: b :: c :: d :: m =>
      obtain ⟨rfl, rfl⟩ : _ = w ∧ m = rest := by simpa [read32?] using h
      rw [of32_toNumber]
      rfl
  · rintro rfl
    exact read32?_of32 w rest

theorem read64?_eq_some_iff {m rest : Bytes} {w : UInt64} :
    read64? m = some (w, rest) ↔ m = of64 w ++ rest := by
  constructor
  · intro h
    match m with
    | a :: b :: c :: d :: e :: f :: g :: i :: m =>
      obtain ⟨rfl, rfl⟩ : _ = w ∧ m = rest := by simpa [read64?] using h
      rw [of64_toNumber]
      rfl
  · rintro rfl
    exact read64?_of64 w rest

/-- A text has one spelling in octets. -/
theorem toText?_eq_some_iff {m : Bytes} {s : String} : toText? m = some s ↔ m = ofText s := by
  constructor
  · intro h
    rw [toText?, String.fromUTF8?] at h
    split at h
    · obtain rfl := Option.some.inj h
      rfl
    · simp at h
  · rintro rfl
    rw [toText?, String.fromUTF8?]
    exact dif_pos s.isValidUTF8

end Bytes

end ResolverGate
