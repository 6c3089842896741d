import ResolverGate.Text.Base64

/-! # Decoding base64

Encoding is undone by decoding, and only the empty text stands for no octets.
-/

namespace ResolverGate

namespace Base64

variable {n : Nat} {cs : List Char}

/-! ## The alphabet -/

theorem symbol_spec (h : n < 64) :
    sextet? (symbol n) = some n ∧ symbol n ≠ '=' ∧ symbol n ≠ ';' := by
  have all : ∀ n < 64, sextet? (symbol n) = some n ∧ symbol n ≠ '=' ∧ symbol n ≠ ';' := by
    decide
  exact all n h

theorem sextet?_symbol (h : n < 64) : sextet? (symbol n) = some n := (symbol_spec h).1

theorem symbol_ne_pad (h : n < 64) : symbol n ≠ '=' := (symbol_spec h).2.1

/-! ## One group

The digits of a number to the base 64 are put together to the number again.
-/

theorem decode?_pair (small : n < 4096) (even : n % 16 = 0) :
    decode? [symbol (n / 64), symbol (n % 64), '=', '='] = some [UInt8.ofNat (n / 16)] := by
  have number : n / 64 * 64 + n % 64 = n := Nat.div_add_mod' n 64
  rw [decode?, sextet?_symbol (by omega), sextet?_symbol (by omega)]
  simp only [Option.bind_eq_bind, Option.bind_some, number]
  exact if_pos even

theorem decode?_triple (small : n < 262144) (even : n % 4 = 0) :
    decode? [symbol (n / 4096), symbol (n / 64 % 64), symbol (n % 64), '='] =
      some (Bytes.ofNumber 2 (n / 4)) := by
  have number : (n / 4096 * 64 + n / 64 % 64) * 64 + n % 64 = n := by omega
  rw [decode?, sextet?_symbol (by omega), sextet?_symbol (by omega), sextet?_symbol (by omega)]
  · simp only [Option.bind_eq_bind, Option.bind_some, number]
    exact if_pos even
  · exact symbol_ne_pad (by omega)

theorem decode?_group (small : n < 16777216) :
    decode? (symbol (n / 262144) :: symbol (n / 4096 % 64) :: symbol (n / 64 % 64)
      :: symbol (n % 64) :: cs) = (decode? cs).map (Bytes.ofNumber 3 n ++ ·) := by
  have number : ((n / 262144 * 64 + n / 4096 % 64) * 64 + n / 64 % 64) * 64 + n % 64 = n := by
    omega
  have full : symbol (n % 64) ≠ '=' := symbol_ne_pad (by omega)
  rw [decode?, sextet?_symbol (by omega), sextet?_symbol (by omega), sextet?_symbol (by omega),
    sextet?_symbol (by omega)]
  · simp only [Option.bind_eq_bind, Option.bind_some, number]
    cases decode? cs <;> rfl
  · rintro - last -
    exact full last
  · rintro last -
    exact full last

/-! ## Round trip -/

theorem decode?_encode (m : Bytes) : decode? (encode m) = some m := by
  induction m using encode.induct with
  | case1 => rfl
  | case2 a =>
    have small := a.toNat_lt
    rw [encode, decode?_pair (by omega) (by omega), Nat.mul_div_cancel _ (by decide),
      UInt8.ofNat_toNat]
  | case3 a b =>
    have number : Bytes.toNumber [a, b] = a.toNat * 256 + b.toNat := by simp [Bytes.toNumber]
    have small : Bytes.toNumber [a, b] < 65536 := by
      simpa [Bytes.bound] using Bytes.toNumber_lt [a, b]
    rw [encode, ← number, decode?_triple (by omega) (by omega), Nat.mul_div_cancel _ (by decide)]
    exact congrArg some (Bytes.ofNumber_toNumber [a, b])
  | case4 a b c m ih =>
    have number : Bytes.toNumber [a, b, c] = (a.toNat * 256 + b.toNat) * 256 + c.toNat := by
      simp [Bytes.toNumber]
    have small : Bytes.toNumber [a, b, c] < 16777216 := by
      simpa [Bytes.bound] using Bytes.toNumber_lt [a, b, c]
    have octets := Bytes.ofNumber_toNumber [a, b, c]
    rw [encode, ← number, decode?_group small, ih]
    exact congrArg (fun front => some (front ++ m)) octets

theorem eq_nil_of_decode? (h : decode? cs = some []) : cs = [] := by
  unfold decode? at h
  split at h
  · rfl
  all_goals simp [Bytes.ofNumber, Option.bind_eq_some_iff] at h

theorem lawful_standard : standard.Lawful where
  encode m := by rw [standard, decode?_encode]
  nonempty := by
    intro cs h
    unfold standard at h
    split at h
    · next m decoded =>
      obtain rfl := Except.ok.inj h
      exact eq_nil_of_decode? decoded
    · cases h

theorem encode_ne_nil {m : Bytes} (h : m ≠ []) : encode m ≠ [] := by
  intro empty
  have decoded := decode?_encode m
  rw [empty] at decoded
  exact h (Option.some.inj decoded).symm

theorem forall_mem_encode {p : Char → Prop} (symbols : ∀ n < 64, p (symbol n)) (pad : p '=')
    (m : Bytes) : ∀ c ∈ encode m, p c := by
  have low (n : Nat) : p (symbol (n % 64)) := symbols _ (Nat.mod_lt _ (by decide))
  induction m using encode.induct with
  | case1 => simp [encode]
  | case2 a =>
    have small := a.toNat_lt
    have high := symbols (a.toNat * 16 / 64) (by omega)
    simp [encode, low, pad, high]
  | case3 a b =>
    have small := a.toNat_lt
    have next := b.toNat_lt
    have high := symbols ((a.toNat * 256 + b.toNat) * 4 / 4096) (by omega)
    simp [encode, low, pad, high]
  | case4 a b c m ih =>
    have small := a.toNat_lt
    have next := b.toNat_lt
    have last := c.toNat_lt
    have high := symbols (((a.toNat * 256 + b.toNat) * 256 + c.toNat) / 262144) (by omega)
    simpa [encode, low, high] using ih

theorem semicolon_notMem_encode (m : Bytes) : ';' ∉ encode m := by
  intro mem
  have plain := forall_mem_encode (p := (· ≠ ';')) (fun n h => (symbol_spec h).2.2) (by decide) m
  exact plain _ mem rfl

end Base64

end ResolverGate
