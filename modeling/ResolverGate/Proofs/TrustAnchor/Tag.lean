import Mathlib.Algebra.BigOperators.Fin
import ResolverGate.Proofs.TrustAnchor.Presentation

/-! # Key tags

The tag of a key is that of the sum of its data's octets over the numbers. The words are added
in 32 bits, which hold the sum of every key that fits into a record. Keys beyond that may
overflow it, and what is lost then does not show in the tag.
-/

namespace ResolverGate

namespace Key

variable (k : Key)

/-! ## The sum of the octets -/

def weight (i : Nat) : Nat := if i % 2 = 0 then 256 else 1

theorem weight_add_two (i : Nat) : weight (i + 2) = weight i := by
  simp only [weight, Nat.add_mod_right]

def octetSum (m : Bytes) : Nat := ∑ i : Fin m.length, weight i.val * m[i].toNat

theorem octetSum_singleton (a : UInt8) : octetSum [a] = Bytes.toNumber [a, 0] := by
  simp [octetSum, weight, Bytes.toNumber, Nat.mul_comm]

theorem octetSum_cons_cons (a b : UInt8) (m : Bytes) :
    octetSum (a :: b :: m) = Bytes.toNumber [a, b] + octetSum m := by
  have word : Bytes.toNumber [a, b] = weight 0 * a.toNat + weight 1 * b.toNat := by
    simp [weight, Bytes.toNumber, Nat.mul_comm]
  have rest (i : Fin m.length) : weight i.succ.succ.val * (a :: b :: m)[i.succ.succ].toNat =
      weight i.val * m[i].toNat :=
    congrArg (· * m[i].toNat) (weight_add_two i.val)
  rw [word, Nat.add_assoc]
  -- The first two positions are taken out of the sum.
  refine (Fin.sum_univ_succ _).trans (congrArg _ ((Fin.sum_univ_succ _).trans (congrArg _ ?_)))
  exact Finset.sum_congr rfl fun i _ => rest i

theorem toNumber_pair_le (a b : UInt8) : Bytes.toNumber [a, b] ≤ 65535 :=
  Nat.le_of_lt_succ (by simpa [Bytes.bound] using Bytes.toNumber_lt [a, b])

theorem toNat_word (a b : UInt8) :
    (UInt32.ofNat (Bytes.toNumber [a, b])).toNat = Bytes.toNumber [a, b] :=
  UInt32.toNat_ofNat_of_lt' ((toNumber_pair_le a b).trans_lt (by decide))

theorem octetSum_le (m : Bytes) : octetSum m ≤ 65535 * ((m.length + 1) / 2) := by
  induction m using wordSum.induct with
  | case1 a b m ih =>
    have word := toNumber_pair_le a b
    rw [octetSum_cons_cons, List.length_cons, List.length_cons]
    omega
  | case2 a =>
    have word := toNumber_pair_le a 0
    rw [octetSum_singleton, List.length_singleton]
    omega
  | case3 => exact Nat.zero_le _

/-- The sum of the words is the sum of the octets, as far as 32 bits hold it. -/
theorem toNat_wordSum (m : Bytes) : (wordSum m).toNat = octetSum m % 2 ^ 32 := by
  induction m using wordSum.induct with
  | case1 a b m ih =>
    rw [wordSum, UInt32.toNat_add, toNat_word, ih, octetSum_cons_cons, Nat.add_mod_mod]
  | case2 a =>
    have word := toNumber_pair_le a 0
    rw [wordSum, toNat_word, octetSum_singleton, Nat.mod_eq_of_lt (by omega)]
  | case3 => rfl

/-! ## Sums that fit -/

/-- The sum, if 32 bits hold it. -/
def add? (x y : UInt32) : Option UInt32 :=
  if x.toNat + y.toNat < 2 ^ 32 then some (x + y) else none

/-- The words of `wordSum` are added one after the other, as long as each sum fits. -/
def accumulate? (sum : UInt32) : Bytes → Option UInt32
  | a :: b :: m => do accumulate? (← add? sum (UInt32.ofNat (Bytes.toNumber [a, b]))) m
  | [a] => add? sum (UInt32.ofNat (Bytes.toNumber [a, 0]))
  | [] => some sum

/-- The tag, if every sum on the way to it fits. -/
def tag? : Option UInt16 := do
  let sum ← accumulate? 0 k.rdata
  return (← add? sum (sum >>> 16)).toUInt16

theorem accumulate?_eq (sum : UInt32) (m : Bytes) : accumulate? sum m =
    if sum.toNat + octetSum m < 2 ^ 32 then some (sum + wordSum m) else none := by
  induction m using wordSum.induct generalizing sum with
  | case1 a b m ih =>
    rw [accumulate?, octetSum_cons_cons, ← Nat.add_assoc, wordSum, ← UInt32.add_assoc, add?,
      toNat_word]
    split
    · next fits =>
      have total := UInt32.toNat_add sum (UInt32.ofNat (Bytes.toNumber [a, b]))
      rw [toNat_word, Nat.mod_eq_of_lt fits] at total
      exact (ih _).trans (by rw [total])
    · next large =>
      -- The sum behind it is no smaller.
      exact (if_neg (by omega)).symm
  | case2 a => rw [accumulate?, octetSum_singleton, wordSum, add?, toNat_word]
  | case3 =>
    rw [accumulate?, wordSum, UInt32.add_zero]
    exact (if_pos sum.toNat_lt).symm

theorem toNat_shiftRight_word (x : UInt32) : (x >>> 16).toNat = x.toNat / 65536 := by
  rw [UInt32.toNat_shiftRight, Nat.shiftRight_eq_div_pow]
  rfl

/-! ## The tag -/

theorem toNat_tag : k.tag.toNat = (octetSum k.rdata + octetSum k.rdata / 65536) % 65536 := by
  have low := toNat_wordSum k.rdata
  rw [tag, UInt32.toNat_toUInt16, UInt32.toNat_add, toNat_shiftRight_word, low]
  -- What 32 bits lose is a multiple of 65536 even after the shift.
  omega

theorem tag?_eq : k.tag? =
    if octetSum k.rdata + octetSum k.rdata / 65536 < 2 ^ 32 then some k.tag else none := by
  have low := toNat_wordSum k.rdata
  rw [tag?, accumulate?_eq, UInt32.toNat_zero, Nat.zero_add, UInt32.zero_add]
  split
  · next fits =>
    rw [Nat.mod_eq_of_lt fits] at low
    simp only [Option.bind_eq_bind, Option.bind_some, add?, toNat_shiftRight_word, low]
    split <;> rfl
  · next large => exact (if_neg (by omega)).symm

theorem length_rdata : k.rdata.length = k.publicKey.length + 4 := by
  rw [rdata, List.length_append, Nat.add_comm]
  rfl

/-! ## Long keys -/

theorem ofLine_root {decode : Base64.Decoder} (lawful : decode.Lawful) {publicKey : Bytes}
    (keyed : publicKey ≠ []) :
    ofLine decode (String.ofList (". DNSKEY 257 3 8".toList ++ ' ' :: Base64.encode publicKey)) =
      .ok ⟨".", none, 257, 3, 8, publicKey⟩ := by
  have front : Text.words ". DNSKEY 257 3 8".toList =
      [".".toList, "DNSKEY".toList, "257".toList, "3".toList, "8".toList] := by decide
  have last : Text.words (Base64.encode publicKey) = [Base64.encode publicKey] :=
    Text.words_solid (Base64.encode_ne_nil keyed)
      (Base64.forall_mem_encode (by decide) (by decide) publicKey)
  have words := Text.words_append_cons (c := ' ') (by decide) ". DNSKEY 257 3 8".toList
    (Base64.encode publicKey)
  rw [front, last] at words
  let r : Rendering ⟨".", none, 257, 3, 8, publicKey⟩ :=
    { between := []
      type := "DNSKEY".toList
      flags := "257".toList
      protocol := "3".toList
      algorithm := "8".toList
      pieces := [Base64.encode publicKey]
      code := ". DNSKEY 257 3 8".toList ++ ' ' :: Base64.encode publicKey
      comment := []
      between_spec := .nothing
      type_spec := by decide
      flags_spec := ⟨[2, 5, 7], by decide, by decide, rfl, .inl rfl⟩
      protocol_spec := ⟨[3], by decide, by decide, rfl, .inl rfl⟩
      algorithm_spec := ⟨[8], by decide, by decide, rfl, .inl rfl⟩
      pieces_spec := List.append_nil _
      spaced := Text.words_eq_iff.mp words
      comment_spec := by simp }
  have read := r.ofLine_eq lawful (by decide : ';' ∉ ".".toList)
    ⟨rfl, (by decide : (257 : UInt16) &&& 0x0100 ≠ 0), keyed⟩
  rwa [Rendering.line, List.append_nil] at read

theorem octetSum_replicate (n : Nat) : octetSum (List.replicate (2 * n) 255) = 65535 * n := by
  induction n with
  | zero => rfl
  | succ n ih =>
    have front : List.replicate (2 * (n + 1)) (255 : UInt8) =
        255 :: 255 :: List.replicate (2 * n) 255 := rfl
    have word : Bytes.toNumber [255, 255] = 65535 := rfl
    rw [front, octetSum_cons_cons, word, ih]
    omega

theorem octetSum_rdata_root (publicKey : Bytes) :
    octetSum (rdata ⟨".", none, 257, 3, 8, publicKey⟩) = 1033 + octetSum publicKey := by
  have flags : Bytes.of16 257 = [1, 1] := by decide
  have words : Bytes.toNumber [1, 1] + Bytes.toNumber [3, 8] = 1033 := rfl
  rw [rdata, flags, List.cons_append, List.cons_append, List.nil_append, octetSum_cons_cons,
    octetSum_cons_cons, ← Nat.add_assoc]
  exact congrArg (· + octetSum publicKey) words

/-! ## Exactness -/

/-- The tag of a key of any length is the one that the numbers give. No sum on the way to it
overflows unless the last one does, and none does for a key of up to 131068 octets. -/
theorem tag_exact :
    k.tag.toNat = (octetSum k.rdata + octetSum k.rdata / 65536) % 65536 ∧
      k.tag? = (if octetSum k.rdata + octetSum k.rdata / 65536 < 2 ^ 32 then some k.tag
        else none) ∧
      (k.publicKey.length ≤ 131068 → k.tag? = some k.tag) := by
  refine ⟨k.toNat_tag, k.tag?_eq, fun short => ?_⟩
  have length := k.length_rdata
  have bound := octetSum_le k.rdata
  rw [tag?_eq]
  exact if_pos (by omega)

/-- The last word has one octet, and the sum passes 16 bits. -/
theorem tag_exact_short : ([255, 255, 255] : Bytes).length ≤ 131068 ∧
    tag? ⟨".", none, 257, 3, 8, [255, 255, 255]⟩ = some 778 := by
  have short : ([255, 255, 255] : Bytes).length ≤ 131068 := by decide
  exact ⟨short, (tag_exact _).2.2 short⟩

/-- Beyond that a sum may overflow. -/
theorem tag_overflows : ∃ key,
    ofLine Base64.standard (String.ofList (". DNSKEY 257 3 8".toList ++
      ' ' :: Base64.encode (List.replicate (2 * 65537) 255))) = .ok key ∧
        key.algorithm ≠ 1 ∧ key.tag? = none := by
  have keyed : List.replicate (2 * 65537) (255 : UInt8) ≠ [] :=
    List.ne_nil_of_length_pos (by rw [List.length_replicate]; decide)
  refine ⟨_, ofLine_root Base64.lawful_standard keyed, by decide, ?_⟩
  rw [tag?_eq, octetSum_rdata_root, octetSum_replicate]
  exact if_neg (by decide)

end Key

end ResolverGate
