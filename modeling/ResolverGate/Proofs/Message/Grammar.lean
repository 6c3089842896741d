import Mathlib.Data.Nat.Bitwise
import ResolverGate.Message.Edns

/-! # The grammar of messages

What stands in a client's message, said without reading it: names, questions and
records as octets, one behind the other. Each reader accepts exactly what the
grammar lets stand in front, and leaves the rest alone.
-/

namespace ResolverGate

/-! ## Headers -/

theorem and_two_pow_eq_zero_iff {n i : Nat} : n &&& 2 ^ i = 0 ↔ n.testBit i = false := by
  rw [Nat.and_two_pow]
  cases n.testBit i <;> simp

namespace Header

def bit (h : Header) (i : Nat) : Bool := h.flags.toNat.testBit i

variable (h : Header)

theorem flag_eq_bit {mask : UInt16} {i : Nat} (hm : mask.toNat = 2 ^ i) :
    (h.flags &&& mask != 0) = h.bit i := by
  have zero : h.flags &&& mask = 0 ↔ h.bit i = false := by
    rw [← UInt16.toNat_inj, UInt16.toNat_and, hm]
    exact and_two_pow_eq_zero_iff
  rw [Bool.eq_iff_iff, bne_iff_ne, ne_eq, zero, Bool.not_eq_false]

theorem isResponse_eq_bit : h.isResponse = h.bit 15 := h.flag_eq_bit rfl

theorem truncated_eq_bit : h.truncated = h.bit 9 := h.flag_eq_bit rfl

theorem recursionDesired_eq_bit : h.recursionDesired = h.bit 8 := h.flag_eq_bit rfl

theorem toNat_opcode : h.opcode.toNat = h.flags.toNat / 2048 % 16 := by
  have field : (h.flags.toNat &&& 30720) >>> 11 = h.flags.toNat >>> 11 &&& 2 ^ 4 - 1 :=
    Nat.shiftRight_and_distrib
  rw [opcode, UInt16.toNat_shiftRight, UInt16.toNat_and]
  exact field.trans (by rw [Nat.and_two_pow_sub_one_eq_mod, Nat.shiftRight_eq_div_pow])

end Header

/-! ## Names -/

namespace Labels

/-- No label is empty or longer than its length octet can say. -/
def Valid (ls : Labels) : Prop := ∀ l ∈ ls, 0 < l.length ∧ l.length < 64

@[simp] theorem encode_nil : encode [] = [] := rfl

@[simp] theorem encode_cons (l : Bytes) (ls : Labels) :
    encode (l :: ls) = UInt8.ofNat l.length :: l ++ encode ls := rfl

@[simp] theorem wireLength_nil : wireLength [] = 0 := rfl

@[simp] theorem wireLength_cons (l : Bytes) (ls : Labels) :
    wireLength (l :: ls) = l.length + 1 + wireLength ls := rfl

theorem length_encode (ls : Labels) : ls.encode.length = ls.wireLength := by
  induction ls with
  | nil => rfl
  | cons l ls ih =>
    simp only [encode_cons, wireLength_cons, List.cons_append, List.length_cons,
      List.length_append, ih]
    omega

theorem valid_cons {l : Bytes} {ls : Labels} :
    Valid (l :: ls) ↔ (0 < l.length ∧ l.length < 64) ∧ Valid ls := by
  simp [Valid]

theorem toNat_length {l : Bytes} (h : l.length < 64) : (UInt8.ofNat l.length).toNat = l.length := by
  rw [UInt8.toNat_ofNat', Nat.mod_eq_of_lt (by omega)]

theorem ofNat_length_ne_zero {l : Bytes} (positive : 0 < l.length) (short : l.length < 64) :
    UInt8.ofNat l.length ≠ 0 := by
  intro h
  have hlen := toNat_length short
  rw [h] at hlen
  exact absurd hlen (Nat.ne_of_lt positive)

theorem read_eq_ok_iff {room : Nat} {m rest : Bytes} {ls : Labels} :
    read room m = .ok (ls, rest) ↔
      ls.Valid ∧ ls.wireLength ≤ room ∧ m = ls.encode ++ 0 :: rest := by
  constructor
  · intro h
    fun_induction read room m generalizing ls with
    | case2 room tail =>
      obtain ⟨rfl, rfl⟩ : [] = ls ∧ tail = rest := by simpa using h
      exact ⟨by simp [Valid], Nat.zero_le _, rfl⟩
    | case5 room len tail pos short label after hs fits labels rest' hr ih =>
      obtain ⟨rfl, rfl⟩ : label :: labels = ls ∧ rest' = rest := by simpa using h
      obtain ⟨valid, fits', rfl⟩ := ih hr
      obtain ⟨rfl, hl⟩ := Bytes.splitAt?_eq_some_iff.mp hs
      have positive : 0 < len.toNat := by
        rw [Nat.pos_iff_ne_zero]
        exact fun h => pos (UInt8.toNat_inj.mp h)
      refine ⟨valid_cons.mpr ⟨by omega, valid⟩, by rw [wireLength_cons]; omega, ?_⟩
      rw [encode_cons, hl, UInt8.ofNat_toNat]
      simp
    | _ => simp_all
  · rintro ⟨valid, fits, rfl⟩
    induction ls generalizing room with
    | nil => rw [encode_nil, List.nil_append, read, if_pos rfl]
    | cons l ls ih =>
      obtain ⟨⟨positive, short⟩, valid⟩ := valid_cons.mp valid
      rw [wireLength_cons] at fits
      have hlen := toNat_length short
      have nonzero := ofNat_length_ne_zero positive short
      have split : Bytes.splitAt? l.length (l ++ (encode ls ++ 0 :: rest)) =
          some (l, encode ls ++ 0 :: rest) := Bytes.splitAt?_append _ _
      rw [encode_cons, List.cons_append, List.cons_append, List.append_assoc, read,
        if_neg nonzero, if_neg (by omega), hlen, split]
      simp only
      rw [dif_pos (by omega), ih valid (by omega)]

end Labels

/-- The octets of a name as it stands in a record: labels, and behind them the root
octet or a pointer to the rest of the name. -/
inductive EncodedName : Bytes → Prop
  | root : EncodedName [0]
  | pointer {high : UInt8} (low : UInt8) (h : 192 ≤ high.toNat) : EncodedName [high, low]
  | label {l name : Bytes} (positive : 0 < l.length) (short : l.length < 64)
      (h : EncodedName name) : EncodedName (UInt8.ofNat l.length :: l ++ name)

theorem EncodedName.length_pos {name : Bytes} (h : EncodedName name) : 1 ≤ name.length := by
  cases h <;> simp

theorem EncodedName.length_eq_one_iff {name : Bytes} (h : EncodedName name) :
    name.length = 1 ↔ name = [0] := by
  constructor
  · intro hl
    cases h with
    | root => rfl
    | pointer => simp at hl
    | label positive short h =>
      have := h.length_pos
      simp only [List.length_append, List.length_cons] at hl
      omega
  · rintro rfl
    rfl

theorem splitName?_eq_some_iff {m name rest : Bytes} :
    splitName? m = some (name, rest) ↔ EncodedName name ∧ m = name ++ rest := by
  constructor
  · intro h
    fun_induction splitName? m generalizing name with
    | case2 tail =>
      obtain ⟨rfl, rfl⟩ : _ = name ∧ tail = rest := by simpa using h
      exact ⟨.root, rfl⟩
    | case4 len tail nonzero short label after hs name' rest' hr ih =>
      obtain ⟨rfl, rfl⟩ : _ = name ∧ rest' = rest := by simpa using h
      obtain ⟨hn, rfl⟩ := ih hr
      obtain ⟨rfl, hl⟩ := Bytes.splitAt?_eq_some_iff.mp hs
      have positive : 0 < len.toNat := by
        rw [Nat.pos_iff_ne_zero]
        exact fun h => nonzero (UInt8.toNat_inj.mp h)
      have hlen : len = UInt8.ofNat label.length := by rw [hl, UInt8.ofNat_toNat]
      exact ⟨hlen ▸ .label (by omega) (by omega) hn, by simp⟩
    | case6 len _ _ high low tail =>
      obtain ⟨rfl, rfl⟩ : _ = name ∧ tail = rest := by simpa using h
      exact ⟨.pointer low high, rfl⟩
    | _ => simp_all
  · rintro ⟨hn, rfl⟩
    induction hn with
    | root => rw [List.cons_append, splitName?.eq_def]; rfl
    | @pointer high low h =>
      have nonzero : high ≠ 0 := by
        rintro rfl
        simp at h
      rw [List.cons_append, List.cons_append, splitName?.eq_def]
      simp only
      rw [if_neg nonzero, if_neg (by omega), if_pos h]
      rfl
    | @label l name positive short _ ih =>
      have hlen := Labels.toNat_length short
      have nonzero := Labels.ofNat_length_ne_zero positive short
      have split : Bytes.splitAt? l.length (l ++ (name ++ rest)) = some (l, name ++ rest) :=
        Bytes.splitAt?_append _ _
      rw [List.cons_append, List.cons_append, List.append_assoc, splitName?.eq_def]
      simp only
      rw [if_neg nonzero, if_pos (by omega), hlen, split]
      simp only [ih, List.cons_append]

/-! ## Questions -/

def Question.ofLabels (ls : Labels) (qtype : RecordType) (qclass : RecordClass) : Question where
  name := ls.text
  qtype := qtype
  qclass := qclass
  wire := ls.encode ++ 0 :: (Bytes.of16 qtype.code ++ Bytes.of16 qclass.code)

inductive EncodedQuestion : Bytes → Prop
  | intro {name : Bytes} (h : EncodedName name) (qtype : RecordType) (qclass : RecordClass) :
      EncodedQuestion (name ++ (Bytes.of16 qtype.code ++ Bytes.of16 qclass.code))

namespace Question

theorem read_eq_ok_iff {m rest : Bytes} {q : Question} :
    read m = .ok (q, rest) ↔ ∃ ls qtype qclass, Labels.Valid ls ∧
      ls.wireLength + 1 ≤ Labels.maxWireLength ∧ q = ofLabels ls qtype qclass ∧
      m = q.wire ++ rest := by
  constructor
  · intro h
    unfold read at h
    split at h
    · simp at h
    next ls after hr =>
    split at h
    · next t₁ t₀ c₁ c₀ rest' hs =>
      obtain ⟨rfl, rfl⟩ : _ = q ∧ rest' = rest := by simpa using h
      obtain ⟨valid, fits, rfl⟩ := Labels.read_eq_ok_iff.mp hr
      obtain ⟨rfl, -⟩ := Bytes.splitAt?_eq_some_iff.mp hs
      refine ⟨ls, ⟨UInt16.ofNat (Bytes.toNumber [t₁, t₀])⟩,
        ⟨UInt16.ofNat (Bytes.toNumber [c₁, c₀])⟩, valid,
        Nat.add_le_of_le_sub (by decide) fits, ?_, by simp⟩
      rw [ofLabels, Bytes.of16_toNumber, Bytes.of16_toNumber]
      rfl
    · simp at h
  · rintro ⟨ls, ⟨t⟩, ⟨c⟩, valid, fits, rfl, rfl⟩
    obtain ⟨t₁, t₀, ht, hnt⟩ := Bytes.exists_pair_of16 t
    obtain ⟨c₁, c₀, hc, hnc⟩ := Bytes.exists_pair_of16 c
    have hr : Labels.read (Labels.maxWireLength - 1)
        (ls.encode ++ 0 :: ([t₁, t₀, c₁, c₀] ++ rest)) = .ok (ls, [t₁, t₀, c₁, c₀] ++ rest) :=
      Labels.read_eq_ok_iff.mpr ⟨valid, Nat.le_sub_of_add_le fits, rfl⟩
    have hs : Bytes.splitAt? 4 ([t₁, t₀, c₁, c₀] ++ rest) = some ([t₁, t₀, c₁, c₀], rest) :=
      Bytes.splitAt?_append [t₁, t₀, c₁, c₀] rest
    have hw : (ofLabels ls ⟨t⟩ ⟨c⟩).wire = ls.encode ++ [0, t₁, t₀, c₁, c₀] := by
      rw [ofLabels, ht, hc]
      rfl
    have hm : (ofLabels ls ⟨t⟩ ⟨c⟩).wire ++ rest =
        ls.encode ++ 0 :: ([t₁, t₀, c₁, c₀] ++ rest) := by
      rw [hw]
      simp
    rw [hm, read, hr]
    simp only [hs, hnt, hnc, ← hw]
    rfl

theorem skip?_eq_some_iff {n : Nat} {m rest : Bytes} :
    skip? n m = some rest ↔ ∃ qs : List Bytes, qs.length = n ∧ (∀ q ∈ qs, EncodedQuestion q) ∧
      m = qs.flatten ++ rest := by
  constructor
  · intro h
    fun_induction skip? n m with
    | case1 m => exact ⟨[], rfl, by simp, by simpa using h⟩
    | case3 n m name after hn fixed after' hs ih =>
      obtain ⟨qs, rfl, hqs, rfl⟩ := ih h
      obtain ⟨hname, rfl⟩ := splitName?_eq_some_iff.mp hn
      obtain ⟨rfl, hl⟩ := Bytes.splitAt?_eq_some_iff.mp hs
      obtain ⟨t, c, rfl⟩ := Bytes.exists_of16_of16 hl
      refine ⟨(name ++ (Bytes.of16 t ++ Bytes.of16 c)) :: qs, rfl, ?_, by simp⟩
      rintro q (_ | ⟨_, hq⟩)
      · exact .intro hname ⟨t⟩ ⟨c⟩
      · exact hqs q hq
    | _ => simp at h
  · rintro ⟨qs, rfl, hqs, rfl⟩
    induction qs with
    | nil => rfl
    | cons q qs ih =>
      obtain ⟨hname, t, c⟩ := hqs q List.mem_cons_self
      have hn := splitName?_eq_some_iff.mpr
        ⟨hname, rfl (a := _ ++ (Bytes.of16 t.code ++ Bytes.of16 c.code ++ (qs.flatten ++ rest)))⟩
      have hs := Bytes.splitAt?_append (Bytes.of16 t.code ++ Bytes.of16 c.code)
        (qs.flatten ++ rest)
      rw [List.length_append, Bytes.length_of16, Bytes.length_of16] at hs
      rw [List.flatten_cons, List.append_assoc, List.append_assoc, List.length_cons, skip?, hn]
      simp only [hs]
      exact ih fun q hq => hqs q (List.mem_cons_of_mem _ hq)

end Question

/-! ## Records -/

namespace RecordSpan

def encode (r : RecordSpan) : Bytes :=
  r.owner ++ (Bytes.of16 r.rtype.code ++ (Bytes.of16 r.rclass ++ (Bytes.of32 r.ttl ++
    (Bytes.of16 (UInt16.ofNat r.rdata.length) ++ r.rdata))))

structure WellFormed (r : RecordSpan) : Prop where
  owner : EncodedName r.owner
  rdata : r.rdata.length < 0x10000

theorem WellFormed.length_encode {r : RecordSpan} (h : r.WellFormed) : 11 ≤ r.encode.length := by
  have := h.owner.length_pos
  simp only [encode, List.length_append, Bytes.length_of16, Bytes.length_of32]
  omega

theorem read?_eq_some_iff {m rest : Bytes} {r : RecordSpan} :
    read? m = some (r, rest) ↔ r.WellFormed ∧ m = r.encode ++ rest := by
  constructor
  · intro h
    simp only [read?, Option.bind_eq_bind, Option.bind_eq_some_iff, Prod.exists] at h
    obtain ⟨owner, m₁, h₁, t, m₂, h₂, c, m₃, h₃, ttl, m₄, h₄, n, m₅, h₅, data, m₆, h₆, h⟩ := h
    obtain ⟨rfl, rfl⟩ : _ = r ∧ m₆ = rest := by simpa [pure] using h
    obtain ⟨howner, rfl⟩ := splitName?_eq_some_iff.mp h₁
    obtain ⟨rfl, hn⟩ := Bytes.splitAt?_eq_some_iff.mp h₆
    have hlt := n.toNat_lt
    refine ⟨⟨howner, by simp only; omega⟩, ?_⟩
    rw [Bytes.read16?_eq_some_iff.mp h₂, Bytes.read16?_eq_some_iff.mp h₃,
      Bytes.read32?_eq_some_iff.mp h₄, Bytes.read16?_eq_some_iff.mp h₅]
    simp [encode, hn]
  · rintro ⟨⟨howner, hdata⟩, rfl⟩
    have hn : (UInt16.ofNat r.rdata.length).toNat = r.rdata.length := by
      rw [UInt16.toNat_ofNat', Nat.mod_eq_of_lt hdata]
    simp only [encode, List.append_assoc]
    rw [read?, splitName?_eq_some_iff.mpr ⟨howner, rfl⟩]
    simp [Bytes.read16?_of16, Bytes.read32?_of32, hn, Bytes.splitAt?_append]

/-- The `n` records `rs` stand in front of `m`. -/
structure Stand (rs : List RecordSpan) (n : Nat) (m rest : Bytes) : Prop where
  count : rs.length = n
  wellFormed : ∀ r ∈ rs, r.WellFormed
  octets : m = rs.flatMap encode ++ rest

theorem stand_nil {m rest : Bytes} : Stand [] 0 m rest ↔ m = rest :=
  ⟨fun h => h.octets, fun h => ⟨rfl, by simp, h⟩⟩

theorem Stand.cons {r : RecordSpan} {rs : List RecordSpan} {n : Nat} {m after rest : Bytes}
    (hr : read? m = some (r, after)) (h : Stand rs n after rest) :
    Stand (r :: rs) (n + 1) m rest := by
  obtain ⟨hwell, rfl⟩ := read?_eq_some_iff.mp hr
  refine ⟨by rw [List.length_cons, h.count], ?_, ?_⟩
  · rintro r' (_ | ⟨_, hr'⟩)
    · exact hwell
    · exact h.wellFormed r' hr'
  · rw [h.octets, List.flatMap_cons, List.append_assoc]

theorem Stand.uncons {r : RecordSpan} {rs : List RecordSpan} {n : Nat} {m rest : Bytes}
    (h : Stand (r :: rs) (n + 1) m rest) :
    ∃ after, read? m = some (r, after) ∧ Stand rs n after rest := by
  refine ⟨rs.flatMap encode ++ rest, ?_, Nat.succ.inj h.count,
    fun r' hr' => h.wellFormed r' (List.mem_cons_of_mem _ hr'), rfl⟩
  rw [read?_eq_some_iff, h.octets, List.flatMap_cons, List.append_assoc]
  exact ⟨h.wellFormed r List.mem_cons_self, rfl⟩

theorem skip?_eq_some_iff {n : Nat} {m rest : Bytes} :
    skip? n m = some rest ↔ ∃ rs, Stand rs n m rest := by
  constructor
  · intro h
    fun_induction skip? n m with
    | case1 m => exact ⟨[], stand_nil.mpr (Option.some.inj h)⟩
    | case2 n m r after hr ih =>
      obtain ⟨rs, hrs⟩ := ih h
      exact ⟨r :: rs, hrs.cons hr⟩
    | case3 => simp at h
  · rintro ⟨rs, h⟩
    induction rs generalizing n m with
    | nil =>
      obtain rfl := h.count
      exact congrArg some h.octets
    | cons r rs ih =>
      obtain rfl := h.count
      obtain ⟨after, hr, hrs⟩ := h.uncons
      rw [List.length_cons, skip?, hr]
      exact ih hrs

end RecordSpan

/-! ## EDNS parameters -/

namespace Edns

def optRecords (rs : List RecordSpan) : List RecordSpan := rs.filter (·.rtype = .opt)

theorem optRecords_cons (r : RecordSpan) (rs : List RecordSpan) :
    optRecords (r :: rs) = if r.rtype = .opt then r :: optRecords rs else optRecords rs := by
  by_cases h : r.rtype = .opt <;> simp [optRecords, h]

/-- What the OPT records announce: nothing without one, and the class and two octets
of the TTL field if there is one and the root owns it. -/
inductive Announced : List RecordSpan → Option Edns → Prop
  | nothing : Announced [] none
  | once {r : RecordSpan} {rcode version high low : UInt8} (root : r.owner = [0])
      (ttl : Bytes.of32 r.ttl = [rcode, version, high, low]) :
      Announced [r] (some ⟨r.rclass, version, decide (128 ≤ high.toNat)⟩)

theorem toNat_of_of32 {w : UInt32} {a b c d : UInt8} (h : Bytes.of32 w = [a, b, c, d]) :
    w.toNat = a.toNat * 16777216 + b.toNat * 65536 + c.toNat * 256 + d.toNat := by
  rw [← Bytes.toNumber_of32 w, h]
  simp only [Bytes.toNumber, List.foldl_cons, List.foldl_nil]
  omega

theorem ofRecord_eq {r : RecordSpan} {rcode version high low : UInt8}
    (h : Bytes.of32 r.ttl = [rcode, version, high, low]) :
    ofRecord r = ⟨r.rclass, version, decide (128 ≤ high.toNat)⟩ := by
  have ttl := toNat_of_of32 h
  have hv := version.toNat_lt
  have hh := high.toNat_lt
  have hl := low.toNat_lt
  have hversion : (r.ttl >>> 16).toUInt8 = version := by
    apply UInt8.toNat_inj.mp
    rw [UInt32.toNat_toUInt8, UInt32.toNat_shiftRight]
    simp only [UInt32.reduceToNat, Nat.reduceMod, Nat.shiftRight_eq_div_pow, Nat.reducePow]
    omega
  have hbit : (r.ttl &&& doBit != 0) = decide (128 ≤ high.toNat) := by
    have zero : r.ttl &&& doBit = 0 ↔ r.ttl.toNat.testBit 15 = false := by
      rw [← UInt32.toNat_inj, UInt32.toNat_and]
      exact and_two_pow_eq_zero_iff (i := 15)
    rw [Bool.eq_iff_iff, bne_iff_ne, ne_eq, zero, Nat.testBit_eq_decide_div_mod_eq,
      decide_eq_false_iff_not, not_not, decide_eq_true_iff]
    omega
  rw [ofRecord, hversion, hbit]

section Search

variable {m rest : Bytes} {r : RecordSpan} {rs opts : List RecordSpan} {found edns : Option Edns}
  {n k : Nat}

/-- What comes of some OPT records, in their order, if `found` has been found before. -/
def weigh : Option Edns → List RecordSpan → Except EdnsError (Option Edns)
  | found, [] => .ok found
  | some _, _ :: _ => .error .duplicateOpt
  | none, r :: rs =>
    if r.owner.length ≠ 1 then .error .nonRootOpt else weigh (some (ofRecord r)) rs

/-- What the OPT records of a message amount to: what they announce, or what is wrong with the
first of them, or that there is another. -/
inductive Verdict : List RecordSpan → Except EdnsError (Option Edns) → Prop
  | announced {opts : List RecordSpan} {edns : Option Edns} (h : Announced opts edns) :
      Verdict opts (.ok edns)
  | nonRoot {r : RecordSpan} {opts : List RecordSpan} (owner : r.owner ≠ [0]) :
      Verdict (r :: opts) (.error .nonRootOpt)
  | duplicate {r r' : RecordSpan} {opts : List RecordSpan} (owner : r.owner = [0]) :
      Verdict (r :: r' :: opts) (.error .duplicateOpt)

theorem weigh_of_announced (h : Announced opts edns) : weigh none opts = .ok edns := by
  cases h with
  | nothing => rfl
  | once root ttl => rw [weigh, if_neg (by simp [root]), weigh, ofRecord_eq ttl]

theorem verdict_weigh (owners : ∀ r ∈ opts, EncodedName r.owner) :
    Verdict opts (weigh none opts) := by
  match opts with
  | [] => exact .announced .nothing
  | r :: others =>
    rw [weigh]
    by_cases root : r.owner.length = 1
    · rw [if_neg (not_not.mpr root)]
      have owner := (owners r List.mem_cons_self).length_eq_one_iff.mp root
      cases others with
      | nil =>
        obtain ⟨rcode, version, high, low, ttl⟩ :
            ∃ a b c d, Bytes.of32 r.ttl = [a, b, c, d] := ⟨_, _, _, _, rfl⟩
        rw [weigh, ofRecord_eq ttl]
        exact .announced (.once owner ttl)
      | cons r' others => exact .duplicate owner
    · rw [if_pos root]
      refine .nonRoot fun owner => root ?_
      rw [owner]
      rfl

theorem verdict_optRecords (wellFormed : ∀ r ∈ rs, r.WellFormed) :
    Verdict (optRecords rs) (weigh none (optRecords rs)) :=
  verdict_weigh fun r hr => (wellFormed r (List.mem_filter.mp hr).1).owner

theorem weigh_ne_malformed : weigh found opts ≠ .error .malformed := by
  fun_induction weigh found opts with
  | case1 => nofun
  | case2 => nofun
  | case3 => nofun
  | case4 r rs root ih => exact ih

theorem Verdict.announced_of_ok (h : Verdict opts (.ok edns)) : Announced opts edns := by
  cases h with
  | announced h => exact h

/-- Over the records that stand in front the search comes to what their OPT records amount to,
and goes on behind them. -/
theorem search_add (stand : RecordSpan.Stand rs k m rest) (n : Nat) (found : Option Edns) :
    search (k + n) found m = weigh found (optRecords rs) >>= fun found => search n found rest := by
  induction rs generalizing k m found with
  | nil =>
    obtain rfl := stand.count
    obtain rfl : m = rest := stand.octets
    rw [List.length_nil, Nat.zero_add]
    cases found <;> rfl
  | cons r rs ih =>
    obtain rfl := stand.count
    obtain ⟨after, read, behind⟩ := stand.uncons
    rw [List.length_cons, Nat.succ_add, search, read, optRecords_cons]
    simp only
    split
    · cases found with
      | some e => rfl
      | none =>
        rw [if_neg (by simp), weigh]
        split
        · rfl
        · exact ih behind _
    · exact ih behind found

theorem search_of_stand (stand : RecordSpan.Stand rs n m rest) (found : Option Edns) :
    search n found m = weigh found (optRecords rs) := by
  rw [← Nat.add_zero n, search_add stand]
  cases weigh found (optRecords rs) <;> rfl

/-- A search that comes to an end has walked over all records. -/
theorem exists_skip?_of_search (h : search n found m = .ok edns) :
    ∃ rest, RecordSpan.skip? n m = some rest := by
  fun_induction search n found m with
  | case1 found m => exact ⟨m, rfl⟩
  | case2 => cases h
  | case3 => cases h
  | case4 => cases h
  | case5 n found m r rest read opt first root ih =>
    rw [RecordSpan.skip?, read]
    exact ih h
  | case6 n found m r rest read other ih =>
    rw [RecordSpan.skip?, read]
    exact ih h

theorem search_eq_ok_iff : search n none m = .ok edns ↔
    ∃ rs rest, RecordSpan.Stand rs n m rest ∧ Announced (optRecords rs) edns := by
  constructor
  · intro h
    obtain ⟨rest, walked⟩ := exists_skip?_of_search h
    obtain ⟨rs, stand⟩ := RecordSpan.skip?_eq_some_iff.mp walked
    have verdict := verdict_optRecords stand.wellFormed
    rw [← search_of_stand stand none, h] at verdict
    exact ⟨rs, rest, stand, verdict.announced_of_ok⟩
  · rintro ⟨rs, rest, stand, announced⟩
    rw [search_of_stand stand, weigh_of_announced announced]

end Search

/-- The parts of a message behind its first question. -/
structure Follow (h : Header) (questions : List Bytes) (records additional : List RecordSpan)
    (m rest : Bytes) : Prop where
  questions_length : questions.length = h.qdcount.toNat - 1
  questions_encoded : ∀ q ∈ questions, EncodedQuestion q
  records_length : records.length = h.ancount.toNat + h.nscount.toNat
  records_wellFormed : ∀ r ∈ records, r.WellFormed
  additional_length : additional.length = h.arcount.toNat
  additional_wellFormed : ∀ r ∈ additional, r.WellFormed
  octets : m = questions.flatten ++ (records.flatMap RecordSpan.encode ++
    (additional.flatMap RecordSpan.encode ++ rest))

theorem read_eq_ok_iff {h : Header} {m : Bytes} {edns : Option Edns} :
    read h m = .ok edns ↔ ∃ questions records additional rest,
      Follow h questions records additional m rest ∧ Announced (optRecords additional) edns := by
  constructor
  · intro hr
    unfold read at hr
    split at hr
    · simp at hr
    next m₁ hq =>
    split at hr
    · simp at hr
    next m₂ hs =>
    obtain ⟨questions, hql, hqs, rfl⟩ := Question.skip?_eq_some_iff.mp hq
    obtain ⟨records, hrl, hrw, rfl⟩ := RecordSpan.skip?_eq_some_iff.mp hs
    obtain ⟨additional, rest, ⟨hal, haw, rfl⟩, announced⟩ := search_eq_ok_iff.mp hr
    exact ⟨questions, records, additional, rest, ⟨hql, hqs, hrl, hrw, hal, haw, rfl⟩, announced⟩
  · rintro ⟨questions, records, additional, rest, ⟨hql, hqs, hrl, hrw, hal, haw, rfl⟩, announced⟩
    rw [read, Question.skip?_eq_some_iff.mpr ⟨questions, hql, hqs, rfl⟩]
    simp only
    rw [RecordSpan.skip?_eq_some_iff.mpr ⟨records, hrl, hrw, rfl⟩]
    exact search_eq_ok_iff.mpr ⟨additional, rest, ⟨hal, haw, rfl⟩, announced⟩

end Edns

end ResolverGate
