import Mathlib.Data.List.TakeWhile
import ResolverGate.Proofs.Outcomes
import ResolverGate.Proofs.Text.Base64
import ResolverGate.Proofs.Text.Letters
import ResolverGate.Proofs.Text.Tokens
import ResolverGate.TrustAnchor.Key

/-! # Keys in presentation form

A zone key can be written in many ways: with or without TTL and class, in letters of any case,
with blanks of any kind, the key cut into pieces, and a comment behind it. All of them are read
as that key. A line that is read states a zone key for DNSSEC and names its type.
-/

namespace ResolverGate

namespace Key

variable {key : Key} {ttl found : Option UInt32} {field : KeyField} {bound n : Nat}
  {w : List Char} {ws : List (List Char)} {name s : String} {tokens rest : List String}
  {decode : Base64.Decoder}

/-! ## The words of a line -/

/-- The words of a line, up to the comment if there is one. -/
def Tokens (ws : List (List Char)) (line : List Char) : Prop :=
  ∃ code comment, line = code ++ comment ∧ ';' ∉ code ∧ (∀ c ∈ comment.head?, c = ';') ∧
    Text.Spaced ws code

theorem tokens_iff {line : List Char} :
    Tokens ws line ↔ Text.words (line.takeWhile (· ≠ ';')) = ws := by
  rw [Text.words_eq_iff]
  constructor
  · rintro ⟨code, comment, rfl, plain, start, spaced⟩
    have whole : ∀ c ∈ code, decide (c ≠ ';') = true := fun c hc =>
      decide_eq_true fun eq => plain (eq ▸ hc)
    have stop : comment.takeWhile (· ≠ ';') = [] := by
      cases comment with
      | nil => rfl
      | cons c comment => exact List.takeWhile_cons_of_neg (by simp [start c rfl])
    rwa [List.takeWhile_append_of_pos whole, stop, List.append_nil]
  · intro spaced
    refine ⟨_, _, List.takeWhile_append_dropWhile.symm, ?_, ?_, spaced⟩
    · intro mem
      simpa using List.mem_takeWhile_imp mem
    · intro c first
      rw [← List.find?_not_eq_head?_dropWhile] at first
      simpa using List.find?_some first

def Spells (w : List Char) (name : String) : Prop := w.map Char.toLower = name.toList

instance : Decidable (Spells w name) := inferInstanceAs (Decidable (_ = _))

theorem spells_iff : Spells w name ↔ Blocklist.lowerAscii (String.ofList w) = name := by
  rw [Spells, Blocklist.lowerAscii, String.toList_ofList]
  constructor
  · intro eq
    rw [eq, String.ofList_toList]
  · rintro rfl
    exact String.toList_ofList.symm

theorem Spells.isAlpha (h : Spells w name) (letters : ∀ c ∈ name.toList, c.isAlpha = true) :
    ∀ c ∈ w, c.isAlpha = true := by
  intro c hc
  rw [← Text.isAlpha_toLower]
  apply letters
  rw [← h]
  exact List.mem_map_of_mem hc

def IsClass (w : List Char) : Prop := Spells w "in" ∨ Spells w "ch" ∨ Spells w "hs"

theorem isClass_iff : IsClass w ↔ Blocklist.lowerAscii (String.ofList w) ∈ classes := by
  simp only [IsClass, spells_iff, classes, List.mem_cons, List.not_mem_nil, or_false]

/-! ## The type and what stands before it -/

theorem readType_type (h : Spells w "dnskey") :
    readType ttl (String.ofList w :: tokens) = .ok (ttl, tokens) := by
  unfold readType
  exact if_pos (spells_iff.mp h)

theorem readType_class (h : IsClass w) :
    readType ttl (String.ofList w :: tokens) = readType ttl tokens := by
  have known := isClass_iff.mp h
  have other : Blocklist.lowerAscii (String.ofList w) ≠ "dnskey" := by
    intro eq
    rw [eq] at known
    exact absurd known (by decide)
  conv_lhs => unfold readType
  exact (if_neg other).trans (if_pos known)

theorem not_spells_of_numeral (h : Text.Numeral n w)
    (letters : ∀ c ∈ name.toList, c.isAlpha = true) : ¬ Spells w name := by
  intro spells
  obtain ⟨c, ws, rfl⟩ := List.exists_cons_of_ne_nil h.ne_nil
  have letter := spells.isAlpha letters c List.mem_cons_self
  have plain := (h.plain c List.mem_cons_self).1
  exact absurd letter (by simp [plain])

theorem readType_ttl {value : UInt32} (h : Text.Numeral value.toNat w) :
    readType none (String.ofList w :: tokens) = readType (some value) tokens := by
  have other : Blocklist.lowerAscii (String.ofList w) ≠ "dnskey" := fun eq =>
    not_spells_of_numeral h (by simp) (spells_iff.mpr eq)
  have classless : ¬ Blocklist.lowerAscii (String.ofList w) ∈ classes := by
    rw [← isClass_iff]
    rintro (spells | spells | spells) <;> exact not_spells_of_numeral h (by simp) spells
  have read : Text.decimal? 0x100000000 (String.ofList w).toList = some value.toNat := by
    rw [String.toList_ofList]
    exact h.decimal?_eq value.toNat_lt
  conv_lhs => unfold readType
  rw [if_neg other, if_neg classless, read]
  exact congrArg (fun value => readType (some value) tokens) UInt32.ofNat_toNat

/-- One TTL at most and one class at most, in either order. -/
inductive Between : Option UInt32 → List (List Char) → Prop
  | nothing : Between none []
  | ttl {value : UInt32} {n : List Char} (number : Text.Numeral value.toNat n) :
      Between (some value) [n]
  | class {c : List Char} (isClass : IsClass c) : Between none [c]
  | ttlClass {value : UInt32} {n c : List Char} (number : Text.Numeral value.toNat n)
      (isClass : IsClass c) : Between (some value) [n, c]
  | classTtl {value : UInt32} {n c : List Char} (number : Text.Numeral value.toNat n)
      (isClass : IsClass c) : Between (some value) [c, n]

theorem Between.readType_eq (h : Between ttl ws) (type : Spells w "dnskey") :
    readType none (ws.map String.ofList ++ String.ofList w :: tokens) = .ok (ttl, tokens) := by
  cases h with
  | nothing => exact readType_type type
  | ttl number => exact (readType_ttl number).trans (readType_type type)
  | «class» isClass => exact (readType_class isClass).trans (readType_type type)
  | ttlClass number isClass =>
    exact (readType_ttl number).trans ((readType_class isClass).trans (readType_type type))
  | classTtl number isClass =>
    exact (readType_class isClass).trans ((readType_ttl number).trans (readType_type type))

theorem exists_type_of_readType (h : readType ttl tokens = .ok (found, rest)) :
    ∃ front type, tokens = front ++ type :: rest ∧ Spells type.toList "dnskey" := by
  induction tokens generalizing ttl with
  | nil => cases h
  | cons token tokens ih =>
    have later {ttl : Option UInt32} (h : readType ttl tokens = .ok (found, rest)) :
        ∃ front type, token :: tokens = front ++ type :: rest ∧ Spells type.toList "dnskey" := by
      obtain ⟨front, type, rfl, isType⟩ := ih h
      exact ⟨token :: front, type, rfl, isType⟩
    unfold readType at h
    simp only at h
    split at h
    · next isType =>
      cases h
      exact ⟨[], token, rfl, spells_iff.mpr (by rwa [String.ofList_toList])⟩
    · split at h
      · exact later h
      · split at h
        · exact later h
        · cases h

/-! ## The numbers -/

theorem readField_numeral (h : Text.Numeral n w) (lt : n < bound) :
    readField field bound (String.ofList w :: tokens) = .ok (n, tokens) := by
  rw [readField, String.toList_ofList, h.decimal?_eq lt]

theorem suffix_of_readField (h : readField field bound tokens = .ok (n, rest)) :
    rest <:+ tokens := by
  cases tokens with
  | nil => cases h
  | cons token tokens =>
    simp only [readField] at h
    split at h
    · cases h
      exact List.suffix_cons token _
    · cases h

/-! ## The whole line -/

/-- What the reader does with the words of a line, step by step. -/
theorem ofLine_eq_ok_iff : ofLine decode s = .ok key ↔
    ∃ words rest₀ flags rest₁ protocol rest₂ algorithm pieces,
      (Text.words (s.toList.takeWhile (· ≠ ';'))).map String.ofList = key.owner :: words ∧
      readType none words = .ok (key.ttl, rest₀) ∧
      readField .flags 0x10000 rest₀ = .ok (flags, rest₁) ∧
      readField .protocol 0x100 rest₁ = .ok (protocol, rest₂) ∧
      readField .algorithm 0x100 rest₂ = .ok (algorithm, pieces) ∧
      pieces ≠ [] ∧ decode (pieces.flatMap String.toList) = .ok key.publicKey ∧
      key.flags = UInt16.ofNat flags ∧ key.protocol = UInt8.ofNat protocol ∧
      key.algorithm = UInt8.ofNat algorithm ∧
      key.protocol = dnssecProtocol ∧ key.flags &&& zoneFlag ≠ 0 := by
  constructor
  · intro h
    unfold ofLine at h
    simp only at h
    split at h
    · cases h
    next owner words eq =>
    obtain ⟨⟨ttl, rest₀⟩, typed, h⟩ := exists_of_bind h
    obtain ⟨⟨flags, rest₁⟩, flagged, h⟩ := exists_of_bind h
    obtain ⟨⟨protocol, rest₂⟩, protocolled, h⟩ := exists_of_bind h
    obtain ⟨⟨algorithm, pieces⟩, algorithmed, h⟩ := exists_of_bind h
    simp only at typed flagged protocolled algorithmed h
    split at h
    · cases h
    next some_piece =>
    split at h
    · cases h
    next publicKey decoded =>
    split at h
    · cases h
    next dnssec =>
    split at h
    · cases h
    next zone =>
    cases h
    exact ⟨words, rest₀, flags, rest₁, protocol, rest₂, algorithm, pieces, eq, typed, flagged,
      protocolled, algorithmed, some_piece, decoded, rfl, rfl, rfl, not_not.mp dnssec, zone⟩
  · rintro ⟨words, rest₀, flags, rest₁, protocol, rest₂, algorithm, pieces, eq, typed, flagged,
      protocolled, algorithmed, some_piece, decoded, hf, hp, ha, dnssec, zone⟩
    cases key
    cases hf
    cases hp
    cases ha
    unfold ofLine
    simp only at eq typed decoded dnssec zone ⊢
    rw [eq]
    simp only [typed, flagged, protocolled, algorithmed, bind, Except.bind]
    rw [if_neg some_piece, decoded]
    exact (if_neg (not_not.mpr dnssec)).trans (if_neg zone)

/-! ## Ways to write a key -/

structure IsZoneKey (k : Key) : Prop where
  dnssec : k.protocol = 3
  zone : k.flags &&& 0x0100 ≠ 0
  keyed : k.publicKey ≠ []

/-- A way to write a key on a line. -/
structure Rendering (key : Key) where
  /-- TTL and class. -/
  between : List (List Char)
  type : List Char
  flags : List Char
  protocol : List Char
  algorithm : List Char
  /-- The key in base64. -/
  pieces : List (List Char)
  code : List Char
  comment : List Char
  between_spec : Between key.ttl between
  type_spec : Spells type "dnskey"
  flags_spec : Text.Numeral key.flags.toNat flags
  protocol_spec : Text.Numeral key.protocol.toNat protocol
  algorithm_spec : Text.Numeral key.algorithm.toNat algorithm
  pieces_spec : pieces.flatten = Base64.encode key.publicKey
  spaced : Text.Spaced
    (key.owner.toList :: (between ++ type :: flags :: protocol :: algorithm :: pieces)) code
  comment_spec : ∀ c ∈ comment.head?, c = ';'

theorem Spells.semicolon_notMem (h : Spells w name)
    (letters : ∀ c ∈ name.toList, c.isAlpha = true) : ';' ∉ w := fun mem =>
  absurd (h.isAlpha letters ';' mem) (by decide)

theorem semicolon_notMem_numeral (h : Text.Numeral n w) : ';' ∉ w := fun mem =>
  (h.plain ';' mem).2.1 rfl

theorem Between.semicolon_notMem (h : Between ttl ws) : ∀ w ∈ ws, ';' ∉ w := by
  have classed {w : List Char} (h : IsClass w) : ';' ∉ w := by
    rcases h with h | h | h <;> exact h.semicolon_notMem (by simp)
  cases h with
  | nothing => simp
  | ttl n => simpa using semicolon_notMem_numeral n
  | «class» c => simpa using classed c
  | ttlClass n c => simpa using ⟨semicolon_notMem_numeral n, classed c⟩
  | classTtl n c => simpa using ⟨classed c, semicolon_notMem_numeral n⟩

namespace Rendering

variable (r : Rendering key)

def line : List Char := r.code ++ r.comment

theorem semicolon_notMem_code (plain : ';' ∉ key.owner.toList) : ';' ∉ r.code := by
  intro mem
  rcases r.spaced.isBlank_or_mem mem with blank | ⟨w, hw, hc⟩
  · exact absurd blank (by decide)
  simp only [List.mem_cons, List.mem_append] at hw
  rcases hw with rfl | hw | rfl | rfl | rfl | rfl | hw
  · exact plain hc
  · exact r.between_spec.semicolon_notMem w hw hc
  · exact r.type_spec.semicolon_notMem (by simp) hc
  · exact semicolon_notMem_numeral r.flags_spec hc
  · exact semicolon_notMem_numeral r.protocol_spec hc
  · exact semicolon_notMem_numeral r.algorithm_spec hc
  · apply Base64.semicolon_notMem_encode key.publicKey
    rw [← r.pieces_spec]
    exact List.mem_flatten_of_mem hw hc

theorem pieces_ne_nil (keyed : key.publicKey ≠ []) : r.pieces ≠ [] := by
  intro none
  apply Base64.encode_ne_nil keyed
  rw [← r.pieces_spec, none, List.flatten_nil]

theorem ofLine_eq (lawful : decode.Lawful) (plain : ';' ∉ key.owner.toList)
    (zone : key.IsZoneKey) :
    ofLine decode (String.ofList r.line) = .ok key := by
  have words := tokens_iff.mp
    ⟨r.code, r.comment, rfl, r.semicolon_notMem_code plain, r.comment_spec, r.spaced⟩
  have joined : (r.pieces.map String.ofList).flatMap String.toList =
      Base64.encode key.publicKey := by
    rw [List.flatMap_map, ← r.pieces_spec]
    simp only [String.toList_ofList, List.flatMap_id']
  refine ofLine_eq_ok_iff.mpr ⟨_, _, _, _, _, _, _, r.pieces.map String.ofList, ?_,
    r.between_spec.readType_eq r.type_spec, readField_numeral r.flags_spec key.flags.toNat_lt,
    readField_numeral r.protocol_spec key.protocol.toNat_lt,
    readField_numeral r.algorithm_spec key.algorithm.toNat_lt, ?_, ?_,
    UInt16.ofNat_toNat.symm, UInt8.ofNat_toNat.symm, UInt8.ofNat_toNat.symm, zone.dnssec, zone.zone⟩
  · rw [String.toList_ofList, line, words]
    simp
  · simpa using r.pieces_ne_nil zone.keyed
  · rw [joined, lawful.encode]

end Rendering

theorem nonempty_rendering (keyed : key.publicKey ≠ []) (owned : key.owner.toList ≠ [])
    (solid : ∀ c ∈ key.owner.toList, Text.isBlank c = false) : Nonempty (Rendering key) := by
  obtain ⟨flags, hf⟩ := Text.exists_numeral key.flags.toNat
  obtain ⟨protocol, hp⟩ := Text.exists_numeral key.protocol.toNat
  obtain ⟨algorithm, ha⟩ := Text.exists_numeral key.algorithm.toNat
  have number {w : List Char} {n : Nat} (h : Text.Numeral n w) : ∀ c ∈ w, Text.isBlank c = false :=
    fun c hc => (h.plain c hc).2.2
  obtain ⟨between, hb, filled⟩ : ∃ between, Between key.ttl between ∧
      ∀ w ∈ between, w ≠ [] ∧ ∀ c ∈ w, Text.isBlank c = false := by
    cases key.ttl with
    | none => exact ⟨[], .nothing, by simp⟩
    | some value =>
      obtain ⟨n, hn⟩ := Text.exists_numeral value.toNat
      exact ⟨[n], .ttl hn, by simpa using ⟨hn.ne_nil, number hn⟩⟩
  have encoded : ∀ c ∈ Base64.encode key.publicKey, Text.isBlank c = false :=
    Base64.forall_mem_encode (by decide) (by decide) key.publicKey
  have all : ∀ w ∈ key.owner.toList :: (between ++ "DNSKEY".toList :: flags :: protocol ::
      algorithm :: [Base64.encode key.publicKey]), w ≠ [] ∧ ∀ c ∈ w, Text.isBlank c = false := by
    intro w hw
    simp only [List.mem_cons, List.mem_append, List.not_mem_nil, or_false] at hw
    rcases hw with rfl | hw | rfl | rfl | rfl | rfl | rfl
    · exact ⟨owned, solid⟩
    · exact filled w hw
    · exact ⟨by simp, by simpa using by decide⟩
    · exact ⟨hf.ne_nil, number hf⟩
    · exact ⟨hp.ne_nil, number hp⟩
    · exact ⟨ha.ne_nil, number ha⟩
    · exact ⟨Base64.encode_ne_nil keyed, encoded⟩
  exact ⟨{
    between, flags, protocol, algorithm
    type := "DNSKEY".toList
    pieces := [Base64.encode key.publicKey]
    code := _
    comment := []
    between_spec := hb
    type_spec := by decide
    flags_spec := hf
    protocol_spec := hp
    algorithm_spec := ha
    pieces_spec := List.append_nil _
    spaced := Text.spaced_flatMap (fun w hw => (all w hw).1) (fun w hw => (all w hw).2)
    comment_spec := by simp }⟩

/-! ## What lines are read as -/

theorem isZoneKey_of_ofLine (lawful : decode.Lawful) (h : ofLine decode s = .ok key) :
    key.IsZoneKey := by
  obtain ⟨words, rest₀, flags, rest₁, protocol, rest₂, algorithm, pieces, eq, typed, flagged,
    protocolled, algorithmed, some_piece, decoded, -, -, -, dnssec, zone⟩ := ofLine_eq_ok_iff.mp h
  refine ⟨dnssec, zone, fun empty => ?_⟩
  obtain ⟨front, type, rfl, -⟩ := exists_type_of_readType typed
  have inside : pieces <:+ front ++ type :: rest₀ :=
    (suffix_of_readField algorithmed).trans ((suffix_of_readField protocolled).trans
      ((suffix_of_readField flagged).trans ((List.suffix_cons _ _).trans (List.suffix_append _ _))))
  obtain ⟨piece, later, rfl⟩ := List.exists_cons_of_ne_nil some_piece
  -- A piece is a word of the line, and no word is empty.
  have mem : piece ∈ (Text.words (s.toList.takeWhile (· ≠ ';'))).map String.ofList := by
    rw [eq]
    exact List.mem_cons_of_mem _ (inside.subset List.mem_cons_self)
  obtain ⟨w, hw, rfl⟩ := List.mem_map.mp mem
  have nonempty : w ≠ [] := (Text.words_eq_iff.mp rfl).ne_nil w hw
  rw [empty] at decoded
  have joined := lawful.nonempty decoded
  rw [List.flatMap_cons, String.toList_ofList, List.append_eq_nil_iff] at joined
  exact nonempty joined.1

theorem exists_type_of_ofLine (h : ofLine decode s = .ok key) (tokens : Tokens ws s.toList) :
    ∃ w ∈ ws.tail, Spells w "dnskey" := by
  obtain ⟨words, rest₀, -, -, -, -, -, -, eq, typed, -⟩ := ofLine_eq_ok_iff.mp h
  rw [tokens_iff.mp tokens] at eq
  obtain ⟨front, type, rfl, isType⟩ := exists_type_of_readType typed
  have mem : type ∈ (ws.map String.ofList).tail := by
    rw [eq]
    simp
  rw [← List.map_tail] at mem
  obtain ⟨w, hw, rfl⟩ := List.mem_map.mp mem
  rw [String.toList_ofList] at isType
  exact ⟨w, hw, isType⟩

/-- A line is read as the key that it renders, whichever way that is. What is read is a zone
key for DNSSEC, and nothing is read from a line that does not name the type behind its owner. -/
theorem ofLine_presentation (lawful : decode.Lawful) :
    (∀ key : Key, key.IsZoneKey → ';' ∉ key.owner.toList →
      ∀ r : Rendering key, ofLine decode (String.ofList r.line) = .ok key) ∧
    (∀ s key, ofLine decode s = .ok key → key.IsZoneKey) ∧
    ∀ s ws, Tokens ws s.toList → (∀ w ∈ ws.tail, ¬ Spells w "dnskey") →
      ∃ e, ofLine decode s = .error e := by
  refine ⟨?_, ?_, ?_⟩
  · exact fun key zone plain r => r.ofLine_eq lawful plain zone
  · exact fun s key => isZoneKey_of_ofLine lawful
  · intro s ws tokens typeless
    cases read : ofLine decode s with
    | error e => exact ⟨e, rfl⟩
    | ok key =>
      obtain ⟨w, hw, isType⟩ := exists_type_of_ofLine read tokens
      exact absurd isType (typeless w hw)

theorem ofLine_presentation_split : Base64.standard.Lawful ∧
    ofLine Base64.standard "\t. cH 172800   DnsKey 0257 3 +8\tAwE AAaw= ; new" =
      .ok ⟨".", some 172800, 257, 3, 8, [3, 1, 0, 1, 172]⟩ := by
  have numeral {n : Nat} {digits : List Nat} (nonempty : digits ≠ [])
      (small : ∀ d ∈ digits, d < 10) (value : Nat.ofDigits 10 digits.reverse = n) :
      Text.Numeral n (digits.map Nat.digitChar) ∧
        Text.Numeral n ('+' :: digits.map Nat.digitChar) :=
    ⟨⟨digits, nonempty, small, value, .inl rfl⟩, ⟨digits, nonempty, small, value, .inr rfl⟩⟩
  have lawful := Base64.lawful_standard
  refine ⟨lawful, (ofLine_presentation lawful).1 ⟨".", some 172800, 257, 3, 8, [3, 1, 0, 1, 172]⟩
    ⟨rfl, by decide, by decide⟩ (by decide)
    { between := ["cH".toList, "172800".toList]
      type := "DnsKey".toList
      flags := "0257".toList
      protocol := "3".toList
      algorithm := "+8".toList
      pieces := ["AwE".toList, "AAaw=".toList]
      code := "\t. cH 172800   DnsKey 0257 3 +8\tAwE AAaw= ".toList
      comment := "; new".toList
      between_spec := .classTtl (@numeral _ [1, 7, 2, 8, 0, 0] (by decide) (by decide) rfl).1
        (.inr (.inl (by decide)))
      type_spec := by decide
      flags_spec := (@numeral _ [0, 2, 5, 7] (by decide) (by decide) rfl).1
      protocol_spec := (@numeral _ [3] (by decide) (by decide) rfl).1
      algorithm_spec := (@numeral _ [8] (by decide) (by decide) rfl).2
      pieces_spec := by decide
      spaced := Text.words_eq_iff.mp (by decide)
      comment_spec := by simp }⟩

end Key

end ResolverGate
