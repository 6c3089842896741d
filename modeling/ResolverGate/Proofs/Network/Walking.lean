import Mathlib.Algebra.Group.Nat.Defs
import Mathlib.Data.List.Basic
import ResolverGate.Network.RouteMessage
import ResolverGate.Proofs.Octets

/-! # Walks over what the kernel writes

A datagram is written message by message, and the body of a message about neighbors option by
option. The walks find every part again, in its order, and go on behind it. A part that does
not fit ends the walk that it stands in, and nothing outside of the datagram is looked at.
-/

namespace ResolverGate

namespace Kernel

open RouteMessage

/-! ## What is written -/

def word (width n : Nat) : Bytes := (Bytes.ofNumber width n).reverse

/-- An option of a neighbor. It counts its octets in units of eight. -/
inductive NeighborOption
  | resolvers (units : UInt8) (reserved : Bytes) (lifetime : UInt32) (addresses : Bytes)
      (two : reserved.length = 2) (size : units.toNat * 8 = 8 + addresses.length)
  | other (kind units : UInt8) (data : Bytes) (different : kind ≠ 25)
      (size : units.toNat * 8 = 2 + data.length)

def NeighborOption.encode : NeighborOption → Bytes
  | resolvers units reserved lifetime addresses _ _ =>
    25 :: units :: (reserved ++ (Bytes.of32 lifetime ++ addresses))
  | other kind units data _ _ => kind :: units :: data

/-- Resolvers whose lifetime is over are withdrawn. -/
def NeighborOption.routes (ifIndex : UInt32) (family : UInt16) : NeighborOption → List RouteMessage
  | resolvers _ _ lifetime addresses _ _ =>
    [.proposal ifIndex advertised family (if lifetime = 0 then [] else addresses)]
  | other .. => []

/-- No option begins: there are too few octets for one, or it counts no unit, or more units than
there are. -/
inductive NoOption : Bytes → Prop
  | short {m : Bytes} (h : m.length < 2) : NoOption m
  | misfit (kind : UInt8) {units : UInt8} {rest : Bytes}
      (h : units = 0 ∨ 2 + rest.length < units.toNat * 8) : NoOption (kind :: units :: rest)

/-- The body of a message about a link, around the index of its interface. -/
structure LinkBody where
  front : Bytes
  index : Int32
  back : Bytes
  four : front.length = 4
  whole : 8 ≤ back.length

def LinkBody.encode (b : LinkBody) : Bytes :=
  b.front ++ (word 4 b.index.toUInt32.toNat ++ b.back)

/-- The body of a message about a neighbor. The octets behind its last option that fits, if
there are any, are counted with the options, and the surplus is not. -/
structure OptionsBody where
  family : UInt8
  pad : UInt8
  index : Int32
  back : Bytes
  options : List NeighborOption
  stray : Bytes
  surplus : Bytes
  eight : back.length = 8
  stops : NoOption stray
  counted : (options.flatMap (·.encode) ++ stray).length < 65536

/-- The octets that are counted. -/
def OptionsBody.row (b : OptionsBody) : Bytes := b.options.flatMap (·.encode) ++ b.stray

def OptionsBody.encode (b : OptionsBody) : Bytes :=
  b.family :: b.pad :: (word 2 b.row.length ++
    (word 4 b.index.toUInt32.toNat ++ (b.back ++ (b.row ++ b.surplus))))

inductive Content
  | link (body : LinkBody)
  | removal (body : LinkBody)
  | options (body : OptionsBody)
  | other (kind : UInt16) (body : Bytes) (different : kind ≠ 16 ∧ kind ≠ 17 ∧ kind ≠ 68)

namespace Content

def kind : Content → UInt16
  | link _ => 16
  | removal _ => 17
  | options _ => 68
  | other kind _ _ => kind

def body : Content → Bytes
  | link b => b.encode
  | removal b => b.encode
  | options b => b.encode
  | other _ body _ => body

def ofIndex (index : Int32) (found : UInt32 → List RouteMessage) : List RouteMessage :=
  if index < 0 then [] else found index.toUInt32

def routes : Content → List RouteMessage
  | link b => ofIndex b.index fun ifIndex => [.info ifIndex]
  | removal b => ofIndex b.index fun ifIndex => [.departure ifIndex]
  | options b => ofIndex b.index fun ifIndex =>
      b.options.flatMap (·.routes ifIndex b.family.toUInt16)
  | other .. => []

end Content

/-- A message: its content behind a header, padded to a multiple of four octets. Its length is
one that four octets can say. -/
structure Message where
  content : Content
  /-- The rest of the header. -/
  fields : Bytes
  padding : Bytes
  ten : fields.length = 10
  size : 16 + content.body.length < 2 ^ 32
  short : padding.length < 4
  aligned : 4 ∣ 16 + content.body.length + padding.length

def Message.encode (m : Message) : Bytes :=
  word 4 (16 + m.content.body.length) ++ (word 2 m.content.kind.toNat ++
    (m.fields ++ (m.content.body ++ m.padding)))

/-- No message begins: there are too few octets for a header, or it counts less than itself, or
more than there is. -/
inductive NoMessage : Bytes → Prop
  | short {m : Bytes} (h : m.length < 16) : NoMessage m
  | misfit {size : UInt32} {others rest : Bytes} (twelve : others.length = 12)
      (h : size.toNat < 16 ∨ 16 + rest.length < size.toNat) :
      NoMessage (word 4 size.toNat ++ (others ++ rest))

variable {m front back : Bytes} {index : Int32} {ifIndex : UInt32} {family : UInt16}
  {width n : Nat}

/-! ## Words -/

@[simp] theorem length_word (width n : Nat) : (word width n).length = width := by simp [word]

theorem littleEndian_word (fits : n < Bytes.bound width) : littleEndian (word width n) = n := by
  rw [littleEndian, word, List.reverse_reverse, Bytes.toNumber_ofNumber, Nat.mod_eq_of_lt fits]

theorem take_drop_append {part : Bytes} {k : Nat} (before : front.length = k)
    (length : part.length = n) : ((front ++ (part ++ back)).drop k).take n = part := by
  rw [← before, List.drop_left, ← length, List.take_left]

theorem not_neg_iff : ¬ index < 0 ↔ index.toUInt32.toNat < 0x80000000 := by
  have signed : index.toInt = if 2 * index.toUInt32.toNat < 2 ^ 32 then (index.toUInt32.toNat : Int)
      else index.toUInt32.toNat - 2 ^ 32 := BitVec.toInt_eq_toNat_cond index.toBitVec
  have bound := index.toUInt32.toNat_lt
  rw [Int32.lt_iff_toInt_lt, signed, Int32.toInt_zero]
  split <;> omega

theorem index?_append (four : front.length = 4) :
    index? (front ++ (word 4 index.toUInt32.toNat ++ back)) =
      if index < 0 then none else some index.toUInt32 := by
  have number : littleEndian (word 4 index.toUInt32.toNat) = index.toUInt32.toNat :=
    littleEndian_word index.toUInt32.toNat_lt
  rw [index?, take_drop_append four (length_word 4 _), number]
  simp only [← not_neg_iff, ite_not, UInt32.ofNat_toNat]

/-! ## Options -/

/-- The walk over options takes one at a time, as far as they fit. -/
theorem optionProposals_cons (kind units : UInt8) (rest : Bytes) :
    optionProposals ifIndex family (kind :: units :: rest) =
      let option := rest.take (units.toNat * 8 - 2)
      if units.toNat ≠ 0 ∧ units.toNat * 8 ≤ 2 + rest.length then
        (if kind = resolverOption then
          [.proposal ifIndex advertised family
            (if Bytes.toNumber ((option.drop 2).take 4) = 0 then [] else option.drop 6)]
        else []) ++ optionProposals ifIndex family (rest.drop (units.toNat * 8 - 2))
      else [] := by
  rw [optionProposals]
  simp only
  by_cases zero : units.toNat * 8 = 0
  · rw [if_pos zero, if_neg (by omega)]
  rw [if_neg zero]
  split
  · next short =>
    have beyond := Bytes.splitAt?_eq_none_iff.mp short
    rw [if_neg (by omega)]
  · next option behind cut =>
    obtain ⟨rfl, length⟩ := Bytes.splitAt?_eq_some_iff.mp cut
    have fits : units.toNat ≠ 0 ∧ units.toNat * 8 ≤ 2 + (option ++ behind).length := by
      rw [List.length_append]
      omega
    rw [if_pos fits, ← length, List.take_left, List.drop_left]

theorem optionProposals_of_noOption (stops : NoOption m) :
    optionProposals ifIndex family m = [] := by
  cases stops with
  | short h =>
    rw [optionProposals]
    rintro kind units rest rfl
    simp only [List.length_cons] at h
    omega
  | @misfit kind units rest h =>
    have misfits : ¬ (units.toNat ≠ 0 ∧ units.toNat * 8 ≤ 2 + rest.length) := by
      rcases h with rfl | h
      · exact fun fits => fits.1 rfl
      · omega
    rw [optionProposals_cons]
    exact if_neg misfits

theorem optionProposals_append {units : UInt8} {data : Bytes}
    (size : units.toNat * 8 = 2 + data.length) (kind : UInt8) (rest : Bytes) :
    optionProposals ifIndex family (kind :: units :: (data ++ rest)) =
      (if kind = resolverOption then
        [.proposal ifIndex advertised family
          (if Bytes.toNumber ((data.drop 2).take 4) = 0 then [] else data.drop 6)]
      else []) ++ optionProposals ifIndex family rest := by
  have fits : units.toNat ≠ 0 ∧ units.toNat * 8 ≤ 2 + (data ++ rest).length := by
    rw [List.length_append]
    omega
  rw [optionProposals_cons]
  simp only
  rw [if_pos fits, size, Nat.add_sub_cancel_left, List.take_left, List.drop_left]

theorem optionProposals_encode (o : NeighborOption) (rest : Bytes) :
    optionProposals ifIndex family (o.encode ++ rest) =
      o.routes ifIndex family ++ optionProposals ifIndex family rest := by
  cases o with
  | resolvers units reserved lifetime addresses two size =>
    have length :
        units.toNat * 8 = 2 + (reserved ++ (Bytes.of32 lifetime ++ addresses)).length := by
      rw [List.length_append, List.length_append, two, Bytes.length_of32]
      omega
    have behind : (reserved ++ (Bytes.of32 lifetime ++ addresses)).drop 6 = addresses := by
      rw [← List.append_assoc]
      exact List.drop_left' (by rw [List.length_append, two, Bytes.length_of32])
    refine (optionProposals_append length resolverOption rest).trans ?_
    rw [if_pos rfl, take_drop_append two (Bytes.length_of32 lifetime), Bytes.toNumber_of32,
      behind, NeighborOption.routes]
    simp only [← UInt32.toNat_inj, UInt32.toNat_zero]
  | other kind units data different size =>
    have ignored : kind ≠ resolverOption := different
    refine (optionProposals_append size kind rest).trans ?_
    rw [if_neg ignored]
    rfl

theorem optionProposals_flatMap (options : List NeighborOption) (rest : Bytes) :
    optionProposals ifIndex family (options.flatMap (·.encode) ++ rest) =
      options.flatMap (·.routes ifIndex family) ++ optionProposals ifIndex family rest := by
  induction options with
  | nil => rfl
  | cons o options ih =>
    rw [List.flatMap_cons, List.append_assoc, optionProposals_encode, ih, List.flatMap_cons,
      List.append_assoc]

/-! ## Messages -/

theorem linkIndex?_encode (b : LinkBody) :
    linkIndex? b.encode = if b.index < 0 then none else some b.index.toUInt32 := by
  have whole : bodySize ≤ b.encode.length := by
    have := b.whole
    simp only [bodySize, LinkBody.encode, List.length_append, b.four, length_word]
    omega
  rw [linkIndex?, Bytes.hasAtLeast_eq, if_pos (decide_eq_true whole)]
  exact index?_append b.four

theorem ofUserOptions_encode (b : OptionsBody) :
    ofUserOptions b.encode = Content.ofIndex b.index fun ifIndex =>
      b.options.flatMap (·.routes ifIndex b.family.toUInt16) := by
  have whole : bodySize ≤ b.encode.length := by
    simp only [bodySize, OptionsBody.encode, List.length_cons, List.length_append, length_word,
      b.eight]
    omega
  have index : index? b.encode = if b.index < 0 then none else some b.index.toUInt32 := by
    have four : (b.family :: b.pad :: word 2 b.row.length).length = 4 := by simp
    exact index?_append four
  have family : UInt16.ofNat (littleEndian (b.encode.take 1)) = b.family.toUInt16 := by
    have one : littleEndian [b.family] = b.family.toNat := by
      simp [littleEndian, Bytes.toNumber]
    rw [OptionsBody.encode, List.take_succ_cons, List.take_zero, one]
    exact UInt16.ofNat_uInt8ToNat b.family
  have size : littleEndian ((b.encode.drop 2).take 2) = b.row.length := by
    have cut : (b.encode.drop 2).take 2 = word 2 b.row.length :=
      take_drop_append (rfl : [b.family, b.pad].length = 2) (length_word 2 _)
    rw [cut]
    exact littleEndian_word b.counted
  have split : Bytes.splitAt? b.row.length (b.encode.drop bodySize) = some (b.row, b.surplus) := by
    have front : (b.family :: b.pad :: (word 2 b.row.length ++
        (word 4 b.index.toUInt32.toNat ++ b.back))).length = bodySize := by
      simp [b.eight, bodySize]
    have octets : b.encode = (b.family :: b.pad :: (word 2 b.row.length ++
        (word 4 b.index.toUInt32.toNat ++ b.back))) ++ (b.row ++ b.surplus) := by
      simp [OptionsBody.encode]
    rw [octets, List.drop_left' front]
    exact Bytes.splitAt?_append _ _
  rw [ofUserOptions, Bytes.hasAtLeast_eq, if_pos (decide_eq_true whole), index, Content.ofIndex]
  by_cases negative : b.index < 0
  · rw [if_pos negative, if_pos negative]
  · rw [if_neg negative, if_neg negative]
    simp only [family, size, split]
    rw [OptionsBody.row, optionProposals_flatMap, optionProposals_of_noOption b.stops,
      List.append_nil]

theorem ofBody_content (c : Content) : ofBody c.kind.toNat c.body = c.routes := by
  have told (index : Int32) (tell : UInt32 → RouteMessage) :
      (if index < 0 then none else some index.toUInt32).toList.map tell =
        Content.ofIndex index fun ifIndex => [tell ifIndex] := by
    rw [Content.ofIndex]
    split <;> rfl
  cases c with
  | link b =>
    have kind : (16 : UInt16).toNat = newLink := rfl
    rw [ofBody, Content.kind, if_pos kind, Content.body, linkIndex?_encode]
    exact told b.index .info
  | removal b =>
    have kind : (17 : UInt16).toNat = deleteLink := rfl
    have other : (17 : UInt16).toNat ≠ newLink := by decide
    rw [ofBody, Content.kind, if_neg other, if_pos kind, Content.body, linkIndex?_encode]
    exact told b.index .departure
  | options b =>
    have kind : (68 : UInt16).toNat = newUserOption := rfl
    have other : (68 : UInt16).toNat ≠ newLink ∧ (68 : UInt16).toNat ≠ deleteLink := by decide
    rw [ofBody, Content.kind, if_neg other.1, if_neg other.2, if_pos kind]
    exact ofUserOptions_encode b
  | other kind body different =>
    have unlike {k : UInt16} (h : kind ≠ k) : kind.toNat ≠ k.toNat := fun same =>
      h (UInt16.toNat_inj.mp same)
    have link : kind.toNat ≠ newLink := unlike different.1
    have removal : kind.toNat ≠ deleteLink := unlike different.2.1
    have options : kind.toNat ≠ newUserOption := unlike different.2.2
    rw [ofBody, Content.kind, if_neg link, if_neg removal, if_neg options]
    rfl

/-- The walk over messages takes one at a time, as far as they fit. -/
theorem ofDatagram_eq (m : Bytes) : ofDatagram m =
    let size := littleEndian (m.take 4)
    if headerSize ≤ size ∧ size ≤ m.length then
      ofBody (littleEndian ((m.drop 4).take 2)) ((m.drop headerSize).take (size - headerSize)) ++
        ofDatagram (m.drop (align size))
    else [] := by
  rw [ofDatagram]
  split
  · next short =>
    have beyond := Bytes.splitAt?_eq_none_iff.mp short
    exact (if_neg (by omega)).symm
  · next header rest cut =>
    obtain ⟨rfl, full⟩ := Bytes.splitAt?_eq_some_iff.mp cut
    have four : 4 ≤ header.length := full ▸ by decide
    have six : 2 ≤ (header.drop 4).length := by
      rw [List.length_drop, full]
      decide
    have fits : headerSize ≤ littleEndian (header.take 4) ∧
          Bytes.hasAtLeast (littleEndian (header.take 4) - headerSize) rest = true ↔
        headerSize ≤ littleEndian (header.take 4) ∧
          littleEndian (header.take 4) ≤ (header ++ rest).length := by
      rw [Bytes.hasAtLeast_eq, decide_eq_true_eq, List.length_append, full]
      omega
    simp only [List.take_append_of_le_length four, List.drop_append_of_le_length four,
      List.take_append_of_le_length six, List.drop_left' full, fits, dite_eq_ite]

theorem ofDatagram_of_noMessage (stops : NoMessage m) : ofDatagram m = [] := by
  rw [ofDatagram_eq]
  refine if_neg ?_
  rw [headerSize]
  cases stops with
  | short h => omega
  | @misfit size others behind twelve h =>
    have number : littleEndian ((word 4 size.toNat ++ (others ++ behind)).take 4) = size.toNat := by
      rw [List.take_left' (length_word 4 _)]
      exact littleEndian_word size.toNat_lt
    rw [number, List.length_append, List.length_append, length_word, twelve]
    omega

theorem ofDatagram_encode (msg : Message) (tail : Bytes) :
    ofDatagram (msg.encode ++ tail) = msg.content.routes ++ ofDatagram tail := by
  have counted : littleEndian ((msg.encode ++ tail).take 4) = 16 + msg.content.body.length := by
    rw [Message.encode, List.append_assoc, List.take_left' (length_word 4 _)]
    exact littleEndian_word msg.size
  have kind : littleEndian (((msg.encode ++ tail).drop 4).take 2) = msg.content.kind.toNat := by
    rw [Message.encode, List.append_assoc, List.append_assoc,
      take_drop_append (length_word 4 _) (length_word 2 _)]
    exact littleEndian_word msg.content.kind.toNat_lt
  have body : ((msg.encode ++ tail).drop 16).take msg.content.body.length = msg.content.body := by
    have octets : msg.encode ++ tail = (word 4 (16 + msg.content.body.length) ++
        (word 2 msg.content.kind.toNat ++ msg.fields)) ++
          (msg.content.body ++ (msg.padding ++ tail)) := by
      simp [Message.encode]
    rw [octets]
    exact take_drop_append (by simp [msg.ten]) rfl
  have length : msg.encode.length = align (16 + msg.content.body.length) := by
    have short := msg.short
    have aligned := msg.aligned
    simp only [Message.encode, List.length_append, length_word, msg.ten, align]
    omega
  have fits : headerSize ≤ 16 + msg.content.body.length ∧
      16 + msg.content.body.length ≤ (msg.encode ++ tail).length := by
    have padded := le_align (16 + msg.content.body.length)
    rw [List.length_append, length, headerSize]
    omega
  rw [ofDatagram_eq]
  simp only [counted]
  rw [if_pos fits, kind, headerSize, Nat.add_sub_cancel_left, body, ← length, List.drop_left,
    ofBody_content]

theorem ofDatagram_flatMap (messages : List Message) (tail : Bytes) :
    ofDatagram (messages.flatMap (·.encode) ++ tail) =
      messages.flatMap (·.content.routes) ++ ofDatagram tail := by
  induction messages with
  | nil => rfl
  | cons msg messages ih =>
    rw [List.flatMap_cons, List.append_assoc, ofDatagram_encode, ih, List.flatMap_cons,
      List.append_assoc]

/-! ## Walking by position

Where an octet outside of the datagram, or of the part that is walked, would be fetched there
is no result at all.
-/

def fetchIndex (body : Bytes) : Option (Option UInt32) := do
  if body.length < bodySize then return none
  else
    let n := littleEndian (← body.fetch? 4 4)
    return if n < 0x80000000 then some (UInt32.ofNat n) else none

def fetchOptions (ifIndex : UInt32) (family : UInt16) (m : Bytes) (pos : Nat) :
    Option (List RouteMessage) := do
  if pos + 2 ≤ m.length then
    let kind ← m[pos]?
    let units ← m[pos + 1]?
    if _fits : units ≠ 0 ∧ pos + units.toNat * 8 ≤ m.length then
      let found ← if kind = resolverOption then do
          let lifetime := Bytes.toNumber (← m.fetch? (pos + 4) 4)
          let addresses ← m.fetch? (pos + 8) (units.toNat * 8 - 8)
          pure [.proposal ifIndex advertised family (if lifetime = 0 then [] else addresses)]
        else pure []
      let others ← fetchOptions ifIndex family m (pos + units.toNat * 8)
      return found ++ others
    else return []
  else return []
termination_by m.length - pos
decreasing_by
  have nonzero : units.toNat ≠ 0 := fun h => _fits.1 (UInt8.toNat_inj.mp h)
  omega

def fetchUserOptions (body : Bytes) : Option (List RouteMessage) := do
  match ← fetchIndex body with
  | none => return []
  | some ifIndex =>
    let family := UInt16.ofNat (littleEndian (← body.fetch? 0 1))
    let size := littleEndian (← body.fetch? 2 2)
    if bodySize + size ≤ body.length then
      fetchOptions ifIndex family (← body.fetch? bodySize size) 0
    else return []

def fetchBody (kind : Nat) (body : Bytes) : Option (List RouteMessage) := do
  if kind = newLink then return (← fetchIndex body).toList.map .info
  else if kind = deleteLink then return (← fetchIndex body).toList.map .departure
  else if kind = newUserOption then fetchUserOptions body
  else return []

def fetchMessages (m : Bytes) (pos : Nat) : Option (List RouteMessage) := do
  if _whole : pos + headerSize ≤ m.length then
    let size ← m.fetch? pos 4
    let kind ← m.fetch? (pos + 4) 2
    if _fits : headerSize ≤ littleEndian size ∧ pos + littleEndian size ≤ m.length then
      let body ← m.fetch? (pos + headerSize) (littleEndian size - headerSize)
      let found ← fetchBody (littleEndian kind) body
      let others ← fetchMessages m (pos + align (littleEndian size))
      return found ++ others
    else return []
  else return []
termination_by m.length - pos
decreasing_by
  have padded := le_align (littleEndian size)
  obtain ⟨large, inside⟩ := _fits
  rw [headerSize] at large _whole
  omega

theorem fetchIndex_eq (body : Bytes) : fetchIndex body = some (linkIndex? body) := by
  rw [fetchIndex, linkIndex?, Bytes.hasAtLeast_eq]
  by_cases whole : bodySize ≤ body.length
  · have inside : 4 + 4 ≤ body.length := Nat.le_trans (by decide) whole
    rw [if_neg (Nat.not_lt.mpr whole), if_pos (decide_eq_true whole), Bytes.fetch?_of_le inside]
    rfl
  · rw [if_pos (Nat.lt_of_not_le whole), if_neg (by simpa using whole)]
    rfl

theorem fetchOptions_eq (ifIndex : UInt32) (family : UInt16) (m : Bytes) (pos : Nat) :
    fetchOptions ifIndex family m pos = some (optionProposals ifIndex family (m.drop pos)) := by
  induction left : m.length - pos using Nat.strongRecOn generalizing pos with
  | ind left ih =>
    rw [fetchOptions]
    by_cases whole : pos + 2 ≤ m.length
    · have here : pos < m.length := by omega
      have there : pos + 1 < m.length := by omega
      obtain ⟨kind, at_pos, behind⟩ := Bytes.exists_drop_eq_cons here
      obtain ⟨units, at_next, further⟩ := Bytes.exists_drop_eq_cons there
      rw [if_pos whole, at_pos, at_next, behind, further, optionProposals_cons]
      simp only [Option.bind_eq_bind, Option.bind_some]
      have nonzero : units ≠ 0 ↔ units.toNat ≠ 0 := not_congr UInt8.toNat_inj.symm
      -- An option of one unit has room for a lifetime, and so neither slice can miss.
      by_cases fits : units ≠ 0 ∧ pos + units.toNat * 8 ≤ m.length
      · have counted := nonzero.mp fits.1
        have inside := fits.2
        have room : units.toNat ≠ 0 ∧ units.toNat * 8 ≤ 2 + (m.drop (pos + 1 + 1)).length := by
          rw [List.length_drop]
          omega
        have lifetime_at : pos + 4 + 4 ≤ m.length := by omega
        have addresses_at : pos + 8 + (units.toNat * 8 - 8) ≤ m.length := by omega
        have lifetime : ((((m.drop (pos + 1 + 1)).take (units.toNat * 8 - 2)).drop 2).take 4) =
            (m.drop (pos + 4)).take 4 := by
          rw [List.drop_take, List.take_take, List.drop_drop, Nat.min_eq_left (by omega)]
        have addresses : ((m.drop (pos + 1 + 1)).take (units.toNat * 8 - 2)).drop 6 =
            (m.drop (pos + 8)).take (units.toNat * 8 - 8) := by
          rw [List.drop_take, List.drop_drop, Nat.sub_sub]
        have next : pos + 1 + 1 + (units.toNat * 8 - 2) = pos + units.toNat * 8 := by omega
        rw [dif_pos fits, if_pos room, Bytes.fetch?_of_le lifetime_at,
          Bytes.fetch?_of_le addresses_at, ih _ (by omega) _ rfl]
        simp only [lifetime, addresses, List.drop_drop, next]
        split <;> rfl
      · have misfits :
            ¬ (units.toNat ≠ 0 ∧ units.toNat * 8 ≤ 2 + (m.drop (pos + 1 + 1)).length) := by
          rw [nonzero] at fits
          rw [List.length_drop]
          omega
        rw [dif_neg fits, if_neg misfits]
        rfl
    · have short : NoOption (m.drop pos) := by
        refine .short ?_
        rw [List.length_drop]
        omega
      rw [if_neg whole, optionProposals_of_noOption short]
      rfl

theorem fetchUserOptions_eq (body : Bytes) : fetchUserOptions body = some (ofUserOptions body) := by
  rw [fetchUserOptions, fetchIndex_eq, ofUserOptions, linkIndex?, Bytes.hasAtLeast_eq]
  by_cases whole : bodySize ≤ body.length
  · rw [if_pos (decide_eq_true whole), if_pos (decide_eq_true whole)]
    simp only [Option.bind_eq_bind, Option.bind_some]
    cases index? body with
    | none => rfl
    | some ifIndex =>
    have family_at : 0 + 1 ≤ body.length := Nat.le_trans (by decide) whole
    have size_at : 2 + 2 ≤ body.length := Nat.le_trans (by decide) whole
    simp only [Bytes.fetch?_of_le family_at, Bytes.fetch?_of_le size_at, Option.bind_some,
      List.drop_zero, Bytes.splitAt?_drop whole]
    split
    · next fits =>
      rw [Bytes.fetch?_of_le fits]
      exact fetchOptions_eq _ _ _ 0
    · rfl
  · have short : ¬ decide (bodySize ≤ body.length) = true := by simpa using whole
    rw [if_neg short, if_neg short]
    rfl

theorem fetchBody_eq (kind : Nat) (body : Bytes) :
    fetchBody kind body = some (ofBody kind body) := by
  rw [fetchBody, fetchIndex_eq, fetchUserOptions_eq, ofBody]
  split
  · rfl
  split
  · rfl
  split <;> rfl

theorem fetchMessages_eq (m : Bytes) (pos : Nat) :
    fetchMessages m pos = some (ofDatagram (m.drop pos)) := by
  induction left : m.length - pos using Nat.strongRecOn generalizing pos with
  | ind left ih =>
    rw [fetchMessages]
    by_cases whole : pos + headerSize ≤ m.length
    · have sixteen : headerSize = 16 := rfl
      have size_at : pos + 4 ≤ m.length := by omega
      have kind_at : pos + 4 + 2 ≤ m.length := by omega
      rw [dif_pos whole, Bytes.fetch?_of_le size_at, Bytes.fetch?_of_le kind_at, ofDatagram_eq,
        List.drop_drop, List.drop_drop]
      simp only [Option.bind_eq_bind, Option.bind_some]
      generalize littleEndian ((m.drop pos).take 4) = size
      by_cases fits : headerSize ≤ size ∧ pos + size ≤ m.length
      · have body_at : pos + headerSize + (size - headerSize) ≤ m.length := by omega
        have room : headerSize ≤ size ∧ size ≤ (m.drop pos).length := by
          rw [List.length_drop]
          omega
        have padded := le_align size
        rw [dif_pos fits, if_pos room, Bytes.fetch?_of_le body_at, Option.bind_some, fetchBody_eq,
          ih _ (by omega) _ rfl]
        simp only [Option.bind_some, List.drop_drop]
        rfl
      · have misfits : ¬ (headerSize ≤ size ∧ size ≤ (m.drop pos).length) := by
          rw [List.length_drop]
          omega
        rw [dif_neg fits, if_neg misfits]
        rfl
    · have short : NoMessage (m.drop pos) := by
        refine .short ?_
        rw [headerSize] at whole
        rw [List.length_drop]
        omega
      rw [dif_neg whole, ofDatagram_of_noMessage short]
      rfl

/-- From messages as they are written the walk recovers what they tell, in their order, and goes
on behind the last. Where no other message begins it ends with what it has found. It comes to an
end in every datagram, and fetches no octet outside of it. -/
theorem walk_recovers (messages : List Message) (tail : Bytes) :
    ofDatagram (messages.flatMap (·.encode) ++ tail) =
        messages.flatMap (·.content.routes) ++ ofDatagram tail ∧
      (NoMessage tail → ofDatagram (messages.flatMap (·.encode) ++ tail) =
        messages.flatMap (·.content.routes)) ∧
      ∀ m, fetchMessages m 0 = some (ofDatagram m) := by
  refine ⟨ofDatagram_flatMap messages tail, ?_, fun m => fetchMessages_eq m 0⟩
  intro stops
  rw [ofDatagram_flatMap, ofDatagram_of_noMessage stops, List.append_nil]

/-- A link without an index, options of which the last counts no unit, a removal, and a message
that counts more than there is. -/
theorem walk_recovers_in_three : ∃ (messages : List Message) (tail : Bytes),
    messages.map (·.content.kind) = [16, 68, 17] ∧ NoMessage tail ∧
      ofDatagram (messages.flatMap (·.encode) ++ tail) =
        [.proposal 3 59 10 [], .proposal 3 59 10 [9, 9, 9, 9, 9, 9, 9, 9], .departure 4] := by
  let eight : Bytes := [0, 0, 0, 0, 0, 0, 0, 0]
  let ten : Bytes := [0, 0, 0, 0, 0, 0, 0, 0, 0, 0]
  let nines : Bytes := [9, 9, 9, 9, 9, 9, 9, 9]
  let link : Content := .link ⟨[0, 0, 0, 0], -1, eight, rfl, by decide⟩
  let listed : Content := .options ⟨10, 0, 3, eight, [.resolvers 1 [0, 0] 0 [] rfl rfl,
    .other 24 1 [0, 0, 0, 0, 0, 0] (by decide) rfl, .resolvers 2 [0, 0] 600 nines rfl rfl],
    [25, 0, 7], [], rfl, .misfit 25 (.inl rfl), by decide⟩
  let removal : Content := .removal ⟨[0, 0, 0, 0], 4, eight, rfl, by decide⟩
  let messages : List Message := [⟨link, ten, [], rfl, by decide, by decide, by decide⟩,
    ⟨listed, ten, [0], rfl, by decide, by decide, by decide⟩,
    ⟨removal, ten, [], rfl, by decide, by decide, by decide⟩]
  let tail : Bytes := word 4 200 ++ (([16, 0] ++ ten) ++ nines)
  have stops : NoMessage tail := @NoMessage.misfit 200 ([16, 0] ++ ten) nines rfl (.inr (by decide))
  refine ⟨messages, tail, rfl, stops, ?_⟩
  rw [(walk_recovers messages tail).2.1 stops]
  rfl

end Kernel

end ResolverGate
