import Mathlib.Data.List.Basic
import ResolverGate.Proofs.Network.Reporting

/-! # When resolvers are withdrawn

A request without addresses takes back what an interface has proposed. It is sent for a link
that is removed, for advertised resolvers whose lifetime is over, and also for an
advertisement that lists no resolver at all.
-/

namespace ResolverGate

namespace RouteMessage

/-- What stands in a row of parts: `front m a behind` says that `a` is the first of `m` and
that the others are those of `behind`. -/
inductive Among {α : Type} (front : Bytes → α → Bytes → Prop) (a : α) : Bytes → Prop
  | here {m behind : Bytes} (first : front m a behind) : Among front a m
  | behind {m behind : Bytes} {other : α} (first : front m other behind)
      (later : Among front a behind) : Among front a m

/-- The first message of a datagram, by its kind and body. The next one stands at a multiple of
four octets. -/
inductive MessageFront : Bytes → Nat × Bytes → Bytes → Prop
  | mk {header body rest : Bytes} (full : header.length = headerSize)
      (size : littleEndian (header.take 4) = headerSize + body.length) :
      MessageFront (header ++ body ++ rest) (littleEndian ((header.drop 4).take 2), body)
        ((header ++ body ++ rest).drop (align (headerSize + body.length)))

/-- The first of some options, by its kind and what follows its length, which counts units of
eight octets. -/
inductive OptionFront : Bytes → UInt8 × Bytes → Bytes → Prop
  | mk {kind units : UInt8} {data rest : Bytes} (size : units.toNat * 8 = 2 + data.length) :
      OptionFront (kind :: units :: (data ++ rest)) (kind, data) rest

structure Concerns (body : Bytes) (ifIndex : UInt32) : Prop where
  whole : bodySize ≤ body.length
  index : littleEndian ((body.drop 4).take 4) = ifIndex.toNat
  nonneg : ifIndex.toNat < 0x80000000

def Removes (m : Bytes) (ifIndex : UInt32) : Prop :=
  ∃ body, Among MessageFront (deleteLink, body) m ∧ Concerns body ifIndex

/-- An option in the datagram lists resolvers of the interface, with their lifetime. -/
inductive Advertises (m : Bytes) (ifIndex : UInt32) : UInt32 → Bytes → Prop
  | mk {body options surplus reserved addresses : Bytes} {lifetime : UInt32}
      (message : Among MessageFront (newUserOption, body) m) (concerns : Concerns body ifIndex)
      (behind : body.drop bodySize = options ++ surplus)
      (size : littleEndian ((body.drop 2).take 2) = options.length) (unused : reserved.length = 2)
      (option : Among OptionFront
        (resolverOption, reserved ++ (Bytes.of32 lifetime ++ addresses)) options) :
      Advertises m ifIndex lifetime addresses

variable {message : RouteMessage} {m body payload : Bytes} {kind : Nat} {ifIndex : UInt32}
  {source : UInt8} {number : UInt16}

/-! ## Walks -/

theorem MessageFront.eq {x : Nat × Bytes} {behind : Bytes} (h : MessageFront m x behind) :
    headerSize ≤ m.length ∧ behind = m.drop (align (littleEndian (m.take 4))) ∧
      x = (littleEndian ((m.drop 4).take 2),
        (m.drop headerSize).take (littleEndian (m.take 4) - headerSize)) := by
  obtain @⟨header, body, rest, full, size⟩ := h
  rw [headerSize] at full size
  have front {n k : Nat} (within : k + n ≤ 16) :
      ((header ++ body ++ rest).drop k).take n = (header.drop k).take n := by
    rw [List.append_assoc, List.drop_append_of_le_length (by omega),
      List.take_append_of_le_length (by rw [List.length_drop]; omega)]
  have length : littleEndian ((header ++ body ++ rest).take 4) = 16 + body.length := by
    rw [← size]
    exact congrArg littleEndian (front (n := 4) (k := 0) (by decide))
  refine ⟨by simp [headerSize, full], by rw [length]; rfl, ?_⟩
  rw [front (by decide), length, headerSize, Nat.add_sub_cancel_left, List.append_assoc,
    ← full, List.drop_left, List.take_left]

theorem OptionFront.eq {kind units : UInt8} {x : UInt8 × Bytes} {behind : Bytes}
    (h : OptionFront (kind :: units :: m) x behind) :
    behind = m.drop (units.toNat * 8 - 2) ∧ x = (kind, m.take (units.toNat * 8 - 2)) := by
  cases h with
  | @mk _ _ data _ size => simp [size]

theorem Among.eq_of_single {α : Type} {front : Bytes → α → Bytes → Prop} {a b : α}
    (h : Among front b m) (single : ∀ c behind, front m c behind → c = a ∧ behind = [])
    (none : ∀ c behind, ¬ front [] c behind) : b = a := by
  cases h with
  | here first => exact (single _ _ first).1
  | behind first later =>
    obtain ⟨-, rfl⟩ := single _ _ first
    cases later with
    | here first => exact absurd first (none _ _)
    | behind first => exact absurd first (none _ _)

theorem mem_ofDatagram (h : message ∈ ofDatagram m) :
    ∃ kind body, Among MessageFront (kind, body) m ∧ message ∈ ofBody kind body := by
  fun_induction ofDatagram m with
  | case1 => cases h
  | case2 m header rest split size kind large ih =>
    obtain ⟨whole, full⟩ := Bytes.splitAt?_eq_some_iff.mp split
    obtain ⟨header_le, room⟩ : headerSize ≤ size ∧ size - headerSize ≤ rest.length := by
      simpa using large
    let body := rest.take (size - headerSize)
    have length : littleEndian (header.take 4) = headerSize + body.length := by
      rw [List.length_take, Nat.min_eq_left room]
      exact (Nat.add_sub_cancel' header_le).symm
    have here : m = header ++ body ++ rest.drop (size - headerSize) := by
      rw [List.append_assoc, List.take_append_drop, whole]
    have first : MessageFront m (kind, body) (m.drop (align size)) := by
      rw [here, show size = headerSize + body.length from length]
      exact .mk full length
    rcases List.mem_append.mp h with h | h
    · exact ⟨kind, body, .here first, h⟩
    · obtain ⟨other, body', later, h⟩ := ih h
      exact ⟨other, body', .behind first later, h⟩
  | case3 => cases h

theorem concerns_of_index? (whole : bodySize ≤ body.length) (h : index? body = some ifIndex) :
    Concerns body ifIndex := by
  unfold index? at h
  simp only at h
  split at h
  · next small =>
    obtain rfl := Option.some.inj h
    have word : (UInt32.ofNat (littleEndian ((body.drop 4).take 4))).toNat =
        littleEndian ((body.drop 4).take 4) := by
      rw [UInt32.toNat_ofNat', Nat.mod_eq_of_lt (by omega)]
    exact ⟨whole, word.symm, by rwa [word]⟩
  · cases h

theorem exists_lifetime (data : Bytes) (room : 6 ≤ data.length) :
    ∃ (reserved addresses : Bytes) (lifetime : UInt32), reserved.length = 2 ∧
      data = reserved ++ (Bytes.of32 lifetime ++ addresses) ∧
      Bytes.toNumber ((data.drop 2).take 4) = lifetime.toNat ∧ data.drop 6 = addresses := by
  match data with
  | a :: b :: c :: d :: e :: f :: rest =>
    have word : Bytes.toNumber [c, d, e, f] < 2 ^ 32 := by
      simpa [Bytes.bound] using Bytes.toNumber_lt [c, d, e, f]
    refine ⟨[a, b], rest, UInt32.ofNat (Bytes.toNumber [c, d, e, f]), rfl, ?_, ?_, rfl⟩
    · rw [Bytes.of32_toNumber]
      rfl
    · rw [UInt32.toNat_ofNat', Nat.mod_eq_of_lt word]
      rfl

theorem mem_optionProposals (h : message ∈ optionProposals ifIndex number m) :
    ∃ (reserved addresses : Bytes) (lifetime : UInt32), reserved.length = 2 ∧
      Among OptionFront (resolverOption, reserved ++ (Bytes.of32 lifetime ++ addresses)) m ∧
      message = .proposal ifIndex advertised number (if lifetime = 0 then [] else addresses) := by
  fun_induction optionProposals ifIndex number m with
  | case1 => cases h
  | case2 => cases h
  | case3 kind units rest size nonzero option after split found ih =>
    obtain ⟨rfl, length⟩ := Bytes.splitAt?_eq_some_iff.mp split
    have first : OptionFront (kind :: units :: (option ++ after)) (kind, option) after :=
      .mk (by omega)
    rcases List.mem_append.mp h with here | others
    · unfold found at here
      split at here
      · next resolvers =>
        subst resolvers
        obtain ⟨reserved, addresses, lifetime, unused, cut, word, behind⟩ :=
          exists_lifetime option (by omega)
        refine ⟨reserved, addresses, lifetime, unused, cut ▸ .here first, ?_⟩
        rw [List.mem_singleton.mp here, word, behind]
        simp only [← UInt32.toNat_inj, UInt32.toNat_zero]
        rfl
      · cases here
    · obtain ⟨reserved, addresses, lifetime, unused, later, rfl⟩ := ih others
      exact ⟨reserved, addresses, lifetime, unused, .behind first later, rfl⟩
  | case4 => cases h

theorem mem_ofUserOptions (holds : Among MessageFront (newUserOption, body) m)
    (h : message ∈ ofUserOptions body) : ∃ ifIndex number lifetime addresses,
      Advertises m ifIndex lifetime addresses ∧
      message = .proposal ifIndex advertised number (if lifetime = 0 then [] else addresses) := by
  unfold ofUserOptions at h
  split at h
  case isFalse => cases h
  next whole =>
  rw [Bytes.hasAtLeast_eq, decide_eq_true_eq] at whole
  split at h
  · cases h
  next ifIndex index =>
  simp only at h
  split at h
  · cases h
  next options surplus split =>
  obtain ⟨behind, size⟩ := Bytes.splitAt?_eq_some_iff.mp split
  obtain ⟨reserved, addresses, lifetime, unused, option, rfl⟩ := mem_optionProposals h
  exact ⟨ifIndex, _, lifetime, addresses,
    .mk holds (concerns_of_index? whole index) behind size.symm unused option, rfl⟩

theorem removes_of_departure (h : .departure ifIndex ∈ ofDatagram m) : Removes m ifIndex := by
  obtain ⟨kind, body, holds, h⟩ := mem_ofDatagram h
  unfold ofBody at h
  split at h
  · simp at h
  split at h
  · next removal =>
    subst removal
    obtain ⟨i, index, same⟩ := List.mem_map.mp h
    obtain rfl := departure.inj same
    rw [Option.mem_toList, linkIndex?] at index
    split at index
    · next whole =>
      rw [Bytes.hasAtLeast_eq, decide_eq_true_eq] at whole
      exact ⟨body, holds, concerns_of_index? whole index⟩
    · cases index
  split at h
  · next options =>
    subst options
    obtain ⟨_, _, _, _, -, same⟩ := mem_ofUserOptions holds h
    cases same
  · cases h

theorem advertises_of_proposal (h : .proposal ifIndex source number payload ∈ ofDatagram m) :
    ∃ lifetime addresses, Advertises m ifIndex lifetime addresses ∧
      payload = if lifetime = 0 then [] else addresses := by
  obtain ⟨kind, body, holds, h⟩ := mem_ofDatagram h
  unfold ofBody at h
  split at h
  · simp at h
  split at h
  · simp at h
  split at h
  · next options =>
    subst options
    obtain ⟨i, n, lifetime, addresses, advertises, same⟩ := mem_ofUserOptions holds h
    obtain ⟨rfl, -, -, rfl⟩ := proposal.inj same
    exact ⟨lifetime, addresses, advertises, rfl⟩
  · cases h

end RouteMessage

namespace NetworkMonitor

open RouteMessage

variable {backend : Backend} {m : Bytes} {r : Request} {p : Proposal}

/-- What is sent is what a message of the datagram calls for. -/
theorem exists_calling (mem : r ∈ (handleDatagram backend m).sent) :
    ∃ message ∈ ofDatagram m, message.CallsFor r := by
  obtain ⟨requests, call⟩ := exists_call (ofDatagram m)
  have asked : r ∈ requests := by
    cases (delivered call 0 : Delivered backend 0 requests (handleDatagram backend m)) with
    | all _ _ sent _ => exact sent ▸ mem
    | cut split _ _ _ sent =>
      rw [split]
      exact List.mem_append_left _ (sent ▸ mem)
  exact call.exists_message asked

/-- Resolvers are withdrawn only for an interface whose link is removed, whose resolvers are
advertised with no lifetime, or for which none is advertised. -/
theorem withdrawals_called_for (mem : .replaceResolvers p ∈ (handleDatagram backend m).sent)
    (withdraws : p.addresses = []) :
    Removes m p.ifIndex ∨ ∃ lifetime addresses,
      Advertises m p.ifIndex lifetime addresses ∧ (lifetime = 0 ∨ addresses = []) := by
  obtain ⟨message, hm, calls⟩ := exists_calling mem
  cases calls with
  | departure ifIndex => exact .inl (removes_of_departure hm)
  | proposal ifIndex source known uniform =>
    obtain rfl : _ = [] := withdraws
    obtain ⟨lifetime, addresses, advertises, payload⟩ := advertises_of_proposal hm
    refine .inr ⟨lifetime, addresses, advertises, ?_⟩
    by_cases expired : lifetime = 0
    · exact .inl expired
    · exact .inr (by simpa [expired] using payload.symm)

/-- The link of interface 5 is removed, and its resolvers are withdrawn. -/
theorem withdrawals_called_for_removal : ∃ (m : Bytes) (p : Proposal),
    (handleDatagram (.allowing none) m).sent = [.replaceResolvers p] ∧ p.addresses = [] ∧
      p.ifIndex = 5 ∧ (Removes m p.ifIndex ∨ ∃ lifetime addresses,
        Advertises m p.ifIndex lifetime addresses ∧ (lifetime = 0 ∨ addresses = [])) := by
  let body : Bytes := [0, 0, 0, 0, 5, 0, 0, 0, 0, 0, 0, 0, 0, 0, 0, 0]
  let m : Bytes := [32, 0, 0, 0, 17, 0, 0, 0, 0, 0, 0, 0, 0, 0, 0, 0] ++ body
  have sent : (handleDatagram (.allowing none) m).sent =
      [.replaceResolvers ⟨5, 0, .inet, []⟩] := by decide +kernel
  have mem : .replaceResolvers ⟨5, 0, .inet, []⟩ ∈ (handleDatagram (.allowing none) m).sent := by
    rw [sent]
    exact List.mem_singleton_self _
  exact ⟨m, _, sent, rfl, rfl, withdrawals_called_for mem rfl⟩

/-- An option with a lifetime of 600 seconds and no resolver withdraws those of interface 3,
whose link is there. -/
theorem withdrawals_beyond_lifetimes : ∃ (m : Bytes) (p : Proposal),
    (handleDatagram (.allowing none) m).sent = [.replaceResolvers p] ∧ p.addresses = [] ∧
      ¬ Removes m p.ifIndex ∧ ∀ addresses, ¬ Advertises m p.ifIndex 0 addresses := by
  let option : Bytes := [25, 1, 0, 0, 0, 0, 2, 0x58]
  let body : Bytes := [10, 0, 8, 0, 3, 0, 0, 0, 0, 0, 0, 0, 0, 0, 0, 0] ++ option
  let m : Bytes := [40, 0, 0, 0, 68, 0, 0, 0, 0, 0, 0, 0, 0, 0, 0, 0] ++ body
  have message {x : Nat × Bytes} (h : Among MessageFront x m) : x = (newUserOption, body) := by
    refine h.eq_of_single (fun c behind first => ?_) fun c behind first => ?_
    · obtain ⟨-, rfl, rfl⟩ := first.eq
      exact ⟨rfl, by decide +kernel⟩
    · exact absurd first.eq.1 (by decide)
  have listed {x : UInt8 × Bytes} (h : Among OptionFront x option) :
      x = (25, [0, 0, 0, 0, 2, 0x58]) := by
    refine h.eq_of_single (fun c behind first => ?_) fun c behind first => ?_
    · obtain ⟨rfl, rfl⟩ := first.eq
      exact ⟨rfl, rfl⟩
    · cases first
  refine ⟨m, ⟨3, 59, .inet6, []⟩, by decide +kernel, rfl, ?_, ?_⟩
  · rintro ⟨body', removal, -⟩
    have kind : deleteLink = newUserOption := congrArg Prod.fst (message removal)
    cases kind
  · intro addresses advertises
    obtain @⟨body', options, surplus, reserved, _, _, holds, -, behind, size, unused, lists⟩ :=
      advertises
    obtain rfl : body' = body := congrArg Prod.snd (message holds)
    have eight : options.length = option.length := size.symm.trans rfl
    have front : options <+: option := ⟨surplus, behind.symm⟩
    obtain rfl := front.eq_of_length eight
    obtain ⟨_, _, rfl⟩ := List.length_eq_two.mp unused
    cases congrArg Prod.snd (listed lists)

end NetworkMonitor

end ResolverGate
