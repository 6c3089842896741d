import ResolverGate.Network.Monitor
import ResolverGate.Proofs.Backend.Framing
import ResolverGate.Proofs.Backend.Payload

/-! # What the engine learns of the network

Every routing message is discarded or calls for one request. The requests are sent in the
order of the messages, up to the first that the channel refuses. The addresses of a proposal
reach the engine octet for octet.
-/

namespace ResolverGate

namespace IpAddress

variable {family : AddressFamily} {m : Bytes} {as : List IpAddress}

theorem length_flatMap_octets (uniform : ∀ a ∈ as, a.family = family) :
    (as.flatMap (·.octets)).length = family.addressLength * as.length := by
  induction as with
  | nil => rfl
  | cons a as ih =>
    have first : a.octets.length = family.addressLength :=
      a.length_octets.trans (congrArg _ (uniform a List.mem_cons_self))
    rw [List.flatMap_cons, List.length_append, first, List.length_cons, Nat.mul_succ, Nat.add_comm,
      ih fun b hb => uniform b (List.mem_cons_of_mem _ hb)]

theorem exists_flatMap_octets {n : Nat} (h : m.length = family.addressLength * n) :
    ∃ as : List IpAddress, (∀ a ∈ as, a.family = family) ∧ m = as.flatMap (·.octets) := by
  induction n generalizing m with
  | zero =>
    obtain rfl := List.eq_nil_of_length_eq_zero h
    exact ⟨[], by simp, rfl⟩
  | succ n ih =>
    rw [Nat.mul_succ] at h
    have front : (m.take family.addressLength).length = family.addressLength := by
      rw [List.length_take]
      omega
    obtain ⟨as, uniform, rest⟩ := @ih (m.drop family.addressLength) (by
      rw [List.length_drop]
      omega)
    refine ⟨⟨family, _, front⟩ :: as, ?_, ?_⟩
    · rintro a (_ | ⟨_, ha⟩)
      · rfl
      · exact uniform a ha
    · rw [List.flatMap_cons, ← rest, List.take_append_drop]

end IpAddress

/-! ## What a message calls for -/

namespace RouteMessage

/-- The numbers of the address families in the system. -/
inductive Numbered : UInt16 → AddressFamily → Prop
  | inet : Numbered 2 .inet
  | inet6 : Numbered 10 .inet6

def addressOctets : RouteMessage → Bytes
  | proposal _ _ _ payload => payload
  | _ => []

/-- The request that a message calls for. -/
inductive CallsFor : RouteMessage → Request → Prop
  | info (ifIndex : UInt32) : CallsFor (.info ifIndex) .networkChanged
  | departure (ifIndex : UInt32) :
      CallsFor (.departure ifIndex) (.replaceResolvers ⟨ifIndex, 0, .inet, []⟩)
  | proposal {number : UInt16} {family : AddressFamily} {addresses : List IpAddress}
      (ifIndex : UInt32) (source : UInt8) (known : Numbered number family)
      (uniform : ∀ a ∈ addresses, a.family = family) :
      CallsFor (.proposal ifIndex source number (addresses.flatMap (·.octets)))
        (.replaceResolvers ⟨ifIndex, source, family, addresses⟩)

inductive Discarded : RouteMessage → Prop
  | arrival (ifIndex : UInt32) : Discarded (.arrival ifIndex)
  | family {number : UInt16} (ifIndex : UInt32) (source : UInt8) (payload : Bytes)
      (unknown : ∀ family, ¬ Numbered number family) :
      Discarded (.proposal ifIndex source number payload)
  | length {number : UInt16} {family : AddressFamily} {payload : Bytes} (ifIndex : UInt32)
      (source : UInt8) (known : Numbered number family)
      (ragged : ¬ family.addressLength ∣ payload.length) :
      Discarded (.proposal ifIndex source number payload)

inductive Call : List RouteMessage → List Request → Prop
  | nil : Call [] []
  | discarded {message : RouteMessage} {messages : List RouteMessage} {requests : List Request}
      (h : message.Discarded) (rest : Call messages requests) : Call (message :: messages) requests
  | request {message : RouteMessage} {messages : List RouteMessage} {request : Request}
      {requests : List Request} (h : message.CallsFor request) (rest : Call messages requests) :
      Call (message :: messages) (request :: requests)

variable {message : RouteMessage} {messages : List RouteMessage} {request : Request}
  {requests : List Request}

theorem discarded_or_callsFor (message : RouteMessage) :
    message.Discarded ∨ ∃ request, message.CallsFor request := by
  cases message with
  | arrival ifIndex => exact .inl (.arrival ifIndex)
  | departure ifIndex => exact .inr ⟨_, .departure ifIndex⟩
  | info ifIndex => exact .inr ⟨_, .info ifIndex⟩
  | proposal ifIndex source number payload =>
    by_cases known : ∃ family, Numbered number family
    · obtain ⟨family, known⟩ := known
      by_cases whole : family.addressLength ∣ payload.length
      · obtain ⟨n, size⟩ := whole
        obtain ⟨addresses, uniform, rfl⟩ := IpAddress.exists_flatMap_octets size
        exact .inr ⟨_, .proposal ifIndex source known uniform⟩
      · exact .inl (.length ifIndex source known whole)
    · exact .inl (.family ifIndex source payload fun family h => known ⟨family, h⟩)

theorem exists_call (messages : List RouteMessage) : ∃ requests, Call messages requests := by
  induction messages with
  | nil => exact ⟨[], .nil⟩
  | cons message messages ih =>
    obtain ⟨requests, rest⟩ := ih
    rcases discarded_or_callsFor message with discarded | ⟨request, h⟩
    · exact ⟨requests, .discarded discarded rest⟩
    · exact ⟨request :: requests, .request h rest⟩

theorem Call.exists_message (h : Call messages requests) (mem : request ∈ requests) :
    ∃ message ∈ messages, message.CallsFor request := by
  induction h with
  | nil => cases mem
  | discarded _ _ ih =>
    obtain ⟨message, hm, calls⟩ := ih mem
    exact ⟨message, List.mem_cons_of_mem _ hm, calls⟩
  | request calls _ ih =>
    rcases List.mem_cons.mp mem with rfl | mem
    · exact ⟨_, List.mem_cons_self, calls⟩
    · obtain ⟨message, hm, calls⟩ := ih mem
      exact ⟨message, List.mem_cons_of_mem _ hm, calls⟩

end RouteMessage

namespace NetworkEvent

open RouteMessage

variable {message : RouteMessage} {request : Request}

theorem systemFamily?_eq_some_iff {number : UInt16} {family : AddressFamily} :
    systemFamily? number = some family ↔ Numbered number family := by
  constructor
  · intro h
    unfold systemFamily? at h
    split at h
    · next eq =>
      obtain rfl := Option.some.inj h
      exact eq ▸ .inet
    · split at h
      · next eq =>
        obtain rfl := Option.some.inj h
        exact eq ▸ .inet6
      · simp at h
  · rintro (_ | _) <;> rfl

theorem classify_of_discarded (h : message.Discarded) : (classify message).1 = none := by
  cases h with
  | arrival => rfl
  | family ifIndex source payload unknown =>
    have none := Option.eq_none_iff_forall_ne_some.mpr fun family h =>
      unknown family (systemFamily?_eq_some_iff.mp h)
    rw [classify, none]
  | @length number family payload ifIndex source known ragged =>
    rw [classify, systemFamily?_eq_some_iff.mpr known]
    cases hc : IpAddress.chunks family payload with
    | mk addresses surplus =>
      cases surplus with
      | nil =>
        obtain ⟨uniform, rfl⟩ := IpAddress.chunks_eq_iff.mp hc
        exact absurd ⟨_, IpAddress.length_flatMap_octets uniform⟩ ragged
      | cons => simp only [hc]

theorem classify_of_callsFor (h : message.CallsFor request) :
    ∃ event notices, classify message = (some event, notices) ∧ event.request = request := by
  cases h with
  | info => exact ⟨_, _, rfl, rfl⟩
  | departure => exact ⟨_, _, rfl, rfl⟩
  | @proposal number family addresses ifIndex source known uniform =>
    refine ⟨.proposal ⟨ifIndex, source, family, addresses⟩, [], ?_, rfl⟩
    rw [classify, systemFamily?_eq_some_iff.mpr known]
    simp only [IpAddress.chunks_eq_iff.mpr ⟨uniform, rfl⟩]

end NetworkEvent

namespace RouteMessage

variable {message : RouteMessage} {messages : List RouteMessage} {request other : Request}
  {requests others : List Request}

theorem CallsFor.not_discarded (h : message.CallsFor request) : ¬ message.Discarded := by
  intro discarded
  obtain ⟨event, notices, calls, -⟩ := NetworkEvent.classify_of_callsFor h
  have none := NetworkEvent.classify_of_discarded discarded
  rw [calls] at none
  cases none

theorem CallsFor.unique (h : message.CallsFor request) (h' : message.CallsFor other) :
    other = request := by
  obtain ⟨event, notices, calls, rfl⟩ := NetworkEvent.classify_of_callsFor h
  obtain ⟨event', notices', calls', rfl⟩ := NetworkEvent.classify_of_callsFor h'
  rw [calls, Prod.mk.injEq, Option.some.injEq] at calls'
  rw [calls'.1]

theorem Call.unique (h : Call messages requests) (h' : Call messages others) :
    others = requests := by
  induction h generalizing others with
  | nil => cases h'; rfl
  | discarded discarded _ ih =>
    cases h' with
    | discarded _ rest => exact ih rest
    | request calls _ => exact absurd discarded calls.not_discarded
  | request calls _ ih =>
    cases h' with
    | discarded discarded _ => exact absurd discarded calls.not_discarded
    | request calls' rest => rw [calls.unique calls', ih rest]

end RouteMessage

/-! ## Addresses in frames -/

namespace RouteMessage

/-- Octets of addresses that one option has room for: 255 units of eight octets, less the
octets in front of the addresses. -/
def maxAddressOctets : Nat := 255 * 8 - 8

variable {message : RouteMessage} {p : Proposal}

theorem length_of_mem_optionProposals {ifIndex : UInt32} {number : UInt16} {m : Bytes}
    (h : message ∈ optionProposals ifIndex number m) :
    message.addressOctets.length ≤ maxAddressOctets := by
  fun_induction optionProposals ifIndex number m with
  | case1 => cases h
  | case2 => cases h
  | case3 kind units rest size _ option after split found ih =>
    rcases List.mem_append.mp h with h | h
    · have room : option.length = units.toNat * 8 - 2 := (Bytes.splitAt?_eq_some_iff.mp split).2
      have most := units.toNat_lt
      unfold found at h
      split at h
      · obtain rfl := List.mem_singleton.mp h
        rw [addressOctets, maxAddressOctets]
        split
        · exact Nat.zero_le _
        · rw [List.length_drop]
          omega
      · cases h
    · exact ih h
  | case4 => cases h

theorem length_of_mem_ofUserOptions {body : Bytes} (h : message ∈ ofUserOptions body) :
    message.addressOctets.length ≤ maxAddressOctets := by
  unfold ofUserOptions at h
  split at h
  · split at h
    · cases h
    · simp only at h
      split at h
      · cases h
      · exact length_of_mem_optionProposals h
  · cases h

theorem length_of_mem_ofBody {kind : Nat} {body : Bytes} (h : message ∈ ofBody kind body) :
    message.addressOctets.length ≤ maxAddressOctets := by
  have link {f : UInt32 → RouteMessage} (none : ∀ i, (f i).addressOctets = [])
      (h : message ∈ (linkIndex? body).toList.map f) :
      message.addressOctets.length ≤ maxAddressOctets := by
    obtain ⟨i, -, rfl⟩ := List.mem_map.mp h
    rw [none]
    exact Nat.zero_le _
  unfold ofBody at h
  split at h
  · exact link (fun _ => rfl) h
  split at h
  · exact link (fun _ => rfl) h
  split at h
  · exact length_of_mem_ofUserOptions h
  · cases h

theorem length_of_mem_ofDatagram {m : Bytes} (h : message ∈ ofDatagram m) :
    message.addressOctets.length ≤ maxAddressOctets := by
  fun_induction ofDatagram m with
  | case1 => cases h
  | case2 m header rest _ size kind _ ih =>
    rcases List.mem_append.mp h with h | h
    · exact length_of_mem_ofBody h
    · exact ih h
  | case3 => cases h

/-- A proposal passes on the addresses of a message: they are all of its family, their octets
are the message's, and it comes out of its frame, which is not too long, as it was. -/
structure Carries (message : RouteMessage) (p : Proposal) : Prop where
  uniform : ∀ a ∈ p.addresses, a.family = p.family
  octets : p.addresses.flatMap (·.octets) = message.addressOctets
  survives : Request.ofFrame (Request.replaceResolvers p).toFrame = .ok (some (.replaceResolvers p))
  fits : (Request.replaceResolvers p).toFrame.Fits

theorem CallsFor.carries (h : message.CallsFor (.replaceResolvers p))
    (short : message.addressOctets.length ≤ maxAddressOctets) : message.Carries p := by
  have uniform : ∀ a ∈ p.addresses, a.family = p.family := by
    cases h with
    | departure => simp
    | proposal _ _ _ uniform => exact uniform
  have octets : p.addresses.flatMap (·.octets) = message.addressOctets := by
    cases h <;> rfl
  refine ⟨uniform, octets, Request.ofFrame_toFrame uniform, ?_⟩
  rw [Frame.Fits, Request.toFrame, List.length_append, List.length_cons, List.length_cons, octets,
    Bytes.length_of32, Frame.maxPayload]
  rw [maxAddressOctets] at short
  omega

end RouteMessage

/-! ## What is sent -/

namespace NetworkMonitor

open RouteMessage

/-- The channel takes all of these requests, the first of them as the `n`th of the operation. -/
def Accepts (backend : Backend) (n : Nat) (requests : List Request) : Prop :=
  ∀ i r, requests[i]? = some r → backend (n + i) r = .ok ()

/-- The requests are sent in order: all of them, with an event for each, or those in front of
the first that the channel refuses. -/
inductive Delivered (backend : Backend) (n : Nat) (requests : List Request) (report : Report) :
    Prop
  | all (accepted : Accepts backend n requests) (result : report.result = .ok ())
      (sent : report.sent = requests) (events : report.events.map (·.request) = requests)
  | cut {before after : List Request} {r : Request} {e : Fault}
      (split : requests = before ++ r :: after) (accepted : Accepts backend n before)
      (refused : backend (n + before.length) r = .error e) (result : report.result = .error e)
      (sent : report.sent = before)

variable {backend : Backend} {n : Nat} {message : RouteMessage} {messages : List RouteMessage}
  {r : Request} {requests : List Request}

theorem accepts_nil : Accepts backend n [] := by
  intro i r h
  simp at h

theorem accepts_cons :
    Accepts backend n (r :: requests) ↔
      backend n r = .ok () ∧ Accepts backend (n + 1) requests := by
  constructor
  · intro h
    refine ⟨h 0 r rfl, fun i r' hr => ?_⟩
    rw [Nat.add_assoc, Nat.add_comm 1]
    exact h (i + 1) r' hr
  · rintro ⟨first, rest⟩ (_ | i) r' hr
    · obtain rfl := Option.some.inj hr
      exact first
    · have later := rest i r' hr
      rwa [Nat.add_assoc, Nat.add_comm 1] at later

theorem handle_of_discarded (h : message.Discarded) :
    ∃ notices, handle backend n message = ⟨[], .ok (), [], notices⟩ := by
  have none := NetworkEvent.classify_of_discarded h
  cases hc : NetworkEvent.classify message with
  | mk event notices =>
    rw [hc] at none
    obtain rfl : event = Option.none := none
    exact ⟨notices, by rw [handle, hc]⟩

theorem handle_of_accepted (h : message.CallsFor r) (accepted : backend n r = .ok ()) :
    ∃ event notices, event.request = r ∧
      handle backend n message = ⟨[event], .ok (), [r], notices⟩ := by
  obtain ⟨event, notices, calls, rfl⟩ := NetworkEvent.classify_of_callsFor h
  exact ⟨event, notices, rfl, by simp only [handle, calls, accepted]⟩

theorem handle_of_refused {e : Fault} (h : message.CallsFor r) (refused : backend n r = .error e) :
    ∃ notices, handle backend n message = ⟨[], .error e, [], notices⟩ := by
  obtain ⟨event, notices, calls, rfl⟩ := NetworkEvent.classify_of_callsFor h
  exact ⟨notices, by simp only [handle, calls, refused]⟩

/-- A message that is discarded leaves the channel to those behind it, a request that is
refused is the last, and any other is the first of the rest's. -/
theorem delivered (h : Call messages requests) (n : Nat) :
    Delivered backend n requests (handleAll backend n messages) := by
  induction h generalizing n with
  | nil => exact .all accepts_nil rfl rfl rfl
  | discarded discarded _ ih =>
    obtain ⟨notices, first⟩ := @handle_of_discarded backend n _ discarded
    rw [handleAll, first]
    cases ih n with
    | all accepted result sent events => exact .all accepted result sent events
    | cut split accepted refused result sent => exact .cut split accepted refused result sent
  | @request message messages request requests calls _ ih =>
    cases verdict : backend n request with
    | error e =>
      obtain ⟨notices, first⟩ := handle_of_refused calls verdict
      rw [handleAll, first]
      exact .cut (show _ = [] ++ _ :: _ from rfl) accepts_nil verdict rfl rfl
    | ok _ =>
      obtain ⟨event, notices, rfl, first⟩ := handle_of_accepted calls verdict
      rw [handleAll, first]
      cases ih (n + 1) with
      | all accepted result sent events =>
        exact .all (accepts_cons.mpr ⟨verdict, accepted⟩) result
          (congrArg (event.request :: ·) sent) (congrArg (event.request :: ·) events)
      | cut split accepted refused result sent =>
        refine .cut (congrArg (event.request :: ·) split) (accepts_cons.mpr ⟨verdict, accepted⟩) ?_
          result (congrArg (event.request :: ·) sent)
        rwa [List.length_cons, ← Nat.add_assoc, Nat.add_right_comm]

/-- Of any datagram, what is sent is what its messages call for: every message is discarded or
calls for one request, and these are sent in order, up to the first that is refused. The
addresses of a proposal arrive as they were. -/
theorem handleDatagram_faithful (backend : Backend) (datagram : Bytes) :
    let messages := RouteMessage.ofDatagram datagram
    let report := handleDatagram backend datagram
    (∃ requests, Call messages requests ∧ (∀ others, Call messages others → others = requests) ∧
      Delivered backend 0 requests report) ∧
    ∀ p, .replaceResolvers p ∈ report.sent →
      ∃ message ∈ messages, message.CallsFor (.replaceResolvers p) ∧ message.Carries p := by
  intro messages report
  obtain ⟨requests, call⟩ := exists_call messages
  have sending : Delivered backend 0 requests report := delivered call 0
  refine ⟨⟨requests, call, fun _ => call.unique, sending⟩, fun p mem => ?_⟩
  have asked : .replaceResolvers p ∈ requests := by
    cases sending with
    | all _ _ sent _ => exact sent ▸ mem
    | cut split _ _ _ sent =>
      rw [split]
      exact List.mem_append_left _ (sent ▸ mem)
  obtain ⟨message, hm, calls⟩ := call.exists_message asked
  exact ⟨message, hm, calls, calls.carries (length_of_mem_ofDatagram hm)⟩

end NetworkMonitor

end ResolverGate
