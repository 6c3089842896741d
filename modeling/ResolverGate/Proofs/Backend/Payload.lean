import ResolverGate.Backend.Payload

/-! # Requests and events in frames

What travels in a frame is what was put there. Requests with a payload have one frame
each; of an answer only the fixed part is asked for.
-/

namespace ResolverGate

namespace IpAddress

theorem chunks_eq_iff {family : AddressFamily} {m : Bytes} {as : List IpAddress} :
    chunks family m = (as, []) ↔ (∀ a ∈ as, a.family = family) ∧ m = as.flatMap (·.octets) := by
  constructor
  · intro h
    fun_induction chunks family m generalizing as with
    | case1 m hs =>
      obtain ⟨rfl, rfl⟩ : [] = as ∧ m = [] := by simpa using h
      exact ⟨by simp, rfl⟩
    | case2 m front rest hs addresses surplus hc ih =>
      obtain ⟨rfl, size⟩ := Bytes.splitAt?_eq_some_iff.mp hs
      obtain ⟨rfl, rfl⟩ : (ofOctets? family front).toList ++ addresses = as ∧ surplus = [] := by
        simpa using h
      obtain ⟨uniform, rfl⟩ := ih hc
      rw [ofOctets?, dif_pos size, Option.toList_some, List.singleton_append]
      refine ⟨?_, by simp⟩
      rintro a (_ | ⟨_, ha⟩)
      · rfl
      · exact uniform a ha
  · rintro ⟨uniform, rfl⟩
    induction as with
    | nil =>
      have short : Bytes.splitAt? family.addressLength [] = none :=
        Bytes.splitAt?_eq_none_iff.mpr family.addressLength_pos
      rw [List.flatMap_nil, chunks]
      split <;> simp_all
    | cons a as ih =>
      obtain ⟨rfl⟩ := uniform a List.mem_cons_self
      have first : Bytes.splitAt? a.family.addressLength (a.octets ++ as.flatMap (·.octets)) =
          some (a.octets, as.flatMap (·.octets)) := by
        rw [← a.length_octets]
        exact Bytes.splitAt?_append _ _
      rw [List.flatMap_cons, chunks]
      split
      · simp_all
      · next front rest hs =>
        obtain ⟨rfl, rfl⟩ : a.octets = front ∧ as.flatMap (·.octets) = rest := by
          simpa [first] using hs
        rw [ih fun b hb => uniform b (List.mem_cons_of_mem _ hb), ofOctets?,
          dif_pos a.length_octets]
        rfl

end IpAddress

theorem textPayload_eq_ok_iff {kind : PayloadKind} {m : Bytes} {s : String} :
    textPayload kind m = .ok s ↔ m = Bytes.ofText s := by
  rw [← Bytes.toText?_eq_some_iff, textPayload]
  cases m.toText? <;> simp

theorem textPayload_eq_error_iff {kind : PayloadKind} {m : Bytes} {fault : Fault} :
    textPayload kind m = .error fault ↔
      (∀ s, m ≠ Bytes.ofText s) ∧ fault = .backendProtocol (.invalidText kind) := by
  simp only [ne_eq, ← Bytes.toText?_eq_some_iff, ← Option.eq_none_iff_forall_ne_some, textPayload]
  cases m.toText? <;> simp [eq_comm]

theorem exists_of_map {ε α β : Type} {f : α → β} {x : Except ε α} {b : β}
    (h : f <$> x = .ok b) : ∃ a, x = .ok a ∧ f a = b := by
  cases x with
  | error e => cases h
  | ok a => exact ⟨a, rfl, Except.ok.inj h⟩

namespace Request

/-- The addresses proposed, if any, are of the family stated. -/
def Uniform : Request → Prop
  | replaceResolvers p => ∀ a ∈ p.addresses, a.family = p.family
  | _ => True

theorem queryOfPayload_eq_ok_iff {m : Bytes} {r : Request} : queryOfPayload m = .ok r ↔
    ∃ id qname qtype qclass, r = .query id qname qtype qclass ∧ m = r.toFrame.payload := by
  constructor
  · intro h
    unfold queryOfPayload at h
    simp only at h
    split at h
    · simp at h
    next id qtype qclass rest hf =>
    split at h
    · next qname ht =>
      obtain rfl := Except.ok.inj h
      refine ⟨⟨id⟩, qname, ⟨qtype⟩, ⟨qclass⟩, rfl, ?_⟩
      simp only [Option.bind_eq_bind, Option.bind_eq_some_iff, Prod.exists, Option.pure_def,
        Option.some.injEq, Prod.mk.injEq] at hf
      obtain ⟨_, m₁, h₁, _, m₂, h₂, _, m₃, h₃, rfl, rfl, rfl, rfl⟩ := hf
      rw [Bytes.read64?_eq_some_iff.mp h₁, Bytes.read16?_eq_some_iff.mp h₂,
        Bytes.read16?_eq_some_iff.mp h₃, textPayload_eq_ok_iff.mp ht]
      simp [toFrame]
    · simp at h
  · rintro ⟨id, qname, qtype, qclass, rfl, rfl⟩
    simp only [toFrame, queryOfPayload, List.append_assoc, Bytes.read64?_of64,
      Bytes.read16?_of16, Option.bind_eq_bind, Option.bind_some, Option.pure_def,
      textPayload_eq_ok_iff.mpr rfl]

theorem resolversOfPayload_eq_ok_iff {m : Bytes} {r : Request} : resolversOfPayload m = .ok r ↔
    ∃ p, r = .replaceResolvers p ∧ r.Uniform ∧ m = r.toFrame.payload := by
  constructor
  · intro h
    unfold resolversOfPayload at h
    split at h
    · next ifIndex source tag octets hr =>
      split at h
      · simp at h
      next family hf =>
      split at h
      · next addresses hc =>
        obtain rfl := Except.ok.inj h
        obtain ⟨uniform, rfl⟩ := IpAddress.chunks_eq_iff.mp hc
        refine ⟨_, rfl, uniform, ?_⟩
        rw [Bytes.read32?_eq_some_iff.mp hr, toFrame, AddressFamily.tag_of_ofTag? hf]
      · simp at h
    · simp at h
  · rintro ⟨p, rfl, uniform, rfl⟩
    simp only [toFrame, resolversOfPayload, Bytes.read32?_of32, AddressFamily.ofTag?_tag,
      IpAddress.chunks_eq_iff.mpr ⟨uniform, rfl⟩]

theorem ofFrame_toFrame {r : Request} (h : r.Uniform) : ofFrame r.toFrame = .ok (some r) := by
  cases r with
  | query id qname qtype qclass =>
    exact congrArg (some <$> ·) (queryOfPayload_eq_ok_iff.mpr ⟨id, qname, qtype, qclass, rfl, rfl⟩)
  | replaceResolvers p =>
    exact congrArg (some <$> ·) (resolversOfPayload_eq_ok_iff.mpr ⟨p, rfl, h, rfl⟩)
  | networkChanged => rfl
  | trustAnchor anchor =>
    exact congrArg ((some ∘ trustAnchor) <$> ·) (textPayload_eq_ok_iff.mpr rfl)
  | trustAnchorsDone => rfl

/-- A request with a payload goes back into the frame that it came in. -/
theorem toFrame_of_ofFrame {f : Frame} {r : Request} (h : ofFrame f = .ok (some r))
    (payload : f.kind = 1 ∨ f.kind = 2 ∨ f.kind = 4) : r.toFrame = f := by
  obtain ⟨kind, m⟩ := f
  rcases payload with rfl | rfl | rfl
  · obtain ⟨r', hr, ⟨⟩⟩ := exists_of_map h
    obtain ⟨id, qname, qtype, qclass, rfl, rfl⟩ := queryOfPayload_eq_ok_iff.mp hr
    rfl
  · obtain ⟨r', hr, ⟨⟩⟩ := exists_of_map h
    obtain ⟨p, rfl, -, rfl⟩ := resolversOfPayload_eq_ok_iff.mp hr
    rfl
  · obtain ⟨anchor, ht, ⟨⟩⟩ := exists_of_map h
    obtain rfl := textPayload_eq_ok_iff.mp ht
    rfl

end Request

namespace Event

theorem exists_fixed {m : Bytes} (h : 12 ≤ m.length) : ∃ id length srvfail bogus data,
    m = Bytes.of64 id ++ (Bytes.of16 length ++ srvfail :: bogus :: data) := by
  match m with
  | a :: b :: c :: d :: e :: f :: g :: i :: j :: k :: srvfail :: bogus :: data =>
    refine ⟨UInt64.ofNat (Bytes.toNumber [a, b, c, d, e, f, g, i]),
      UInt16.ofNat (Bytes.toNumber [j, k]), srvfail, bogus, data, ?_⟩
    rw [Bytes.of64_toNumber, Bytes.of16_toNumber]
    rfl

theorem answerOfPayload_eq_ok_iff {m : Bytes} {e : Event} : answerOfPayload m = .ok e ↔
    ∃ id length srvfail bogus data,
      m = Bytes.of64 id ++ (Bytes.of16 length ++ srvfail :: bogus :: data) ∧
        e = .answer ⟨⟨id⟩, length, srvfail ≠ 0, bogus ≠ 0, data⟩ := by
  constructor
  · intro h
    unfold answerOfPayload at h
    simp only at h
    split at h
    · next id length srvfail bogus data hf =>
      refine ⟨id, length, srvfail, bogus, data, ?_, (Except.ok.inj h).symm⟩
      simp only [Option.bind_eq_bind, Option.bind_eq_some_iff, Prod.exists, Option.pure_def,
        Option.some.injEq, Prod.mk.injEq] at hf
      obtain ⟨_, m₁, h₁, _, m₂, h₂, rfl, rfl, rfl⟩ := hf
      rw [Bytes.read64?_eq_some_iff.mp h₁, Bytes.read16?_eq_some_iff.mp h₂]
    · simp at h
  · rintro ⟨id, length, srvfail, bogus, data, rfl, rfl⟩
    simp only [answerOfPayload, Bytes.read64?_of64, Bytes.read16?_of16, Option.bind_eq_bind,
      Option.bind_some, Option.pure_def]

theorem flag_ne_zero (b : Bool) : decide (flag b ≠ 0) = b := by cases b <;> rfl

theorem ofFrame_toFrame (e : Event) : ofFrame e.toFrame = .ok (some e) := by
  cases e with
  | answer f =>
    have fragment : answerOfPayload (answer f).toFrame.payload = .ok (answer f) := by
      refine answerOfPayload_eq_ok_iff.mpr ⟨f.id.raw, f.answerLength, flag f.srvfail,
        flag f.bogus, f.data, by simp [toFrame], ?_⟩
      rw [flag_ne_zero, flag_ne_zero]
    exact congrArg (some <$> ·) fragment
  | trustAnchorAdd anchor =>
    exact congrArg ((some ∘ trustAnchorAdd) <$> ·) (textPayload_eq_ok_iff.mpr rfl)
  | trustAnchorSetDone => rfl
  | trustAnchorSetAbort => rfl

theorem answerOfPayload_eq_error_iff {m : Bytes} {fault : Fault} :
    answerOfPayload m = .error fault ↔ m.length < 12 ∧ fault = shortPayload .answer m 12 := by
  have cause {fault : Fault} (h : answerOfPayload m = .error fault) :
      fault = shortPayload .answer m 12 := by
    unfold answerOfPayload at h
    simp only at h
    split at h
    · simp at h
    · exact (Except.error.inj h).symm
  constructor
  · intro h
    refine ⟨Nat.lt_of_not_le fun whole => ?_, cause h⟩
    obtain ⟨id, length, srvfail, bogus, data, fixed⟩ := exists_fixed whole
    have := answerOfPayload_eq_ok_iff.mpr ⟨id, length, srvfail, bogus, data, fixed, rfl⟩
    simp [this] at h
  · rintro ⟨short, rfl⟩
    cases h : answerOfPayload m with
    | error fault => rw [cause h]
    | ok e =>
      obtain ⟨id, length, srvfail, bogus, data, rfl, -⟩ := answerOfPayload_eq_ok_iff.mp h
      simp only [List.length_append, Bytes.length_of64, Bytes.length_of16, List.length_cons]
        at short
      omega

/-- An answer frame is refused exactly if its payload lacks some of the fixed part. -/
theorem ofFrame_answer_eq_error_iff {f : Frame} (h : f.kind = 16) :
    (∃ fault, ofFrame f = .error fault) ↔ f.payload.length < 12 := by
  obtain ⟨kind, m⟩ := f
  obtain rfl : kind = 16 := h
  have refused : (∃ fault, ofFrame ⟨16, m⟩ = .error fault) ↔
      ∃ fault, answerOfPayload m = .error fault := by
    change (∃ fault, some <$> answerOfPayload m = .error fault) ↔ _
    cases answerOfPayload m <;> simp [Functor.map, Except.map]
  simp only [refused, answerOfPayload_eq_error_iff, exists_and_left, exists_eq, and_true]

end Event

/-- Requests and events come out of their frames as they were; requests with a payload
have no second frame, and an answer needs no more than its fixed part. -/
theorem Frame.messages_survive :
    (∀ r : Request, r.Uniform → Request.ofFrame r.toFrame = .ok (some r)) ∧
      (∀ e : Event, Event.ofFrame e.toFrame = .ok (some e)) ∧
      (∀ f r, Request.ofFrame f = .ok (some r) → f.kind = 1 ∨ f.kind = 2 ∨ f.kind = 4 →
        r.toFrame = f) ∧
      ∀ f : Frame, f.kind = 16 →
        ((∃ fault, Event.ofFrame f = .error fault) ↔ f.payload.length < 12) :=
  ⟨fun _ => Request.ofFrame_toFrame, Event.ofFrame_toFrame,
    fun _ _ => Request.toFrame_of_ofFrame, fun _ => Event.ofFrame_answer_eq_error_iff⟩

/-- A proposal of two addresses. -/
theorem Frame.messages_survive_proposal :
    let r : Request := .replaceResolvers
      ⟨3, 1, .inet, [⟨.inet, [192, 0, 2, 1], rfl⟩, ⟨.inet, [192, 0, 2, 2], rfl⟩]⟩
    r.Uniform ∧ r.toFrame = ⟨2, [0, 0, 0, 3, 1, 4, 192, 0, 2, 1, 192, 0, 2, 2]⟩ ∧
      Request.ofFrame r.toFrame = .ok (some r) := by
  intro r
  have uniform : r.Uniform := by simp [r, Request.Uniform]
  exact ⟨uniform, by decide, Frame.messages_survive.1 r uniform⟩

end ResolverGate
