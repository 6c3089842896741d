import ResolverGate.Proofs.Filling
import ResolverGate.Proofs.Replies

/-! # What becomes of a message

Admission and the channel decide together whether a message is forwarded,
replied to or dropped. The query's transport decides only how a reply leaves.
-/

namespace ResolverGate

variable {C : Type}

inductive Fate
  | dropped
  | replied (reply : Bytes)
  | forwarded (q : Query)
  deriving DecidableEq

/-- SERVFAIL is the reply to what the channel does not take. -/
def Admission.fate (backend : Backend) (id : QueryId) : Admission → Fate
  | .drop _ => .dropped
  | .refuse _ reply => .replied reply
  | .identify reply => .replied reply
  | .forward q =>
    match backend 0 (q.request id) with
    | .ok () => .forwarded q
    | .error _ => .replied (q.errorReply .servFail)

variable {backend : Backend} {id : QueryId} {a : Admission} {m reply : Bytes} {q : Query}
  {policy : Policy}

theorem Admission.fate_eq_forwarded (h : a.fate backend id = .forwarded q) :
    a = .forward q ∧ backend 0 (q.request id) = .ok () := by
  cases a with
  | forward q' =>
    simp only [fate] at h
    split at h
    · next hb =>
      obtain rfl := Fate.forwarded.inj h
      exact ⟨rfl, hb⟩
    · simp at h
  | _ => simp [fate] at h

/-- Nothing but its verdict on the request matters of the channel. -/
theorem Admission.fate_congr {backend' : Backend} {id' : QueryId}
    (h : ∀ q : Query, backend 0 (q.request id) = .ok () ↔ backend' 0 (q.request id') = .ok ()) :
    a.fate backend id = a.fate backend' id' := by
  cases a with
  | forward q =>
    have taken := h q
    simp only [fate]
    split
    · next hb => rw [taken.mp hb]
    · next fault hb =>
      split
      · next hb' => simp [taken.mpr hb'] at hb
      · rfl
  | _ => rfl

namespace Policy

theorem id_prefix_of_read? {h : Header} {body : Bytes} (hr : Header.read? m = some (h, body)) :
    Bytes.of16 h.id <+: m := by
  rw [Header.append_of_read? hr]
  exact (Header.id_prefix_encode rfl).trans (List.prefix_append _ _)

theorem id_prefix_of_forward (h : policy.judge m = .forward q) :
    Bytes.of16 q.header.id <+: m := by
  cases h ▸ policy.judged m with
  | forward header => exact id_prefix_of_read? header

theorem length_errorReply_le (h : policy.judge m = .forward q) (rcode : Rcode) :
    (q.errorReply rcode).length ≤ m.length ∧ (q.errorReply rcode).length ≤ Reply.maxLength := by
  cases h ▸ policy.judged m with
  | @forward _ _ rest header question edns =>
    refine length_error_le header (fun _ hq => ⟨rest, Option.some.inj hq ▸ question⟩) fun e he => ?_
    exact ⟨q.question, rfl, rest, question, edns.trans (congrArg Except.ok he)⟩

/-- What is replied at once is short, and longer than the message only if it tells who
we are. -/
theorem length_of_replied (h : (policy.judge m).fate backend id = .replied reply) :
    reply.length ≤ Reply.maxLength ∧ (reply.length ≤ m.length ∨
      policy.judge m = .identify reply ∧ reply.length ≤ m.length + 29) := by
  have judged := policy.judged m
  cases ha : policy.judge m with
  | drop reason => simp [ha, Admission.fate] at h
  | refuse r reply' =>
    rw [ha] at h judged
    obtain rfl := Fate.replied.inj h
    cases judged with
    | refuse _ header echo options =>
      exact (length_error_le header echo options).symm.imp_right .inl
  | identify reply' =>
    rw [ha] at h judged
    obtain rfl := Fate.replied.inj h
    cases judged with
    | identify header question =>
      exact (length_identity_le header question).symm.imp_right fun le => .inr ⟨rfl, le⟩
  | forward q =>
    rw [ha, Admission.fate] at h
    split at h
    · simp at h
    · obtain rfl := Fate.replied.inj h
      exact (length_errorReply_le ha .servFail).symm.imp_right .inl

theorem id_prefix_of_replied (h : (policy.judge m).fate backend id = .replied reply) :
    ∃ w, Bytes.of16 w <+: m ∧ Bytes.of16 w <+: reply := by
  have judged := policy.judged m
  generalize policy.judge m = a at h judged
  cases judged with
  | drop reason => simp [Admission.fate] at h
  | refuse r header =>
    obtain rfl := Fate.replied.inj h
    exact ⟨_, id_prefix_of_read? header, Reply.id_prefix_error _ _ _ _⟩
  | identify header =>
    obtain rfl := Fate.replied.inj h
    exact ⟨_, id_prefix_of_read? header, Reply.id_prefix_identity _ _ _⟩
  | forward header =>
    simp only [Admission.fate] at h
    split at h
    · simp at h
    · obtain rfl := Fate.replied.inj h
      exact ⟨_, id_prefix_of_read? header, Reply.id_prefix_error _ _ _ _⟩

end Policy

theorem Origin.exists_connection {o : Origin C} (h : o.transport = .tcp) :
    ∃ conn, o = .tcp conn := by
  cases o with
  | udp => simp [transport] at h
  | tcp conn => exact ⟨conn, rfl⟩

def Query.small : Query where
  header := ⟨0x1234, Header.rd, 1, 0, 0, 0⟩
  question := ⟨"a.", ⟨1⟩, ⟨1⟩, [1, 97, 0, 0, 1, 0, 1]⟩
  edns := none

def Query.smallMessage : Bytes := small.header.encode ++ small.question.wire

theorem Policy.judge_smallMessage :
    (⟨.empty, false⟩ : Policy).judge Query.smallMessage = .forward .small := by
  decide +kernel

/-- There is room for every message, and for every reply behind its length. -/
def Memory.Ample (memory : Memory) : Prop := ∀ room n, n < 0x10002 → memory room n = true

def Memory.holds (memory : Memory) (m : Bytes) : Bool :=
  m.length ≤ WireBuffer.maxCapacity && memory .query m.length && memory .answer m.length

theorem Memory.Ample.holds {memory : Memory} (ample : memory.Ample) (hm : m.length < 0x10002) :
    memory.holds m = true := by
  have capacity : m.length ≤ WireBuffer.maxCapacity := by
    unfold WireBuffer.maxCapacity
    omega
  simp [Memory.holds, capacity, ample _ _ hm]

theorem Memory.ample_plenty : plenty.Ample := fun _ _ _ => rfl

namespace Pending

variable {p : Pending C} {s : Setting} {host : Host} {memory : Memory}

def datagram (id : QueryId) (listener : Nat) (peer : SocketAddress) (m : Bytes) : Pending C :=
  .start id peer (.udp listener) .accepted (.ofBytes m) ⟨List.replicate m.length 0, 0, m.length⟩

theorem ofDatagram_eq (memory : Memory) (id : QueryId) (listener : Nat) (peer : SocketAddress)
    (m : Bytes) : (ofDatagram memory id listener peer m : Except Fault (Pending C)) =
      if memory.holds m then .ok (.datagram id listener peer m)
      else .error (.outOfMemory m.length) := by
  cases size : decide (m.length ≤ WireBuffer.maxCapacity) with
  | false => simp [ofDatagram, WireBuffer.ofCapacity, Memory.holds, size, bind, Except.bind]
  | true =>
  obtain ⟨b, wrote, filled⟩ := (WireBuffer.filled_replicate m.length).write (c := m) (by simp)
  rw [List.nil_append] at filled
  cases query : memory .query m.length <;> cases answer : memory .answer m.length <;>
    simp [ofDatagram, WireBuffer.ofCapacity, Memory.holds, size, query, answer, wrote, bind,
      Except.bind, pure, Except.pure, filled.flip_eq_ofBytes, datagram]

theorem eq_of_frame {framed : WireBuffer} (h : frame memory m = .ok framed) :
    m.length < 0x10000 ∧ framed = .ofBytes (Bytes.ofNumber 2 m.length ++ m) := by
  unfold frame at h
  split at h
  · next short =>
    obtain ⟨b, made, h⟩ := exists_of_bind h
    obtain ⟨b₁, wrote, h⟩ := exists_of_bind h
    obtain ⟨b₂, wrote', h⟩ := exists_of_bind h
    have size : (Bytes.ofNumber 2 m.length ++ m).length = m.length + lengthSize := by
      simp [lengthSize, Nat.add_comm]
    obtain ⟨_, eq, filled⟩ := (WireBuffer.filled_of_ofCapacity made).write
      (c := Bytes.ofNumber 2 m.length) (by simp [lengthSize])
    obtain rfl := Except.ok.inj (eq.symm.trans wrote)
    obtain ⟨_, eq, filled⟩ := filled.write (c := m) (by simp [lengthSize, Nat.add_comm])
    obtain rfl := Except.ok.inj (eq.symm.trans wrote')
    rw [List.nil_append, ← size] at filled
    exact ⟨short, (Except.ok.inj h).symm.trans filled.flip_eq_ofBytes⟩
  · cases h

theorem frame_of_granted (short : m.length < 0x10000)
    (room : memory .framed (m.length + 2) = true) :
    frame memory m = .ok (.ofBytes (Bytes.ofNumber 2 m.length ++ m)) := by
  cases made : frame memory m with
  | ok framed => rw [(eq_of_frame made).2]
  | error fault =>
    have capacity : m.length + lengthSize ≤ WireBuffer.maxCapacity := by
      unfold lengthSize WireBuffer.maxCapacity
      omega
    have blank := WireBuffer.ofCapacity_of_granted capacity room
    obtain ⟨b₁, wrote, filled⟩ := (WireBuffer.filled_replicate (m.length + lengthSize)).write
      (c := Bytes.ofNumber 2 m.length) (by simp [lengthSize])
    obtain ⟨b₂, wrote', -⟩ := filled.write (c := m) (by simp [lengthSize, Nat.add_comm])
    simp [frame, short, blank, wrote, wrote', bind, Except.bind, pure, Except.pure] at made

theorem sendAnswer_udp {listener : Nat} (h : p.origin = .udp listener) :
    p.sendAnswer memory m = ⟨none, .ok (.sendDatagram ⟨listener, p.peer, m⟩), [], [], [], []⟩ := by
  simp [sendAnswer, h]

theorem sendAnswer_tcp {conn : C} (h : p.origin = .tcp conn) (short : m.length < 0x10000)
    (room : memory .framed (m.length + 2) = true) :
    p.sendAnswer memory m = .keep
      { p with answer := .ofBytes (Bytes.ofNumber 2 m.length ++ m), stage := .writing }
      .startWriting := by
  simp [sendAnswer, h, frame_of_granted short room]

theorem sendAnswer_stream {conn : C} (h : p.origin = .tcp conn) (memory : Memory) (m : Bytes) :
    m.length < 0x10000 ∧ p.sendAnswer memory m = .keep
        { p with answer := .ofBytes (Bytes.ofNumber 2 m.length ++ m), stage := .writing }
        .startWriting ∨
      ∃ fault, p.sendAnswer memory m = Turn.gone.notify [.notFramed p.id fault] := by
  cases made : frame memory m with
  | ok framed =>
    obtain ⟨short, rfl⟩ := eq_of_frame made
    exact .inl ⟨short, by simp [sendAnswer, h, made]⟩
  | error fault => exact .inr ⟨fault, by simp [sendAnswer, h, made]⟩

theorem settle_dropped (h : a.fate host.backend p.id = .dropped) : p.settle host a = .gone := by
  cases a with
  | drop => rfl
  | forward q =>
    simp only [Admission.fate] at h
    split at h <;> simp at h
  | _ => simp [Admission.fate] at h

theorem settle_forwarded (h : a.fate host.backend p.id = .forwarded q) :
    p.settle host a = { Turn.keep { p with stage := .forwarded, parsed := some q } .waiting with
      sent := [q.request p.id] } := by
  obtain ⟨rfl, hb⟩ := Admission.fate_eq_forwarded h
  simp only [settle, hb]

theorem settle_replied (h : a.fate host.backend p.id = .replied reply) :
    ∃ parsed ns, p.settle host a =
      (({ p with parsed } : Pending C).sendAnswer host.memory reply).notify ns := by
  cases a with
  | drop => simp [Admission.fate] at h
  | refuse _ r =>
    obtain rfl := Fate.replied.inj h
    exact ⟨p.parsed, [], rfl⟩
  | identify r =>
    obtain rfl := Fate.replied.inj h
    exact ⟨p.parsed, [], rfl⟩
  | forward q =>
    simp only [Admission.fate] at h
    split at h
    · simp at h
    · next e hb =>
      obtain rfl := Fate.replied.inj h
      exact ⟨some q, [.notForwarded p.id e], by simp only [settle, hb]⟩

end Pending

end ResolverGate
