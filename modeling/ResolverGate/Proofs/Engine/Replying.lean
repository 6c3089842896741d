import ResolverGate.Proofs.Engine.History

/-! # How replies leave

A reply leaves in a datagram, and with it the query, or stands behind its length to be
written on the connection.
-/

namespace ResolverGate

variable {C : Type}

/-- The step hands `reply` over, for the client whose query is under the id. -/
inductive Step.Replies (s : Step C) (id : QueryId) (peer : SocketAddress) (reply : Bytes) :
    Origin C → Prop
  | datagram {listener : Nat}
      (sends : s.result = .outcome (.ok (.sendDatagram ⟨listener, peer, reply⟩)))
      (gone : s.after.table.find? id = none) : Replies s id peer reply (.udp listener)
  | stream {conn : C} (starts : s.result = .outcome (.ok .startWriting))
      (pending : s.after.tcpPendingWrite id = some (framed reply)) :
      Replies s id peer reply (.tcp conn)

/-- There is room to frame the reply, if it leaves on a stream. -/
def Memory.Frames (memory : Memory) (reply : Bytes) (origin : Origin C) : Prop :=
  origin.transport = .tcp → memory .framed (reply.length + 2) = true

theorem Step.Replies.same {s s' : Step C} {id : QueryId} {peer : SocketAddress} {reply : Bytes}
    {origin : Origin C} (h : s.Replies id peer reply origin)
    (h' : s'.Replies id peer reply origin) :
    s.result = s'.result ∧ s.after.tcpPendingWrite id = s'.after.tcpPendingWrite id := by
  cases h with
  | datagram sends gone =>
    cases h' with
    | datagram sends' gone' =>
      exact ⟨sends.trans sends'.symm, by simp [Engine.tcpPendingWrite, gone, gone']⟩
  | stream starts pending =>
    cases h' with
    | stream starts' pending' => exact ⟨starts.trans starts'.symm, pending.trans pending'.symm⟩

variable {s : Step C} {id : QueryId} {p : Pending C} {a got : Bytes} {o : Outcome} {q : Query}
  {setting : Setting} {memory : Memory} {f : Fragment} {size : Nat}

theorem Pending.sendAnswer_isReply (h : a.length < 0x10000) (frames : memory.Frames a p.origin) :
    ∃ o, (p.sendAnswer memory a).outcome = .ok o ∧ o.isReply = true := by
  cases ho : p.origin with
  | udp listener =>
    rw [sendAnswer_udp ho]
    exact ⟨_, rfl, rfl⟩
  | tcp conn =>
    rw [sendAnswer_tcp ho h (frames (by rw [ho]; rfl))]
    exact ⟨_, rfl, rfl⟩

theorem Pending.answered_made (hs : p.stage = .forwarded) (hq : p.parsed = some q)
    (received : p.answer.Filled got size) (h : (p.answered setting memory f).outcome = .ok o)
    (ho : o.isReply = true) : ∃ reply,
      ((∃ call ∈ (p.answered setting memory f).encoded, setting.encoder call = .ok reply) ∨
        (∀ call ∈ (p.answered setting memory f).encoded,
            ∃ fault, setting.encoder call = .error fault) ∧
          reply = q.errorReply .servFail) ∧
      (p.answered setting memory f).entry = (p.sendAnswer memory reply).entry ∧
      (p.answered setting memory f).outcome = (p.sendAnswer memory reply).outcome := by
  have silent : (p.sendAnswer memory (q.errorReply .servFail)).encoded = [] := encoded_sendAnswer
  have arrival := answered_arrival setting memory f hs hq received
  generalize p.answered setting memory f = t at arrival h ⊢
  cases arrival with
  | failed => exact ⟨_, .inr ⟨by simp [silent], rfl⟩, rfl, rfl⟩
  | unbuffered => exact ⟨_, .inr ⟨by simp [Turn.notify, silent], rfl⟩, rfl, rfl⟩
  | wholly =>
    obtain ⟨reply, made, same⟩ := deliver_made p setting memory q (got ++ f.data)
    refine ⟨reply, made.imp (fun h => ⟨_, List.mem_singleton_self _, h⟩) ?_, same⟩
    rintro ⟨failed, rfl⟩
    exact ⟨fun call mem => List.mem_singleton.mp mem ▸ failed, rfl⟩
  | partly =>
    obtain rfl := Except.ok.inj h
    simp [Outcome.isReply] at ho
  | overrun => simp at h

theorem Pending.answered_replies (hs : p.stage = .forwarded) (hq : p.parsed = some q)
    (received : p.answer.Filled got size) (h : (p.answered setting memory f).outcome = .ok o)
    (ho : o.isReply = true) : ∃ reply,
      (reply = q.errorReply .servFail ∨
        ∃ call ∈ (p.answered setting memory f).encoded, setting.encoder call = .ok reply) ∧
      (p.answered setting memory f).entry = (p.sendAnswer memory reply).entry ∧
      (p.answered setting memory f).outcome = (p.sendAnswer memory reply).outcome := by
  obtain ⟨reply, made, same⟩ := answered_made hs hq received h ho
  exact ⟨reply, made.symm.imp_left And.right, same⟩

theorem Step.replies_of_sendAnswer (result : s.result = .outcome (p.sendAnswer memory a).outcome)
    (found : s.after.table.find? id = (p.sendAnswer memory a).entry)
    (ho : (p.sendAnswer memory a).outcome = .ok o) (reply : o.isReply = true) :
    s.Replies id p.peer a p.origin := by
  cases origin : p.origin with
  | udp listener =>
    rw [Pending.sendAnswer_udp origin] at result found
    exact .datagram result found
  | tcp conn =>
    obtain ⟨-, sent⟩ | ⟨fault, sent⟩ := Pending.sendAnswer_stream origin memory a
    · rw [sent] at result found
      refine .stream result ?_
      rw [Engine.tcpPendingWrite_of_writing found rfl, WireBuffer.current_ofBytes, framed]
    · rw [sent] at ho
      obtain rfl := Except.ok.inj ho
      simp [Outcome.isReply] at reply

namespace Completion.Judges

variable {c : Completion C} {t : Turn C} {reply : Bytes}

/-- The turn of a completed message is settled by admission and the channel. -/
theorem settled (judges : c.Judges p t) :
    t.entry = (p.settle c.step.host (c.step.before.setting.policy.judge c.message)).entry ∧
      t.outcome = (p.settle c.step.host
        (c.step.before.setting.policy.judge c.message)).outcome ∧
      t.sent = (p.settle c.step.host (c.step.before.setting.policy.judge c.message)).sent := by
  rw [judges.turn, ← judges.message]
  exact ⟨rfl, rfl, rfl⟩

theorem replied (judges : c.Judges p t) (h : t.outcome = .ok o)
    (ho : o.isReply = true) : ∃ reply,
      (c.step.before.setting.policy.judge c.message).fate c.step.host.backend c.id =
        .replied reply := by
  rw [judges.settled.2.1] at h
  cases hf : (c.step.before.setting.policy.judge c.message).fate c.step.host.backend c.id with
  | replied reply => exact ⟨reply, rfl⟩
  | dropped =>
    rw [Pending.settle_dropped (judges.own ▸ hf)] at h
    obtain rfl := Except.ok.inj h
    simp [Outcome.isReply] at ho
  | forwarded q =>
    rw [Pending.settle_forwarded (judges.own ▸ hf)] at h
    obtain rfl := Except.ok.inj h
    simp [Outcome.isReply] at ho

section Replied

variable (judges : c.Judges p t)
  (h : (c.step.before.setting.policy.judge c.message).fate c.step.host.backend c.id =
    .replied reply)

include judges h

theorem sends : ∃ parsed, let p' : Pending C := { p with parsed }
    t.entry = (p'.sendAnswer c.step.host.memory reply).entry ∧
      t.outcome = (p'.sendAnswer c.step.host.memory reply).outcome ∧ t.sent = [] := by
  obtain ⟨entry, outcome, sent⟩ := judges.settled
  obtain ⟨parsed, ns, hr⟩ := Pending.settle_replied (judges.own ▸ h)
  rw [hr] at entry outcome sent
  exact ⟨parsed, entry, outcome, sent.trans Pending.sendAnswer_unasking.sent⟩

theorem replies (made : t.outcome = .ok o) (isReply : o.isReply = true) :
    c.step.Replies c.id p.peer reply p.origin := by
  obtain ⟨parsed, entry, outcome, -⟩ := judges.sends h
  refine Step.replies_of_sendAnswer (p := { p with parsed }) ?_ ?_ (outcome ▸ made) isReply
  · rw [judges.result, outcome]
  · rw [judges.found, if_pos rfl, entry]

/-- It leaves unless there is no room to frame it. -/
theorem replies_of_frames (frames : c.step.host.memory.Frames reply p.origin) :
    c.step.Replies c.id p.peer reply p.origin := by
  have short : reply.length < 0x10000 :=
    Nat.lt_of_le_of_lt (Policy.length_of_replied h).1 (by decide)
  obtain ⟨parsed, -, outcome, -⟩ := judges.sends h
  obtain ⟨o, ho, isReply⟩ := Pending.sendAnswer_isReply (p := { p with parsed }) short frames
  exact judges.replies h (outcome.trans ho) isReply

end Replied

end Completion.Judges

end ResolverGate
