import ResolverGate.Proofs.Engine.Run
import ResolverGate.Proofs.Engine.Turn

/-! # Who asks the channel

A turn has nothing to do with admission and the channel, or it takes a complete
message through admission. What the channel says to the request of a forwarded
message is then all that matters of it.
-/

namespace ResolverGate

variable {C : Type}

/-- Neither admission nor the channel has a part in the turn. -/
structure Turn.Unasking (t : Turn C) : Prop where
  sent : t.sent = []
  judged : t.judged = []

theorem Turn.Unasking.notify {t : Turn C} (h : t.Unasking) (ns : List Notice) :
    (t.notify ns).Unasking :=
  ⟨h.sent, h.judged⟩

namespace Pending

variable {p p' : Pending C} {s : Setting} {backend backend' : Backend} {memory : Memory}
  {q : Query} {f : Fragment} {a c m : Bytes} {op : Operation C}

theorem unasking_keep {o : Outcome} : (Turn.keep p o).Unasking := ⟨rfl, rfl⟩

theorem unasking_gone : (Turn.gone : Turn C).Unasking := ⟨rfl, rfl⟩

theorem sendAnswer_unasking : (p.sendAnswer memory a).Unasking := by
  unfold sendAnswer
  split
  · exact ⟨rfl, rfl⟩
  split
  · exact unasking_keep
  · exact unasking_gone.notify _

theorem deliver_unasking : (p.deliver s memory q a).Unasking := by
  have quiet (reply : Bytes) : (p.sendAnswer memory reply).Unasking := sendAnswer_unasking
  cases he : s.encoder (p.encoderCall s q a) with
  | ok reply =>
    exact ⟨by simp [deliver, he, (quiet _).sent], by simp [deliver, he, (quiet _).judged]⟩
  | error e =>
    exact ⟨by simp [deliver, he, Turn.notify, (quiet _).sent],
      by simp [deliver, he, Turn.notify, (quiet _).judged]⟩

theorem answered_unasking : (p.answered s memory f).Unasking := by
  unfold answered
  split
  case h_2 => exact unasking_keep.notify _
  split
  · exact sendAnswer_unasking
  split
  · exact sendAnswer_unasking.notify _
  simp only
  split
  · exact ⟨rfl, rfl⟩
  split
  · exact ⟨rfl, rfl⟩
  split
  · exact deliver_unasking
  · exact unasking_keep

/-- A read goes on whatever the channel would say, or ends with admission. -/
theorem received_cases (p : Pending C) (s : Setting) (memory : Memory) (c : Bytes) :
    (∃ t : Turn C, t.Unasking ∧ ∀ backend, p.received s ⟨backend, memory⟩ c = t) ∨
      ∃ p' : Pending C, p'.id = p.id ∧
        ∀ backend, p.received s ⟨backend, memory⟩ c = p'.judge s ⟨backend, memory⟩ := by
  unfold received
  split
  · exact .inl ⟨_, unasking_keep, fun _ => rfl⟩
  split
  · exact .inl ⟨_, unasking_gone, fun _ => rfl⟩
  split
  · exact .inl ⟨_, unasking_gone, fun _ => rfl⟩
  dsimp only
  split
  · exact .inl ⟨_, unasking_gone.notify _, fun _ => rfl⟩
  next p' hp =>
  obtain ⟨query, stage, -, rfl⟩ := exists_of_enterBody hp
  split
  · exact .inr ⟨{ p with query := query.flip, stage }, rfl, fun _ => rfl⟩
  · exact .inl ⟨_, unasking_keep, fun _ => rfl⟩

theorem judge_congr (h : ∀ q, s.policy.judge p.query.upToLimit = .forward q →
      backend' 0 (q.request p.id) = backend 0 (q.request p.id)) :
    p.judge s ⟨backend', memory⟩ = p.judge s ⟨backend, memory⟩ := by
  have settled : p.settle ⟨backend', memory⟩ (s.policy.judge p.query.upToLimit) =
      p.settle ⟨backend, memory⟩ (s.policy.judge p.query.upToLimit) := by
    cases ha : s.policy.judge p.query.upToLimit with
    | forward q => simp only [settle, h q ha]
    | _ => rfl
  simp only [judge, settled]

theorem received_congr (h : ∀ m ∈ (p.received s ⟨backend, memory⟩ c).judged, ∀ q,
      s.policy.judge m = .forward q →
        backend' 0 (q.request p.id) = backend 0 (q.request p.id)) :
    p.received s ⟨backend', memory⟩ c = p.received s ⟨backend, memory⟩ c := by
  rcases received_cases p s memory c with ⟨t, -, same⟩ | ⟨p', own, same⟩
  · rw [same, same]
  · rw [same, same]
    refine judge_congr fun q hq => ?_
    rw [own]
    exact h _ (by rw [same]; exact List.mem_singleton_self _) q hq

end Pending

/-- An operation does the same over another channel if what it takes through admission
has the same turn there. -/
theorem Engine.perform_congr {e : Engine C} {op : Operation C} {backend backend' : Backend}
    {memory : Memory}
    (datagram : ∀ listener peer m id table, op = .udpReceived listener peer m →
      e.table.allocate = some (id, table) →
      memory.holds m = true →
      (Pending.datagram id listener peer m : Pending C).judge e.setting ⟨backend', memory⟩ =
        (Pending.datagram id listener peer m).judge e.setting ⟨backend, memory⟩)
    (chunk : ∀ id c p, op = .tcpReceived id c → e.table.find? id = some p →
      p.received e.setting ⟨backend', memory⟩ c = p.received e.setting ⟨backend, memory⟩ c) :
    e.perform ⟨backend', memory⟩ op = e.perform ⟨backend, memory⟩ op := by
  cases op with
  | udpReceived listener peer m =>
    cases ha : e.table.allocate with
    | none => simp [perform, udpReceived, ha]
    | some r =>
    obtain ⟨id, table⟩ := r
    cases room : memory.holds m with
    | false => rw [perform_dropped ha room, perform_dropped ha room]
    | true =>
      rw [perform_datagram ha room, perform_datagram ha room]
      simp only [datagram listener peer m id table rfl ha room]
  | tcpReceived id c =>
    cases hp : e.table.find? id with
    | none => rw [perform_missed rfl hp, perform_missed rfl hp]
    | some p =>
      rw [perform_found rfl hp, perform_found rfl hp]
      simp only [Operation.turn, chunk id c p rfl hp]
  | _ => rfl

end ResolverGate
