import ResolverGate.Proofs.Engine.Asking
import ResolverGate.Proofs.Engine.Messages

/-! # What the steps tell of a pending query

A pending query reads a message that is not complete, awaits the answer to the last
one that was completed under its id, or has an answer to write. A step completes a
message, which then goes through admission, or it has no part in admission at all.
-/

namespace ResolverGate

variable {C : Type}

namespace Origin

variable {o : Origin C}

@[simp] theorem map_id : o.map id = o := by
  cases o <;> rfl

@[simp] theorem map_map (f g : C → C) : (o.map f).map g = o.map (g ∘ f) := by
  cases o <;> rfl

@[simp] theorem transport_map (f : C → C) : (o.map f).transport = o.transport := by
  cases o <;> rfl

end Origin

def Outcome.isReply : Outcome → Bool
  | sendDatagram _ => true
  | startWriting => true
  | _ => false

theorem Operation.outcome_of_result {op : Operation C} {t : Turn C} {r : Except Fault Outcome}
    (h : op.result t = .outcome r) : t.outcome = r := by
  cases op <;> simp_all [Operation.result]

theorem Operation.silent_of_missed {op : Operation C} {o : Outcome}
    (h : op.missed.1 = .outcome (.ok o)) : o.isReply = false := by
  have : .waiting = o ∨ .released = o := by
    cases op <;> simp_all [Operation.missed]
  rcases this with rfl | rfl <;> rfl

inductive Completion.From (c : Completion C) (peer : SocketAddress) : Origin C → Prop
  | datagram {listener : Nat} (op : c.step.operation = .udpReceived listener peer c.message) :
      From c peer (.udp listener)
  | stream {chunk : Bytes} {conn : C} {p : Pending C}
      (op : c.step.operation = .tcpReceived c.id chunk)
      (present : c.step.before.table.find? c.id = some p) (sender : p.peer = peer)
      (origin : p.origin = .tcp conn) : From c peer (.tcp conn)

/-- Admission forwarded the message as `q`, and the channel took the request. -/
structure Completion.Asks (c : Completion C) (q : Query) : Prop where
  forward : c.step.before.setting.policy.judge c.message = .forward q
  taken : c.step.host.backend 0 (q.request c.id) = .ok ()

/-- The message goes through admission in the turn `t` of the query `p`. -/
structure Completion.Judges (c : Completion C) (p : Pending C) (t : Turn C) : Prop where
  own : p.id = c.id
  message : p.query.upToLimit = c.message
  sender : c.From p.peer p.origin
  unanswered : ∃ room, p.answer.Filled [] room
  turn : t = p.judge c.step.before.setting c.step.host
  result : c.step.result = .outcome t.outcome
  found : ∀ id, c.step.after.table.find? id =
    if id = c.id then t.entry else c.step.before.table.find? id
  effects : c.step.effects = t.effects p

namespace Pending

variable {p p' : Pending C} {s : Setting} {host : Host} {memory : Memory} {q : Query} {f : Fragment}
  {a m chunk : Bytes} {size : Nat} {op : Operation C}

inductive Leads (p : Pending C) : Pending C → Prop
  | same : Leads p p
  | moved (f : C → C) : Leads p { p with origin := p.origin.map f }
  | received {b : WireBuffer} {m : Bytes} {size : Nat} (stage : p.stage = .forwarded)
      (read : b.Filled m size) : Leads p { p with answer := b }
  | wrote {b : WireBuffer} (stage : p.stage = .writing) : Leads p { p with answer := b }
  | replied {b : WireBuffer} (stream : p.origin.transport = .tcp) :
      Leads p { p with answer := b, stage := .writing }

/-- Room for an answer is there while the engine is to answer. -/
def Expects (p : Pending C) : Prop :=
  p.stage = .forwarded → ∃ q m size, p.parsed = some q ∧ p.answer.Filled m size

theorem entry_of_sendAnswer (h : p' ∈ (p.sendAnswer memory a).entry) :
    p.origin.transport = .tcp ∧ ∃ b, p' = { p with answer := b, stage := .writing } := by
  cases ho : p.origin with
  | udp listener => simp [sendAnswer_udp ho] at h
  | tcp conn =>
    obtain ⟨-, sent⟩ | ⟨fault, sent⟩ := sendAnswer_stream ho memory a
    · rw [sent] at h
      exact ⟨rfl, _, ho ▸ (Option.some.inj h).symm⟩
    · rw [sent] at h
      simp [Turn.gone, Turn.notify] at h

theorem sendAnswer_leads (h : p' ∈ (p.sendAnswer memory a).entry) : p.Leads p' := by
  obtain ⟨stream, b, rfl⟩ := entry_of_sendAnswer h
  exact .replied stream

theorem deliver_leads (h : p' ∈ (p.deliver s memory q a).entry) : p.Leads p' := by
  obtain ⟨reply, -, he, -⟩ :=
    deliver_eq_sendAnswer p s memory q a
  exact sendAnswer_leads (he ▸ h)

theorem answered_leads (expects : p.Expects) (h : p' ∈ (p.answered s memory f).entry) :
    p.Leads p' := by
  by_cases hs : p.stage = .forwarded
  · obtain ⟨q, m, size, parsed, received⟩ := expects hs
    have arrival := answered_arrival s memory f hs parsed received
    generalize p.answered s memory f = t at arrival h
    cases arrival with
    | failed => exact sendAnswer_leads h
    | unbuffered => exact sendAnswer_leads h
    | wholly => exact deliver_leads h
    | partly _ _ read =>
      obtain rfl := Option.some.inj h
      exact .received hs read
    | overrun _ _ read =>
      obtain rfl := Option.some.inj h
      exact .received hs read
  · rw [answered_unexpected (.inl hs)] at h
    obtain rfl := Option.some.inj h
    exact .same

variable {id : QueryId}

/-- The operation does not bring octets to a query that is being read. -/
def Idle (p : Pending C) (op : Operation C) : Prop :=
  ∀ id chunk, op = .tcpReceived id chunk → p.stage.isReading = true → chunk = []

theorem Idle.received (s : Setting) (host : Host) (idle : p.Idle (.tcpReceived id chunk)) :
    p.received s host chunk = .keep p .waiting ∨ p.received s host chunk = .gone := by
  by_cases hr : p.stage.isReading = true
  · rw [idle _ _ rfl hr]
    exact .inr (received_nil hr)
  · exact .inl (received_elsewhere (by simpa using hr))

theorem wrote_keeps {n : Nat} : p.wrote n = .gone ∨
    ∃ p' o, p.wrote n = .keep p' o ∧ p.Leads p' ∧ o.isReply = false := by
  by_cases hs : p.stage = .writing
  case neg => exact .inr ⟨p, .waiting, wrote_elsewhere hs, .same, rfl⟩
  unfold wrote
  rw [if_neg (not_not.mpr hs)]
  split
  · exact .inl rfl
  split
  · exact .inl rfl
  · exact .inr ⟨_, .writeMore, rfl, .wrote hs, rfl⟩

/-- Unless a fragment arrives, an idle query stays, as it is for the most part, or goes. -/
theorem Idle.turn_cases (s : Setting) (host : Host) (idle : p.Idle op) :
    (∃ f, op = .backendAnswer f) ∨ op.turn s host p = .gone ∨
      ∃ p' o, op.turn s host p = .keep p' o ∧ p.Leads p' ∧ o.isReply = false := by
  cases op with
  | backendAnswer f => exact .inl ⟨f, rfl⟩
  | tcpReceived id chunk =>
    rcases idle.received s host with h | h
    · exact .inr (.inr ⟨p, .waiting, h, .same, rfl⟩)
    · exact .inr (.inl h)
  | tcpWrote id n => exact .inr wrote_keeps
  | mapConnection id f => exact .inr (.inr ⟨_, .waiting, rfl, .moved f, rfl⟩)
  | _ => exact .inr (.inl rfl)

theorem Idle.unasking (s : Setting) (host : Host) (idle : p.Idle op) :
    (op.turn s host p).Unasking := by
  rcases idle.turn_cases s host with ⟨f, rfl⟩ | h | ⟨p', o, h, -⟩
  · exact answered_unasking
  · rw [h]
    exact unasking_gone
  · rw [h]
    exact unasking_keep

theorem Idle.leads (idle : p.Idle op) (expects : p.Expects)
    (h : p' ∈ (op.turn s host p).entry) : p.Leads p' := by
  rcases idle.turn_cases s host with ⟨f, rfl⟩ | ht | ⟨p', o, ht, leads, -⟩
  · exact answered_leads expects h
  · simp [ht, Turn.gone] at h
  · rw [ht] at h
    exact Option.some.inj h ▸ leads

/-- Only a fragment of an awaited answer brings about a reply. -/
theorem Idle.answers {o : Outcome} (idle : p.Idle op)
    (h : op.result (op.turn s host p) = .outcome (.ok o)) (ho : o.isReply = true) :
    ∃ f, op = .backendAnswer f ∧ p.stage = .forwarded := by
  replace h := Operation.outcome_of_result h
  rcases idle.turn_cases s host with ⟨f, rfl⟩ | ht | ⟨p', o', ht, -, silent⟩
  · refine ⟨f, rfl, ?_⟩
    by_contra hs
    rw [Operation.turn, answered_unexpected (.inl hs)] at h
    obtain rfl := Except.ok.inj h
    simp [Outcome.isReply] at ho
  · rw [ht] at h
    obtain rfl := Except.ok.inj h
    simp [Outcome.isReply] at ho
  · rw [ht] at h
    obtain rfl := Except.ok.inj h
    simp [silent] at ho

theorem entry_of_judge (h : p' ∈ (p.judge s host).entry) :
    (∃ q, s.policy.judge p.query.upToLimit = .forward q ∧
        host.backend 0 (q.request p.id) = .ok () ∧
        p' = { p with stage := .forwarded, parsed := some q }) ∨
      p'.id = p.id ∧ p'.stage = .writing ∧ p'.origin.transport = .tcp := by
  replace h : p' ∈ (p.settle host (s.policy.judge p.query.upToLimit)).entry := h
  cases hf : (s.policy.judge p.query.upToLimit).fate host.backend p.id with
  | dropped => simp [settle_dropped hf, Turn.gone] at h
  | forwarded q =>
    obtain ⟨forward, taken⟩ := Admission.fate_eq_forwarded hf
    rw [settle_forwarded hf] at h
    exact .inl ⟨q, forward, taken, (Option.some.inj h).symm⟩
  | replied reply =>
    obtain ⟨parsed, ns, hr⟩ := settle_replied hf
    rw [hr] at h
    obtain ⟨stream, b, rfl⟩ := entry_of_sendAnswer (p := { p with parsed }) h
    exact .inr ⟨rfl, rfl, stream⟩

end Pending

inductive Known (past : List (Step C)) (id : QueryId) (p : Pending C) : Prop
  | reading {room size : Nat} (stream : p.origin.transport = .tcp)
      (reads : p.Reading room (taken past id)) (unanswered : p.answer.Filled [] size)
  | awaiting {c : Completion C} {q : Query} {origin : Origin C} {f : C → C} {got : Bytes}
      {size : Nat} (stage : p.stage = .forwarded) (parsed : p.parsed = some q)
      (last : latest? past id = some c) (asks : c.Asks q) (sender : c.From p.peer origin)
      (moved : p.origin = origin.map f) (received : p.answer.Filled got size)
  | writing (stage : p.stage = .writing) (stream : p.origin.transport = .tcp)

namespace Step

variable {s : Step C} {past : List (Step C)} {id : QueryId} {p p' : Pending C}

/-- The step neither begins a query under the id nor takes octets for one. -/
structure Spares (s : Step C) (past : List (Step C)) (id : QueryId) : Prop where
  accepted : s.accepted? ≠ some id
  takes : s.takes id = []
  completes : ∀ c ∈ s.completion? past, c.id ≠ id

theorem accepted?_eq_some_iff : s.accepted? = some id ↔ s.result = .accepted (.ok id) := by
  unfold accepted?
  split
  · next h => simp [h]
  · next h =>
    constructor
    · simp
    · intro hr
      exact absurd hr (h id)

theorem takes_of_idle (hp : s.before.table.find? id = some p)
    (idle : s.operation.target? = some id → p.Idle s.operation) : s.takes id = [] := by
  cases hop : s.operation with
  | tcpReceived id' chunk =>
    by_cases hid : id' = id
    case neg => exact takes_elsewhere hop hid
    subst hid
    by_cases hs : p.stage.isReading = true
    · have none : chunk = [] := idle (by rw [hop]; rfl) _ _ hop hs
      rw [takes_reading hop hp hs, none, List.take_nil]
    · exact takes_closed (by simp [Engine.tcpReadWindow, hp, hs])
  | _ => simp [takes, hop]

theorem spares_of_idle (hp : s.before.table.find? id = some p)
    (idle : s.operation.target? = some id → p.Idle s.operation) : s.Spares past id := by
  have idle' := takes_of_idle hp idle
  refine ⟨fun h => ?_, idle', fun c hc => ?_⟩
  · obtain ⟨free, -⟩ := s.accepted (accepted?_eq_some_iff.mp h)
    simp [free] at hp
  · rintro rfl
    obtain ⟨-, ⟨_, _, table, -, drawn⟩ | ⟨chunk, op⟩⟩ := completion?_cases hc
    · obtain ⟨_, -, -, free⟩ := Table.exists_of_allocate drawn
      simp [Table.contains_eq_false_iff.mp free] at hp
    · rw [completion?_idle (by rw [op]; rfl) idle'] at hc
      simp at hc

end Step

namespace Known

variable {past : List (Step C)} {s : Step C} {id : QueryId} {p p' : Pending C}

theorem keep (h : Known past id p) (spares : s.Spares past id) : Known (past ++ [s]) id p := by
  cases h with
  | reading stream reads unanswered =>
    have same : taken (past ++ [s]) id = taken past id := by
      rw [taken_snoc, if_neg spares.accepted, spares.takes, List.append_nil]
    exact .reading stream (same ▸ reads) unanswered
  | awaiting stage parsed last asks sender moved received =>
    refine .awaiting stage parsed ?_ asks sender moved received
    rwa [latest?_snoc_of_ne spares.completes]
  | writing stage stream => exact .writing stage stream

theorem expects (h : Known past id p) : p.Expects := by
  intro hs
  cases h with
  | reading _ reads => exact absurd hs reads.stage_ne_forwarded
  | awaiting _ parsed _ _ _ _ received => exact ⟨_, _, _, parsed, received⟩
  | writing stage => simp [hs] at stage

theorem lead (h : Known past id p) (leads : p.Leads p') : Known past id p' := by
  cases leads with
  | same => exact h
  | replied stream => exact .writing rfl stream
  | moved f =>
    cases h with
    | reading stream reads unanswered =>
      exact .reading (by simpa using stream) (reads.moved _) unanswered
    | awaiting stage parsed last asks sender moved received =>
      exact .awaiting stage parsed last asks sender
        ((congrArg (Origin.map f) moved).trans (Origin.map_map _ f)) received
    | writing stage stream => exact .writing stage (by simpa using stream)
  | received stage read =>
    cases h with
    | reading _ reads => exact absurd stage reads.stage_ne_forwarded
    | awaiting _ parsed last asks sender moved received =>
      exact .awaiting stage parsed last asks sender moved read
    | writing stage' => simp [stage] at stage'
  | wrote stage =>
    cases h with
    | reading _ reads => exact absurd stage reads.stage_ne_writing
    | awaiting stage' => simp [stage] at stage'
    | writing _ stream => exact .writing stage stream

end Known

/-- The steps `past` account for every pending query. -/
def Accounted (past : List (Step C)) (e : Engine C) : Prop :=
  ∀ id p, e.table.find? id = some p → p.id = id ∧ Known past id p

inductive Step.Course (s : Step C) (past : List (Step C)) : Prop
  | completes {c : Completion C} {p : Pending C} {t : Turn C}
      (completion : s.completion? past = some c) (judges : c.Judges p t)
  | goesOn (completion : s.completion? past = none) (sent : s.effects.sent = [])
      (judged : s.effects.judged = []) (accounted : Accounted (past ++ [s]) s.after)
      (replies : ∀ o, s.result = .outcome (.ok o) → o.isReply = true → ∃ f p,
        s.operation = .backendAnswer f ∧ s.before.table.find? f.id = some p ∧
          p.stage = .forwarded)

section Steps

variable {s : Step C} {past : List (Step C)} {id : QueryId} {p p' : Pending C} {c : Completion C}
  {t : Turn C}

theorem Pending.Leads.id_eq (h : p.Leads p') : p'.id = p.id := by
  cases h <;> rfl

theorem Accounted.keep (h : Accounted past s.before) (hp : s.before.table.find? id = some p)
    (idle : s.operation.target? = some id → p.Idle s.operation) :
    p.id = id ∧ Known (past ++ [s]) id p :=
  ⟨(h id p hp).1, (h id p hp).2.keep (Step.spares_of_idle hp idle)⟩

theorem Accounted.update {entry : Option (Pending C)} (h : Accounted past s.before)
    (found : ∀ id', s.after.table.find? id' =
      if id' = id then entry else s.before.table.find? id')
    (others : ∀ id' ∈ s.operation.target?, id' = id)
    (own : ∀ p' ∈ entry, p'.id = id ∧ Known (past ++ [s]) id p') :
    Accounted (past ++ [s]) s.after := by
  intro id' p' hp'
  rw [found] at hp'
  split at hp'
  · next hid => exact hid ▸ own p' hp'
  · next hid => exact h.keep hp' fun target => absurd (others id' target) hid

theorem Completion.Judges.known (judges : c.Judges p t) (h : s.completion? past = some c)
    (hp : p' ∈ t.entry) : p'.id = c.id ∧ Known (past ++ [s]) c.id p' := by
  obtain ⟨own, message, sender, ⟨room, unanswered⟩, turn, -⟩ := judges
  subst turn
  rcases Pending.entry_of_judge hp with ⟨q, forward, taken, rfl⟩ | ⟨hid, stage, stream⟩
  · rw [message] at forward
    rw [own] at taken
    exact ⟨own, .awaiting rfl rfl (latest?_snoc h) ⟨forward, taken⟩ sender
      Origin.map_id.symm unanswered⟩
  · exact ⟨hid.trans own, .writing stage stream⟩

theorem Step.Course.accounted (course : s.Course past) (h : Accounted past s.before) :
    Accounted (past ++ [s]) s.after := by
  cases course with
  | goesOn _ _ _ accounted => exact accounted
  | @completes c p t completion judges =>
    obtain ⟨rfl, target⟩ := completion?_cases completion
    refine h.update judges.found (fun id' own => ?_) fun p' hp' => judges.known completion hp'
    rcases target with ⟨_, _, _, op, -⟩ | ⟨_, op⟩
    · simp [op, Operation.target?] at own
    · rw [op] at own
      exact (Option.some.inj own).symm

theorem Accounted.course_of_kept (h : Accounted past s.before)
    (completion : s.completion? past = none) (sent : s.effects.sent = [])
    (judged : s.effects.judged = [])
    (found : ∀ id, s.after.table.find? id = s.before.table.find? id)
    (absent : ∀ id ∈ s.operation.target?, s.before.table.find? id = none)
    (silent : ∀ o, s.result = .outcome (.ok o) → o.isReply = false) : s.Course past := by
  refine .goesOn completion sent judged (fun id p hp => ?_) fun o ho reply => ?_
  · rw [found] at hp
    refine h.keep hp fun target => ?_
    simp [absent id target] at hp
  · simp [silent o ho] at reply

section Turned

variable (h : Accounted past s.before) (present : s.before.table.find? id = some p)
  (found : ∀ id', s.after.table.find? id' =
    if id' = id then t.entry else s.before.table.find? id')
  (effects : s.effects = t.effects p)

include h present found effects

theorem Accounted.course_of_idle (target : s.operation.target? = some id)
    (turn : t = s.operation.turn s.before.setting s.host p)
    (result : s.result = s.operation.result t) (idle : p.Idle s.operation) : s.Course past := by
  have unasking := idle.unasking s.before.setting s.host
  rw [← turn] at unasking
  have spared : s.Spares past id := Step.spares_of_idle present fun _ => idle
  refine .goesOn (completion?_idle target spared.takes) (effects ▸ unasking.sent)
    (effects ▸ unasking.judged) (h.update found ?_ fun p' hp' => ?_) fun o ho reply => ?_
  · intro id' own
    exact Option.some.inj (own.symm.trans target)
  · subst turn
    obtain ⟨own, known⟩ := h id p present
    have leads := idle.leads known.expects hp'
    exact ⟨leads.id_eq.trans own, (known.keep spared).lead leads⟩
  · rw [turn] at result
    obtain ⟨f, op, stage⟩ := idle.answers (result.symm.trans ho) reply
    obtain rfl : f.id = id := by simpa [op, Operation.target?] using target
    exact ⟨f, p, op, present, stage⟩

/-- The chunk completes the message that is read, or reading goes on. -/
theorem Accounted.course_of_chunk {chunk : Bytes} (op : s.operation = .tcpReceived id chunk)
    (some : chunk ≠ []) (reading : p.stage.isReading = true)
    (turn : t = s.operation.turn s.before.setting s.host p)
    (result : s.result = s.operation.result t) : s.Course past := by
  obtain ⟨own, known⟩ := h id p present
  have takes := takes_reading op present reading
  rw [op] at turn result
  replace turn : t = p.received s.before.setting s.host chunk := turn
  cases known with
  | awaiting stage => simp [stage, Stage.isReading] at reading
  | writing stage => simp [stage, Stage.isReading] at reading
  | @reading room size stream reads unanswered =>
    have completion := completion?_chunk op reads.unframed?
    rw [takes] at completion
    have others : ∀ id' ∈ s.operation.target?, id' = id := by
      rw [op]
      intro id' own
      exact (Option.some.inj own).symm
    rcases reads.received s.before.setting s.host some with
      ⟨short, b, stage, ht, reads'⟩ | ⟨m, whole, room, b, stage, ht, message⟩ |
        ⟨w, rest, ns, got, stream, full, ht⟩
    · rw [short] at completion
      rw [turn, ht] at effects found
      refine .goesOn completion (effects ▸ rfl) (effects ▸ rfl)
        (h.update found others fun p' hp' => ?_) fun o ho reply => ?_
      · obtain rfl := Option.some.inj hp'
        have more : taken (past ++ [s]) id = taken past id ++ chunk.take p.query.remaining := by
          rw [taken_snoc, if_neg (by simp [Step.accepted?, result, Operation.result]), takes]
        exact ⟨own, .reading stream (more ▸ reads') unanswered⟩
      · rw [turn, ht] at result
        obtain rfl : .readMore = o := Except.ok.inj (Result.outcome.inj (result.symm.trans ho))
        simp [Outcome.isReply] at reply
    · have held : s.continues (taken past id) m = true := by simpa [Step.continues] using room
      rw [whole, Option.filter_some, if_pos held] at completion
      rw [ht] at turn
      obtain ⟨conn, origin⟩ := Origin.exists_connection stream
      exact .completes (p := { p with query := b, stage }) completion
        { own := own
          message := message
          sender := origin ▸ .stream op present rfl origin
          unanswered := ⟨size, unanswered⟩
          turn, result, found, effects := effects }
    · rw [stream, unframed?_of16_append] at completion
      have none : s.completion? past = none := by
        rw [completion]
        split
        · next all =>
          have length : (rest.take w.toNat).length = w.toNat := by
            rw [List.length_take, Nat.min_eq_left all]
          have unheld : ¬ s.continues (taken past id) (rest.take w.toNat) = true := by
            simp [Step.continues, length, full, got]
          rw [Option.filter_some, if_neg unheld]
          rfl
        · rfl
      rw [turn, ht] at effects found
      refine .goesOn none (effects ▸ rfl) (effects ▸ rfl) (h.update found others fun p' hp' => ?_)
        fun o ho reply => ?_
      · cases hp'
      · rw [turn, ht] at result
        obtain rfl : .released = o := Except.ok.inj (Result.outcome.inj (result.symm.trans ho))
        simp [Outcome.isReply] at reply

end Turned

theorem Step.course (s : Step C) (h : Accounted past s.before) : s.Course past := by
  cases s.shape with
  | @datagram listener peer m id t op room free turn result found _ effects drawn =>
    obtain ⟨table, drawn⟩ := drawn
    exact .completes (completion?_datagram op room drawn)
      { own := rfl
        message := WireBuffer.upToLimit_ofBytes m
        sender := .datagram op
        unanswered := ⟨m.length, WireBuffer.filled_replicate m.length⟩
        turn, result, found, effects }
  | @connection peer conn id buffer op free room result found _ effects =>
    refine .goesOn (by simp [completion?, op]) (effects ▸ rfl) (effects ▸ rfl)
      (h.update found (by simp [op, Operation.target?]) fun p hp => ?_) (by simp [result])
    obtain rfl := Option.some.inj hp
    have nothing : taken (past ++ [s]) id = [] := by
      rw [taken_snoc, if_pos (accepted?_eq_some_iff.mpr result)]
    have reads := Pending.Reading.length (p := .ofConnection id peer conn buffer) rfl
      (WireBuffer.filled_of_ofCapacity room) Nat.zero_lt_two
    exact ⟨rfl, .reading rfl (nothing ▸ reads) (WireBuffer.filled_replicate 0)⟩
  | @dropped listener peer m op room result found _ effects =>
    refine h.course_of_kept ?_ (effects ▸ rfl) (effects ▸ rfl) found
      (by simp [op, Operation.target?]) fun o ho => ?_
    · simp [completion?, op, room]
    · obtain rfl : .released = o := Except.ok.inj (Result.outcome.inj (result.symm.trans ho))
      rfl
  | refused op result found _ effects =>
    exact h.course_of_kept (by simp [completion?, op]) (effects ▸ rfl) (effects ▸ rfl) found
      (by simp [op, Operation.target?]) (by simp [result])
  | replaced op result after effects =>
    exact h.course_of_kept (by simp [completion?, op]) (effects ▸ rfl) (effects ▸ rfl)
      (fun _ => after ▸ rfl) (by simp [op, Operation.target?]) (by simp [result])
  | @missed id target absent result after effects =>
    have closed : s.takes id = [] := takes_closed (by simp [Engine.tcpReadWindow, absent])
    refine h.course_of_kept (completion?_idle target closed) (effects ▸ rfl) (effects ▸ rfl)
      (fun _ => after ▸ rfl) (fun id' own => ?_)
      fun o ho => Operation.silent_of_missed (result.symm.trans ho)
    obtain rfl := Option.some.inj (target.symm.trans own)
    exact absent
  | @turned id p t target present turn result found _ effects =>
    by_cases idle : p.Idle s.operation
    · exact h.course_of_idle present found effects target turn result idle
    · unfold Pending.Idle at idle
      push Not at idle
      obtain ⟨id', chunk, op, reading, some⟩ := idle
      obtain rfl : id' = id := by simpa [op, Operation.target?] using target
      exact h.course_of_chunk present found effects op some reading turn result

end Steps

namespace Run

variable {ids : IdSource} {setting : Setting} {steps : List (Step C)} {e : Engine C} {s : Step C}
  {j : Nat}

theorem accounted (run : Run (.fresh ids setting) steps e) : Accounted steps e := by
  induction run with
  | start =>
    intro id p hp
    simp [Engine.fresh] at hp
  | @next steps s run ih => exact (s.course ih).accounted ih

theorem course (run : Run (.fresh ids setting) steps e) (hs : steps[j]? = some s) :
    s.Course (steps.take j) :=
  s.course (run.before hs).accounted

end Run

end ResolverGate
