import Mathlib.Data.Nat.Find
import ResolverGate.Proofs.Engine.Asking
import ResolverGate.Proofs.Engine.Replying

/-! # Requests to the channel

The channel is asked once for every message that admission forwards, under the id of
its client's query, and for nothing else. A query awaits an answer only if the channel
took its request.
-/

namespace ResolverGate

variable {C : Type}

namespace Completion

/-- What is to be asked of the channel for the message, if admission forwards it. -/
def due? (c : Completion C) : Option Request :=
  match c.step.before.setting.policy.judge c.message with
  | .forward q => some (.query c.id q.question.name q.question.qtype q.question.qclass)
  | _ => none

def sent? (c : Completion C) : Option Request :=
  c.due?.filter fun r => (c.step.host.backend 0 r).isOk

/-- The query of the client who sent the message awaits the answer under its id. -/
structure Waits (c : Completion C) (q : Query) : Prop where
  result : c.step.result = .outcome (.ok .waiting)
  entry : ∃ p, c.step.after.table.find? c.id = some p ∧ p.id = c.id ∧ p.stage = .forwarded ∧
    p.parsed = some q ∧ c.From p.peer p.origin

variable {c : Completion C} {q : Query} {p : Pending C} {t : Turn C}

theorem due?_eq_some_iff {r : Request} : c.due? = some r ↔ ∃ q,
    c.step.before.setting.policy.judge c.message = .forward q ∧ r = q.request c.id := by
  unfold due?
  split
  · next q h =>
    constructor
    · intro hr
      exact ⟨q, h, (Option.some.inj hr).symm⟩
    · rintro ⟨q', h', rfl⟩
      obtain rfl := Admission.forward.inj (h.symm.trans h')
      rfl
  · next h =>
    constructor
    · simp
    · rintro ⟨q, hq, -⟩
      exact absurd hq (h q)

theorem Judges.waits (judges : c.Judges p t) (asks : c.Asks q) :
    c.Waits q ∧ t.sent = [q.request c.id] := by
  obtain ⟨entry, outcome, sent⟩ := judges.settled
  have fate : (c.step.before.setting.policy.judge c.message).fate c.step.host.backend p.id =
      .forwarded q := by
    simp only [asks.forward, Admission.fate, judges.own, asks.taken]
  rw [Pending.settle_forwarded fate] at entry outcome sent
  refine ⟨⟨?_, { p with stage := .forwarded, parsed := some q }, ?_, judges.own, rfl, rfl,
    judges.sender⟩, ?_⟩
  · rw [judges.result, outcome]
    rfl
  · rw [judges.found, if_pos rfl, entry]
    rfl
  · rw [sent, judges.own]

theorem sent?_eq_fate (c : Completion C) : c.sent? =
    match (c.step.before.setting.policy.judge c.message).fate c.step.host.backend c.id with
    | .forwarded q => some (q.request c.id)
    | _ => none := by
  unfold sent? due?
  cases c.step.before.setting.policy.judge c.message with
  | forward q =>
    cases hb : c.step.host.backend 0 (q.request c.id) <;> rw [Query.request] at hb <;>
      simp [Admission.fate, Query.request, Option.filter, hb, Except.isOk, Except.toBool]
  | _ => rfl

/-- What is sent is what the channel takes of what is due. -/
theorem Judges.sent (judges : c.Judges p t) : t.sent = c.sent?.toList := by
  rw [sent?_eq_fate]
  cases hf : (c.step.before.setting.policy.judge c.message).fate c.step.host.backend c.id with
  | forwarded q =>
    obtain ⟨forward, taken⟩ := Admission.fate_eq_forwarded hf
    exact (judges.waits ⟨forward, taken⟩).2
  | replied reply =>
    obtain ⟨-, -, -, silent⟩ := judges.sends hf
    exact silent
  | dropped =>
    rw [judges.settled.2.2, Pending.settle_dropped (judges.own ▸ hf)]
    rfl

end Completion

namespace Pending

theorem sendAnswer_ok (p : Pending C) (memory : Memory) (a : Bytes) :
    ∃ o, (p.sendAnswer memory a).outcome = .ok o := by
  unfold sendAnswer
  split
  · exact ⟨_, rfl⟩
  split
  · exact ⟨_, rfl⟩
  · exact ⟨_, rfl⟩

theorem judge_ok (p : Pending C) (s : Setting) (host : Host) :
    ∃ o, (p.judge s host).outcome = .ok o := by
  suffices h : ∃ o, (p.settle host (s.policy.judge p.query.upToLimit)).outcome = .ok o from h
  cases hf : (s.policy.judge p.query.upToLimit).fate host.backend p.id with
  | dropped => exact ⟨_, by rw [settle_dropped hf]; rfl⟩
  | forwarded q => exact ⟨_, by rw [settle_forwarded hf]; rfl⟩
  | replied reply =>
    obtain ⟨parsed, ns, hr⟩ := settle_replied hf
    rw [hr]
    exact sendAnswer_ok _ _ reply

end Pending

namespace Step

variable {s : Step C} {past : List (Step C)} {backend : Backend} {c : Completion C}

theorem perform_over (own : ∀ id p, s.before.table.find? id = some p → p.id = id)
    (agree : ∀ id ∈ s.about?, ∀ m ∈ s.effects.judged, ∀ q,
      s.before.setting.policy.judge m = .forward q →
        backend 0 (q.request id) = s.host.backend 0 (q.request id)) :
    s.before.perform ⟨backend, s.host.memory⟩ s.operation =
      some (s.result, s.after, s.effects) := by
  rw [← s.performed]
  refine Engine.perform_congr
    (fun listener peer m id table op drawn room => ?_) fun id chunk p op present => ?_
  · refine Pending.judge_congr fun q hq => agree id (by simp [about?, op, drawn]) m ?_ q ?_
    · obtain ⟨-, _, t, -, turn, -, -, effects⟩ | ⟨full, -⟩ := s.received op
      · rw [effects, turn]
        exact List.mem_singleton.mpr (WireBuffer.upToLimit_ofBytes m).symm
      · simp [room] at full
    · rwa [Pending.datagram, Pending.start, WireBuffer.upToLimit_ofBytes] at hq
  · obtain ⟨t, turn, -, -, effects, -⟩ := s.turned (by rw [op]; rfl) present
    rw [op] at turn
    refine Pending.received_congr fun m hm q hq => ?_
    rw [own id p present]
    refine agree id (by simp [about?, op, Operation.target?]) m ?_ q hq
    rw [effects, turn]
    exact hm

/-- What the step asks of the channel, and what becomes of the query. -/
structure Forwards (s : Step C) (past : List (Step C)) : Prop where
  judged : s.effects.judged = ((s.completion? past).map Completion.message).toList
  sent : s.effects.sent = ((s.completion? past).bind Completion.sent?).toList
  /-- The verdict on the request that is due is all that the channel is asked for. -/
  asked : ∀ backend : Backend,
    (∀ c ∈ s.completion? past, ∀ r ∈ c.due?, backend 0 r = s.host.backend 0 r) →
      s.before.perform ⟨backend, s.host.memory⟩ s.operation = some (s.result, s.after, s.effects)
  taken : ∀ c ∈ s.completion? past, ∀ q, c.Asks q → c.Waits q
  rejected : ∀ c ∈ s.completion? past, ∀ q fault,
    c.step.before.setting.policy.judge c.message = .forward q →
      c.step.host.backend 0 (q.request c.id) = .error fault →
        ∃ peer origin, c.From peer origin ∧
          (s.host.memory.Frames (q.errorReply .servFail) origin →
            s.Replies c.id peer (q.errorReply .servFail) origin)

theorem forwards (s : Step C) (h : Accounted past s.before) : s.Forwards past := by
  have own id p (hp : s.before.table.find? id = some p) : p.id = id := (h id p hp).1
  cases s.course h with
  | goesOn completion sent judged =>
    refine ⟨by rw [judged, completion]; rfl, by rw [sent, completion]; rfl,
      fun backend _ => perform_over own (by simp [judged]), ?_, ?_⟩
    · simp [completion]
    · simp [completion]
  | @completes c p t completion judges =>
    obtain ⟨rfl, -⟩ := completion?_cases completion
    have judged : c.step.effects.judged = [c.message] := by
      rw [judges.effects, ← judges.message, judges.turn]
      rfl
    refine ⟨by rw [judged, completion]; rfl, ?_, fun backend agree => ?_, ?_, ?_⟩
    · rw [judges.effects, completion]
      exact judges.sent
    · refine perform_over own fun id hid m hm q hq => ?_
      obtain rfl : c.id = id := by simpa [about?_of_completion completion] using hid
      obtain rfl : m = c.message := by simpa [judged] using hm
      exact agree c completion _ (Completion.due?_eq_some_iff.mpr ⟨q, hq, rfl⟩)
    · intro c' hc' q asks
      obtain rfl : c = c' := Option.some.inj (completion.symm.trans hc')
      exact (judges.waits asks).1
    · intro c' hc' q fault forward refused
      obtain rfl : c = c' := Option.some.inj (completion.symm.trans hc')
      refine ⟨p.peer, p.origin, judges.sender, judges.replies_of_frames ?_⟩
      simp only [forward, Admission.fate, refused]

/-- An id that is not in use is found for everything that begins a query, unless there is no
room for it. -/
structure Begins (s : Step C) (past : List (Step C)) : Prop where
  datagram : ∀ listener peer m, s.operation = .udpReceived listener peer m →
    (s.host.memory.holds m = true ∧ ∃ id o, s.before.table.find? id = none ∧
      s.completion? past = some ⟨s, id, m⟩ ∧ s.result = .outcome (.ok o)) ∨
    s.host.memory.holds m = false ∧ s.completion? past = none ∧
      s.result = .outcome (.ok .released)
  connection : ∀ peer conn, s.operation = .tcpAccepted peer conn →
    (∃ id p, s.before.table.find? id = none ∧ s.result = .accepted (.ok id) ∧
      s.after.table.find? id = some p ∧ p.peer = peer ∧ p.origin = .tcp conn) ∨
    ∃ size, s.result = .accepted (.error (.outOfMemory size))

theorem begins (s : Step C) (past : List (Step C)) : s.Begins past := by
  constructor
  · intro listener peer m op
    obtain ⟨id, n, free, drawn, ⟨room, p, t, -, turn, result, -⟩ | ⟨full, result, -⟩⟩ :=
      s.begun_datagram op
    · obtain ⟨o, ho⟩ := p.judge_ok s.before.setting s.host
      exact .inl ⟨room, id, o, free, completion?_datagram op room drawn, by rw [result, turn, ho]⟩
    · exact .inr ⟨full, by simp [completion?, op, full], result⟩
  · intro peer conn op
    obtain ⟨id, n, free, h⟩ := s.begun_connection op
    cases room : WireBuffer.ofCapacity (s.host.memory .query) s.before.setting.tcpInitialBuffer with
    | ok buffer =>
      rw [room] at h
      obtain ⟨result, after, -⟩ := h
      refine .inl ⟨id, .ofConnection id peer conn buffer, free, result, ?_, rfl, rfl⟩
      rw [after]
      exact (Engine.find?_begun rfl fun _ => Table.find?_drawn n).trans (if_pos rfl)
    | error fault =>
      rw [room] at h
      refine .inr ⟨s.before.setting.tcpInitialBuffer, ?_⟩
      rw [h.1, WireBuffer.fault_of_ofCapacity room]

/-- As long as the id source goes on to an id that is not in use, every operation ends. -/
theorem exists_of_free {e : Engine C} {n : Nat}
    (free : e.table.contains (e.table.ids.ahead n) = false) (host : Host) (op : Operation C) :
    ∃ s : Step C, s.before = e ∧ s.host = host ∧ s.operation = op := by
  have some_free : ∃ n, e.table.contains (e.table.ids.ahead n) = false := ⟨n, free⟩
  have drawn := Table.allocate_of_first (t := e.table) (n := Nat.find some_free)
    (fun k hk => by simpa using Nat.find_min some_free hk) (Nat.find_spec some_free)
  have of_some {r : Result × Engine C × Effects C} (performed : e.perform host op = some r) :
      ∃ s : Step C, s.before = e ∧ s.host = host ∧ s.operation = op :=
    ⟨⟨e, host, op, _, _, _, performed⟩, rfl, rfl, rfl⟩
  cases op with
  | udpReceived listener peer m =>
    cases room : host.memory.holds m with
    | true => exact of_some (Engine.perform_datagram drawn room)
    | false => exact of_some (Engine.perform_dropped drawn room)
  | tcpAccepted peer conn =>
    cases room : WireBuffer.ofCapacity (host.memory .query) e.setting.tcpInitialBuffer with
    | ok buffer => exact of_some ((Engine.perform_connection drawn).trans (by rw [room]))
    | error fault => exact of_some ((Engine.perform_connection drawn).trans (by rw [room]))
  | replaceBlocklist blocklist => exact of_some rfl
  | tcpReceived id chunk => exact exists_of_target e host rfl
  | tcpWrote id count => exact exists_of_target e host rfl
  | backendAnswer f => exact exists_of_target e host rfl
  | expire id => exact exists_of_target e host rfl
  | release id => exact exists_of_target e host rfl
  | mapConnection id f => exact exists_of_target e host rfl

end Step

namespace Run

variable {ids : IdSource} {setting : Setting} {steps : List (Step C)} {e : Engine C}

theorem sent_eq (run : Run (.fresh ids setting) steps e) :
    steps.flatMap (·.effects.sent) = (completions steps).filterMap Completion.sent? := by
  induction run with
  | start => rfl
  | @next steps s run ih =>
    have own := (s.forwards run.accounted).sent
    rw [List.flatMap_append, completions_snoc, List.filterMap_append, ih, List.flatMap_singleton,
      own]
    cases s.completion? steps with
    | none => rfl
    | some c => cases h : c.sent? <;> simp [h]

/-- Every message that admission forwards is asked for once, in the order of the messages
and under the id of its client's query; nothing else is, and a query awaits an answer only
if its request was taken. -/
theorem forwarded_once (run : Run (.fresh ids setting) steps e) :
    steps.flatMap (·.effects.sent) = (completions steps).filterMap Completion.sent? ∧
    (∀ (j : Nat) (s : Step C), steps[j]? = some s →
      s.Forwards (steps.take j) ∧ s.Begins (steps.take j)) ∧
    e.table.Distinct ∧
    (∀ id p, e.table.find? id = some p → p.id = id ∧ (p.stage = .forwarded →
      ∃ c q origin f, latest? steps id = some c ∧ c.Asks q ∧ p.parsed = some q ∧
        c.From p.peer origin ∧ p.origin = origin.map f)) ∧
    ∀ n, e.table.contains (e.table.ids.ahead n) = false → ∀ host op,
      ∃ s : Step C, s.before = e ∧ s.host = host ∧ s.operation = op := by
  refine ⟨run.sent_eq, fun j s hs => ?_, run.distinct Engine.distinct_fresh, fun id p hp => ?_,
    fun n free => Step.exists_of_free free⟩
  · exact ⟨s.forwards (run.before hs).accounted, s.begins _⟩
  · obtain ⟨own, known⟩ := run.accounted id p hp
    refine ⟨own, fun stage => ?_⟩
    cases known with
    | reading _ reads => exact absurd stage reads.stage_ne_forwarded
    | awaiting _ parsed last asks sender moved =>
      exact ⟨_, _, _, _, last, asks, parsed, sender, moved⟩
    | writing stage' => simp [stage] at stage'

/-- Of two messages that are to be forwarded, the channel takes the first. -/
theorem forwarded_once_refused : ∃ (ask refused : Step Nat) (e : Engine Nat) (id : QueryId),
    Run (.fresh (.ofQueue [] 7) .small) [ask, refused] e ∧
      completions [ask, refused] =
        [⟨ask, ⟨7⟩, Query.smallMessage⟩, ⟨refused, id, Query.smallMessage⟩] ∧
      [ask, refused].flatMap (·.effects.sent) = [Query.small.request ⟨7⟩] ∧
      e.table.Distinct ∧
      ∃ peer origin, refused.Replies id peer (Query.small.errorReply .servFail) origin := by
  have free : Step.ask.after.table.contains (Step.ask.after.table.ids.ahead 0) = false := by
    have next : Step.ask.after.table.ids.ahead 0 = ⟨8⟩ :=
      congrArg (IdSource.ahead · 0) Engine.commit_ids
    rw [next, Table.contains_eq_false_iff]
    exact (Engine.find?_commit (Table.contains_iff.mpr ⟨_, rfl⟩)).trans (if_neg (by decide))
  obtain ⟨refused, before, channel, op⟩ := Step.exists_of_free free ⟨.allowing (some 0), .plenty⟩
    (.udpReceived 4 .loopback Query.smallMessage)
  have asked : Run .small [Step.ask] refused.before := before ▸ .next (s := .ask) .start
  have run : Run .small [Step.ask, refused] refused.after := asked.next
  obtain ⟨sent, each, distinct, -⟩ := run.forwarded_once
  have first : Step.ask.completion? [] = some ⟨.ask, ⟨7⟩, Query.smallMessage⟩ :=
    completion?_datagram rfl rfl Engine.allocate_small
  obtain ⟨forwards, begins⟩ := each 1 refused rfl
  have room : refused.host.memory.holds Query.smallMessage = true := by
    rw [channel]
    rfl
  obtain ⟨-, id, -, -, second, -⟩ | ⟨full, -⟩ := begins.datagram _ _ _ op
  case inr => simp [room] at full
  replace second : refused.completion? [Step.ask] = some ⟨refused, id, Query.smallMessage⟩ := second
  have both : completions [Step.ask, refused] =
      [⟨.ask, ⟨7⟩, Query.smallMessage⟩, ⟨refused, id, Query.smallMessage⟩] := by
    simp [completions, completionsAfter, first, second]
  have forward : refused.before.setting.policy.judge Query.smallMessage = .forward .small := by
    rw [before, show Step.ask.after.setting = .small from Engine.commit_setting]
    exact Policy.judge_smallMessage
  have verdict : refused.host.backend 0 (Query.small.request id) = .error .backendUnavailable := by
    rw [channel]
    rfl
  obtain ⟨peer, origin, -, replies⟩ := forwards.rejected _ second _ _ forward verdict
  have sent₁ : Completion.sent? ⟨.ask, ⟨7⟩, Query.smallMessage⟩ =
      some (Query.small.request ⟨7⟩) := by
    rw [Completion.sent?_eq_fate, show Step.ask.before.setting.policy = ⟨.empty, false⟩ from rfl,
      Policy.judge_smallMessage]
    rfl
  have sent₂ : Completion.sent? ⟨refused, id, Query.smallMessage⟩ = none := by
    simp [Completion.sent?_eq_fate, forward, Admission.fate, verdict]
  have frames : refused.host.memory.Frames (Query.small.errorReply .servFail) origin := by
    intro _
    rw [channel]
    rfl
  refine ⟨.ask, refused, _, id, run, both, ?_, distinct, peer, origin, replies frames⟩
  rw [sent, both]
  simp [sent₁, sent₂]

end Run

end ResolverGate
