import Mathlib.Data.List.Forall2
import ResolverGate.Proofs.Engine.Reassembly
import ResolverGate.Proofs.Engine.Replying

/-! # Answers that the engine fails

Whoever leaves checking to us and asks for what turns out bogus, or for what the engine
cannot answer, is told SERVFAIL and nothing of the answer. To clients that check for
themselves a bogus answer is one like any other.
-/

namespace ResolverGate

variable {C : Type}

structure Assembly where
  arrived : Nat
  total : Nat

namespace Assembly

def extend (a : Assembly) (f : Fragment) : Assembly where
  arrived := a.arrived + f.data.length
  total := if a.arrived = 0 then f.answerLength.toNat else a.total

/-- A fragment is flagged for `q`, and the ones before it leave the answer short. -/
inductive Fails (q : Query) : Assembly → List Fragment → Prop
  | now {a : Assembly} {f : Fragment} {fs : List Fragment}
      (flagged : f.srvfail = true ∨ f.bogus = true ∧ q.checkingDisabled = false) :
      Fails q a (f :: fs)
  | later {a : Assembly} {f : Fragment} {fs : List Fragment}
      (short : (a.extend f).arrived < (a.extend f).total) (rest : Fails q (a.extend f) fs) :
      Fails q a (f :: fs)

end Assembly

theorem Fragment.fails_iff {f : Fragment} {q : Query} :
    f.fails q = true ↔ f.srvfail = true ∨ f.bogus = true ∧ q.checkingDisabled = false := by
  simp [fails]

namespace Assembly

variable {q : Query} {f : Fragment} {fs : List Fragment} {got : Bytes} {size : Nat}

theorem extend_received : extend ⟨got.length, size⟩ f =
    ⟨(got ++ f.data).length, if got = [] then f.answerLength.toNat else size⟩ := by
  simp only [extend, List.length_append, List.length_eq_zero_iff]

theorem Fails.of_intact {a : Assembly} (h : Fails q a (f :: fs)) (intact : f.fails q = false) :
    (a.extend f).arrived < (a.extend f).total ∧ Fails q (a.extend f) fs := by
  cases h with
  | now flagged => simp [Fragment.fails_iff.mpr flagged] at intact
  | later short rest => exact ⟨short, rest⟩

end Assembly

def Step.fragment? (s : Step C) (id : QueryId) : Option Fragment :=
  match s.operation with
  | .backendAnswer f => if f.id = id then some f else none
  | _ => none

def fragments (steps : List (Step C)) (id : QueryId) : List Fragment :=
  steps.filterMap (·.fragment? id)

/-- Of the steps about the query under the id only `u` replies, and none has its answer
encoded. -/
structure OnlyReply (steps : List (Step C)) (id : QueryId) (peer : SocketAddress)
    (origin : Origin C) (reply : Bytes) (u : Step C) : Prop where
  own : u.operation.target? = some id
  replies : u.Replies id peer reply origin
  others : ∃ pre post, steps = pre ++ u :: post ∧
    ∀ v ∈ pre ++ post, v.operation.target? = some id → v.result = .outcome (.ok .waiting)
  unencoded : ∀ v ∈ steps, v.operation.target? = some id → v.effects.encoded = []

/-- All that the steps do for the query `p` under the id is to bring fragments, one of
which fails it in time. There is room to frame what it is told. -/
structure FailedBy (steps : List (Step C)) (id : QueryId) (p : Pending C) (q : Query) : Prop where
  only : ∀ u ∈ steps, u.operation.target? = some id → ∃ f, u.operation = .backendAnswer f
  absent : ∀ u ∈ steps, ¬ u.Creates id
  fails : Assembly.Fails q ⟨p.answer.position, p.answer.capacity⟩ (fragments steps id)
  frames : ∀ u ∈ steps, u.operation.target? = some id →
    u.host.memory.Frames (q.errorReply .servFail) p.origin

section Waiting

variable {s u : Step C} {steps : List (Step C)} {id : QueryId} {peer : SocketAddress}
  {origin : Origin C} {reply : Bytes} {f : Fragment} {e e' : Engine C} {p : Pending C} {q : Query}
  {a got : Bytes} {size : Nat}

theorem fragments_own (op : s.operation = .backendAnswer f)
    (own : s.operation.target? = some id) :
    fragments (s :: steps) id = f :: fragments steps id := by
  obtain rfl : f.id = id := by simpa [op, Operation.target?] using own
  refine List.filterMap_cons_some ?_
  simp [Step.fragment?, op]

theorem fragments_other (other : s.operation.target? ≠ some id) :
    fragments (s :: steps) id = fragments steps id := by
  refine List.filterMap_cons_none ?_
  unfold Step.fragment?
  split
  · next f op =>
    refine if_neg fun hid => other ?_
    rw [op, Operation.target?, hid]
  · rfl

theorem OnlyReply.cons (h : OnlyReply steps id peer origin reply u)
    (waits : s.operation.target? = some id →
      s.result = .outcome (.ok .waiting) ∧ s.effects.encoded = []) :
    OnlyReply (s :: steps) id peer origin reply u := by
  obtain ⟨pre, post, rfl, others⟩ := h.others
  refine ⟨h.own, h.replies, ⟨s :: pre, post, rfl, fun v hv ht => ?_⟩, fun v hv ht => ?_⟩
  · rcases List.mem_cons.mp hv with rfl | hv
    · exact (waits ht).1
    · exact others v hv ht
  · rcases List.mem_cons.mp hv with rfl | hv
    · exact (waits ht).2
    · exact h.unencoded v hv ht

namespace Run

/-- A query that awaits no answer is not replied to again. -/
theorem unawaited (run : Run e steps e') (distinct : e.table.Distinct)
    (idle : ∀ p, e.table.find? id = some p → p.stage ≠ .forwarded)
    (only : ∀ v ∈ steps, v.operation.target? = some id → ∃ f, v.operation = .backendAnswer f)
    (absent : ∀ v ∈ steps, ¬ v.Creates id) :
    ∀ v ∈ steps, v.operation.target? = some id →
      v.result = .outcome (.ok .waiting) ∧ v.effects.encoded = [] := by
  induction steps generalizing e with
  | nil => simp
  | cons s steps ih =>
    obtain ⟨rfl, rest⟩ := run.uncons
    have ignores (ht : s.operation.target? = some id) :
        s.result = .outcome (.ok .waiting) ∧ s.after = s.before ∧ s.effects.encoded = [] := by
      obtain ⟨f, op⟩ := only s List.mem_cons_self ht
      have hid : f.id = id := by simpa [op, Operation.target?] using ht
      obtain ⟨result, after, silent⟩ := Step.answered_unawaited distinct op hid idle
      exact ⟨result, after, congrArg Effects.encoded silent⟩
    have idle' : ∀ p, s.after.table.find? id = some p → p.stage ≠ .forwarded := by
      intro p hp
      by_cases ht : s.operation.target? = some id
      · exact idle p ((ignores ht).2.1 ▸ hp)
      cases hb : s.before.table.find? id with
      | none => simp [s.find?_of_absent (absent s List.mem_cons_self) hb] at hp
      | some p' =>
        obtain rfl : p' = p := by simpa [s.find?_of_not_target ht hb] using hp
        exact idle p' hb
    intro v hv ht
    rcases List.mem_cons.mp hv with rfl | hv
    · exact ⟨(ignores ht).1, (ignores ht).2.2⟩
    · exact ih rest (s.distinct distinct) idle' (fun v hv => only v (List.mem_cons_of_mem _ hv))
        (fun v hv => absent v (List.mem_cons_of_mem _ hv)) v hv ht

theorem only_reply_of_sendAnswer (rest : Run s.after steps e') (distinct : s.after.table.Distinct)
    (own : s.operation.target? = some id) (fits : a.length < 0x10000)
    (frames : s.host.memory.Frames a p.origin)
    (result : s.result = .outcome (p.sendAnswer s.host.memory a).outcome)
    (found : s.after.table.find? id = (p.sendAnswer s.host.memory a).entry)
    (encoded : s.effects.encoded = (p.sendAnswer s.host.memory a).encoded)
    (only : ∀ v ∈ steps, v.operation.target? = some id → ∃ f, v.operation = .backendAnswer f)
    (absent : ∀ v ∈ steps, ¬ v.Creates id) : OnlyReply (s :: steps) id p.peer p.origin a s := by
  obtain ⟨o, ho, reply⟩ := p.sendAnswer_isReply fits frames
  have idle : ∀ p', s.after.table.find? id = some p' → p'.stage ≠ .forwarded := by
    intro p' hp'
    obtain ⟨-, b, rfl⟩ := Pending.entry_of_sendAnswer (found.symm.trans hp')
    simp
  have silent := rest.unawaited distinct idle only absent
  refine ⟨own, Step.replies_of_sendAnswer result found ho reply,
    ⟨[], steps, rfl, fun v hv own => (silent v hv own).1⟩, fun v hv own => ?_⟩
  rcases List.mem_cons.mp hv with rfl | hv
  · exact encoded.trans Pending.encoded_sendAnswer
  · exact (silent v hv own).2

/-- The first fragment that fails the query has SERVFAIL sent, whatever is there of the
answer. -/
theorem only_reply_of_fails (fits : (q.errorReply .servFail).length < 0x10000)
    (run : Run e steps e') (distinct : e.table.Distinct) (hp : e.table.find? id = some p)
    (hs : p.stage = .forwarded) (hq : p.parsed = some q) (received : p.answer.Filled got size)
    (only : ∀ v ∈ steps, v.operation.target? = some id → ∃ f, v.operation = .backendAnswer f)
    (absent : ∀ v ∈ steps, ¬ v.Creates id)
    (frames : ∀ v ∈ steps, v.operation.target? = some id →
      v.host.memory.Frames (q.errorReply .servFail) p.origin)
    (fails : Assembly.Fails q ⟨got.length, size⟩ (fragments steps id)) :
    ∃ u, OnlyReply steps id p.peer p.origin (q.errorReply .servFail) u := by
  induction steps generalizing e p got size with
  | nil => cases fails
  | cons s steps ih =>
    obtain ⟨rfl, rest⟩ := run.uncons
    have distinct' := s.distinct distinct
    have only' v (hv : v ∈ steps) := only v (List.mem_cons_of_mem _ hv)
    have absent' v (hv : v ∈ steps) := absent v (List.mem_cons_of_mem _ hv)
    have frames' v (hv : v ∈ steps) := frames v (List.mem_cons_of_mem _ hv)
    by_cases ht : s.operation.target? = some id
    case neg =>
      rw [fragments_other ht] at fails
      obtain ⟨u, h⟩ := ih rest distinct' (s.find?_of_not_target ht hp) hs hq received only' absent'
        frames' fails
      exact ⟨u, h.cons fun own => absurd own ht⟩
    obtain ⟨f, op⟩ := only s List.mem_cons_self ht
    rw [fragments_own op ht] at fails
    have hid : f.id = id := by simpa [op, Operation.target?] using ht
    obtain ⟨t, turn, result, -, effects, found⟩ := s.answered op hid hp
    have encoded : s.effects.encoded = t.encoded := congrArg Effects.encoded effects
    have arrival := Pending.answered_arrival s.before.setting s.host.memory f hs hq received
    rw [← turn] at arrival
    clear turn
    -- unless the fragment fails the query, the answer is still short with it
    have still_short (intact : f.fails q = false) := fails.of_intact intact
    simp only [Assembly.extend_received, List.length_append] at still_short
    have fits_here := frames s List.mem_cons_self ht
    cases arrival with
    | failed => exact ⟨s, rest.only_reply_of_sendAnswer distinct' ht fits fits_here result found
        encoded only' absent'⟩
    | unbuffered => exact ⟨s, rest.only_reply_of_sendAnswer distinct' ht fits fits_here result found
        encoded only' absent'⟩
    | @partly b intact _ received' =>
      have later := (still_short intact).2
      rw [← List.length_append] at later
      obtain ⟨u, h⟩ := ih (p := { p with answer := b }) rest distinct' found hs hq received' only'
        absent' frames' later
      exact ⟨u, h.cons fun _ => ⟨result, encoded⟩⟩
    | wholly intact all => exact absurd all (Nat.ne_of_lt (still_short intact).1)
    | overrun intact excess => exact absurd excess (Nat.lt_asymm (still_short intact).1)

end Run

end Waiting

/-! ## Clients that check for themselves -/

def Fragment.unmarked (f : Fragment) : Fragment := { f with bogus := false }

def Operation.unmarked (id : QueryId) : Operation C → Operation C
  | .backendAnswer f => .backendAnswer (if f.id = id then f.unmarked else f)
  | op => op

structure Step.Unmarked (id : QueryId) (s s' : Step C) : Prop where
  operation : s'.operation = s.operation.unmarked id
  before : s'.before = s.before
  host : s'.host = s.host
  result : s'.result = s.result
  after : s'.after = s.after
  effects : s'.effects = s.effects

section Unmarked

variable {e e' : Engine C} {id : QueryId} {p p' : Pending C} {q : Query} {s : Step C}
  {past before steps : List (Step C)} {ids : IdSource} {setting : Setting} {host : Host}
  {op : Operation C}

theorem Fragment.fails_unmarked {f : Fragment} (h : q.checkingDisabled = true) :
    f.unmarked.fails q = f.fails q := by
  simp [fails, unmarked, h]

theorem Pending.answered_unmarked {s : Setting} {memory : Memory} {f : Fragment}
    (h : p.stage = .forwarded → ∀ q ∈ p.parsed, q.checkingDisabled = true) :
    p.answered s memory f.unmarked = p.answered s memory f := by
  by_cases waits : p.stage = .forwarded ∧ ∃ q, p.parsed = some q
  · obtain ⟨stage, q, parsed⟩ := waits
    simp only [answered, stage, parsed, Fragment.fails_unmarked (h stage q parsed)]
    rfl
  · have : p.stage ≠ .forwarded ∨ p.parsed = none := by
      by_cases hs : p.stage = .forwarded
      · exact .inr (Option.eq_none_iff_forall_ne_some.mpr fun q hq => waits ⟨hs, q, hq⟩)
      · exact .inl hs
    rw [answered_unexpected this, answered_unexpected this]

theorem Engine.perform_unmarked (h : ∀ p, e.table.find? id = some p → p.stage = .forwarded →
      ∀ q ∈ p.parsed, q.checkingDisabled = true) :
    e.perform host (op.unmarked id) = e.perform host op := by
  cases op with
  | backendAnswer f =>
    by_cases hid : f.id = id
    case neg => rw [Operation.unmarked, if_neg hid]
    rw [Operation.unmarked, if_pos hid]
    subst hid
    have own : (Operation.backendAnswer f.unmarked : Operation C).target? = some f.id := rfl
    cases hp : e.table.find? f.id with
    | none =>
      rw [perform_missed own hp, perform_missed rfl hp]
      rfl
    | some p =>
      rw [perform_found own hp, perform_found rfl hp]
      simp only [Operation.turn, Pending.answered_unmarked (h p hp)]
      rfl
  | _ => rfl

theorem Pending.Leads.settled (h : p.Leads p') :
    p'.parsed = p.parsed ∧ (p.stage.isReading = false → p'.stage.isReading = false) := by
  cases h with
  | replied => exact ⟨rfl, fun _ => rfl⟩
  | _ => exact ⟨rfl, fun settled => settled⟩

theorem Step.parsed_of_settled (h : Accounted past s.before) (absent : ¬ s.Creates id)
    (settled : ∀ p, s.before.table.find? id = some p →
      p.parsed = some q ∧ p.stage.isReading = false)
    (hp' : s.after.table.find? id = some p') : p'.parsed = some q ∧ p'.stage.isReading = false := by
  cases hp : s.before.table.find? id with
  | none => simp [s.find?_of_absent absent hp] at hp'
  | some p =>
    obtain ⟨parsed, read⟩ := settled p hp
    by_cases ht : s.operation.target? = some id
    · obtain ⟨t, turn, -, -, -, found⟩ := s.turned ht hp
      rw [found, if_pos rfl, turn] at hp'
      have idle : p.Idle s.operation := fun _ _ _ reading => by simp [read] at reading
      have leads := idle.leads (h id p hp).2.expects hp'
      exact ⟨leads.settled.1.trans parsed, leads.settled.2 read⟩
    · obtain rfl : p = p' := by simpa [s.find?_of_not_target ht hp] using hp'
      exact ⟨parsed, read⟩

namespace Run

section

variable (history : Run (.fresh ids setting) before e) (hp : e.table.find? id = some p)
  (hs : p.stage = .forwarded) (hq : p.parsed = some q)

include history hp hs hq

theorem parsed_of_forwarded (run : Run e steps e') (absent : ∀ u ∈ steps, ¬ u.Creates id)
    (hp' : e'.table.find? id = some p') : p'.parsed = some q ∧ p'.stage.isReading = false := by
  induction run generalizing p' with
  | start =>
    obtain rfl : p = p' := Option.some.inj (hp.symm.trans hp')
    exact ⟨hq, by simp [hs, Stage.isReading]⟩
  | @next steps s run ih =>
    exact s.parsed_of_settled (history.append run).accounted (absent s (by simp))
      (fun p hp => ih (fun u hu => absent u (List.mem_append_left _ hu)) hp) hp'

theorem unmarked (checks : q.checkingDisabled = true) (run : Run e steps e')
    (absent : ∀ u ∈ steps, ¬ u.Creates id) :
    ∃ steps', Run e steps' e' ∧ List.Forall₂ (Step.Unmarked id) steps steps' := by
  induction run with
  | start => exact ⟨[], .start, .nil⟩
  | @next steps s run ih =>
    have absent' u (hu : u ∈ steps) := absent u (List.mem_append_left _ hu)
    obtain ⟨steps', run', same⟩ := ih absent'
    have performed : s.before.perform s.host (s.operation.unmarked id) =
        some (s.result, s.after, s.effects) := by
      rw [Engine.perform_unmarked, s.performed]
      intro p' hp' _ q' hq'
      have parsed := (history.parsed_of_forwarded hp hs hq run absent' hp').1
      obtain rfl : q = q' := Option.some.inj (parsed.symm.trans hq')
      exact checks
    let s' : Step C := ⟨s.before, s.host, s.operation.unmarked id, s.result, s.after,
      s.effects, performed⟩
    exact ⟨steps' ++ [s'], .next (s := s') run',
      List.rel_append same (.cons ⟨rfl, rfl, rfl, rfl, rfl, rfl⟩ .nil)⟩

theorem only_reply_of_failedBy (run : Run e steps e') (failed : FailedBy steps id p q) :
    ∃ u, OnlyReply steps id p.peer p.origin (q.errorReply .servFail) u := by
  obtain ⟨only, absent, fails, frames⟩ := failed
  cases (history.accounted id p hp).2 with
  | writing stage => simp [hs] at stage
  | reading _ reads => exact absurd hs reads.stage_ne_forwarded
  | @awaiting c q' _ _ got size _ parsed _ asks _ _ received =>
    obtain rfl : q = q' := Option.some.inj (hq.symm.trans parsed)
    have fits : (q.errorReply .servFail).length < 0x10000 :=
      Nat.lt_of_le_of_lt (Policy.length_errorReply_le asks.forward .servFail).2 (by decide)
    rw [received.position_eq, received.capacity_eq] at fails
    exact run.only_reply_of_fails fits (history.distinct Engine.distinct_fresh) hp hs hq received
      only absent frames fails

/-- A query that the engine fails before its answer is there is replied to with SERVFAIL
alone, and alike whatever fragments the answer came in; a bogus answer is one that is
failed, unless the client checks for itself. -/
theorem failures_withheld :
    (∀ steps₁ steps₂ e₁ e₂, Run e steps₁ e₁ → Run e steps₂ e₂ →
      FailedBy steps₁ id p q → FailedBy steps₂ id p q →
        ∃ u₁ u₂, OnlyReply steps₁ id p.peer p.origin (q.errorReply .servFail) u₁ ∧
          OnlyReply steps₂ id p.peer p.origin (q.errorReply .servFail) u₂ ∧
          u₁.result = u₂.result ∧
          u₁.after.tcpPendingWrite id = u₂.after.tcpPendingWrite id) ∧
    (q.checkingDisabled = true → ∀ steps e', Run e steps e' → (∀ u ∈ steps, ¬ u.Creates id) →
      ∃ steps', Run e steps' e' ∧ List.Forall₂ (Step.Unmarked id) steps steps') := by
  refine ⟨fun steps₁ steps₂ e₁ e₂ run₁ run₂ failed₁ failed₂ => ?_,
    fun checks steps e' run absent => history.unmarked hp hs hq checks run absent⟩
  obtain ⟨u₁, h₁⟩ := history.only_reply_of_failedBy hp hs hq run₁ failed₁
  obtain ⟨u₂, h₂⟩ := history.only_reply_of_failedBy hp hs hq run₂ failed₂
  obtain ⟨result, pending⟩ := h₁.replies.same h₂.replies
  exact ⟨u₁, u₂, h₁, h₂, result, pending⟩

end

/-- The answer turns out bogus when five octets of it are there, or fails at once. -/
theorem failures_withheld_partly : ∃ (e : Engine Nat) (steps₁ steps₂ : List (Step Nat))
    (e₁ e₂ : Engine Nat) (u₁ u₂ : Step Nat), Run (.fresh (.ofQueue [] 7) .small) [Step.ask] e ∧
      e.table.find? ⟨7⟩ = some .asked ∧ Pending.asked.stage = .forwarded ∧
      Pending.asked.parsed = some .small ∧ Run e steps₁ e₁ ∧ Run e steps₂ e₂ ∧
      FailedBy steps₁ ⟨7⟩ .asked .small ∧ FailedBy steps₂ ⟨7⟩ .asked .small ∧
      (delivered steps₁ ⟨7⟩).length = 5 ∧ delivered steps₂ ⟨7⟩ = [] ∧
      OnlyReply steps₁ ⟨7⟩ .loopback (.udp 3) (Query.small.errorReply .servFail) u₁ ∧
      OnlyReply steps₂ ⟨7⟩ .loopback (.udp 3) (Query.small.errorReply .servFail) u₂ ∧
      u₁.result = u₂.result := by
  let part : Fragment := ⟨⟨7⟩, 12, false, false, [0, 0, 0x81, 0x80, 0]⟩
  let bogus : Fragment := ⟨⟨7⟩, 12, false, true, []⟩
  let failed : Fragment := ⟨⟨7⟩, 0, true, false, []⟩
  obtain ⟨s₁, before₁, -, op₁⟩ := Step.exists_answered Step.ask.after part
  obtain ⟨s₂, before₂, -, op₂⟩ := Step.exists_answered s₁.after bogus
  obtain ⟨s₃, before₃, -, op₃⟩ := Step.exists_answered Step.ask.after failed
  have history : Run .small [Step.ask] Step.ask.after := .next (s := .ask) .start
  have begun₁ : Run Step.ask.after [] s₁.before := before₁ ▸ .start
  have run₁ : Run Step.ask.after [s₁] s₂.before := before₂ ▸ begun₁.next
  have begun₂ : Run Step.ask.after [] s₃.before := before₃ ▸ .start
  have own₁ : s₁.operation.target? = some ⟨7⟩ := by rw [op₁]; rfl
  have own₂ : s₂.operation.target? = some ⟨7⟩ := by rw [op₂]; rfl
  have own₃ : s₃.operation.target? = some ⟨7⟩ := by rw [op₃]; rfl
  have brings {u : Step Nat} {f : Fragment} (op : u.operation = .backendAnswer f)
      (own : u.operation.target? = some ⟨7⟩) : u.brings ⟨7⟩ = f.data := by
    rw [Step.brings, if_pos own, op, Operation.octets]
  have failed₁ : FailedBy [s₁, s₂] ⟨7⟩ .asked .small := by
    constructor
    · simp [op₁, op₂]
    · simp [Step.not_creates_of_target own₁, Step.not_creates_of_target own₂]
    · rw [fragments_own op₁ own₁, fragments_own op₂ own₂]
      exact .later (by decide) (.now (.inr ⟨rfl, rfl⟩))
    · intro _ _ _ stream
      cases stream
  have failed₂ : FailedBy [s₃] ⟨7⟩ .asked .small := by
    constructor
    · simp [op₃]
    · simp [Step.not_creates_of_target own₃]
    · rw [fragments_own op₃ own₃]
      exact .now (.inl rfl)
    · intro _ _ _ stream
      cases stream
  obtain ⟨u₁, u₂, h₁, h₂, result, -⟩ := (history.failures_withheld Step.find?_ask rfl rfl).1
    [s₁, s₂] [s₃] _ _ run₁.next begun₂.next failed₁ failed₂
  refine ⟨_, _, _, _, _, u₁, u₂, history, Step.find?_ask, rfl, rfl, run₁.next, begun₂.next, failed₁,
    failed₂, ?_, ?_, h₁, h₂, result⟩
  · simp [delivered, brings op₁ own₁, brings op₂ own₂, part, bogus]
  · simp [delivered, brings op₃ own₃, failed]

end Run

end Unmarked

end ResolverGate
