import ResolverGate.Proofs.Engine.Sending

/-! # Where replies go

Every datagram that a running engine sends replies to one that it received, and
no received one is replied to twice. Each pending query that came in a datagram
can be traced to the step that received it.
-/

namespace ResolverGate

variable {C : Type}

namespace Step

def Sends (s : Step C) (d : Datagram) : Prop := s.result = .outcome (.ok (.sendDatagram d))

variable {s : Step C} {d : Datagram}

theorem sends_inj {d' : Datagram} (h : s.Sends d) (h' : s.Sends d') : d = d' := by
  simpa [Sends] using h.symm.trans h'

end Step

/-- The query that step `i` begins under `id` is pending up to step `j`. -/
structure Opened (steps : List (Step C)) (i : Nat) (s : Step C) (id : QueryId) (j : Nat) :
    Prop where
  step : steps[i]? = some s
  creates : s.Creates id
  stays : ∀ k u, i ≤ k → k < j → steps[k]? = some u → u.after.table.contains id = true

/-- What step `i` receives is replied to with `d` at step `j`: at once, or when the
query that it began is answered. -/
inductive LeadsTo (steps : List (Step C)) (i : Nat) : Nat → Datagram → Prop
  | atOnce {s : Step C} {d : Datagram} {listener : Nat} {peer : SocketAddress} {m : Bytes}
      (step : steps[i]? = some s) (op : s.operation = .udpReceived listener peer m)
      (sends : s.Sends d) : LeadsTo steps i i d
  | later {j : Nat} {s u : Step C} {f : Fragment} {d : Datagram} {listener : Nat}
      {peer : SocketAddress} {m : Bytes} (lt : i < j)
      (op : s.operation = .udpReceived listener peer m) (opened : Opened steps i s f.id j)
      (step : steps[j]? = some u) (answers : u.operation = .backendAnswer f)
      (sends : u.Sends d) : LeadsTo steps i j d

/-- Every pending query of a datagram is that of the step that received it. -/
def Traced (steps : List (Step C)) (e : Engine C) : Prop :=
  ∀ id p listener, e.table.find? id = some p → p.origin = .udp listener →
    ∃ i s m q, Opened steps i s id steps.length ∧
      s.operation = .udpReceived listener p.peer m ∧
      s.before.setting.policy.judge m = .forward q ∧ p.Awaits listener q

namespace Opened

variable {steps : List (Step C)} {i i' j : Nat} {s s' u : Step C} {id : QueryId} {e e' : Engine C}

theorem snoc (h : Opened steps i s id steps.length) (hu : u.after.table.contains id = true) :
    Opened (steps ++ [u]) i s id (steps ++ [u]).length := by
  obtain ⟨hi, -⟩ := List.getElem?_eq_some_iff.mp h.step
  refine ⟨by rw [List.getElem?_append_left hi, h.step], h.creates, fun k v hk hlt hv => ?_⟩
  by_cases hl : k < steps.length
  · exact h.stays k v hk hl (List.getElem?_append_left hl ▸ hv)
  · obtain rfl : k = steps.length := by simp at hlt; omega
    obtain rfl : u = v := by simpa using hv
    exact hu

theorem append (h : Opened steps i s id j) (hj : j ≤ steps.length) (more : List (Step C)) :
    Opened (steps ++ more) i s id j := by
  obtain ⟨hi, -⟩ := List.getElem?_eq_some_iff.mp h.step
  refine ⟨by rw [List.getElem?_append_left hi, h.step], h.creates, fun k u hk hlt hu => ?_⟩
  exact h.stays k u hk hlt (List.getElem?_append_left (Nat.lt_of_lt_of_le hlt hj) ▸ hu)

theorem last (hc : u.Creates id) :
    Opened (steps ++ [u]) steps.length u id (steps ++ [u]).length := by
  refine ⟨by simp, hc, fun k v hk hlt hv => ?_⟩
  obtain rfl : k = steps.length := by simp at hlt; omega
  obtain rfl : u = v := by simpa using hv
  exact hc.2

theorem take (h : Opened (steps.take j) i s id (steps.take j).length) (hj : j ≤ steps.length) :
    i < j ∧ Opened steps i s id j := by
  have hl : (steps.take j).length = j := by simp [hj]
  obtain ⟨hi, -⟩ := List.getElem?_eq_some_iff.mp h.step
  have get {k : Nat} (hk : k < j) : (steps.take j)[k]? = steps[k]? := by
    rw [List.getElem?_take, if_pos hk]
  refine ⟨by omega, (get (by omega)).symm.trans h.step, h.creates, fun k v hk hlt hv => ?_⟩
  exact h.stays k v hk (by omega) ((get hlt).trans hv)

theorem not_lt (run : Run e steps e') (h : Opened steps i s id j) (h' : Opened steps i' s' id j)
    (hj : i' < j) : ¬ i < i' := by
  intro hlt
  obtain ⟨k, rfl⟩ : ∃ k, i' = k + 1 := ⟨i' - 1, by omega⟩
  obtain ⟨hk, -⟩ := List.getElem?_eq_some_iff.mp h'.step
  obtain ⟨u, hu⟩ : ∃ u, steps[k]? = some u := ⟨_, List.getElem?_eq_getElem (by omega)⟩
  have present := h.stays k u (by omega) (by omega) hu
  rw [← run.before_eq_after hu h'.step, Table.contains, h'.creates.1] at present
  simp at present

theorem unique (run : Run e steps e') (h : Opened steps i s id j) (h' : Opened steps i' s' id j)
    (hi : i < j) (hi' : i' < j) : i = i' :=
  Nat.le_antisymm (Nat.le_of_not_lt (not_lt run h' h hi)) (Nat.le_of_not_lt (not_lt run h h' hi'))

end Opened

theorem Traced.snoc {steps : List (Step C)} {s : Step C} (h : Traced steps s.before) :
    Traced (steps ++ [s]) s.after := by
  intro id p listener hp ho
  have present : s.after.table.contains id = true := Table.contains_iff.mpr ⟨p, hp⟩
  have kept (hb : s.before.table.find? id = some p) :
      ∃ i s' m q, Opened (steps ++ [s]) i s' id (steps ++ [s]).length ∧
        s'.operation = .udpReceived listener p.peer m ∧
        s'.before.setting.policy.judge m = .forward q ∧ p.Awaits listener q := by
    obtain ⟨i, s', m, q, opened, rest⟩ := h id p listener hb ho
    exact ⟨i, s', m, q, opened.snoc present, rest⟩
  cases s.shape with
  | @datagram listener' peer m id' t op room free turn result found =>
    rw [found] at hp
    split at hp
    · next hid =>
      subst hid turn
      have origin : (Pending.datagram id listener' peer m : Pending C).origin = .udp listener' :=
        rfl
      obtain ⟨q, hq, hw, hpeer⟩ := Pending.awaits_of_judge origin hp
      obtain rfl : listener' = listener := Origin.udp.inj (hw.origin.symm.trans ho)
      refine ⟨steps.length, s, m, q, .last ⟨free, present⟩, ?_, ?_, hw⟩
      · rw [op, hpeer]; rfl
      · rwa [Pending.datagram, Pending.start, WireBuffer.upToLimit_ofBytes] at hq
    · exact kept hp
  | connection op free room result found =>
    rw [found] at hp
    split at hp
    · obtain rfl := Option.some.inj hp
      simp [Pending.ofConnection, Pending.start] at ho
    · exact kept hp
  | dropped _ _ _ found => exact kept (found id ▸ hp)
  | refused _ _ found => exact kept (found id ▸ hp)
  | @turned id' p₀ t target before turn result found =>
    rw [found] at hp
    split at hp
    · next hid =>
      subst hid turn
      cases ho₀ : p₀.origin with
      | tcp conn =>
        have := (Pending.turn_streams (by rw [ho₀]; rfl)).kept p hp
        simp [ho, Origin.transport] at this
      | udp listener₀ =>
        obtain ⟨i, s', m, q, opened, op, hq, hw⟩ := h id p₀ listener₀ before ho₀
        obtain ⟨hw', hpeer⟩ := Pending.awaits_of_turn hw hp
        obtain rfl : listener₀ = listener := Origin.udp.inj (hw'.origin.symm.trans ho)
        exact ⟨i, s', m, q, opened.snoc present, hpeer ▸ op, hq, hw'⟩
    · exact kept hp
  | missed _ _ _ after => exact kept (after ▸ hp)
  | replaced _ _ after =>
    rw [after] at hp
    exact kept hp

structure Step.RepliedBy (s : Step C) (listener : Nat) (peer : SocketAddress) (m : Bytes)
    (d : Datagram) : Prop where
  op : s.operation = .udpReceived listener peer m
  listener_eq : d.listener = listener
  peer_eq : d.peer = peer
  id_eq : ∃ w, Bytes.of16 w <+: m ∧ Bytes.of16 w <+: d.payload
  admitted : ∀ reason, s.before.setting.policy.judge m ≠ .drop reason

theorem Step.repliedBy_of_sends {s : Step C} {listener : Nat} {peer : SocketAddress} {m : Bytes}
    {d : Datagram} (op : s.operation = .udpReceived listener peer m) (h : s.Sends d) :
    s.RepliedBy listener peer m d ∧ ∀ id, ¬ s.Creates id := by
  obtain ⟨-, id, t, free, turn, result, found, -⟩ | ⟨-, result, -⟩ := s.received op
  case inr => simp [Step.Sends, result] at h
  subst turn
  obtain ⟨gone, hl, hpeer, hf⟩ := Pending.judge_sends rfl (Result.outcome.inj (result.symm.trans h))
  rw [Pending.datagram, Pending.start, WireBuffer.upToLimit_ofBytes] at hf
  refine ⟨⟨op, hl, hpeer, Policy.id_prefix_of_replied hf, fun reason hd => ?_⟩, ?_⟩
  · simp [hd, Admission.fate] at hf
  · rintro id' ⟨absent, present⟩
    rw [Table.contains, found] at present
    split at present
    · simp [gone] at present
    · simp [absent] at present

namespace LeadsTo

variable {steps : List (Step C)} {i i' j : Nat} {d d' : Datagram} {e e' : Engine C}

theorem le (h : LeadsTo steps i j d) : i ≤ j := by
  cases h with
  | atOnce => exact Nat.le_refl i
  | later lt => exact Nat.le_of_lt lt

theorem sends (h : LeadsTo steps i j d) : ∃ u, steps[j]? = some u ∧ u.Sends d := by
  cases h with
  | atOnce step op sends => exact ⟨_, step, sends⟩
  | later lt op opened step answers sends => exact ⟨_, step, sends⟩

theorem call_unique (run : Run e steps e') (h : LeadsTo steps i j d) (h' : LeadsTo steps i' j d') :
    i = i' := by
  cases h with
  | atOnce step op =>
    cases h' with
    | atOnce => rfl
    | later lt op' opened step' answers =>
      obtain rfl := Option.some.inj (step.symm.trans step')
      simp [op] at answers
  | later lt op opened step answers =>
    cases h' with
    | atOnce step' op' =>
      obtain rfl := Option.some.inj (step.symm.trans step')
      simp [op'] at answers
    | later lt' op' opened' step' answers' =>
      obtain rfl := Option.some.inj (step.symm.trans step')
      obtain rfl := Operation.backendAnswer.inj (answers.symm.trans answers')
      exact opened.unique run opened' lt lt'

end LeadsTo

namespace Run

variable {ids : IdSource} {setting : Setting} {steps : List (Step C)} {e : Engine C} {i j j' : Nat}
  {s u : Step C} {d d' : Datagram} {listener : Nat} {peer : SocketAddress} {m : Bytes}

theorem traced (run : Run (.fresh ids setting) steps e) : Traced steps e := by
  induction run with
  | start =>
    intro id p listener hp
    simp [Engine.fresh] at hp
  | next run ih => exact ih.snoc

section Replies

variable (run : Run (.fresh ids setting) steps e)
  (starts : ∀ c r, setting.encoder c = .ok r → Bytes.of16 c.query.header.id <+: r)

include run starts

/-- A step that is not given a datagram sends the reply to an earlier one. -/
theorem sends_cases (hu : steps[j]? = some u) (h : u.Sends d) :
    (∃ listener peer m, u.operation = .udpReceived listener peer m) ∨
      ∃ f i s m, u.operation = .backendAnswer f ∧ i < j ∧ Opened steps i s f.id j ∧
        s.RepliedBy d.listener d.peer m d ∧ u.after.table.find? f.id = none := by
  have toHere := run.before hu
  have starts' : ∀ c r, u.before.setting.encoder c = .ok r →
      Bytes.of16 c.query.header.id <+: r := by
    rw [toHere.encoder_eq]
    exact starts
  have hj : j ≤ steps.length := Nat.le_of_lt (List.getElem?_eq_some_iff.mp hu).1
  cases u.shape with
  | datagram op => exact .inl ⟨_, _, _, op⟩
  | dropped _ _ result => simp [Step.Sends, result] at h
  | connection _ _ _ result => simp [Step.Sends, result] at h
  | refused _ result => simp [Step.Sends, result] at h
  | replaced _ result => simp [Step.Sends, result] at h
  | missed _ _ result =>
    rw [Step.Sends, result] at h
    cases hop : u.operation <;> simp [hop, Operation.missed] at h
  | @turned id p t target before turn result found =>
    subst turn
    replace h := result.symm.trans h
    cases ho : p.origin with
    | tcp conn =>
      have streams : (u.operation.turn u.before.setting u.host p).Streams :=
        Pending.turn_streams (by rw [ho]; rfl)
      have silent := streams.silent d
      cases hop : u.operation <;> simp_all [Operation.result]
    | udp listener =>
      obtain ⟨i, s, m, q, opened, op, hq, hw⟩ := toHere.traced id p listener before ho
      obtain ⟨⟨f, hf⟩, gone, rfl, hpeer, hpre⟩ := Pending.turn_sends hw starts' h
      obtain rfl : f.id = id := by simpa [hf, Operation.target?] using target
      obtain ⟨hi, opened⟩ := opened.take hj
      refine .inr ⟨f, i, s, m, hf, hi, opened, ⟨hpeer ▸ op, rfl, rfl, ?_, ?_⟩, ?_⟩
      · exact ⟨_, Policy.id_prefix_of_forward hq, hpre⟩
      · simp [hq]
      · rw [found, if_pos rfl, gone]

theorem repliedBy_of_leadsTo (hs : steps[i]? = some s)
    (op : s.operation = .udpReceived listener peer m) (h : LeadsTo steps i j d) :
    s.RepliedBy listener peer m d ∧
      ∀ id u, s.Creates id → steps[j]? = some u → u.after.table.find? id = none := by
  cases h with
  | atOnce step _ sends =>
    obtain rfl := Option.some.inj (hs.symm.trans step)
    obtain ⟨replied, none⟩ := Step.repliedBy_of_sends op sends
    exact ⟨replied, fun id u hc => absurd hc (none id)⟩
  | @later j s₁ u f d listener₁ peer₁ m₁ lt op₁ opened step answers sends =>
    rcases run.sends_cases starts step sends with ⟨_, _, _, op'⟩ | ⟨f', i', s', m', op', rest⟩
    · simp [answers] at op'
    obtain ⟨hi, opened', replied, gone⟩ := rest
    obtain rfl : f = f' := by simpa [answers] using op'
    obtain rfl : i = i' := opened.unique run opened' lt hi
    obtain rfl : s = s' := Option.some.inj (hs.symm.trans opened'.step)
    obtain ⟨rfl, rfl, rfl⟩ : listener = d.listener ∧ peer = d.peer ∧ m = m' := by
      simpa using op.symm.trans replied.op
    refine ⟨replied, fun id v hc hv => ?_⟩
    obtain rfl : u = v := Option.some.inj (step.symm.trans hv)
    obtain rfl : id = f.id := s.creates_unique hc opened'.creates
    exact gone

theorem not_lt_of_leadsTo (h : LeadsTo steps i j d) (h' : LeadsTo steps i j' d') : ¬ j < j' := by
  intro hlt
  cases h' with
  | atOnce => exact absurd hlt (Nat.not_lt_of_le h.le)
  | @later _ s' u f _ listener peer m lt op opened =>
    obtain ⟨u, hu, -⟩ := h.sends
    obtain ⟨-, gone⟩ := run.repliedBy_of_leadsTo starts opened.step op h
    have present := opened.stays j u h.le hlt hu
    simp [Table.contains, gone f.id u opened.creates hu] at present

theorem leadsTo_unique (h : LeadsTo steps i j d) (h' : LeadsTo steps i j' d') :
    j = j' ∧ d = d' := by
  obtain rfl : j = j' := Nat.le_antisymm
    (Nat.le_of_not_lt (run.not_lt_of_leadsTo starts h' h))
    (Nat.le_of_not_lt (run.not_lt_of_leadsTo starts h h'))
  obtain ⟨u, hu, sends⟩ := h.sends
  obtain ⟨u', hu', sends'⟩ := h'.sends
  obtain rfl : u = u' := Option.some.inj (hu.symm.trans hu')
  exact ⟨rfl, u.sends_inj sends sends'⟩

theorem exists_leadsTo (hu : steps[j]? = some u) (h : u.Sends d) : ∃ i, LeadsTo steps i j d := by
  rcases run.sends_cases starts hu h with
    ⟨_, _, _, op⟩ | ⟨f, i, s, m, answers, hi, opened, replied, -⟩
  · exact ⟨j, .atOnce hu op h⟩
  · exact ⟨i, .later hi replied.op opened hu answers h⟩

/-- Every reply goes to the one datagram that led to it, and no datagram is replied
to twice. -/
theorem replies_routed :
    (∀ j u d, steps[j]? = some u → u.Sends d → ∃! i, LeadsTo steps i j d) ∧
      ∀ i s listener peer m, steps[i]? = some s → s.operation = .udpReceived listener peer m →
        (∀ j d, LeadsTo steps i j d → s.RepliedBy listener peer m d ∧
          ∀ id u, s.Creates id → steps[j]? = some u → u.after.table.find? id = none) ∧
        (∀ j j' d d', LeadsTo steps i j d → LeadsTo steps i j' d' → j = j' ∧ d = d') ∧
        ∀ reason, s.before.setting.policy.judge m = .drop reason →
          ∀ j d, ¬ LeadsTo steps i j d := by
  constructor
  · intro j u d hu h
    obtain ⟨i, hi⟩ := run.exists_leadsTo starts hu h
    exact ⟨i, hi, fun i' hi' => LeadsTo.call_unique run hi' hi⟩
  · intro i s listener peer m hs op
    refine ⟨fun j d h => run.repliedBy_of_leadsTo starts hs op h,
      fun j j' d d' h h' => run.leadsTo_unique starts h h', fun reason hd j d h => ?_⟩
    exact (run.repliedBy_of_leadsTo starts hs op h).1.admitted reason hd

end Replies

/-- A query that is forwarded at first and failed by the engine later. -/
theorem replies_routed_failed : ∃ (steps : List (Step Nat)) (e : Engine Nat),
    Run (.fresh (.ofQueue [] 7) .small) steps e ∧
      (∀ c r, Setting.small.encoder c = .ok r → Bytes.of16 c.query.header.id <+: r) ∧
      (∃ d, LeadsTo steps 0 1 d ∧ d.payload = Query.small.errorReply .servFail) ∧
      (∀ j u d, steps[j]? = some u → u.Sends d → ∃! i, LeadsTo steps i j d) ∧
      ∀ i s listener peer m, steps[i]? = some s → s.operation = .udpReceived listener peer m →
        (∀ j d, LeadsTo steps i j d → s.RepliedBy listener peer m d ∧
          ∀ id u, s.Creates id → steps[j]? = some u → u.after.table.find? id = none) ∧
        (∀ j j' d d', LeadsTo steps i j d → LeadsTo steps i j' d' → j = j' ∧ d = d') ∧
        ∀ reason, s.before.setting.policy.judge m = .drop reason →
          ∀ j d, ¬ LeadsTo steps i j d := by
  let fragment : Fragment := ⟨⟨7⟩, 0, true, false, []⟩
  let answer : Step Nat := ⟨Step.ask.after, .plenty, .backendAnswer fragment, _, _, _,
    Engine.perform_found rfl Step.find?_ask⟩
  have asked : Run .small [Step.ask] answer.before := .next (s := .ask) .start
  have run : Run .small [Step.ask, answer] answer.after := asked.next
  have starts : ∀ c r, Setting.small.encoder c = .ok r → Bytes.of16 c.query.header.id <+: r :=
    fun c r => EncoderCall.id_prefix_of_layOut
  have present : Step.ask.after.table.contains ⟨7⟩ = true :=
    Table.contains_iff.mpr ⟨_, Step.find?_ask⟩
  have opened : Opened [Step.ask, answer] 0 Step.ask ⟨7⟩ 1 := by
    refine ⟨rfl, ⟨rfl, present⟩, fun k u _ hk hu => ?_⟩
    obtain rfl : k = 0 := by omega
    exact Option.some.inj hu ▸ present
  exact ⟨_, _, run, starts,
    ⟨⟨3, .loopback, _⟩, .later Nat.zero_lt_one rfl opened rfl rfl rfl, rfl⟩,
    run.replies_routed starts⟩

end Run

end ResolverGate
