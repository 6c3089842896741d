import ResolverGate.Proofs.Engine.Run
import ResolverGate.Proofs.Engine.Turn

/-! # Reading a message from a connection

A message goes through admission once it is there in whole, in whatever pieces
it arrives and whatever follows it. It then meets the fate of the same message
in a datagram.
-/

namespace ResolverGate

variable {C : Type}

def framed (m : Bytes) : Bytes := Bytes.ofNumber 2 m.length ++ m

section Stream

variable {m got surplus : Bytes}

theorem framed_eq_of16 (hm : m.length < 0x10000) :
    framed m = Bytes.of16 (UInt16.ofNat m.length) ++ m := by
  rw [framed, Bytes.of16, UInt16.toNat_ofNat', Nat.mod_eq_of_lt hm]

theorem exists_body (hm : m.length < 0x10000) (stream : got <+: framed m ++ surplus)
    (h : 2 ≤ got.length) :
    ∃ rest, got = Bytes.of16 (UInt16.ofNat m.length) ++ rest ∧ rest <+: m ++ surplus := by
  rw [framed_eq_of16 hm, List.append_assoc] at stream
  obtain ⟨rest, rfl⟩ := List.prefix_of_prefix_length_le (List.prefix_append _ _) stream
    (by rwa [Bytes.length_of16])
  exact ⟨rest, rfl, (List.prefix_append_right_inj _).mp stream⟩

theorem take_eq_message {rest : Bytes} (h : rest <+: m ++ surplus) (hl : m.length ≤ rest.length) :
    rest.take m.length = m := by
  have : m <+: rest := List.prefix_of_prefix_length_le (List.prefix_append _ _) h hl
  exact (List.prefix_iff_eq_take.mp this).symm

def unframed? (stream : Bytes) : Option Bytes :=
  match Bytes.read16? stream with
  | none => none
  | some (length, rest) => (Bytes.splitAt? length.toNat rest).map Prod.fst

theorem unframed?_short {stream : Bytes} (h : stream.length < 2) : unframed? stream = none := by
  match stream with
  | [] => rfl
  | [_] => rfl

theorem unframed?_of16_append (w : UInt16) (rest : Bytes) :
    unframed? (Bytes.of16 w ++ rest) =
      if w.toNat ≤ rest.length then some (rest.take w.toNat) else none := by
  rw [unframed?, Bytes.read16?_of16]
  by_cases h : w.toNat ≤ rest.length <;> simp [Bytes.splitAt?, h]

theorem unframed?_of_prefix (hm : m.length < 0x10000) (stream : got <+: framed m ++ surplus) :
    unframed? got = if m.length + 2 ≤ got.length then some m else none := by
  by_cases there : 2 ≤ got.length
  · obtain ⟨rest, rfl, hrest⟩ := exists_body hm stream there
    have length : (UInt16.ofNat m.length).toNat = m.length := by
      rw [UInt16.toNat_ofNat', Nat.mod_eq_of_lt hm]
    rw [unframed?_of16_append, length, List.length_append, Bytes.length_of16, Nat.add_comm 2]
    by_cases all : m.length ≤ rest.length
    · rw [if_pos all, if_pos (Nat.add_le_add_right all 2), take_eq_message hrest all]
    · rw [if_neg all, if_neg (by omega)]
  · rw [unframed?_short (by omega), if_neg (by omega)]

end Stream

namespace Pending

variable {p : Pending C} {s : Setting} {host : Host} {got c m surplus : Bytes} {room : Nat}

/-- The octets `got` are read, for which there was `room` at first, and no message is
complete. -/
inductive Reading (p : Pending C) (room : Nat) (got : Bytes) : Prop
  | length (stage : p.stage = .readingLength) (read : p.query.Filled got room)
      (short : got.length < 2)
  | body {w : UInt16} {rest : Bytes} (stage : p.stage = .readingBody)
      (stream : got = Bytes.of16 w ++ rest) (read : p.query.Filled rest w.toNat)
      (short : rest.length < w.toNat)

theorem Reading.isReading (h : p.Reading room got) : p.stage.isReading = true := by
  cases h with
  | length stage => simp [stage, Stage.isReading]
  | body stage => simp [stage, Stage.isReading]

theorem Reading.stage_ne_forwarded (h : p.Reading room got) : p.stage ≠ .forwarded := by
  cases h with
  | length stage => simp [stage]
  | body stage => simp [stage]

theorem Reading.stage_ne_writing (h : p.Reading room got) : p.stage ≠ .writing := by
  cases h with
  | length stage => simp [stage]
  | body stage => simp [stage]

theorem Reading.unframed? (h : p.Reading room got) : unframed? got = none := by
  cases h with
  | length stage read short => exact unframed?_short short
  | body stage stream read short => rw [stream, unframed?_of16_append, if_neg (by omega)]

/-- Reading goes on as long as no message is complete; a complete one goes through
admission. Without room for a message the query ends once its length is there. -/
theorem Reading.received (s : Setting) (host : Host) (h : p.Reading room got) (hc : c ≠ []) :
    (ResolverGate.unframed? (got ++ c.take p.query.remaining) = none ∧
      ∃ b stage, p.received s host c = .keep { p with query := b, stage } .readMore ∧
        ({ p with query := b, stage } : Pending C).Reading room (got ++ c.take p.query.remaining)) ∨
    (∃ m, ResolverGate.unframed? (got ++ c.take p.query.remaining) = some m ∧
      (2 ≤ got.length ∨ host.memory .query m.length = true) ∧
      ∃ b stage, p.received s host c =
        ({ p with query := b, stage } : Pending C).judge s host ∧ b.upToLimit = m) ∨
    ∃ (w : UInt16) (rest : Bytes) (ns : List Notice), got.length < 2 ∧
      got ++ c.take p.query.remaining = Bytes.of16 w ++ rest ∧
      host.memory .query w.toNat = false ∧ p.received s host c = Turn.gone.notify ns := by
  cases h with
  | length stage read short =>
    by_cases hc' : c.take p.query.remaining = []
    · obtain ⟨b, hb, ht⟩ := received_full s host stage read short hc hc'
      rw [hc', List.append_nil]
      exact .inl ⟨unframed?_short short, b, p.stage, ht, .length stage hb short⟩
    rw [received_take s host hc hc']
    have room := (List.length_take_le p.query.remaining c).trans_eq read.remaining_eq
    have hle := read.length_le
    generalize c.take p.query.remaining = c' at hc' room ⊢
    by_cases hl : got.length + c'.length < 2
    · obtain ⟨b, hb, ht⟩ := received_length_partly s host read hc' (by omega) stage hl
      have short' : (got ++ c').length < 2 := by rwa [List.length_append]
      exact .inl ⟨unframed?_short short', b, p.stage, ht, .length stage hb short'⟩
    obtain ⟨w, rest, hw⟩ := Bytes.exists_of16_append (m := got ++ c')
      (by rw [List.length_append]; omega)
    cases granted : host.memory .query w.toNat with
    | false =>
      have ends := received_length_refused s host read hc' (by omega) stage hw granted
      exact .inr (.inr ⟨w, rest, _, short, hw, granted, ends⟩)
    | true =>
    obtain ⟨b, hb, ht⟩ := received_length_wholly s host read hc' (by omega) stage hw granted
    rw [hw, unframed?_of16_append, ht]
    by_cases hr : w.toNat ≤ rest.length
    · rw [if_pos hr, if_pos hr]
      refine .inr (.inl ⟨_, rfl, .inr ?_, b.flip, .readingBody, rfl, hb.upToLimit_flip⟩)
      rwa [List.length_take, Nat.min_eq_left hr]
    · rw [if_neg hr, if_neg hr]
      rw [List.take_of_length_le (by omega)] at hb
      exact .inl ⟨rfl, b, .readingBody, rfl, .body rfl rfl hb (by omega)⟩
  | @body w rest stage stream read short =>
    have room := (List.length_take_le p.query.remaining c).trans_eq read.remaining_eq
    have hc' : c.take p.query.remaining ≠ [] := by
      rw [read.remaining_eq, ne_eq, List.take_eq_nil_iff, not_or]
      exact ⟨by omega, hc⟩
    rw [received_take s host hc hc', stream]
    generalize c.take p.query.remaining = c' at hc' room ⊢
    obtain ⟨b, hb, ht⟩ := received_body s host read hc' (by omega) stage
    rw [List.append_assoc, unframed?_of16_append, ht]
    by_cases hr : rest.length + c'.length = w.toNat
    · have all : w.toNat = (rest ++ c').length := by rw [List.length_append, hr]
      rw [if_pos hr, if_pos (Nat.le_of_eq all), all, List.take_length]
      exact .inr (.inl ⟨_, rfl, .inl (by simp), b.flip, p.stage, rfl, hb.upToLimit_flip⟩)
    · have some_left : (rest ++ c').length < w.toNat := by rw [List.length_append]; omega
      rw [if_neg hr, if_neg (Nat.not_le_of_lt some_left)]
      exact .inl ⟨rfl, b, p.stage, rfl, .body stage rfl hb some_left⟩

theorem Reading.moved (h : p.Reading room got) (o : Origin C) :
    ({ p with origin := o } : Pending C).Reading room got := by
  cases h with
  | length stage read short => exact .length stage read short
  | body stage stream read short => exact .body stage stream read short

theorem Reading.remaining_pos (h : p.Reading room got) (enough : 2 ≤ room) :
    1 ≤ p.query.remaining := by
  cases h with
  | length stage read short => rw [read.remaining_eq]; omega
  | body stage stream read short => rw [read.remaining_eq]; omega

section Message

variable (s) (hm : m.length < 0x10000) (ample : host.memory.Ample) (h : p.Reading room got)
  (hc : c ≠ []) (fits : c.length ≤ p.query.remaining) (stream : got ++ c <+: framed m ++ surplus)

include hm ample h hc fits stream

theorem Reading.partly (short : (got ++ c).length < m.length + 2) :
    ∃ b stage, p.received s host c = .keep { p with query := b, stage } .readMore ∧
      ({ p with query := b, stage } : Pending C).Reading room (got ++ c) := by
  have received := h.received s host hc
  rw [List.take_of_length_le fits, unframed?_of_prefix hm stream, if_neg (by omega)] at received
  rcases received with ⟨-, goes_on⟩ | ⟨m', whole, -⟩ | ⟨w, rest, ns, -, -, full, -⟩
  · exact goes_on
  · simp at whole
  · simp [ample .query w.toNat (Nat.lt_of_lt_of_le w.toNat_lt (by decide))] at full

/-- The message, and nothing else, goes through admission once it is there. -/
theorem Reading.wholly (whole : m.length + 2 ≤ (got ++ c).length) :
    ∃ b stage, p.received s host c =
        ({ p with query := b, stage } : Pending C).judge s host ∧ b.upToLimit = m := by
  have received := h.received s host hc
  rw [List.take_of_length_le fits, unframed?_of_prefix hm stream, if_pos whole] at received
  rcases received with ⟨short, -⟩ | ⟨m', same, -, judged⟩ | ⟨w, rest, ns, -, -, full, -⟩
  · simp at short
  · exact Option.some.inj same ▸ judged
  · simp [ample .query w.toNat (Nat.lt_of_lt_of_le w.toNat_lt (by decide))] at full

end Message

end Pending

namespace Step

/-- If the step is about the query under `id`, it delivers octets that were asked for. -/
def Feeds (s : Step C) (id : QueryId) : Prop :=
  s.operation.target? = some id → ∃ chunk window, s.operation = .tcpReceived id chunk ∧
    chunk ≠ [] ∧ s.before.tcpReadWindow id = some window ∧ chunk.length ≤ window

/-- How the fate of a message shows on the connection that it came on. -/
def ShowsOnStream (s : Step C) (id : QueryId) : Fate → Prop
  | .dropped => s.result = .outcome (.ok .released) ∧ s.effects.sent = [] ∧
      s.after.table.find? id = none
  | .replied reply => s.result = .outcome (.ok .startWriting) ∧ s.effects.sent = [] ∧
      reply.length < 0x10000 ∧ s.after.tcpPendingWrite id = some (framed reply)
  | .forwarded q => s.result = .outcome (.ok .waiting) ∧ s.effects.sent = [q.request id] ∧
      ∃ p, s.after.table.find? id = some p ∧ p.stage = .forwarded ∧ p.parsed = some q

def ShowsInDatagram (s : Step C) (listener : Nat) (peer : SocketAddress) : Fate → Prop
  | .dropped => s.result = .outcome (.ok .released) ∧ s.effects.sent = []
  | .replied reply => s.result = .outcome (.ok (.sendDatagram ⟨listener, peer, reply⟩)) ∧
      s.effects.sent = []
  | .forwarded q => s.result = .outcome (.ok .waiting) ∧
      ∃ id, s.effects.sent = [q.request id]

variable {s : Step C} {id : QueryId} {p : Pending C} {m : Bytes}

theorem Feeds.chunk (h : s.Feeds id) (ht : s.operation.target? = some id)
    (hp : s.before.table.find? id = some p) (hs : p.stage.isReading = true) :
    ∃ c, s.operation = .tcpReceived id c ∧ c ≠ [] ∧ c.length ≤ p.query.remaining ∧
      s.brings id = c := by
  obtain ⟨c, window, op, hc, hw, fits⟩ := h ht
  rw [Engine.tcpReadWindow_of_reading hp hs] at hw
  obtain rfl := Option.some.inj hw
  exact ⟨c, op, hc, fits, by rw [brings, if_pos ht, op, Operation.octets]⟩

theorem showsOnStream_of_judge (hp : p.id = id) (ho : p.origin.transport = .tcp)
    (ample : s.host.memory.Ample)
    (result : s.result = .outcome (p.judge s.before.setting s.host).outcome)
    (found : s.after.table.find? id = (p.judge s.before.setting s.host).entry)
    (sent : s.effects.sent = (p.judge s.before.setting s.host).sent) :
    s.ShowsOnStream id
        ((s.before.setting.policy.judge p.query.upToLimit).fate s.host.backend id) ∧
      s.after.tcpReadWindow id = none := by
  subst hp
  obtain ⟨conn, hc⟩ := Origin.exists_connection ho
  change s.result = .outcome (p.settle _ _).outcome at result
  change _ = (p.settle _ _).entry at found
  change _ = (p.settle _ _).sent at sent
  cases hf : (s.before.setting.policy.judge p.query.upToLimit).fate s.host.backend p.id with
  | dropped =>
    rw [Pending.settle_dropped hf] at result found sent
    replace found : s.after.table.find? p.id = none := found
    exact ⟨⟨result, sent, found⟩, by simp [Engine.tcpReadWindow, found]⟩
  | replied reply =>
    have short : reply.length < 0x10000 :=
      Nat.lt_of_le_of_lt (Policy.length_of_replied hf).1 (by decide)
    obtain ⟨parsed, ns, hr⟩ := Pending.settle_replied hf
    rw [hr, Pending.sendAnswer_tcp (p := { p with parsed }) hc short
      (ample .framed _ (Nat.add_lt_add_right short 2))] at result found sent
    replace found : s.after.table.find? p.id = some _ := found
    refine ⟨⟨result, sent, short, ?_⟩, by simp [Engine.tcpReadWindow, found, Stage.isReading]⟩
    rw [Engine.tcpPendingWrite_of_writing found rfl, WireBuffer.current_ofBytes, framed]
  | forwarded q =>
    rw [Pending.settle_forwarded hf] at result found sent
    replace found : s.after.table.find? p.id = some _ := found
    exact ⟨⟨result, sent, _, found, rfl, rfl⟩,
      by simp [Engine.tcpReadWindow, found, Stage.isReading]⟩

theorem showsInDatagram {listener : Nat} {peer : SocketAddress}
    (op : s.operation = .udpReceived listener peer m) (hm : m.length < 0x10000)
    (ample : s.host.memory.Ample) :
    s.effects.judged = [m] ∧ ∃ id, s.ShowsInDatagram listener peer
      ((s.before.setting.policy.judge m).fate s.host.backend id) := by
  obtain ⟨-, id, t, -, turn, result, -, effects⟩ | ⟨full, -⟩ := s.received op
  swap
  · simp [ample.holds (Nat.lt_of_lt_of_le hm (by decide))] at full
  let p : Pending C := .datagram id listener peer m
  have ho : p.origin = .udp listener := rfl
  have hm : p.query.upToLimit = m := WireBuffer.upToLimit_ofBytes m
  have judged : s.effects.judged = [m] := by
    rw [effects, turn]
    exact congrArg (fun m => [m]) hm
  refine ⟨judged, id, ?_⟩
  have sent : s.effects.sent =
      (p.settle s.host (s.before.setting.policy.judge p.query.upToLimit)).sent := by
    rw [effects, turn]
    rfl
  replace result : s.result =
      .outcome (p.settle s.host (s.before.setting.policy.judge p.query.upToLimit)).outcome := by
    rw [result, turn]
    rfl
  rw [hm] at sent result
  cases hf : (s.before.setting.policy.judge m).fate s.host.backend id with
  | dropped =>
    rw [Pending.settle_dropped hf] at result sent
    exact ⟨result, sent⟩
  | replied reply =>
    obtain ⟨parsed, ns, hr⟩ := Pending.settle_replied (p := p) hf
    rw [hr, Pending.sendAnswer_udp (p := { p with parsed }) ho] at result sent
    exact ⟨result, sent⟩
  | forwarded q =>
    rw [Pending.settle_forwarded hf] at result sent
    exact ⟨result, id, sent⟩

end Step

namespace Run

variable {accept s : Step C} {steps : List (Step C)} {e : Engine C} {id : QueryId}
  {m surplus : Bytes}

theorem reads (accepted : accept.result = .accepted (.ok id)) (hm : m.length < 0x10000)
    (run : Run accept.after steps e) (feeds : ∀ s ∈ steps, s.Feeds id)
    (ample : ∀ s ∈ steps, s.host.memory.Ample)
    (stream : delivered steps id <+: framed m ++ surplus)
    (short : (delivered steps id).length < m.length + 2) :
    ∃ p, e.table.find? id = some p ∧ p.id = id ∧ p.origin.transport = .tcp ∧
      p.Reading accept.before.setting.tcpInitialBuffer (delivered steps id) := by
  induction run with
  | start =>
    obtain ⟨-, peer, conn, buffer, hb, found⟩ := accept.accepted accepted
    exact ⟨_, found, rfl, rfl,
      .length rfl (WireBuffer.filled_of_ofCapacity hb) Nat.zero_lt_two⟩
  | @next steps s run ih =>
    rw [delivered_snoc] at stream short ⊢
    rw [List.length_append] at short
    obtain ⟨p, hp, hid, ho, reads⟩ := ih (fun u hu => feeds u (List.mem_append_left _ hu))
      (fun u hu => ample u (List.mem_append_left _ hu)) ((List.prefix_append _ _).trans stream)
      (by omega)
    by_cases ht : s.operation.target? = some id
    · obtain ⟨c, op, hc, fits, brings⟩ := (feeds s (by simp)).chunk ht hp reads.isReading
      obtain ⟨t, turn, -, -, -, found⟩ := s.turned ht hp
      replace found : s.after.table.find? id = t.entry := (found id).trans (if_pos rfl)
      rw [brings] at stream short ⊢
      obtain ⟨b, stage, hr, reads'⟩ :=
        reads.partly s.before.setting hm (ample s (by simp)) hc fits stream
        (by rwa [List.length_append])
      rw [op, Operation.turn, hr] at turn
      exact ⟨{ p with query := b, stage }, by rw [found, turn]; rfl, hid, ho, reads'⟩
    · rw [Step.brings, if_neg ht, List.append_nil]
      exact ⟨p, s.find?_of_not_target ht hp, hid, ho, reads⟩

/-- However a message comes over a connection, reading goes on until it is there, and
then it is treated like the same message in a datagram, as long as there is room for it. -/
theorem read_message (room : 2 ≤ accept.before.setting.tcpInitialBuffer)
    (accepted : accept.result = .accepted (.ok id)) (hm : m.length < 0x10000)
    (run : Run accept.after steps s.before) (feeds : ∀ u ∈ steps ++ [s], u.Feeds id)
    (ample : ∀ u ∈ steps ++ [s], u.host.memory.Ample)
    (own : s.operation.target? = some id)
    (stream : delivered (steps ++ [s]) id <+: framed m ++ surplus)
    (short : (delivered steps id).length < m.length + 2) :
    ((delivered (steps ++ [s]) id).length < m.length + 2 →
      s.result = .outcome (.ok .readMore) ∧ s.effects = .none ∧
        ∃ window, s.after.tcpReadWindow id = some window ∧ 1 ≤ window) ∧
    (m.length + 2 ≤ (delivered (steps ++ [s]) id).length →
      s.effects.judged = [m] ∧ s.after.tcpReadWindow id = none ∧
        s.ShowsOnStream id ((s.before.setting.policy.judge m).fate s.host.backend id) ∧
        ∀ (u : Step C) (listener : Nat) (peer : SocketAddress),
          u.operation = .udpReceived listener peer m → u.host.memory.Ample →
          u.before.setting.policy = s.before.setting.policy →
          (∀ (q : Query) (id' : QueryId), u.host.backend 0 (q.request id') = .ok () ↔
            s.host.backend 0 (q.request id) = .ok ()) →
          u.effects.judged = [m] ∧ u.ShowsInDatagram listener peer
            ((s.before.setting.policy.judge m).fate s.host.backend id)) := by
  rw [delivered_snoc] at stream ⊢
  obtain ⟨p, hp, hid, ho, reads⟩ := run.reads accepted hm
    (fun u hu => feeds u (List.mem_append_left _ hu))
    (fun u hu => ample u (List.mem_append_left _ hu)) ((List.prefix_append _ _).trans stream) short
  obtain ⟨c, op, hc, fits, brings⟩ := (feeds s (by simp)).chunk own hp reads.isReading
  obtain ⟨t, turn, result, -, effects, found⟩ := s.turned own hp
  replace found : s.after.table.find? id = t.entry := (found id).trans (if_pos rfl)
  rw [brings] at stream ⊢
  rw [op] at turn result
  replace turn : t = p.received s.before.setting s.host c := turn
  replace result : s.result = .outcome t.outcome := result
  have now : s.host.memory.Ample := ample s (by simp)
  constructor
  · intro hlt
    obtain ⟨b, stage, hr, reads'⟩ := reads.partly s.before.setting hm now hc fits stream hlt
    rw [turn, hr] at result found effects
    exact ⟨result, effects, _, Engine.tcpReadWindow_of_reading found reads'.isReading,
      reads'.remaining_pos room⟩
  · intro hle
    obtain ⟨b, stage, hr, hb⟩ := reads.wholly s.before.setting hm now hc fits stream hle
    rw [turn, hr] at result found effects
    obtain ⟨shows, ended⟩ := Step.showsOnStream_of_judge (p := { p with query := b, stage })
      hid ho now result found (congrArg Effects.sent effects)
    rw [hb] at shows
    refine ⟨?_, ended, shows, fun u listener peer hu roomy policy channel => ?_⟩
    · rw [effects, ← hb]
      rfl
    · obtain ⟨judged', id', shows'⟩ := u.showsInDatagram hu hm roomy
      rw [policy, Admission.fate_congr fun q => channel q id'] at shows'
      exact ⟨judged', shows'⟩

/-- The octets of the length come one by one, and then the message. -/
theorem read_message_in_three : ∃ (accept s : Step Nat) (steps : List (Step Nat)),
    2 ≤ accept.before.setting.tcpInitialBuffer ∧ accept.result = .accepted (.ok ⟨7⟩) ∧
      Run accept.after steps s.before ∧ (∀ u ∈ steps ++ [s], u.Feeds ⟨7⟩) ∧
      (∀ u ∈ steps ++ [s], u.host.memory.Ample) ∧
      delivered (steps ++ [s]) ⟨7⟩ = framed Query.smallMessage ∧
      (delivered steps ⟨7⟩).length = 2 ∧ s.effects.judged = [Query.smallMessage] ∧
      s.ShowsOnStream ⟨7⟩ (.forwarded .small) := by
  let high : Step Nat := ⟨Step.connect.after, .plenty, .tcpReceived ⟨7⟩ [0], _, _, _, rfl⟩
  let low : Step Nat := ⟨high.after, .plenty, .tcpReceived ⟨7⟩ [19], _, _, _, rfl⟩
  let reading : Pending Nat :=
    { Pending.ofConnection ⟨7⟩ .loopback 5 ⟨List.replicate 19 0, 0, 19⟩ with
      stage := .readingBody }
  have present : low.after.table.find? ⟨7⟩ = some reading := rfl
  let body : Step Nat := ⟨low.after, .plenty, .tcpReceived ⟨7⟩ Query.smallMessage, _, _, _,
    Engine.perform_found rfl present⟩
  have first : Run Step.connect.after [high] low.before := .next (s := high) .start
  have run : Run Step.connect.after [high, low] body.before := first.next
  have feeds : ∀ u ∈ [high, low] ++ [body], u.Feeds ⟨7⟩ := by
    intro u hu _
    obtain rfl | rfl | rfl : u = high ∨ u = low ∨ u = body := by simpa using hu
    · exact ⟨[0], 2, rfl, by decide, rfl, by decide⟩
    · exact ⟨[19], 1, rfl, by decide, rfl, by decide⟩
    · exact ⟨Query.smallMessage, 19, rfl, by decide, rfl, by decide⟩
  have ample : ∀ u ∈ [high, low] ++ [body], u.host.memory.Ample := by
    intro u hu
    obtain rfl | rfl | rfl : u = high ∨ u = low ∨ u = body := by simpa using hu
    all_goals exact Memory.ample_plenty
  have all : delivered ([high, low] ++ [body]) ⟨7⟩ = framed Query.smallMessage := rfl
  have stream : delivered ([high, low] ++ [body]) ⟨7⟩ <+: framed Query.smallMessage ++ [] :=
    all ▸ List.prefix_append _ _
  have whole := run.read_message (Nat.le_refl 2) rfl (by decide) feeds ample rfl
    stream (show 2 < 21 by decide)
  obtain ⟨judged, -, shows, -⟩ := whole.2 (by rw [all]; decide)
  have forwarded :
      (body.before.setting.policy.judge Query.smallMessage).fate body.host.backend ⟨7⟩ =
      .forwarded .small := by
    rw [show body.before.setting.policy = ⟨.empty, false⟩ from rfl, Policy.judge_smallMessage]
    rfl
  exact ⟨.connect, body, [high, low], Nat.le_refl 2, rfl, run, feeds, ample, all, rfl, judged,
    forwarded ▸ shows⟩

end Run

end ResolverGate
