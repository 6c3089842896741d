import ResolverGate.Proofs.Engine.Rest

/-! # The invariant of a running engine

Whatever operations are performed, every query of the engine reads and can read
on, waits for an answer that is not complete, or has something left to write.
-/

namespace ResolverGate

variable {C : Type}

namespace Engine

def Sound (e : Engine C) : Prop := ∀ id p, e.table.find? id = some p → p.Sound id

/-- What can be said of the query `p` that is pending under `id`. -/
structure Holds (e : Engine C) (id : QueryId) (p : Pending C) : Prop where
  own_id : p.id = id
  admitted : p.stage ≠ .accepted
  datagram : p.origin.transport = .udp → p.stage = .forwarded
  reading : p.stage.isReading = true →
    p.origin.transport = .tcp ∧ ∃ window, e.tcpReadWindow id = some window ∧ 1 ≤ window
  length_awaited : p.stage = .readingLength → p.query.position < 2
  answer_awaited : p.stage = .forwarded →
    ∃ q, p.parsed = some q ∧ (p.answer.position = 0 ∨ p.answer.position < p.answer.capacity)
  /-- What is left to write is the end of a framed answer. -/
  writing : p.stage = .writing →
    p.origin.transport = .tcp ∧ ∃ rest a, e.tcpPendingWrite id = some rest ∧ rest ≠ [] ∧
      a.length < 0x10000 ∧ rest <:+ Bytes.ofNumber 2 a.length ++ a
  query_ordered : p.query.Ordered
  answer_ordered : p.answer.Ordered

variable {e : Engine C} {id : QueryId} {p : Pending C} {ids : IdSource} {setting : Setting}

theorem sound_fresh : (fresh ids setting : Engine C).Sound := by
  intro id p hp
  simp [fresh] at hp

theorem holds_of_sound (hp : e.table.find? id = some p) (h : p.Sound id) : e.Holds id p := by
  have window := tcpReadWindow_of_reading hp
  have pending := tcpPendingWrite_of_writing hp
  cases h.atRest with
  | @readingLength conn m size room stage origin read short enough =>
    have hw : 1 ≤ p.query.remaining := by rw [read.remaining_eq]; omega
    have hpos : p.query.position < 2 := by rwa [read.position_eq]
    constructor <;> simp_all [Stage.isReading, Origin.transport, h.id_eq, h.query, h.answer]
  | @readingBody conn m size room stage origin read short =>
    have hw : 1 ≤ p.query.remaining := by rw [read.remaining_eq]; omega
    constructor <;> simp_all [Stage.isReading, Origin.transport, h.id_eq, h.query, h.answer]
  | @forwarded q m size stage parsed received short =>
    have hpos : p.answer.position = 0 ∨ p.answer.position < p.answer.capacity := by
      rw [received.position_eq, received.capacity_eq]
      exact short.imp_left fun hm => by rw [hm, List.length_nil]
    constructor <;> simp_all [Stage.isReading, h.id_eq, h.query, h.answer]
  | @writing conn a stage origin fits unwritten suffix =>
    constructor
    case writing =>
      intro _
      exact ⟨by rw [origin, Origin.transport], _, a, pending stage, unwritten, fits, suffix⟩
    all_goals simp_all [Stage.isReading, Origin.transport, h.id_eq, h.query, h.answer]

end Engine

theorem Step.sound (s : Step C) (room : 2 ≤ s.before.setting.tcpInitialBuffer)
    (h : s.before.Sound) : s.after.Sound := by
  intro id p hp
  cases s.shape with
  | @datagram listener peer m id' t op fits free turn result found =>
    rw [found] at hp
    split at hp
    · next hid =>
      subst hid turn
      exact Pending.judge_leaves rfl (WireBuffer.ordered_ofBytes m)
        (WireBuffer.filled_replicate m.length) p hp
    · exact h id p hp
  | @connection peer conn id' buffer op free fits result found =>
    rw [found] at hp
    split at hp
    · next hid =>
      subst hid
      obtain rfl := Option.some.inj hp
      have read := WireBuffer.filled_of_ofCapacity fits
      exact ⟨rfl, read.ordered, WireBuffer.ordered_empty,
        .readingLength rfl rfl read Nat.zero_lt_two room (WireBuffer.filled_replicate 0)⟩
    · exact h id p hp
  | dropped _ _ _ found =>
    rw [found] at hp
    exact h id p hp
  | refused _ _ found =>
    rw [found] at hp
    exact h id p hp
  | turned _ present turn _ found =>
    rw [found] at hp
    split at hp
    · next hid =>
      subst hid turn
      exact (h id _ present).turn_leaves p hp
    · exact h id p hp
  | missed _ _ _ after =>
    rw [after] at hp
    exact h id p hp
  | replaced _ _ after =>
    rw [after] at hp
    exact h id p hp

namespace Run

variable {ids : IdSource} {setting : Setting} {steps : List (Step C)} {e e' : Engine C}

theorem tcpInitialBuffer_eq (run : Run e steps e') :
    e'.setting.tcpInitialBuffer = e.setting.tcpInitialBuffer := by
  obtain ⟨policy, h⟩ := run.setting_eq
  rw [h]

theorem sound (run : Run e steps e') (room : 2 ≤ e.setting.tcpInitialBuffer) (h : e.Sound) :
    e'.Sound := by
  induction run with
  | start => exact h
  | @next steps s run ih => exact s.sound (run.tcpInitialBuffer_eq ▸ room) ih

/-- Ids are unique, and the invariant holds of every query. -/
theorem invariant (run : Run (.fresh ids setting) steps e)
    (room : 2 ≤ setting.tcpInitialBuffer) :
    e.table.Distinct ∧ ∀ id p, (id, p) ∈ e.table.entries → e.Holds id p := by
  have hd := run.distinct Engine.distinct_fresh
  refine ⟨hd, fun id p hm => ?_⟩
  have hp := hd.find?_of_mem hm
  exact Engine.holds_of_sound hp (run.sound room Engine.sound_fresh id p hp)

/-- One octet of the length is there, and one more can be read. -/
theorem invariant_first_octet : ∃ (steps : List (Step Nat)) (e : Engine Nat),
    Run (.fresh (.ofQueue [] 7) .small) steps e ∧ 2 ≤ Setting.small.tcpInitialBuffer ∧
      e.tcpReadWindow ⟨7⟩ = some 1 ∧ e.table.Distinct ∧
      ∀ id p, (id, p) ∈ e.table.entries → e.Holds id p := by
  let read : Step Nat := ⟨Step.connect.after, .plenty, .tcpReceived ⟨7⟩ [0], _, _, _, rfl⟩
  have connected : Run .small [Step.connect] read.before := .next (s := .connect) .start
  have run : Run .small [Step.connect, read] read.after := connected.next
  exact ⟨_, _, run, by decide, rfl, run.invariant (by decide)⟩

end Run

end ResolverGate
