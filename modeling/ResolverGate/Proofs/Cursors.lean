import ResolverGate.Proofs.Filling
import ResolverGate.Proofs.Octets

/-! # Buffers by position

The operations of a buffer as accesses to its storage by position, with no result where one
falls outside. Whatever is done to a buffer its cursors stay in order, so that all of them have
a result, and one that fails changes nothing. What is written in parts can be read in parts.
-/

namespace ResolverGate

/-- The octets, with `c` put over those from `pos` on. Nothing can be put outside. -/
def Bytes.put? (m : Bytes) (pos : Nat) (c : Bytes) : Option Bytes :=
  if pos + c.length ≤ m.length then some (m.take pos ++ c ++ m.drop (pos + c.length)) else none

namespace WireBuffer

variable {b b' : WireBuffer} {m c : Bytes} {n size : Nat}

/-! ## Operations -/

/-- The first four put another buffer in the place of the one there is; the allocator grants
its storage or does not. -/
inductive Operation
  | blank
  | ofCapacity (granted : Bool) (capacity : Nat)
  | ofBytes (m : Bytes)
  | setCapacity (granted : Bool) (capacity : Nat)
  | write (m : Bytes)
  | skip (count : Nat)
  | flip
  | clear
  | readWord
  deriving DecidableEq, Repr

inductive Answer
  | done
  | word (w : UInt16)
  /-- There is no word to read. -/
  | nothing
  | failed (fault : Fault)
  deriving DecidableEq, Repr

inductive Answer.Refuses : Answer → Prop
  | nothing : Refuses .nothing
  | failed (fault : Fault) : Refuses (.failed fault)

/-- The operation makes a buffer that is ready to be written to. -/
inductive Operation.Freshens : Operation → Prop
  | blank : Freshens .blank
  | ofCapacity (granted : Bool) (capacity : Nat) : Freshens (.ofCapacity granted capacity)
  | setCapacity (granted : Bool) (capacity : Nat) : Freshens (.setCapacity granted capacity)
  | clear : Freshens .clear

section Access

variable (b : WireBuffer)

def become : Except Fault WireBuffer → Answer × WireBuffer
  | .ok b' => (.done, b')
  | .error fault => (.failed fault, b)

def perform : Operation → Answer × WireBuffer
  | .blank => (.done, .empty)
  | .ofCapacity granted capacity | .setCapacity granted capacity =>
    b.become (WireBuffer.ofCapacity (fun _ => granted) capacity)
  | .ofBytes m => (.done, .ofBytes m)
  | .write m => b.become (b.write m)
  | .skip count => b.become (b.skip count)
  | .flip => (.done, b.flip)
  | .clear => (.done, b.clear)
  | .readWord =>
    match b.readWord? with
    | some (w, b') => (.word w, b')
    | none => (.nothing, b)

/-! ## Accesses by position -/

def remaining? : Option Nat :=
  if b.position ≤ b.limit then some (b.limit - b.position) else none

def current? : Option Bytes := do b.data.fetch? b.position (← b.remaining?)

def upToLimit? : Option Bytes := b.data.fetch? 0 b.limit

def readable? : Option Bytes :=
  let kept := b.data.take b.limit
  if b.position ≤ kept.length then some (kept.drop b.position) else none

def step? : Operation → Option (Answer × WireBuffer)
  | .blank => some (.done, .empty)
  | .ofCapacity granted capacity | .setCapacity granted capacity =>
    some (b.become (WireBuffer.ofCapacity (fun _ => granted) capacity))
  | .ofBytes m => some (.done, ⟨m, 0, m.length⟩)
  | .write m => do
    let room ← b.remaining?
    if room < m.length then return (.failed (.bufferOverflow m.length room), b)
    else
      let data ← b.data.put? b.position m
      return (.done, { b with data, position := b.position + m.length })
  | .skip count => do
    let room ← b.remaining?
    if room < count then return (.failed (.bufferOverflow count room), b)
    else return (.done, { b with position := b.position + count })
  | .flip => some (.done, { b with position := 0, limit := b.position })
  | .clear => some (.done, { b with position := 0, limit := b.data.length })
  | .readWord => do
    if (← b.remaining?) < 2 then return (.nothing, b)
    else
      let word ← b.data.fetch? b.position 2
      return (.word (UInt16.ofNat (Bytes.toNumber word)), { b with position := b.position + 2 })

def run? (b : WireBuffer) : List Operation → Option (List Answer × WireBuffer)
  | [] => some ([], b)
  | op :: ops => do
    let (answer, b) ← b.step? op
    let (answers, b) ← b.run? ops
    return (answer :: answers, b)

/-- Every access by position has the result that the buffer's own functions give. -/
structure Faultless : Prop where
  step (op : Operation) : b.step? op = some (b.perform op)
  remaining : b.remaining? = some b.remaining
  current : b.current? = some b.current
  upToLimit : b.upToLimit? = some b.upToLimit
  readable : b.readable? = some b.current

structure Leaves (m : Bytes) : Prop where
  current : b.current? = some m
  readable : b.readable? = some m

end Access

/-! ## Cursors in order -/

theorem Ordered.clear (b : WireBuffer) : b.clear.Ordered :=
  ⟨Nat.zero_le _, Nat.le_refl _⟩

theorem Ordered.write (h : b.Ordered) (hw : b.write c = .ok b') : b'.Ordered := by
  unfold WireBuffer.write at hw
  split at hw
  · next fits =>
    obtain rfl : _ = b' := by simpa using hw
    have hp := h.position_le
    have hl := h.limit_le
    unfold remaining at fits
    unfold capacity at hl
    constructor
    · simp only
      omega
    · simp only [capacity, List.length_append, List.length_take, List.length_drop]
      omega
  · cases hw

theorem Ordered.readWord? {w : UInt16} (h : b.Ordered) (hr : b.readWord? = some (w, b')) :
    b'.Ordered := by
  have length := h.length_current
  unfold WireBuffer.readWord? at hr
  split at hr
  · next w rest eq =>
    obtain ⟨rfl, rfl⟩ : _ = _ ∧ _ = b' := by simpa using hr
    rw [Bytes.read16?_eq_some_iff.mp eq, List.length_append, Bytes.length_of16] at length
    have hp := h.position_le
    unfold remaining at length
    exact ⟨by simp only; omega, h.limit_le⟩
  · cases hr

theorem Ordered.become {result : Except Fault WireBuffer} (h : b.Ordered)
    (ok : ∀ b', result = .ok b' → b'.Ordered) : (b.become result).2.Ordered := by
  cases result with
  | ok b' => exact ok b' rfl
  | error fault => exact h

theorem Ordered.perform (h : b.Ordered) (op : Operation) : (b.perform op).2.Ordered := by
  have sized (granted : Bool) (n : Nat) :
      (b.become (WireBuffer.ofCapacity (fun _ => granted) n)).2.Ordered :=
    h.become fun _ eq => (filled_of_ofCapacity eq).ordered
  cases op with
  | blank => exact ordered_empty
  | ofCapacity granted n => exact sized granted n
  | ofBytes m => exact ordered_ofBytes m
  | setCapacity granted n => exact sized granted n
  | write m => exact h.become fun _ eq => h.write eq
  | skip n => exact h.become fun _ eq => (skip_eq_ok eq).2.2 h
  | flip => exact h.flip
  | clear => exact .clear b
  | readWord =>
    rw [WireBuffer.perform]
    split
    · next eq => exact h.readWord? eq
    · exact h

/-! ## No access outside -/

namespace Ordered

variable (h : b.Ordered)

include h

theorem remaining?_eq : b.remaining? = some b.remaining := if_pos h.position_le

theorem fetch?_eq (fits : n ≤ b.remaining) :
    b.data.fetch? b.position n = some (b.current.take n) := by
  have hp := h.position_le
  have hl := h.limit_le
  unfold remaining at fits
  unfold capacity at hl
  rw [Bytes.fetch?_of_le (by omega), current, List.drop_take, List.take_take, Nat.min_eq_left fits]

theorem current?_eq : b.current? = some b.current := by
  have whole : b.current.take b.remaining = b.current := by
    rw [← h.length_current, List.take_length]
  rw [current?, h.remaining?_eq, Option.bind_eq_bind, Option.bind_some,
    h.fetch?_eq (Nat.le_refl _), whole]

theorem upToLimit?_eq : b.upToLimit? = some b.upToLimit := by
  have inside : 0 + b.limit ≤ b.data.length := by
    rw [Nat.zero_add]
    exact h.limit_le
  rw [upToLimit?, Bytes.fetch?_of_le inside]
  rfl

theorem readable?_eq : b.readable? = some b.current := by
  have inside : b.position ≤ (b.data.take b.limit).length := by
    rw [List.length_take]
    exact Nat.le_min.mpr ⟨h.position_le, Nat.le_trans h.position_le h.limit_le⟩
  exact if_pos inside

theorem leaves (left : b.current = m) : b.Leaves m :=
  ⟨by rw [h.current?_eq, left], by rw [h.readable?_eq, left]⟩

theorem step?_write (m : Bytes) : b.step? (.write m) = some (b.become (b.write m)) := by
  rw [step?, h.remaining?_eq, Option.bind_eq_bind, Option.bind_some, WireBuffer.write]
  by_cases fits : m.length ≤ b.remaining
  · have inside : b.position + m.length ≤ b.data.length := by
      have hp := h.position_le
      have hl := h.limit_le
      unfold remaining at fits
      unfold capacity at hl
      omega
    rw [if_neg (Nat.not_lt.mpr fits), if_pos fits, Bytes.put?, if_pos inside]
    rfl
  · rw [if_pos (Nat.lt_of_not_le fits), if_neg fits]
    rfl

theorem step?_skip (n : Nat) : b.step? (.skip n) = some (b.become (b.skip n)) := by
  rw [step?, h.remaining?_eq, Option.bind_eq_bind, Option.bind_some, WireBuffer.skip]
  by_cases fits : n ≤ b.remaining
  · rw [if_neg (Nat.not_lt.mpr fits), if_pos fits]
    rfl
  · rw [if_pos (Nat.lt_of_not_le fits), if_neg fits]
    rfl

theorem step?_readWord : b.step? .readWord = some (b.perform .readWord) := by
  have length := h.length_current
  rw [step?, h.remaining?_eq, Option.bind_eq_bind, Option.bind_some, WireBuffer.perform,
    WireBuffer.readWord?]
  rcases eq : b.current with _ | ⟨x, _ | ⟨y, rest⟩⟩ <;> rw [eq] at length
  · rw [← length]
    rfl
  · rw [← length]
    rfl
  · have fits : 2 ≤ b.remaining := by
      rw [← length]
      simp
    rw [if_neg (Nat.not_lt.mpr fits), h.fetch?_eq fits, eq]
    rfl

theorem faultless : b.Faultless where
  step
    | .write m => h.step?_write m
    | .skip n => h.step?_skip n
    | .readWord => h.step?_readWord
    | .blank | .ofCapacity _ _ | .setCapacity _ _ | .ofBytes _ | .flip | .clear => rfl
  remaining := h.remaining?_eq
  current := h.current?_eq
  upToLimit := h.upToLimit?_eq
  readable := h.readable?_eq

theorem run?_cons (op : Operation) (ops : List Operation) : b.run? (op :: ops) =
    ((b.perform op).2.run? ops).map fun (answers, b') => ((b.perform op).1 :: answers, b') := by
  rw [run?, h.faultless.step, Option.bind_eq_bind, Option.bind_some]
  obtain ⟨answer, b'⟩ := b.perform op
  change Option.bind (b'.run? ops) _ = Option.map _ (b'.run? ops)
  rw [Option.map_eq_bind]
  rfl

theorem exists_run? (ops : List Operation) :
    ∃ answers b', b.run? ops = some (answers, b') ∧ b'.Ordered := by
  induction ops generalizing b with
  | nil => exact ⟨[], b, rfl, h⟩
  | cons op ops ih =>
    obtain ⟨answers, b', run, ordered⟩ := ih (h.perform op)
    refine ⟨(b.perform op).1 :: answers, b', ?_, ordered⟩
    rw [h.run?_cons, run]
    rfl

end Ordered

theorem become_refused {result : Except Fault WireBuffer} (h : (b.become result).1.Refuses) :
    (b.become result).2 = b := by
  cases result with
  | ok b' => cases h
  | error fault => rfl

theorem perform_refused {op : Operation} (h : (b.perform op).1.Refuses) :
    (b.perform op).2 = b := by
  cases op with
  | ofCapacity granted n => exact become_refused h
  | setCapacity granted n => exact become_refused h
  | write m => exact become_refused h
  | skip n => exact become_refused h
  | readWord =>
    rw [perform] at h ⊢
    split at h
    · cases h
    · rfl
  | blank => cases h
  | ofBytes m => cases h
  | flip => cases h
  | clear => cases h

/-! ## Writing in parts -/

theorem filled_of_freshens {op : Operation} (fresh : op.Freshens)
    (done : (b.perform op).1 = .done) : ∃ size, (b.perform op).2.Filled [] size := by
  have sized (granted : Bool) (n : Nat)
      (done : (b.become (WireBuffer.ofCapacity (fun _ => granted) n)).1 = .done) :
      (b.become (WireBuffer.ofCapacity (fun _ => granted) n)).2.Filled [] n := by
    cases eq : WireBuffer.ofCapacity (fun _ => granted) n with
    | ok b' => exact filled_of_ofCapacity eq
    | error fault => rw [eq] at done; cases done
  cases fresh with
  | blank => exact ⟨0, filled_replicate 0⟩
  | ofCapacity granted n => exact ⟨n, sized granted n done⟩
  | setCapacity granted n => exact ⟨n, sized granted n done⟩
  | clear => exact ⟨b.capacity, rfl, rfl, rfl, List.nil_prefix⟩

theorem Filled.of_write (h : b.Filled m size) (hw : b.write c = .ok b') :
    b'.Filled (m ++ c) size := by
  have fits : c.length ≤ b.remaining := by
    unfold WireBuffer.write at hw
    split at hw
    · assumption
    · cases hw
  have le := h.length_le
  rw [h.remaining_eq] at fits
  obtain ⟨b₁, eq, filled⟩ := h.write (c := c) (by omega)
  obtain rfl : b₁ = b' := Except.ok.inj (eq.symm.trans hw)
  exact filled

theorem Filled.perform_write (h : b.Filled m size) (done : (b.perform (.write c)).1 = .done) :
    (b.perform (.write c)).2.Filled (m ++ c) size := by
  rw [perform] at done ⊢
  cases eq : b.write c with
  | ok b' => exact h.of_write eq
  | error fault => rw [eq] at done; cases done

theorem Filled.run?_writes {chunks : List Bytes} {answers : List Answer} (h : b.Filled m size)
    (run : b.run? (chunks.map .write) = some (answers, b'))
    (done : ∀ answer ∈ answers, answer = .done) : b'.Filled (m ++ chunks.flatten) size := by
  induction chunks generalizing b m answers with
  | nil =>
    obtain ⟨-, rfl⟩ : [] = answers ∧ b = b' := by simpa [run?] using run
    rwa [List.flatten_nil, List.append_nil]
  | cons c chunks ih =>
    rw [List.map_cons, h.ordered.run?_cons, Option.map_eq_some_iff] at run
    obtain ⟨⟨rest, b₁⟩, run, eq⟩ := run
    obtain ⟨rfl, rfl⟩ := Prod.mk.inj eq
    have first := h.perform_write (done _ List.mem_cons_self)
    rw [List.flatten_cons, ← List.append_assoc]
    exact ih first run fun answer mem => done answer (List.mem_cons_of_mem _ mem)

/-! ## Reading in parts -/

inductive Reading
  | skip (count : Nat)
  | word
  deriving DecidableEq, Repr

namespace Reading

def operation : Reading → Operation
  | skip count => .skip count
  | word => .readWord

/-- Reading from octets that stand by themselves. Also gives what is left unread. -/
def take (m : Bytes) : Reading → Answer × Bytes
  | skip count =>
    if count ≤ m.length then (.done, m.drop count)
    else (.failed (.bufferOverflow count m.length), m)
  | word =>
    match m with
    | a :: b :: rest => (.word (UInt16.ofNat (a.toNat * 256 + b.toNat)), rest)
    | _ => (.nothing, m)

def takeAll (m : Bytes) : List Reading → List Answer × Bytes
  | [] => ([], m)
  | reading :: readings =>
    let (answer, rest) := reading.take m
    let (answers, rest) := takeAll rest readings
    (answer :: answers, rest)

end Reading

theorem Ordered.perform_reading (h : b.Ordered) (reading : Reading) :
    ((b.perform reading.operation).1, (b.perform reading.operation).2.current) =
      reading.take b.current := by
  cases reading with
  | skip n =>
    rw [Reading.operation, WireBuffer.perform, WireBuffer.skip, Reading.take, h.length_current]
    split
    · rw [WireBuffer.become, current, current, List.drop_drop]
    · rfl
  | word =>
    have dropped : ({ b with position := b.position + 2 } : WireBuffer).current =
        b.current.drop 2 := by
      rw [current, current, List.drop_drop]
    rw [Reading.operation, WireBuffer.perform, WireBuffer.readWord?]
    rcases eq : b.current with _ | ⟨x, _ | ⟨y, rest⟩⟩
    · simp [Bytes.read16?, Reading.take, eq]
    · simp [Bytes.read16?, Reading.take, eq]
    · rw [eq] at dropped
      simpa [Bytes.read16?, Bytes.toNumber, Reading.take] using dropped

theorem Ordered.run?_readings (h : b.Ordered) (readings : List Reading) :
    ∃ b', b.run? (readings.map (·.operation)) =
      some ((Reading.takeAll b.current readings).1, b') ∧ b'.Ordered ∧
      b'.current = (Reading.takeAll b.current readings).2 := by
  induction readings generalizing b with
  | nil => exact ⟨b, rfl, h, rfl⟩
  | cons reading readings ih =>
    obtain ⟨b', run, ordered, current⟩ := ih (h.perform reading.operation)
    have first := h.perform_reading reading
    refine ⟨b', ?_, ordered, ?_⟩
    · rw [List.map_cons, h.run?_cons, run, Reading.takeAll, ← first]
      rfl
    · rw [current, Reading.takeAll, ← first]

/-! ## Whatever is done to a buffer -/

/-- After any operations the cursors are in order and no access by position is outside; what
fails changes nothing. What is then written to a fresh or cleared buffer is what can be read
once it is flipped, and however it is read, the unread rest is what is left. -/
theorem accesses_sound (ops : List Operation) :
    ∃ answers b, empty.run? ops = some (answers, b) ∧ b.Ordered ∧ b.Faultless ∧
      (∀ op answer b', b.step? op = some (answer, b') → answer.Refuses → b' = b) ∧
      ∀ (start : Operation) (chunks : List Bytes) answers b', start.Freshens →
        b.run? (start :: chunks.map .write) = some (answers, b') →
        (∀ answer ∈ answers, answer = .done) →
        b'.flip.Leaves chunks.flatten ∧
        ∀ readings : List Reading, ∃ b'', b'.flip.run? (readings.map (·.operation)) =
            some ((Reading.takeAll chunks.flatten readings).1, b'') ∧
          b''.Leaves (Reading.takeAll chunks.flatten readings).2 := by
  obtain ⟨answers, b, run, ordered⟩ := ordered_empty.exists_run? ops
  refine ⟨answers, b, run, ordered, ordered.faultless, ?_, ?_⟩
  · intro op answer b' step refuses
    rw [ordered.faultless.step] at step
    obtain ⟨rfl, rfl⟩ := Prod.mk.inj (Option.some.inj step)
    exact perform_refused refuses
  · intro start chunks answers b' fresh run done
    rw [ordered.run?_cons, Option.map_eq_some_iff] at run
    obtain ⟨⟨rest, b₁⟩, run, eq⟩ := run
    obtain ⟨rfl, rfl⟩ := Prod.mk.inj eq
    obtain ⟨size, begun⟩ := filled_of_freshens fresh (done _ List.mem_cons_self)
    have filled := begun.run?_writes run fun a mem => done a (List.mem_cons_of_mem _ mem)
    rw [List.nil_append] at filled
    have flipped := filled.ordered.flip
    have shown := filled.current_flip
    refine ⟨flipped.leaves shown, fun readings => ?_⟩
    obtain ⟨b₂, reads, ordered, left⟩ := flipped.run?_readings readings
    rw [shown] at reads left
    exact ⟨b₂, reads, ordered.leaves left⟩

/-- The storage is full and refuses more. Cleared and written to again, it keeps two octets from
before, which are never read. -/
theorem accesses_sound_stale : ∃ full kept written rest : WireBuffer,
    empty.run? [.ofCapacity true 6, .write [9, 9, 9, 9, 9, 9]] = some ([.done, .done], full) ∧
      full.step? (.write [1]) = some (.failed (.bufferOverflow 1 0), kept) ∧ kept = full ∧
      full.run? [.clear, .write [1], .write [], .write [2, 3, 4]] =
        some ([.done, .done, .done, .done], written) ∧
      written.data = [1, 2, 3, 4, 9, 9] ∧ written.flip.Leaves [1, 2, 3, 4] ∧
      written.flip.run? [.readWord, .skip 3, .skip 1] =
        some ([.word 0x0102, .failed (.bufferOverflow 3 2), .done], rest) ∧ rest.Leaves [4] := by
  obtain ⟨answers, full, run, -, -, refused, fresh⟩ :=
    accesses_sound [.ofCapacity true 6, .write [9, 9, 9, 9, 9, 9]]
  obtain rfl : _ = full := congrArg Prod.snd (Option.some.inj run)
  let full : WireBuffer := ⟨[9, 9, 9, 9, 9, 9], 6, 6⟩
  let written : WireBuffer := ⟨[1, 2, 3, 4, 9, 9], 4, 6⟩
  have same : full = full := refused (.write [1]) (.failed (.bufferOverflow 1 0)) full rfl
    (.failed _)
  obtain ⟨whole, parts⟩ :=
    fresh .clear [[1], [], [2, 3, 4]] [.done, .done, .done, .done] written .clear rfl (by simp)
  obtain ⟨rest, reads, left⟩ := parts [.word, .skip 3, .skip 1]
  exact ⟨full, full, written, rest, rfl, rfl, same, rfl, rfl, whole, reads, left⟩

end WireBuffer

end ResolverGate
