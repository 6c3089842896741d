import ResolverGate.Proofs.Engine.Reading

/-! # The messages that clients complete

A datagram is a message of its own. Over a connection a message is complete once
its length and as many octets are read. Messages that there is no room for are none.
-/

namespace ResolverGate

variable {C : Type}

namespace Step

variable (s : Step C) (id : QueryId)

def accepted? : Option QueryId :=
  match s.result with
  | .accepted (.ok id) => some id
  | _ => none

/-- The octets that the step takes from the connection under the id: as much of what
arrives as is asked for. -/
def takes : Bytes :=
  match s.operation, s.before.tcpReadWindow id with
  | .tcpReceived id' chunk, some window => if id' = id then chunk.take window else []
  | _, _ => []

end Step

def taken (steps : List (Step C)) (id : QueryId) : Bytes :=
  steps.foldl (fun got s => if s.accepted? = some id then [] else got ++ s.takes id) []

theorem taken_snoc (steps : List (Step C)) (s : Step C) (id : QueryId) :
    taken (steps ++ [s]) id =
      if s.accepted? = some id then [] else taken steps id ++ s.takes id := by
  simp [taken]

/-- A message that a client completes with a step, and the id of its query. -/
structure Completion (C : Type) where
  step : Step C
  id : QueryId
  message : Bytes

/-- Whether there is room for the message of which the octets `got` were read before: it is
made with the second octet of the length. -/
def Step.continues (s : Step C) (got m : Bytes) : Bool :=
  2 ≤ got.length || s.host.memory .query m.length

/-- What the step completes after the steps `past`: a datagram, or the message that a
connection has been read for. -/
def Step.completion? (s : Step C) (past : List (Step C)) : Option (Completion C) :=
  match s.operation with
  | .udpReceived _ _ m =>
    if s.host.memory.holds m then s.before.table.allocate.map fun (id, _) => ⟨s, id, m⟩ else none
  | .tcpReceived id _ =>
    let got := taken past id
    match unframed? got with
    | none => ((unframed? (got ++ s.takes id)).filter (s.continues got)).map fun m => ⟨s, id, m⟩
    | some _ => none
  | _ => none

def Step.about? (s : Step C) : Option QueryId :=
  match s.operation with
  | .udpReceived _ _ _ => s.before.table.allocate.map Prod.fst
  | op => op.target?

def completionsAfter : List (Step C) → List (Step C) → List (Completion C)
  | _, [] => []
  | past, s :: steps => (s.completion? past).toList ++ completionsAfter (past ++ [s]) steps

def completions (steps : List (Step C)) : List (Completion C) := completionsAfter [] steps

def latest? (steps : List (Step C)) (id : QueryId) : Option (Completion C) :=
  (completions steps).reverse.find? fun c => c.id = id

theorem completionsAfter_snoc (past steps : List (Step C)) (s : Step C) :
    completionsAfter past (steps ++ [s]) =
      completionsAfter past steps ++ (s.completion? (past ++ steps)).toList := by
  induction steps generalizing past with
  | nil => simp [completionsAfter]
  | cons u steps ih => simp [completionsAfter, ih]

theorem completions_snoc (steps : List (Step C)) (s : Step C) :
    completions (steps ++ [s]) = completions steps ++ (s.completion? steps).toList := by
  simp [completions, completionsAfter_snoc]

section Completing

variable {s : Step C} {past : List (Step C)} {id id' : QueryId} {p : Pending C} {c : Completion C}
  {m chunk : Bytes}

theorem latest?_snoc_of_ne (h : ∀ c ∈ s.completion? past, c.id ≠ id) :
    latest? (past ++ [s]) id = latest? past id := by
  rw [latest?, completions_snoc]
  cases hc : s.completion? past with
  | none => simp [latest?]
  | some c => simp [latest?, h c hc]

theorem latest?_snoc (h : s.completion? past = some c) : latest? (past ++ [s]) c.id = some c := by
  simp [latest?, completions_snoc, h]

theorem completion?_datagram {listener : Nat} {peer : SocketAddress} {table : Table C}
    (op : s.operation = .udpReceived listener peer m) (room : s.host.memory.holds m = true)
    (drawn : s.before.table.allocate = some (id, table)) :
    s.completion? past = some ⟨s, id, m⟩ := by
  simp [Step.completion?, op, room, drawn]

theorem completion?_chunk (op : s.operation = .tcpReceived id chunk)
    (unread : unframed? (taken past id) = none) :
    s.completion? past = ((unframed? (taken past id ++ s.takes id)).filter
      (s.continues (taken past id))).map fun m => ⟨s, id, m⟩ := by
  simp [Step.completion?, op, unread]

theorem completion?_idle (target : s.operation.target? = some id) (idle : s.takes id = []) :
    s.completion? past = none := by
  cases op : s.operation with
  | tcpReceived id' chunk =>
    obtain rfl : id' = id := by simpa [op, Operation.target?] using target
    cases h : unframed? (taken past id') <;> simp [Step.completion?, op, idle, h]
  | udpReceived => simp [op, Operation.target?] at target
  | _ => simp [Step.completion?, op]

/-- What completes is a datagram, under the id that is drawn for it, or comes over the
connection that octets are brought to. -/
theorem completion?_cases (h : s.completion? past = some c) :
    c.step = s ∧ ((∃ listener peer table, s.operation = .udpReceived listener peer c.message ∧
      s.before.table.allocate = some (c.id, table)) ∨
        ∃ chunk, s.operation = .tcpReceived c.id chunk) := by
  unfold Step.completion? at h
  split at h
  · next listener peer m op =>
    obtain ⟨-, h⟩ := Option.ite_none_right_eq_some.mp h
    obtain ⟨⟨id, table⟩, drawn, rfl⟩ := Option.map_eq_some_iff.mp h
    exact ⟨rfl, .inl ⟨listener, peer, table, op, drawn⟩⟩
  · next id chunk op =>
    simp only at h
    split at h
    · obtain ⟨m, -, rfl⟩ := Option.map_eq_some_iff.mp h
      exact ⟨rfl, .inr ⟨chunk, op⟩⟩
    · simp at h
  · simp at h

theorem about?_of_completion (h : s.completion? past = some c) : s.about? = some c.id := by
  obtain ⟨-, ⟨_, _, table, op, drawn⟩ | ⟨chunk, op⟩⟩ := completion?_cases h
  · simp [Step.about?, op, drawn]
  · simp [Step.about?, op, Operation.target?]

theorem takes_reading (op : s.operation = .tcpReceived id chunk)
    (hp : s.before.table.find? id = some p) (hs : p.stage.isReading = true) :
    s.takes id = chunk.take p.query.remaining := by
  rw [Step.takes, op, Engine.tcpReadWindow_of_reading hp hs]
  exact if_pos rfl

theorem takes_closed (closed : s.before.tcpReadWindow id = none) : s.takes id = [] := by
  rw [Step.takes, closed]
  cases s.operation <;> rfl

theorem takes_elsewhere (op : s.operation = .tcpReceived id' chunk) (hid : id' ≠ id) :
    s.takes id = [] := by
  rw [Step.takes, op]
  cases s.before.tcpReadWindow id with
  | none => rfl
  | some window => exact if_neg hid

end Completing

end ResolverGate
