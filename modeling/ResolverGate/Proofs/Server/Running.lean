import ResolverGate.Proofs.Backend.Listening
import ResolverGate.Proofs.Server.Accepting
import ResolverGate.Proofs.Server.Watching
import ResolverGate.Server.FrontEnd

/-! # The parts of a running front end

The dispatcher, the accept loop and the reader of a front end do nothing but what each of them
does by itself. What the loop and the reader give is what the dispatcher takes of them, all of it
and in order, for as long as the front end runs.
-/

namespace ResolverGate

/-! ## Signals by where they come from -/

def DispatcherInput.signal? {S : Type} : DispatcherInput S → Option (Signal S)
  | .signal s => some s
  | _ => none

namespace Signal

variable {C : Type} {s : Signal C}

def accepted? : Signal C → Option (C × SocketAddress)
  | .accepted conn peer => some (conn, peer)
  | _ => none

def isOfEngine : Signal C → Bool
  | .backend _ | .backendClosed _ => true
  | _ => false

theorem accepted?_of_isOfEngine (h : s.isOfEngine = true) : s.accepted? = none := by
  cases s with
  | backend => rfl
  | backendClosed => rfl
  | _ => cases h

end Signal

namespace AcceptLoop

variable {C : Type} {l l' : AcceptLoop} {acts : List (Act C)} {log : List (Moment C)}

theorem Turn.closed_eq (h : Turn l acts l') : l'.closed = l.closed := by
  cases h <;> rfl

/-- The loop tells of connections and of its own failure only. -/
theorem Turn.not_isOfEngine (h : Turn l acts l') {s : Signal C} (mem : .sends s ∈ acts) :
    s.isOfEngine = false := by
  cases h <;> simp at mem <;> rw [mem] <;> rfl

theorem not_isOfEngine_of_mem_step {i : AcceptInput C}
    (later : ∀ now, i = .clock now → l.now ≤ now) {s : Signal C} (mem : s ∈ (l.step i).1) :
    s.isOfEngine = false :=
  (turn_step l i later).not_isOfEngine (by simp [acts, mem])

theorem now_step_le {i : AcceptInput C} {now : Nat} (before : l.now ≤ now)
    (clock : ∀ time, i = .clock time → time ≤ now) : (l.step i).2.now ≤ now := by
  have handed (s : Signal C) (next : AcceptStage) : (l.hand s next).2.now ≤ now := by
    unfold hand
    split <;> exact before
  fun_cases step <;> first | exact before | exact handed _ _ | exact clock _ rfl

theorem fst_step_eq_nil {i : AcceptInput C} (other : ∀ accepted, i ≠ .result accepted) :
    (l.step i).1 = [] := by
  fun_cases step <;> first | rfl | exact absurd rfl (other _)

theorem delivered_moments (i : AcceptInput C) :
    delivered (log ++ l.moments i) = delivered log ++ (l.step i).1.filterMap Signal.accepted? := by
  have unsent : (heard l.stage i).filterMap Act.delivered? = [] := by
    unfold heard
    split <;> rfl
  have quiet (after : AcceptStage) :
      (entered l.stage after : List (Act C)).filterMap Act.delivered? = [] := by
    unfold entered
    split
    · rfl
    · split <;> rfl
  have sent : Act.delivered? ∘ .sends = Signal.accepted? (C := C) := by
    funext s
    cases s <;> rfl
  rw [moments, delivered_append, acts, List.filterMap_append, List.filterMap_append,
    List.filterMap_map, unsent, quiet, sent, List.nil_append, List.append_nil]

end AcceptLoop

/-! ## What the engine's side of the channel brings -/

namespace EventReader

variable {C : Type} {r : EventReader} {s : Signal C} {state : List (Signal C) × EventReader}

def shut (state : List (Signal C) × EventReader) : List (Signal C) × EventReader :=
  let (signals, r) := state.2.finish
  (state.1 ++ signals, r)

theorem isOfEngine_of_mem_receive {chunk : Bytes} (mem : s ∈ (r.receive chunk).1) :
    s.isOfEngine = true := by
  unfold receive at mem
  split at mem
  · cases mem
  · dsimp only at mem
    split at mem
    · rcases List.mem_append.mp mem with event | stop
      · obtain ⟨e, -, rfl⟩ := List.mem_map.mp event
        rfl
      · rw [List.mem_singleton.mp stop]
        rfl
    · obtain ⟨e, -, rfl⟩ := List.mem_map.mp mem
      rfl

theorem isOfEngine_of_mem_finish (mem : s ∈ r.finish.1) : s.isOfEngine = true := by
  unfold finish at mem
  split at mem
  · cases mem
  · rw [List.mem_singleton.mp mem]
    rfl
  · rw [List.mem_singleton.mp mem]
    rfl

theorem buffer_shut (state : List (Signal C) × EventReader) : (shut state).2.buffer = none := by
  change (state.2.finish (C := C)).2.buffer = none
  unfold finish
  split
  · assumption
  · rfl
  · rfl

theorem read_of_ended (ended : state.2.buffer = none) (chunk : Bytes) :
    read state chunk = state := by
  simp [read, receive, ended]

theorem shut_of_ended (ended : state.2.buffer = none) : shut state = state := by
  simp [shut, finish, ended]

end EventReader

/-- The pieces that arrived before the end, and whether it has come to that. -/
structure Incoming where
  chunks : List Bytes
  closed : Bool

namespace Incoming

variable {C : Type} {h : Incoming}

def add (h : Incoming) : Stimulus → Incoming
  | .engine octets => if h.closed then h else { h with chunks := h.chunks ++ [octets] }
  | .engineClosed => { h with closed := true }
  | _ => h

def read (h : Incoming) : List (Signal C) × EventReader :=
  let given := h.chunks.foldl EventReader.read ([], .start)
  if h.closed then EventReader.shut given else given

theorem read_engine (octets : Bytes) :
    (h.add (.engine octets)).read (C := C) = EventReader.read h.read octets := by
  obtain ⟨chunks, closed⟩ := h
  cases closed with
  | false => simp [add, read, List.foldl_append]
  | true => exact (EventReader.read_of_ended (EventReader.buffer_shut _) octets).symm

theorem read_engineClosed : (h.add .engineClosed).read (C := C) = EventReader.shut h.read := by
  obtain ⟨chunks, closed⟩ := h
  cases closed with
  | false => rfl
  | true => exact (EventReader.shut_of_ended (EventReader.buffer_shut _)).symm

end Incoming

namespace FrontEnd

variable {K : Type} {d₀ d : Dispatcher Nat K} {inputs : List (DispatcherInput Nat)}

/-! ## Where the inputs lead -/

/-- Inputs go into the dispatcher one by one until a turn fails or never ends, or until all is to
stop. Time passes between them, and what it runs on may change. -/
inductive Led (d₀ : Dispatcher Nat K) :
    List (DispatcherInput Nat) → FrontEndState → Dispatcher Nat K → Prop
  | start : Led d₀ [] .running d₀
  | next {inputs : List (DispatcherInput Nat)} {d d' : Dispatcher Nat K} {now : Nat} {host : Host}
      {i : DispatcherInput Nat} {out : Dispatch Nat} (led : Led d₀ inputs .running d)
      (turn : ({ d with now } : Dispatcher Nat K).step host i = some (.ok (), d', out)) :
      Led d₀ (inputs ++ [i]) .running d'
  | fails {inputs : List (DispatcherInput Nat)} {d d' : Dispatcher Nat K} {now : Nat}
      {host : Host} {i : DispatcherInput Nat} {out : Dispatch Nat} {fault : Fault}
      (led : Led d₀ inputs .running d)
      (turn : ({ d with now } : Dispatcher Nat K).step host i = some (.error fault, d', out)) :
      Led d₀ (inputs ++ [i]) (.failed fault) d'
  | stuck {inputs : List (DispatcherInput Nat)} {d : Dispatcher Nat K} {now : Nat} {host : Host}
      {i : DispatcherInput Nat} (led : Led d₀ inputs .running d)
      (turn : ({ d with now } : Dispatcher Nat K).step host i = none) :
      Led d₀ (inputs ++ [i]) .stuck d
  | stopped {inputs : List (DispatcherInput Nat)} {d : Dispatcher Nat K}
      (led : Led d₀ inputs .running d) : Led d₀ inputs .stopped d

namespace Led

theorem serves (led : Led d₀ inputs .running d) : Dispatcher.Serves d₀ d := by
  generalize state : FrontEndState.running = s at led
  induction led with
  | start => exact .start
  | next _ turn ih => exact .next (ih rfl) turn
  | _ => cases state

theorem backendClosed_not_mem (led : Led d₀ inputs .running d) (reason : Option Fault) :
    Signal.backendClosed reason ∉ inputs.filterMap DispatcherInput.signal? := by
  generalize state : FrontEndState.running = s at led
  induction led with
  | start => simp
  | next _ turn ih =>
    rw [List.filterMap_append, List.mem_append, not_or]
    refine ⟨ih rfl, fun mem => ?_⟩
    obtain ⟨i, last, signal⟩ := List.mem_filterMap.mp mem
    obtain rfl := List.mem_singleton.mp last
    cases i with
    | signal s =>
      obtain rfl := Option.some.inj signal
      cases turn
    | _ => cases signal
  | _ => cases state

end Led

/-! ## What went through a front end -/

/-- The signals that came up, those inputs of the dispatcher that it got to, and what the accept
loop did. -/
structure Past where
  given : List (Signal Nat)
  inputs : List (DispatcherInput Nat)
  log : List (AcceptLoop.Moment Nat)

/-- The parts of a front end stand where their own pasts have led them, and these are parts of one
past. Pending signals have come up and the dispatcher is yet to get to them. -/
structure Tied (d₀ : Dispatcher Nat K) (backoff : Nat) (incoming : Incoming) (now : Nat)
    (past : Past) (pending : List (Signal Nat)) (f : FrontEnd K) : Prop where
  led : Led d₀ past.inputs f.state f.dispatcher
  taken : past.inputs.filterMap DispatcherInput.signal? <+: past.given
  all : f.state = .running → past.inputs.filterMap DispatcherInput.signal? = past.given
  runs : AcceptLoop.Runs backoff past.log f.acceptLoop
  listened : f.state = .running → f.acceptLoop.closed = false
  time : f.now = now
  ticks : f.acceptLoop.now ≤ now
  handed : (past.given ++ pending).filterMap Signal.accepted? = AcceptLoop.delivered past.log
  heard : incoming.read = ((past.given ++ pending).filter Signal.isOfEngine, f.reader)

namespace Tied

variable {backoff now : Nat} {incoming : Incoming} {past : Past} {pending : List (Signal Nat)}
  {f f' : FrontEnd K}

theorem congr (h : Tied d₀ backoff incoming now past pending f) (state : f'.state = f.state)
    (dispatcher : f'.dispatcher = f.dispatcher) (loop : f'.acceptLoop = f.acceptLoop)
    (reader : f'.reader = f.reader) (time : f'.now = f.now) :
    Tied d₀ backoff incoming now past pending f' where
  led := by
    rw [state, dispatcher]
    exact h.led
  taken := h.taken
  all := state ▸ h.all
  runs := loop ▸ h.runs
  listened := by
    rw [state, loop]
    exact h.listened
  time := time.trans h.time
  ticks := loop ▸ h.ticks
  handed := h.handed
  heard := reader ▸ h.heard

theorem monotone (h : Tied d₀ backoff incoming now past pending f) {i : AcceptInput Nat}
    {now' : Nat} (later : now ≤ now') (clock : ∀ time, i = .clock time → time = now') :
    ∀ time, i = .clock time → f.acceptLoop.now ≤ time :=
  fun time eq => h.ticks.trans (later.trans (clock time eq).ge)

theorem loop (h : Tied d₀ backoff incoming now past pending f) (i : AcceptInput Nat) {now' : Nat}
    (later : now ≤ now') (clock : ∀ time, i = .clock time → time = now') :
    Tied d₀ backoff incoming now' { past with log := past.log ++ f.acceptLoop.moments i }
      (pending ++ (f.acceptLoop.step i).1)
      { f with now := now', acceptLoop := (f.acceptLoop.step i).2 } where
  led := h.led
  taken := h.taken
  all := h.all
  runs := h.runs.turn i (monotone h later clock)
  listened := fun running =>
    (AcceptLoop.turn_step _ i (monotone h later clock)).closed_eq.trans (h.listened running)
  time := rfl
  ticks := AcceptLoop.now_step_le (h.ticks.trans later) fun time eq => (clock time eq).le
  handed := by
    rw [AcceptLoop.delivered_moments, ← h.handed, ← List.append_assoc, List.filterMap_append]
  heard := by
    have foreign : (f.acceptLoop.step i).1.filter Signal.isOfEngine = [] := by
      refine List.filter_eq_nil_iff.mpr fun s mem => ?_
      rw [AcceptLoop.not_isOfEngine_of_mem_step (monotone h later clock) mem]
      exact Bool.false_ne_true
    rw [← List.append_assoc, List.filter_append, foreign, List.append_nil]
    exact h.heard

theorem shut (h : Tied d₀ backoff incoming now past pending f) (halted : f.state ≠ .running) :
    ∃ past, Tied d₀ backoff incoming now past pending
      { f with acceptLoop := { f.acceptLoop with stage := .ended, closed := true } } := by
  have closed : Tied d₀ backoff incoming now past pending
      { f with acceptLoop := { f.acceptLoop with closed := true } } :=
    { h with
      runs := h.runs.close
      listened := fun running => absurd running halted }
  have ended : ({ f.acceptLoop with closed := true }.step (.shutdown : AcceptInput Nat)) =
      ([], { f.acceptLoop with stage := .ended, closed := true }) := by
    obtain ⟨backoff, now, stage, _⟩ := f.acceptLoop
    cases stage <;> rfl
  have told := closed.loop .shutdown le_rfl (by simp)
  simp only [ended, List.append_nil] at told
  exact ⟨_, told.congr rfl rfl rfl rfl h.time⟩

theorem dispatch {i : DispatcherInput Nat}
    (h : Tied d₀ backoff incoming now past (i.signal?.toList ++ pending) f) :
    ∃ past, Tied d₀ backoff incoming now past pending (f.dispatch i).1 := by
  have handed : (past.given ++ i.signal?.toList ++ pending).filterMap Signal.accepted? =
      AcceptLoop.delivered past.log := by
    rw [List.append_assoc]
    exact h.handed
  have heard : incoming.read =
      ((past.given ++ i.signal?.toList ++ pending).filter Signal.isOfEngine, f.reader) := by
    rw [List.append_assoc]
    exact h.heard
  by_cases running : f.state = .running
  case neg =>
    rw [FrontEnd.dispatch, if_pos running]
    exact ⟨{ past with given := past.given ++ i.signal?.toList },
      { h with
        taken := h.taken.trans (List.prefix_append _ _)
        all := fun again => absurd again running
        handed, heard }⟩
  have led := h.led
  rw [running] at led
  have took : (past.inputs ++ [i]).filterMap DispatcherInput.signal? =
      past.given ++ i.signal?.toList := by
    rw [List.filterMap_append, h.all running, List.filterMap_cons, List.filterMap_nil]
    cases i.signal? <;> rfl
  let past' : Past := ⟨past.given ++ i.signal?.toList, past.inputs ++ [i], past.log⟩
  have taken : past'.inputs.filterMap DispatcherInput.signal? <+: past'.given :=
    took ▸ List.prefix_rfl
  rw [FrontEnd.dispatch, if_neg (not_not.mpr running)]
  rcases turn : ({ f.dispatcher with now := f.now } : Dispatcher Nat K).step f.host i with
    _ | ⟨fault | ⟨⟨⟩⟩, d, done⟩
  · exact ⟨past', ⟨led.stuck turn, taken, fun _ => took, h.runs, by simp, h.time, h.ticks, handed,
      heard⟩⟩
  · have failed : Tied d₀ backoff incoming now past' pending
        { f with
          dispatcher := d
          writer := (write f.writer done.sent).2
          streams := f.streams.filter fun s => !done.closed.contains s.1
          state := .failed fault } :=
      ⟨led.fails turn, taken, fun _ => took, h.runs, by simp, h.time, h.ticks, handed, heard⟩
    obtain ⟨past, shut⟩ := failed.shut (by simp)
    exact ⟨past, shut.congr rfl rfl rfl rfl rfl⟩
  · exact ⟨past', ⟨running ▸ led.next turn, taken, fun _ => took, h.runs, h.listened, h.time,
      h.ticks, handed, heard⟩⟩

theorem signalAll {signals : List (Signal Nat)} (h : Tied d₀ backoff incoming now past signals f) :
    ∃ past, Tied d₀ backoff incoming now past [] (f.signalAll signals).1 := by
  induction signals generalizing f past with
  | nil => exact ⟨past, h⟩
  | cons s signals ih =>
    obtain ⟨past, dispatched⟩ := dispatch (i := .signal s) h
    exact ih dispatched

theorem foreign (h : Tied d₀ backoff incoming now past [] f) {s : Signal Nat}
    (unaccepted : s.accepted? = none) (foreign : s.isOfEngine = false) :
    Tied d₀ backoff incoming now past [s] f :=
  { h with
    handed := by
      rw [List.filterMap_append, List.filterMap_cons, unaccepted]
      simpa using h.handed
    heard := by
      rw [List.filter_append, List.filter_cons, foreign]
      simpa using h.heard }

theorem listen (h : Tied d₀ backoff incoming now past [] f) {incoming' : Incoming}
    {signals : List (Signal Nat)} {reader : EventReader}
    (ofEngine : ∀ s ∈ signals, s.isOfEngine = true)
    (read : incoming'.read = (incoming.read.1 ++ signals, reader)) :
    Tied d₀ backoff incoming' now past signals { f with reader } :=
  { h with
    handed := by
      have unaccepted : signals.filterMap Signal.accepted? = [] :=
        List.filterMap_eq_nil_iff.mpr fun s mem => Signal.accepted?_of_isOfEngine (ofEngine s mem)
      rw [List.filterMap_append, unaccepted]
      simpa using h.handed
    heard := by
      rw [read, h.heard, List.append_nil, List.filter_append, List.filter_eq_self.mpr ofEngine] }

theorem receive (h : Tied d₀ backoff incoming now past [] f) (s : Stimulus) :
    ∃ past, Tied d₀ backoff (incoming.add s) now past [] (f.receive s).1 := by
  cases s with
  | datagram listener peer payload => exact (h.foreign rfl rfl).dispatch
  | connection number peer =>
    rw [FrontEnd.receive]
    split
    · exact ⟨past, h⟩
    · exact ⟨past, h.congr rfl rfl rfl rfl rfl⟩
  | octets number octets =>
    rw [FrontEnd.receive]
    split
    · exact ⟨past, h.congr rfl rfl rfl rfl rfl⟩
    · exact ⟨past, h⟩
  | finish number =>
    rw [FrontEnd.receive]
    split
    · exact ⟨past, h.congr rfl rfl rfl rfl rfl⟩
    · exact ⟨past, h⟩
  | engine octets =>
    have heard := h.heard
    refine (h.listen (fun s => EventReader.isOfEngine_of_mem_receive) ?_).signalAll
    rw [Incoming.read_engine, heard]
    rfl
  | engineClosed =>
    have heard := h.heard
    refine (h.listen (fun s => EventReader.isOfEngine_of_mem_finish) ?_).signalAll
    rw [Incoming.read_engineClosed, heard]
    rfl
  | listenerFailed fault => exact (h.foreign rfl rfl).dispatch
  | replaceBlocklist blocklist => exact (h.foreign rfl rfl).dispatch
  | budget near => exact ⟨past, h.congr rfl rfl rfl rfl rfl⟩
  | memory memory => exact ⟨past, h.congr rfl rfl rfl rfl rfl⟩
  | shutdown =>
    rw [FrontEnd.receive]
    split
    case isFalse => exact ⟨past, h⟩
    case isTrue running =>
      have led := h.led
      rw [running] at led
      have stopped : Tied d₀ backoff incoming now past [] { f with state := .stopped } :=
        { h with
          led := led.stopped
          all := by simp
          listened := by simp }
      obtain ⟨past, shut⟩ := stopped.shut (by simp)
      exact ⟨past, shut.congr rfl rfl rfl rfl rfl⟩

theorem fire (h : Tied d₀ backoff incoming now past [] f) (w : Watch) :
    ∃ past, Tied d₀ backoff incoming now past [] (f.fire w).1 := by
  rw [FrontEnd.fire]
  split
  · exact ⟨past, h⟩
  · split
    · exact dispatch (i := .readable w _) (h.congr rfl rfl rfl rfl rfl)
    · exact dispatch (i := .writable w _) h
    · exact ⟨past, h⟩

theorem turn (h : Tied d₀ backoff incoming now past [] f) {seen : Reaction}
    (turn : f.turn? = some (f', seen)) : ∃ past, Tied d₀ backoff incoming now past [] f' := by
  obtain rfl := h.time
  unfold turn? at turn
  split at turn
  · obtain rfl := congrArg Prod.fst (Option.some.inj turn)
    have looked := h.loop (.budget f.nearLimit) le_rfl (by simp)
    rw [AcceptLoop.fst_step_eq_nil (by simp)] at looked
    exact ⟨_, looked⟩
  · next number peer backlog _ _ =>
    obtain rfl := congrArg Prod.fst (Option.some.inj turn)
    let i : AcceptInput Nat := .result (.ok (number, peer))
    have took : Tied d₀ backoff incoming f.now _ _
        { f with acceptLoop := (f.acceptLoop.step i).2, backlog } :=
      (h.loop i le_rfl (by simp [i])).congr rfl rfl rfl rfl rfl
    exact took.signalAll
  · obtain ⟨w, -, fired⟩ := Option.map_eq_some_iff.mp turn
    obtain rfl := congrArg Prod.fst fired
    exact h.fire w

theorem settleWithin (h : Tied d₀ backoff incoming now past [] f) (n : Nat) :
    ∃ past, Tied d₀ backoff incoming now past [] (f.settleWithin n).1 := by
  induction n generalizing f past with
  | zero => exact ⟨past, h⟩
  | succ n ih =>
    rw [FrontEnd.settleWithin]
    split
    · exact ⟨past, h⟩
    · next turn =>
      obtain ⟨past, h⟩ := h.turn turn
      exact ih h

theorem step (h : Tied d₀ backoff incoming now past [] f) (s : Stimulus) :
    ∃ past, Tied d₀ backoff (incoming.add s) now past [] (f.step s).1 := by
  obtain ⟨past, received⟩ := h.receive s
  exact received.settleWithin _

theorem expire (h : Tied d₀ backoff incoming now past [] f) (expired : List Watch)
    (seen : Reaction) : ∃ past, Tied d₀ backoff incoming now past []
      (expired.foldl (fun (f, seen) w =>
        let (f, more) := f.dispatch (.timedOut w)
        (f, seen ++ more)) (f, seen)).1 := by
  induction expired generalizing f past seen with
  | nil => exact ⟨past, h⟩
  | cons w expired ih =>
    obtain ⟨past, dispatched⟩ := dispatch (i := .timedOut w) h
    exact ih dispatched _

theorem clock (h : Tied d₀ backoff incoming now past [] f) (now' : Nat) (later : now ≤ now') :
    ∃ past, Tied d₀ backoff incoming now' past [] (f.clock now').1 := by
  have ticked := h.loop (.clock now') later (by rintro _ ⟨⟩; rfl)
  rw [AcceptLoop.fst_step_eq_nil (by simp)] at ticked
  obtain ⟨past, expired⟩ := ticked.expire _ .none
  exact expired.settleWithin _

theorem advanceWithin (h : Tied d₀ backoff incoming now past [] f) (n : Nat) {target : Nat}
    (ahead : now ≤ target) :
    ∃ past, Tied d₀ backoff incoming target past [] (f.advanceWithin n target).1 := by
  induction n generalizing f now past with
  | zero => exact h.clock target ahead
  | succ n ih =>
    rw [FrontEnd.advanceWithin]
    split
    · next due _ =>
      split
      · next early =>
        have time := h.time
        obtain ⟨past, ticked⟩ := h.clock (max due (f.now + 1)) (by omega)
        exact ih ticked (by omega)
      · exact h.clock target ahead
    · exact h.clock target ahead

/-! ### What the parts have from one another -/

/-- Every connection that the loop took went to the dispatcher. -/
theorem accepted_eq (h : Tied d₀ backoff incoming now past [] f) (running : f.state = .running) :
    (past.inputs.filterMap DispatcherInput.signal?).filterMap Signal.accepted? =
      AcceptLoop.accepted past.log := by
  have handed := h.handed
  rw [List.append_nil] at handed
  rw [h.all running, handed]
  refine h.runs.kept.handed.resolve_right ?_
  rintro ⟨-, closed, -⟩
  exact Bool.false_ne_true ((h.listened running).symm.trans closed)

/-- Of a stream that has ended, the signals are what it tells. -/
theorem exists_tells (h : Tied d₀ backoff incoming now past [] f)
    (closed : incoming.closed = true) :
    ∃ events reason, Tells incoming.chunks.flatten events reason ∧
      past.given.filter Signal.isOfEngine = events.map .backend ++ [.backendClosed reason] := by
  obtain ⟨events, reason, told⟩ := Tells.exists_tells incoming.chunks.flatten
  refine ⟨events, reason, told, ?_⟩
  have signals : incoming.read.1 = EventReader.signals (C := Nat) incoming.chunks := by
    rw [Incoming.read, if_pos closed]
    rfl
  rw [EventReader.signals_eq, EventReader.signals_of_tells told, h.heard,
    List.append_nil] at signals
  exact signals

/-- With its channel to the engine the front end comes to an end. -/
theorem not_running_of_closed (h : Tied d₀ backoff incoming now past [] f)
    (closed : incoming.closed = true) : f.state ≠ .running := by
  intro running
  obtain ⟨events, reason, -, given⟩ := h.exists_tells closed
  have led := h.led
  rw [running] at led
  apply led.backendClosed_not_mem reason
  rw [h.all running]
  apply List.mem_of_mem_filter
  rw [given]
  simp

end Tied

/-! ## Whatever happens -/

inductive Happening
  | outside (s : Stimulus)
  /-- So many milliseconds pass. -/
  | later (span : Nat)

namespace Happening

def span : Happening → Nat
  | .outside _ => 0
  | .later span => span

def incoming (h : Incoming) : Happening → Incoming
  | .outside s => h.add s
  | .later _ => h

end Happening

def happen (f : FrontEnd K) : Happening → FrontEnd K
  | .outside s => (f.step s).1
  | .later span => (f.advance span).1

def after (f : FrontEnd K) (hs : List Happening) : FrontEnd K := hs.foldl happen f

variable {backoff now : Nat} {incoming : Incoming} {past : Past} {f : FrontEnd K}

theorem Tied.happen (h : Tied d₀ backoff incoming now past [] f) (happening : Happening) :
    ∃ past, Tied d₀ backoff (happening.incoming incoming) (now + happening.span) past []
      (f.happen happening) := by
  cases happening with
  | outside s => exact h.step s
  | later span =>
    have time := h.time
    rw [FrontEnd.happen, advance, time]
    exact h.advanceWithin span (Nat.le_add_right now span)

theorem Tied.after (h : Tied d₀ backoff incoming now past [] f) (hs : List Happening) :
    ∃ past, Tied d₀ backoff (hs.foldl Happening.incoming incoming)
      (now + (hs.map Happening.span).sum) past [] (f.after hs) := by
  induction hs generalizing f incoming now past with
  | nil => exact ⟨past, h⟩
  | cons happening hs ih =>
    obtain ⟨past, next⟩ := h.happen happening
    rw [List.map_cons, List.sum_cons, ← Nat.add_assoc]
    exact ih next

theorem tied_start (d₀ : Dispatcher Nat K) (maxDatagram tcpTimeout backoff : Nat)
    (nearLimit : Bool) : ∃ past, Tied d₀ backoff ⟨[], false⟩ 0 past []
      (start d₀ maxDatagram tcpTimeout backoff nearLimit) := by
  let f : FrontEnd K := ⟨d₀, .running, .start backoff, [], [], nearLimit, .plenty, .start, .start,
    maxDatagram, tcpTimeout, 0⟩
  have fresh : Tied d₀ backoff ⟨[], false⟩ 0 ⟨[], [], []⟩ [] f :=
    ⟨.start, List.prefix_rfl, fun _ => rfl, .start, fun _ => rfl, rfl, le_rfl, rfl, rfl⟩
  exact fresh.settleWithin f.work

/-- Whatever happens to a front end, its dispatcher stands where a dispatcher gets on its own by
the inputs that it was given, its accept loop has run as an accept loop does, its reader has read
what the engine sent, and the dispatcher was given the signals of both, all of them and in order
while it runs. -/
theorem tied_after (d₀ : Dispatcher Nat K) (maxDatagram tcpTimeout backoff : Nat)
    (nearLimit : Bool) (hs : List Happening) :
    ∃ past, Tied d₀ backoff (hs.foldl Happening.incoming ⟨[], false⟩)
      (hs.map Happening.span).sum past []
      ((start d₀ maxDatagram tcpTimeout backoff nearLimit).after hs) := by
  obtain ⟨past, started⟩ := tied_start d₀ maxDatagram tcpTimeout backoff nearLimit
  obtain ⟨past, tied⟩ := started.after hs
  rw [Nat.zero_add] at tied
  exact ⟨past, tied⟩

/-- While a front end runs its connections are watched for just what they need. -/
theorem attentive_after (ids : IdSource) (setting : Setting) (anchors : AnchorManager K)
    (ops : AnchorStore K) (listeners maxDatagram tcpTimeout backoff : Nat) (nearLimit : Bool)
    (hs : List Happening) {f : FrontEnd K}
    (after : f = (start (.start (.fresh ids setting) anchors ops listeners) maxDatagram tcpTimeout
      backoff nearLimit).after hs) (running : f.state = .running) : f.dispatcher.Attentive := by
  obtain ⟨past, tied⟩ := tied_after (.start (.fresh ids setting) anchors ops listeners)
    maxDatagram tcpTimeout backoff nearLimit hs
  have led := tied.led
  rw [← after, running] at led
  exact led.serves.attentive

end FrontEnd

end ResolverGate
