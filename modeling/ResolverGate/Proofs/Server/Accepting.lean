import ResolverGate.Proofs.Server.AcceptTurns

/-! # Accepting while descriptors are scarce

Whatever the budget, the socket, the clock and the receiver of the signals do, a connection is
waited for only after a look at the budget that found room, the loop rests for the whole backoff
when it is out of descriptors, and every connection that it takes is handed on once and in order.
-/

namespace ResolverGate

namespace AcceptLoop

variable {C : Type} {l l' : AcceptLoop} {backoff : Nat} {a b : Moment C} {acts : List (Act C)}
  {log front back : List (Moment C)}

/-- Inputs have come, with the clock never set back, and perhaps the channel was closed. The log
tells what the loop did. -/
inductive Runs (backoff : Nat) : List (Moment C) → AcceptLoop → Prop
  | start : Runs backoff [] (.start backoff)
  | turn {log : List (Moment C)} {l : AcceptLoop} (runs : Runs backoff log l) (i : AcceptInput C)
      (later : ∀ now, i = .clock now → l.now ≤ now) :
      Runs backoff (log ++ l.moments i) (l.step i).2
  | close {log : List (Moment C)} {l : AcceptLoop} (runs : Runs backoff log l) :
      Runs backoff log { l with closed := true }

/-! ## Connections taken and handed on -/

def Act.accepted? : Act C → Option (C × SocketAddress)
  | .gets (.ok c) => some c
  | _ => none

def Act.delivered? : Act C → Option (C × SocketAddress)
  | .sends (.accepted conn peer) => some (conn, peer)
  | _ => none

def accepted (log : List (Moment C)) : List (C × SocketAddress) :=
  log.filterMap (·.act.accepted?)

def delivered (log : List (Moment C)) : List (C × SocketAddress) :=
  log.filterMap (·.act.delivered?)

/-- All connections were handed on, but for the last one if that ended the loop. -/
def Handed (log : List (Moment C)) (l : AcceptLoop) : Prop :=
  delivered log = accepted log ∨
    l.stage = .ended ∧ l.closed = true ∧ ∃ c, accepted log = delivered log ++ [c]

theorem Handed.eq (h : Handed log l) (running : l.stage ≠ .ended) : delivered log = accepted log :=
  h.resolve_right fun lost => running lost.1

theorem accepted_append (acts : List (Act C)) : accepted (log ++ acts.map l.stamp) =
    accepted log ++ acts.filterMap Act.accepted? := by
  rw [accepted, List.filterMap_append, List.filterMap_map]
  rfl

theorem delivered_append (acts : List (Act C)) : delivered (log ++ acts.map l.stamp) =
    delivered log ++ acts.filterMap Act.delivered? := by
  rw [delivered, List.filterMap_append, List.filterMap_map]
  rfl

theorem Turn.handed (h : Turn l acts l') (handed : Handed log l) :
    Handed (log ++ acts.map l.stamp) l' := by
  have balanced (running : l.stage ≠ .ended)
      (same : acts.filterMap Act.delivered? = acts.filterMap Act.accepted?) :
      Handed (log ++ acts.map l.stamp) l' := by
    refine .inl ?_
    rw [accepted_append, delivered_append, handed.eq running, same]
  cases h with
  | idle => rwa [List.map_nil, List.append_nil]
  | tick =>
    rw [List.map_nil, List.append_nil]
    exact handed
  | wake _ stage => exact balanced (by simp [stage]) rfl
  | near stage => exact balanced (by simp [stage]) rfl
  | room stage => exact balanced (by simp [stage]) rfl
  | delivers stage => exact balanced (by simp [stage]) rfl
  | passes stage => exact balanced (by simp [stage]) rfl
  | exhausts stage => exact balanced (by simp [stage]) rfl
  | fails stage => exact balanced (by simp [stage]) rfl
  | told running => exact balanced running rfl
  | unheard stage isClosed owes =>
    cases owes with
    | failure => exact balanced (by simp [stage]) rfl
    | connection conn peer =>
      refine .inr ⟨rfl, isClosed, (conn, peer), ?_⟩
      rw [accepted_append, delivered_append, handed.eq (by simp [stage])]
      exact (congrArg (· ++ [(conn, peer)]) (List.append_nil _)).symm

/-! ## Whole runs -/

def Follows (backoff : Nat) (a b : Moment C) : Prop := Within a b ∨ Expects backoff a b

structure Kept (backoff : Nat) (log : List (Moment C)) (l : AcceptLoop) : Prop where
  same : l.backoff = backoff
  chain : log.IsChain (Follows backoff)
  opens : ∀ a, log.head? = some a → a.act.Opens
  leaves : Leaves log.getLast? l
  handed : Handed log l

theorem Kept.turn (kept : Kept backoff log l) (h : Turn l acts l') :
    Kept backoff (log ++ acts.map l.stamp) l' where
  same := h.backoff_eq.trans kept.same
  chain := by
    have turn : (acts.map l.stamp).IsChain (Follows backoff) := h.isChain.imp fun _ _ => .inl
    refine List.isChain_append.mpr ⟨kept.chain, turn, fun a ha b hb => .inr ?_⟩
    have leaves := kept.leaves
    rw [Option.mem_def.mp ha] at leaves
    rw [← kept.same]
    exact h.expects leaves hb
  opens a ha := by
    rw [List.head?_append, Option.or_eq_some_iff] at ha
    rcases ha with earlier | ⟨-, first⟩
    · exact kept.opens a earlier
    rw [List.head?_map, Option.map_eq_some_iff] at first
    obtain ⟨act, first, rfl⟩ := first
    exact h.opens first
  leaves := by
    rw [List.getLast?_append]
    exact h.leaves kept.leaves
  handed := h.handed kept.handed

theorem Kept.close (kept : Kept backoff log l) : Kept backoff log { l with closed := true } where
  same := kept.same
  chain := kept.chain
  opens := kept.opens
  leaves := kept.leaves.later le_rfl
  handed := kept.handed.imp_right fun ⟨ended, _, lost⟩ => ⟨ended, rfl, lost⟩

theorem Runs.kept (runs : Runs backoff log l) : Kept backoff log l := by
  induction runs with
  | start => exact ⟨rfl, .nil, by simp, .fresh rfl, .inl rfl⟩
  | turn _ i later ih => exact ih.turn (turn_step _ i later)
  | close _ ih => exact ih.close

/-! ## Neighbours in the log -/

namespace Kept

variable (kept : Kept backoff log l)

include kept

theorem follows (h : log = front ++ a :: b :: back) : Follows backoff a b := by
  have chain := kept.chain
  rw [h, List.isChain_append] at chain
  exact (List.isChain_cons_cons.mp chain.2.1).1

/-- An act that begins no turn has one before it in the same turn. -/
theorem before (h : log = front ++ b :: back) (inner : ¬ b.act.Opens) :
    ∃ earlier a, front = earlier ++ [a] ∧ Within a b := by
  rcases List.eq_nil_or_concat front with rfl | ⟨earlier, a, rfl⟩
  · exact absurd (kept.opens b (by rw [h]; rfl)) inner
  · rw [List.concat_eq_append, ← List.append_cons] at h
    rcases kept.follows h with within | expects
    · exact ⟨earlier, a, List.concat_eq_append, within⟩
    · exact absurd expects.opens inner

theorem next (h : log = front ++ a :: b :: back) (rests : a.act.Rests) : Expects backoff a b :=
  (kept.follows h).resolve_left fun within => within.not_rests rests

theorem leaves_last (h : log = front ++ [a]) : Leaves (some a) l := by
  have leaves := kept.leaves
  rwa [h, List.getLast?_concat] at leaves

/-- An act that ends no turn has one behind it in the same turn. -/
theorem after (h : log = front ++ a :: back) (inner : ¬ a.act.Rests) (going : a.act ≠ .ends) :
    ∃ b rest, back = b :: rest ∧ Within a b := by
  cases back with
  | nil =>
    rcases (kept.leaves_last h).rests_or_ended with ⟨rests, -⟩ | ⟨past, -⟩
    · exact absurd rests inner
    · exact absurd past going
  | cons b rest =>
    refine ⟨b, rest, rfl, (kept.follows h).resolve_right fun expects => inner expects.rests⟩

theorem last_of_ends (h : log = front ++ a :: back) (past : a.act = .ends) :
    back = [] ∧ l.stage = .ended := by
  cases back with
  | nil =>
    rcases (kept.leaves_last h).rests_or_ended with ⟨rests, -⟩ | ⟨-, stage⟩
    · rw [past] at rests
      cases rests
    · exact ⟨rfl, stage⟩
  | cons b rest =>
    rcases kept.follows h with within | expects
    · cases within <;> cases past
    · have rests := expects.rests
      rw [past] at rests
      cases rests

theorem last_of_failed {fault : Fault} (h : log = front ++ a :: back)
    (failed : a.act = .sends (.listenerFailed fault)) :
    ∃ b, back = [b] ∧ b.act = .ends ∧ l.stage = .ended := by
  have inner : ¬ a.act.Rests := by
    rw [failed]
    rintro ⟨⟩
  obtain ⟨b, rest, rfl, within⟩ := kept.after h inner (by simp [failed])
  have past : b.act = .ends := by
    cases within with
    | fails => rfl
    | _ => cases failed
  obtain ⟨rfl, stage⟩ := kept.last_of_ends (h.trans (List.append_cons ..)) past
  exact ⟨b, rfl, past, stage⟩

end Kept

/-! ## The loop is careful -/

/-- How a log ends if the loop ends. -/
inductive Final : List (Moment C) → Prop
  | told (log : List (Moment C)) {time : Nat} {closed : Bool} :
      Final (log ++ [⟨time, closed, .told⟩, ⟨time, closed, .ends⟩])
  | unheard (log : List (Moment C)) {time : Nat} {s : Signal C}
      {accepted : Except AcceptError (C × SocketAddress)} (owes : Owes accepted s) :
      Final (log ++ [⟨time, true, .gets accepted⟩, ⟨time, true, .ends⟩])
  | failed (log : List (Moment C)) {time : Nat} {e : AcceptError} (stops : e.Stops) :
      Final (log ++ [⟨time, false, .gets (.error e)⟩,
        ⟨time, false, .sends (.listenerFailed (.io ("accept: " ++ e.cause)))⟩,
        ⟨time, false, .ends⟩])

structure Careful (backoff : Nat) (log : List (Moment C)) (l : AcceptLoop) : Prop where
  /-- A call comes right after a look that found room. -/
  called : ∀ front b back, log = front ++ b :: back → b.act = .calls →
    ∃ earlier a, front = earlier ++ [a] ∧ a.act = .reads false ∧ a.time = b.time
  /-- A look that found room is followed by a call. -/
  asked : ∀ front a back, log = front ++ a :: back → a.act = .reads false →
    ∃ b rest, back = b :: rest ∧ b.act = .calls
  /-- The backoff is over at the next look, unless the call to shut down came before. -/
  waited : ∀ front a b back, log = front ++ a :: b :: back → a.act.Scarce →
    b.act = .told ∨ ∃ near, b.act = .reads near ∧ a.time + backoff ≤ b.time
  /-- When the backoff is over the loop is ready for the next look. -/
  rested : ∀ a, log.getLast? = some a → a.act.Scarce → ∀ now, a.time + backoff ≤ now →
    (l.step (.clock now : AcceptInput C)).2.stage = .looking
  /-- No connection is lost or repeated, unless nobody was there to take the last one. -/
  handed : Handed log l
  /-- After an error that passes, and after a connection, comes the next look. -/
  passed : ∀ front a back, log = front ++ a :: back → a.act.Ready →
    back = [] ∧ l.stage = .looking ∨
      ∃ b rest, back = b :: rest ∧ (b.act = .told ∨ ∃ near, b.act = .reads near)
  /-- A signal comes right after the result that demands it. -/
  sent : ∀ front b back s, log = front ++ b :: back → b.act = .sends s →
    ∃ earlier a accepted, front = earlier ++ [a] ∧ a.act = .gets accepted ∧ Owes accepted s
  /-- Any other error ends the loop. -/
  stopped : ∀ front a back e, log = front ++ a :: back → a.act = .gets (.error e) → e.Stops →
    l.stage = .ended
  /-- After the signal that the listener failed there is nothing but the end. -/
  once : ∀ front a back fault, log = front ++ a :: back →
    a.act = .sends (.listenerFailed fault) → ∃ b, back = [b] ∧ b.act = .ends
  ended : l.stage = .ended ↔ Final log
  last : ∀ front a back, log = front ++ a :: back → a.act = .ends → back = []

namespace Kept

variable (kept : Kept backoff log l)

include kept

theorem final (stage : l.stage = .ended) : Final log := by
  obtain ⟨front, b, rfl, past⟩ : ∃ front b, log = front ++ [b] ∧ b.act = .ends := by
    rcases List.eq_nil_or_concat log with rfl | ⟨front, b, rfl⟩
    · cases kept.leaves with
      | fresh other => cases stage.symm.trans other
    · rw [List.concat_eq_append] at kept ⊢
      rcases (kept.leaves_last rfl).rests_or_ended with ⟨-, running⟩ | ⟨past, -⟩
      · exact absurd stage running
      · exact ⟨front, b, rfl, past⟩
  obtain ⟨front, a, rfl, within⟩ := kept.before rfl (by rw [past]; rintro ⟨⟩)
  rw [← List.append_cons] at kept ⊢
  cases within with
  | stops => exact .told front
  | unheard owes => exact .unheard front owes
  | fails =>
    -- The signal itself comes after the error.
    obtain ⟨front, a, rfl, within⟩ := kept.before rfl (by rintro ⟨⟩)
    rw [← List.append_cons]
    cases within with
    | sends owes =>
      cases owes with
      | failure stops => exact .failed front stops
  | _ => cases past

theorem stage_of_final (h : Final log) : l.stage = .ended := by
  have ends {b : Moment C} {front : List (Moment C)} (h : log = front ++ [b])
      (past : b.act = .ends) : l.stage = .ended := (kept.last_of_ends h past).2
  cases h with
  | told => exact ends (List.append_cons ..) rfl
  | unheard => exact ends (List.append_cons ..) rfl
  | failed => exact ends ((List.append_cons ..).trans (List.append_cons ..)) rfl

theorem ended_of_stops {e : AcceptError} (h : log = front ++ a :: back)
    (got : a.act = .gets (.error e)) (stops : e.Stops) : l.stage = .ended := by
  have inner : ¬ a.act.Rests := by
    rw [got]
    exact (Owes.failure stops).not_rests
  obtain ⟨b, rest, rfl, within⟩ := kept.after h inner (by simp [got])
  have next := h.trans (List.append_cons ..)
  cases within with
  | unheard => exact (kept.last_of_ends next rfl).2
  | sends owes =>
    obtain rfl := Act.gets.inj got
    cases owes with
    | failure =>
      obtain ⟨_, _, _, stage⟩ := kept.last_of_failed next rfl
      exact stage
  | _ => cases got

theorem looking_after (h : log.getLast? = some a) (scarce : a.act.Scarce) {now : Nat}
    (past : a.time + backoff ≤ now) : (l.step (.clock now : AcceptInput C)).2.stage = .looking := by
  have leaves := kept.leaves
  rw [h] at leaves
  rcases leaves.of_scarce scarce with stage | stage
  · rw [kept.same] at stage
    simp only [step, stage, if_pos past]
  · simp only [step, stage]

end Kept

/-- The loop is careful, whatever it meets. -/
theorem Runs.careful (runs : Runs backoff log l) : Careful backoff log l := by
  have kept := runs.kept
  constructor
  case called =>
    intro front b back h called
    obtain ⟨earlier, a, rfl, within⟩ := kept.before h (by rw [called]; rintro ⟨⟩)
    refine ⟨earlier, a, rfl, ?_⟩
    cases within with
    | calls => exact ⟨rfl, rfl⟩
    | _ => cases called
  case asked =>
    intro front a back h room
    have inner : ¬ a.act.Rests := by
      rw [room]
      rintro ⟨⟩
    obtain ⟨b, rest, rfl, within⟩ := kept.after h inner (by simp [room])
    refine ⟨b, rest, rfl, ?_⟩
    cases within with
    | calls => rfl
    | _ => cases room
  case waited => exact fun front a b back h scarce => (kept.next h scarce.rests).of_scarce scarce
  case rested => exact fun a h scarce now => kept.looking_after h scarce
  case handed => exact kept.handed
  case passed =>
    intro front a back h ready
    cases back with
    | nil => exact .inl ⟨rfl, (kept.leaves_last h).of_ready ready⟩
    | cons b rest => exact .inr ⟨b, rest, rfl, (kept.next h ready.rests).of_ready ready⟩
  case sent =>
    intro front b back s h sent
    obtain ⟨earlier, a, rfl, within⟩ := kept.before h (by rw [sent]; rintro ⟨⟩)
    cases within with
    | sends owes =>
      obtain rfl := Act.sends.inj sent
      exact ⟨earlier, _, _, rfl, rfl, owes⟩
    | _ => cases sent
  case stopped => exact fun front a back e h got stops => kept.ended_of_stops h got stops
  case once =>
    intro front a back fault h failed
    obtain ⟨b, last, past, -⟩ := kept.last_of_failed h failed
    exact ⟨b, last, past⟩
  case ended => exact ⟨kept.final, kept.stage_of_final⟩
  case last => exact fun front a back h past => (kept.last_of_ends h past).1

/-- There is no room at first, then a connection, then no descriptor for the next one, and at
last an error that the loop does not go on from. -/
theorem Runs.careful_scarce :
    ∃ (log : List (Moment Nat)) (l : AcceptLoop) (c : Nat × SocketAddress), Runs 10 log l ∧
      accepted log = [c] ∧ Handed log l ∧ Final log := by
  let peer : SocketAddress := ⟨⟨.inet, [127, 0, 0, 1], rfl⟩, 53, 0⟩
  have waits : Runs (C := Nat) 10 _ _ :=
    (Runs.start.turn (.budget true) (by simp)).turn (.clock 10) (by rintro _ ⟨⟩; decide)
  have accepts := (waits.turn (.budget false) (by simp)).turn (.result (.ok (5, peer))) (by simp)
  have runsOut := (accepts.turn (.budget false) (by simp)).turn
    (.result (.error (.system 24 "too many open files"))) (by simp)
  have resumes := (runsOut.turn (.clock 25) (by rintro _ ⟨⟩; decide)).turn (.budget false)
    (by simp)
  have runs := resumes.turn (.result (.error (.other "invalid argument"))) (by simp)
  exact ⟨_, _, (5, peer), runs, rfl, runs.careful.handed, runs.careful.ended.mp rfl⟩

end AcceptLoop

end ResolverGate
