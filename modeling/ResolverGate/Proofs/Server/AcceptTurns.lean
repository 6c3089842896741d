import Mathlib.Data.List.Chain
import ResolverGate.Server.AcceptLoop

/-! # Turns of the accept loop

What can be seen of the loop are looks at the budget, calls for a connection, results, signals,
and the end. An input leads to few of them, and what they are says where the loop stands then.
-/

namespace ResolverGate

namespace AcceptError

/-- The process or the system is out of descriptors. -/
inductive Exhausts : AcceptError → Prop
  | system (cause : String) : Exhausts (.system 23 cause)
  | process (cause : String) : Exhausts (.system 24 cause)

/-- Interrupted, would block, aborted or reset, by name or by number. -/
inductive Passes : AcceptError → Prop
  | interrupted : Passes .interrupted
  | wouldBlock : Passes .wouldBlock
  | aborted : Passes .aborted
  | reset : Passes .reset
  | numbered {number : Nat} (known : number ∈ [4, 11, 103, 104]) (cause : String) :
      Passes (.system number cause)

def Stops (e : AcceptError) : Prop := ¬ e.Exhausts ∧ ¬ e.Passes

variable {e : AcceptError}

theorem Exhausts.not_passes (h : e.Exhausts) : ¬ e.Passes := by
  rintro passes
  cases h <;> cases passes <;> simp_all

theorem action_of_exhausts (h : e.Exhausts) : e.action = .pause := by
  cases h <;> rfl

theorem action_of_passes (h : e.Passes) : e.action = .retry := by
  cases h with
  | numbered known cause =>
    simp only [List.mem_cons, List.not_mem_nil, or_false] at known
    rcases known with rfl | rfl | rfl | rfl <;> rfl
  | _ => rfl

theorem action_cases (e : AcceptError) : (e.action = .pause ∧ e.Exhausts) ∨
    (e.action = .retry ∧ e.Passes) ∨ (e.action = .fatal ∧ e.Stops) := by
  by_cases exhausts : e.Exhausts
  · exact .inl ⟨action_of_exhausts exhausts, exhausts⟩
  by_cases passes : e.Passes
  · exact .inr (.inl ⟨action_of_passes passes, passes⟩)
  refine .inr (.inr ⟨?_, exhausts, passes⟩)
  cases e with
  | system number cause =>
    have scarce : number ∉ outOfDescriptors := by
      intro mem
      simp only [outOfDescriptors, List.mem_cons, List.not_mem_nil, or_false] at mem
      rcases mem with rfl | rfl
      · exact exhausts (.system cause)
      · exact exhausts (.process cause)
    have lasting : number ∉ transient := fun mem => passes (.numbered mem cause)
    rw [action, if_neg scarce, if_neg lasting]
  | interrupted => exact absurd .interrupted passes
  | wouldBlock => exact absurd .wouldBlock passes
  | aborted => exact absurd .aborted passes
  | reset => exact absurd .reset passes
  | other => rfl

end AcceptError

namespace AcceptLoop

variable {C : Type} {l l' : AcceptLoop} {e : AcceptError}

/-! ## What can be seen of the loop -/

inductive Act (C : Type)
  /-- Looks at the budget. -/
  | reads (near : Bool)
  /-- Asks for a connection. -/
  | calls
  | gets (accepted : Except AcceptError (C × SocketAddress))
  | sends (s : Signal C)
  /-- Hears that it is to shut down. -/
  | told
  | ends

/-- An act, when it was done and whether the channel was closed then. -/
structure Moment (C : Type) where
  time : Nat
  closed : Bool
  act : Act C

def heard : AcceptStage → AcceptInput C → List (Act C)
  | .looking, .budget near => [.reads near]
  | .waiting, .result accepted => [.gets accepted]
  | .ended, .shutdown => []
  | _, .shutdown => [.told]
  | _, _ => []

def entered (before after : AcceptStage) : List (Act C) :=
  if before = after then []
  else
    match after with
    | .waiting => [.calls]
    | .ended => [.ends]
    | _ => []

@[simp] theorem entered_self (stage : AcceptStage) : (entered stage stage : List (Act C)) = [] :=
  if_pos rfl

def acts (l : AcceptLoop) (i : AcceptInput C) : List (Act C) :=
  heard l.stage i ++ (l.step i).1.map .sends ++ entered l.stage (l.step i).2.stage

def stamp (l : AcceptLoop) (act : Act C) : Moment C := ⟨l.now, l.closed, act⟩

def moments (l : AcceptLoop) (i : AcceptInput C) : List (Moment C) := (l.acts i).map l.stamp

/-! ## One turn -/

/-- The signal that a result is to be told by, if any. -/
inductive Owes : Except AcceptError (C × SocketAddress) → Signal C → Prop
  | connection (conn : C) (peer : SocketAddress) : Owes (.ok (conn, peer)) (.accepted conn peer)
  | failure {e : AcceptError} (stops : e.Stops) :
      Owes (.error e) (.listenerFailed (.io ("accept: " ++ e.cause)))

inductive Turn (l : AcceptLoop) : List (Act C) → AcceptLoop → Prop
  | idle : Turn l [] l
  | tick {now : Nat} (later : l.now ≤ now)
      (early : ∀ resume, l.stage = .pausing resume → now < resume) : Turn l [] { l with now }
  | wake {now resume : Nat} (later : l.now ≤ now) (stage : l.stage = .pausing resume)
      (past : resume ≤ now) : Turn l [] { l with now, stage := .looking }
  | near (stage : l.stage = .looking) : Turn l [.reads true] l.pause
  | room (stage : l.stage = .looking) :
      Turn l [.reads false, .calls] { l with stage := .waiting }
  | delivers {conn : C} {peer : SocketAddress} (stage : l.stage = .waiting)
      (isOpen : l.closed = false) :
      Turn l [.gets (.ok (conn, peer)), .sends (.accepted conn peer)] { l with stage := .looking }
  | passes {e : AcceptError} (stage : l.stage = .waiting) (passes : e.Passes) :
      Turn l [.gets (.error e)] { l with stage := .looking }
  | exhausts {e : AcceptError} (stage : l.stage = .waiting) (exhausts : e.Exhausts) :
      Turn l [.gets (.error e)] l.pause
  | fails {e : AcceptError} (stage : l.stage = .waiting) (isOpen : l.closed = false)
      (stops : e.Stops) :
      Turn l [.gets (.error e), .sends (.listenerFailed (.io ("accept: " ++ e.cause))), .ends]
        { l with stage := .ended }
  | unheard {accepted : Except AcceptError (C × SocketAddress)} {s : Signal C}
      (stage : l.stage = .waiting) (isClosed : l.closed = true) (owes : Owes accepted s) :
      Turn l [.gets accepted, .ends] { l with stage := .ended }
  | told (stage : l.stage ≠ .ended) : Turn l [.told, .ends] { l with stage := .ended }

theorem turn_result (accepted : Except AcceptError (C × SocketAddress))
    (stage : l.stage = .waiting) :
    Turn l (l.acts (.result accepted)) (l.step (.result accepted)).2 := by
  obtain ⟨backoff, now, _, closed⟩ := l
  obtain rfl := stage
  cases accepted with
  | ok c =>
    cases closed with
    | false => exact .delivers rfl rfl
    | true => exact .unheard rfl rfl (.connection c.1 c.2)
  | error e =>
    rcases e.action_cases with ⟨action, exhausts⟩ | ⟨action, passes⟩ | ⟨action, stops⟩
    · simp only [acts, step, action]
      exact .exhausts rfl exhausts
    · simp only [acts, step, action]
      exact .passes rfl passes
    · simp only [acts, step, action]
      cases closed with
      | false => exact .fails rfl rfl stops
      | true => exact .unheard rfl rfl (.failure stops)

theorem turn_idle {i : AcceptInput C} (unheard : heard l.stage i = [])
    (same : l.step i = ([], l)) : Turn l (l.acts i) (l.step i).2 := by
  rw [acts, unheard, same, entered_self]
  exact .idle

theorem turn_step (l : AcceptLoop) (i : AcceptInput C)
    (later : ∀ now, i = .clock now → l.now ≤ now) : Turn l (l.acts i) (l.step i).2 := by
  obtain ⟨backoff, now, stage, closed⟩ := l
  cases i with
  | budget near =>
    cases stage with
    | looking =>
      cases near with
      | false => exact .room rfl
      | true => exact .near rfl
    | _ => exact turn_idle rfl rfl
  | result accepted =>
    cases stage with
    | waiting => exact turn_result accepted rfl
    | _ => exact turn_idle rfl rfl
  | clock now =>
    cases stage with
    | looking => exact .tick (later now rfl) (by simp)
    | waiting => exact .tick (later now rfl) (by simp)
    | pausing resume =>
      by_cases past : resume ≤ now
      · simp only [acts, step, if_pos past]
        exact .wake (later now rfl) rfl past
      · simp only [acts, step, if_neg past, entered_self]
        exact .tick (later now rfl) (by simpa using past)
    | ended => exact turn_idle rfl rfl
  | shutdown =>
    cases stage with
    | ended => exact turn_idle rfl rfl
    | _ => exact .told (by simp)

/-! ## Kinds of acts -/

namespace Act

inductive Scarce : Act C → Prop
  | near : Scarce (.reads true)
  | exhausted {e : AcceptError} (exhausts : e.Exhausts) : Scarce (.gets (.error e))

inductive Ready : Act C → Prop
  | passed {e : AcceptError} (passes : e.Passes) : Ready (.gets (.error e))
  | delivered (conn : C) (peer : SocketAddress) : Ready (.sends (.accepted conn peer))

inductive Opens : Act C → Prop
  | reads (near : Bool) : Opens (.reads near)
  | gets (accepted : Except AcceptError (C × SocketAddress)) : Opens (.gets accepted)
  | told : Opens .told

/-- The turn is over with this act, and the loop goes on. -/
inductive Rests : Act C → Prop
  | calls : Rests .calls
  | near : Rests (.reads true)
  | exhausted {e : AcceptError} (exhausts : e.Exhausts) : Rests (.gets (.error e))
  | passed {e : AcceptError} (passes : e.Passes) : Rests (.gets (.error e))
  | delivered (conn : C) (peer : SocketAddress) : Rests (.sends (.accepted conn peer))

variable {act : Act C}

theorem Scarce.rests (h : act.Scarce) : act.Rests := by
  cases h with
  | near => exact .near
  | exhausted exhausts => exact .exhausted exhausts

theorem Ready.rests (h : act.Ready) : act.Rests := by
  cases h with
  | passed passes => exact .passed passes
  | delivered conn peer => exact .delivered conn peer

theorem Ready.not_scarce (ready : act.Ready) : ¬ act.Scarce := by
  intro scarce
  cases scarce with
  | near => cases ready
  | exhausted exhausts =>
    cases ready with
    | passed passes => exact exhausts.not_passes passes

end Act

theorem Owes.not_rests {accepted : Except AcceptError (C × SocketAddress)} {s : Signal C}
    (h : Owes accepted s) : ¬ Act.Rests (.gets accepted : Act C) := by
  intro rests
  cases h with
  | connection => cases rests
  | failure stops =>
    cases rests with
    | exhausted exhausts => exact stops.1 exhausts
    | passed passes => exact stops.2 passes

/-! ## What comes after what -/

/-- Neighbours in one turn. -/
inductive Within : Moment C → Moment C → Prop
  | calls {time : Nat} {closed : Bool} :
      Within ⟨time, closed, .reads false⟩ ⟨time, closed, .calls⟩
  | sends {time : Nat} {accepted : Except AcceptError (C × SocketAddress)} {s : Signal C}
      (owes : Owes accepted s) : Within ⟨time, false, .gets accepted⟩ ⟨time, false, .sends s⟩
  | stops {time : Nat} {closed : Bool} :
      Within ⟨time, closed, .told⟩ ⟨time, closed, .ends⟩
  | unheard {time : Nat} {accepted : Except AcceptError (C × SocketAddress)} {s : Signal C}
      (owes : Owes accepted s) : Within ⟨time, true, .gets accepted⟩ ⟨time, true, .ends⟩
  | fails {time : Nat} {fault : Fault} :
      Within ⟨time, false, .sends (.listenerFailed fault)⟩ ⟨time, false, .ends⟩

/-- What may begin the turn after the one that ended with this moment. -/
inductive Expects (backoff : Nat) (a : Moment C) : Moment C → Prop
  | gets {time : Nat} {closed : Bool} {accepted : Except AcceptError (C × SocketAddress)}
      (called : a.act = .calls) : Expects backoff a ⟨time, closed, .gets accepted⟩
  | looks {time : Nat} {closed near : Bool} (ready : a.act.Ready) :
      Expects backoff a ⟨time, closed, .reads near⟩
  | resumes {time : Nat} {closed near : Bool} (scarce : a.act.Scarce)
      (rested : a.time + backoff ≤ time) : Expects backoff a ⟨time, closed, .reads near⟩
  | told {time : Nat} {closed : Bool} (rests : a.act.Rests) :
      Expects backoff a ⟨time, closed, .told⟩

/-- Where the last moment, if there was one, leaves the loop. -/
inductive Leaves : Option (Moment C) → AcceptLoop → Prop
  | fresh {l : AcceptLoop} (stage : l.stage = .looking) : Leaves none l
  | waiting {a : Moment C} {l : AcceptLoop} (called : a.act = .calls)
      (stage : l.stage = .waiting) : Leaves (some a) l
  | looking {a : Moment C} {l : AcceptLoop} (ready : a.act.Ready) (stage : l.stage = .looking) :
      Leaves (some a) l
  | pausing {a : Moment C} {l : AcceptLoop} (scarce : a.act.Scarce)
      (stage : l.stage = .pausing (a.time + l.backoff)) : Leaves (some a) l
  | rested {a : Moment C} {l : AcceptLoop} (scarce : a.act.Scarce) (stage : l.stage = .looking)
      (past : a.time + l.backoff ≤ l.now) : Leaves (some a) l
  | ended {a : Moment C} {l : AcceptLoop} (past : a.act = .ends) (stage : l.stage = .ended) :
      Leaves (some a) l

variable {backoff : Nat} {a b : Moment C} {last : Option (Moment C)} {acts : List (Act C)}

theorem Within.not_rests (h : Within a b) : ¬ a.act.Rests := by
  intro rests
  cases h with
  | sends owes => exact owes.not_rests rests
  | unheard owes => exact owes.not_rests rests
  | _ => cases rests

theorem Expects.rests (h : Expects backoff a b) : a.act.Rests := by
  cases h with
  | gets called => exact called ▸ .calls
  | looks ready => exact ready.rests
  | resumes scarce => exact scarce.rests
  | told rests => exact rests

theorem Expects.opens (h : Expects backoff a b) : b.act.Opens := by
  cases h with
  | gets => exact .gets _
  | looks => exact .reads _
  | resumes => exact .reads _
  | told => exact .told

theorem Expects.of_scarce (h : Expects backoff a b) (scarce : a.act.Scarce) :
    b.act = .told ∨ ∃ near, b.act = .reads near ∧ a.time + backoff ≤ b.time := by
  cases h with
  | resumes _ rested => exact .inr ⟨_, rfl, rested⟩
  | told => exact .inl rfl
  | looks ready => exact absurd scarce ready.not_scarce
  | gets called =>
    rw [called] at scarce
    cases scarce

theorem Expects.of_ready (h : Expects backoff a b) (ready : a.act.Ready) :
    b.act = .told ∨ ∃ near, b.act = .reads near := by
  cases h with
  | looks => exact .inr ⟨_, rfl⟩
  | resumes => exact .inr ⟨_, rfl⟩
  | told => exact .inl rfl
  | gets called =>
    rw [called] at ready
    cases ready

namespace Leaves

theorem later {now : Nat} {closed : Bool} (h : Leaves last l) (later : l.now ≤ now) :
    Leaves last { l with now, closed } := by
  cases h with
  | fresh stage => exact .fresh stage
  | waiting called stage => exact .waiting called stage
  | looking ready stage => exact .looking ready stage
  | pausing scarce stage => exact .pausing scarce stage
  | rested scarce stage past => exact .rested scarce stage (past.trans later)
  | ended past stage => exact .ended past stage

theorem rests_or_ended (h : Leaves (some a) l) :
    a.act.Rests ∧ l.stage ≠ .ended ∨ a.act = .ends ∧ l.stage = .ended := by
  cases h with
  | waiting called stage => exact .inl ⟨called ▸ .calls, by simp [stage]⟩
  | looking ready stage => exact .inl ⟨ready.rests, by simp [stage]⟩
  | pausing scarce stage => exact .inl ⟨scarce.rests, by simp [stage]⟩
  | rested scarce stage => exact .inl ⟨scarce.rests, by simp [stage]⟩
  | ended past stage => exact .inr ⟨past, stage⟩

theorem of_ready (h : Leaves (some a) l) (ready : a.act.Ready) : l.stage = .looking := by
  cases h with
  | looking _ stage => exact stage
  | rested _ stage => exact stage
  | pausing scarce => exact absurd scarce ready.not_scarce
  | waiting called =>
    rw [called] at ready
    cases ready
  | ended past =>
    rw [past] at ready
    cases ready

theorem of_scarce (h : Leaves (some a) l) (scarce : a.act.Scarce) :
    l.stage = .pausing (a.time + l.backoff) ∨ l.stage = .looking := by
  cases h with
  | pausing _ stage => exact .inl stage
  | rested _ stage => exact .inr stage
  | looking ready => exact absurd scarce ready.not_scarce
  | waiting called =>
    rw [called] at scarce
    cases scarce
  | ended past =>
    rw [past] at scarce
    cases scarce

end Leaves

namespace Turn

theorem isChain (h : Turn l acts l') : (acts.map l.stamp).IsChain Within := by
  cases h with
  | idle => exact .nil
  | tick => exact .nil
  | wake => exact .nil
  | near => exact .singleton _
  | room => exact .cons_cons .calls (.singleton _)
  | delivers _ isOpen =>
    simp only [List.map_cons, List.map_nil, stamp, isOpen]
    exact .cons_cons (.sends (.connection _ _)) (.singleton _)
  | passes => exact .singleton _
  | exhausts => exact .singleton _
  | fails _ isOpen stops =>
    simp only [List.map_cons, List.map_nil, stamp, isOpen]
    exact .cons_cons (.sends (.failure stops)) (.cons_cons .fails (.singleton _))
  | unheard _ isClosed owes =>
    simp only [List.map_cons, List.map_nil, stamp, isClosed]
    exact .cons_cons (.unheard owes) (.singleton _)
  | told => exact .cons_cons .stops (.singleton _)

/-- What a turn does first depends on where the loop stands. -/
theorem head?_cases (h : Turn l acts l') {act : Act C} (first : acts.head? = some act) :
    (l.stage = .looking ∧ ∃ near, act = .reads near) ∨
      (l.stage = .waiting ∧ ∃ accepted, act = .gets accepted) ∨
        (l.stage ≠ .ended ∧ act = .told) := by
  have looks {near : Bool} {rest : List (Act C)} (stage : l.stage = .looking)
      (first : (.reads near :: rest).head? = some act) :
      l.stage = .looking ∧ ∃ near, act = .reads near :=
    ⟨stage, near, (Option.some.inj first).symm⟩
  have gets {accepted} {rest : List (Act C)} (stage : l.stage = .waiting)
      (first : (.gets accepted :: rest).head? = some act) :
      l.stage = .waiting ∧ ∃ accepted, act = .gets accepted :=
    ⟨stage, accepted, (Option.some.inj first).symm⟩
  cases h with
  | idle => cases first
  | tick => cases first
  | wake => cases first
  | near stage => exact .inl (looks stage first)
  | room stage => exact .inl (looks stage first)
  | delivers stage => exact .inr (.inl (gets stage first))
  | passes stage => exact .inr (.inl (gets stage first))
  | exhausts stage => exact .inr (.inl (gets stage first))
  | fails stage => exact .inr (.inl (gets stage first))
  | unheard stage => exact .inr (.inl (gets stage first))
  | told stage => exact .inr (.inr ⟨stage, (Option.some.inj first).symm⟩)

theorem opens (h : Turn l acts l') {act : Act C} (first : acts.head? = some act) : act.Opens := by
  rcases h.head?_cases first with ⟨-, near, rfl⟩ | ⟨-, accepted, rfl⟩ | ⟨-, rfl⟩
  · exact .reads near
  · exact .gets accepted
  · exact .told

theorem backoff_eq (h : Turn l acts l') : l'.backoff = l.backoff := by
  cases h <;> rfl

theorem expects (h : Turn l acts l') (leaves : Leaves (some a) l)
    (first : (acts.map l.stamp).head? = some b) : Expects l.backoff a b := by
  rw [List.head?_map, Option.map_eq_some_iff] at first
  obtain ⟨act, first, rfl⟩ := first
  rcases h.head?_cases first with ⟨stage, near, rfl⟩ | ⟨stage, accepted, rfl⟩ | ⟨stage, rfl⟩
  · cases leaves with
    | looking ready => exact .looks ready
    | rested scarce _ past => exact .resumes scarce past
    | waiting _ other => simp [stage] at other
    | pausing _ other => simp [stage] at other
    | ended _ other => simp [stage] at other
  · cases leaves with
    | waiting called => exact .gets called
    | looking _ other => simp [stage] at other
    | rested _ other => simp [stage] at other
    | pausing _ other => simp [stage] at other
    | ended _ other => simp [stage] at other
  · cases leaves with
    | waiting called => exact .told (called ▸ .calls)
    | looking ready => exact .told ready.rests
    | rested scarce => exact .told scarce.rests
    | pausing scarce => exact .told scarce.rests
    | ended _ past => exact absurd past stage

/-- A turn leaves the loop where its last act says. -/
theorem leaves (h : Turn l acts l') (leaves : Leaves last l) :
    Leaves ((acts.map l.stamp).getLast?.or last) l' := by
  cases h with
  | idle => exact leaves
  | tick later => exact leaves.later later
  | wake later stage past =>
    cases leaves with
    | pausing scarce paused =>
      obtain rfl := AcceptStage.pausing.inj (stage.symm.trans paused)
      exact .rested scarce rfl past
    | fresh other => simp [stage] at other
    | waiting _ other => simp [stage] at other
    | looking _ other => simp [stage] at other
    | rested _ other => simp [stage] at other
    | ended _ other => simp [stage] at other
  | near => exact .pausing .near rfl
  | room => exact .waiting rfl rfl
  | delivers => exact .looking (.delivered _ _) rfl
  | passes _ passes => exact .looking (.passed passes) rfl
  | exhausts _ exhausts => exact .pausing (.exhausted exhausts) rfl
  | fails => exact .ended rfl rfl
  | unheard => exact .ended rfl rfl
  | told => exact .ended rfl rfl

end Turn

end AcceptLoop

end ResolverGate
