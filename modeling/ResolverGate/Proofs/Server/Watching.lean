import ResolverGate.Proofs.Engine.Sending
import ResolverGate.Proofs.Server.Watches

/-! # Every connection is watched for what it waits for

A connection has one idle timer, one watch that waits to read while its query is being read,
and one that waits to write while the query writes. No other watch is live, and none is of a
connection that is closed.
-/

namespace ResolverGate

namespace Dispatcher

variable {S K : Type} {d d' : Dispatcher S K} {id : QueryId} {kind : WatchKind} {w : Watch}
  {keep : QueryId → WatchKind → Prop} {conn : Connection S} {stage : Stage}

/-! ## Operations of the engine -/

theorem stage?_of_find {p : Pending (Connection S)} (present : d.engine.table.find? id = some p)
    (origin : p.origin = .tcp conn) : d.stage? id = some p.stage := by
  rw [stage?, Table.stream?_of_find present origin]
  rfl

theorem needs_iff (stream : d.stage? id = some stage) :
    d.Needs id kind ↔ stage.needs kind = true := by
  simp [Needs, stream]

section Afterwards

variable {e : Engine (Connection S)} {fx : Effects (Connection S)}

theorem slot?_afterwards : (d.afterwards e fx).1.slot? id kind =
    (e.table.stream? id).bind fun s => s.1.watch? kind := rfl

theorem stage?_afterwards : (d.afterwards e fx).1.stage? id =
    (e.table.stream? id).map Prod.snd := rfl

theorem afterwards_kept (unowned : ∀ w, fx.dropped.any (·.owns w) = false)
    (slots : ∀ id kind, (d.afterwards e fx).1.slot? id kind = d.slot? id kind) :
    Ends (fun _ _ => True) d (d.afterwards e fx).1 where
  sublist := List.filter_sublist
  mem_iff w hw := by simp [afterwards, hw, unowned]
  slot_eq id kind _ := slots id kind
  slot_sub id kind n hn := (slots id kind).symm.trans hn
  serial := rfl

/-- A connection goes away, and with it its watches. -/
theorem Tidy.afterwards_dropped (h : d.Tidy) (hc : d.connection? id = some conn)
    (dropped : fx.dropped = [conn])
    (stream : ∀ other, e.table.stream? other =
      if other = id then none else d.engine.table.stream? other) :
    Ends (fun other _ => other ≠ id) d (d.afterwards e fx).1 := by
  have slot (other kind) : (d.afterwards e fx).1.slot? other kind =
      if other = id then none else d.slot? other kind := by
    rw [slot?_afterwards, stream]
    split <;> rfl
  refine ⟨List.filter_sublist, fun w hw => ?_, fun other kind hne => ?_, fun other kind n hn => ?_,
    rfl⟩
  · rw [afterwards, dropped, List.mem_filter, List.any_cons, List.any_nil, Bool.or_false, ne_eq,
      ← h.owns_iff hw hc]
    cases conn.owns w <;> simp [hw]
  · rw [slot, if_neg hne]
  · rw [slot] at hn
    split at hn
    · simp at hn
    · exact hn

end Afterwards

def afterTurn (d : Dispatcher S K) (id : QueryId) (p : Pending (Connection S))
    (t : Turn (Connection S)) : Dispatcher S K :=
  (d.afterwards (d.engine.commit id p t).2.1 (d.engine.commit id p t).2.2).1

section Turn

variable {p p' : Pending (Connection S)} {t : Turn (Connection S)}
  (present : d.engine.table.find? id = some p) (origin : p.origin = .tcp conn)

include present

theorem stream?_commit (other : QueryId) : (d.engine.commit id p t).2.1.table.stream? other =
    if other = id then t.entry.bind Pending.stream? else d.engine.table.stream? other := by
  rw [Table.stream?, Engine.find?_commit (Table.contains_iff.mpr ⟨p, present⟩)]
  split <;> rfl

include origin

theorem Tidy.turn_gone (h : d.Tidy) (entry : t.entry = none) :
    Ends (fun other _ => other ≠ id) d (d.afterTurn id p t) ∧
      ∀ other, (d.afterTurn id p t).stage? other = if other = id then none else d.stage? other := by
  have stream := stream?_commit (t := t) present
  rw [entry] at stream
  have hc : d.connection? id = some conn := by
    rw [connection?_eq, Table.stream?_of_find present origin]
    rfl
  refine ⟨h.afterwards_dropped hc ?_ stream, fun other => ?_⟩
  · rw [Engine.commit_effects, Turn.effects, entry, origin]
    rfl
  · rw [afterTurn, stage?_afterwards, stream]
    split <;> rfl

theorem turn_kept (entry : t.entry = some p') (origin' : p'.origin = .tcp conn) :
    Ends (fun _ _ => True) d (d.afterTurn id p t) ∧
      ∀ other, (d.afterTurn id p t).stage? other =
        if other = id then some p'.stage else d.stage? other := by
  have stream := stream?_commit (t := t) present
  simp only [entry, Option.bind_some, Pending.stream?_of_tcp origin'] at stream
  have before := Table.stream?_of_find present origin
  refine ⟨afterwards_kept ?_ fun other kind => ?_, fun other => ?_⟩
  · simp [Engine.commit_effects, Turn.effects, entry]
  · rw [slot?_afterwards, stream, slot?]
    split
    · next own => rw [own, before]; rfl
    · rfl
  · rw [afterTurn, stage?_afterwards, stream]
    split <;> rfl

end Turn

/-! ## Following an outcome -/

/-- Of the watches of the query's connection only the idle timer is live. -/
def Idles (d : Dispatcher S K) (id : QueryId) : Prop := ∀ kind, d.Live id kind ↔ kind = .idle

theorem Tidy.touches (h : d.Tidy) (ends : Ends keep d d')
    (kept : ∀ other ≠ id, ∀ kind, keep other kind)
    (stage : ∀ other ≠ id, d'.stage? other = d.stage? other) : Touches id d d' where
  tidy := h.ends ends
  live other hne kind := ends.live_iff.trans (and_iff_left (kept other hne kind))
  stage := stage

theorem Tidy.touches_watch (h : d.Tidy) (kind : WatchKind) (stream : d.stage? id = some stage) :
    Touches id d (d.watch kind id) where
  tidy := h.watch stream
  live other hne kind := (h.live_watch stream).trans (by simp [hne])
  stage other _ := stage?_watch

theorem fst_stopReading : (d.stopReading id).1 = d.unwatch .readable id := by
  unfold stopReading unwatch
  split <;> rfl

theorem Tidy.stopReading (h : d.Tidy) (idles : d.Idles id) :
    Touches id d (d.stopReading id).1 ∧ (d.stopReading id).1.Idles id := by
  have ends := h.unwatch .readable id
  rw [fst_stopReading]
  refine ⟨h.touches ends (fun other hne kind => by simp [hne]) fun other _ => stage?_unwatch,
    fun kind => ?_⟩
  rw [ends.live_iff, idles kind]
  cases kind <;> simp

/-- The outcome of a turn says which watch the connection needs besides its timer. -/
theorem Tidy.follow (h : d.Tidy) (stream : d.stage? id = some stage) (idles : d.Idles id)
    {a : Stage} {o : Outcome} (moves : a.Moves o stage) :
    Touches id d (d.follow (some id) o).1 ∧ (d.follow (some id) o).1.Attends id := by
  have watched (kind : WatchKind) (needs : ∀ k, stage.needs k = true ↔ k = .idle ∨ k = kind) :
      Touches id d (d.watch kind id) ∧ (d.watch kind id).Attends id := by
    refine ⟨h.touches_watch kind stream, fun k => ?_⟩
    rw [h.live_watch stream, idles k, needs_iff (stage?_watch.trans stream), needs]
    simp
  cases moves with
  | reads _ after =>
    refine watched .readable fun k => ?_
    cases k with
    | writable => cases stage <;> simp_all [Stage.needs, Stage.isReading]
    | _ => simp [Stage.needs, after]
  | awaits =>
    refine ⟨⟨h, fun _ _ _ => Iff.rfl, fun _ _ => rfl⟩, fun k => ?_⟩
    change d.Live id k ↔ d.Needs id k
    rw [idles k, needs_iff stream]
    cases k <;> simp [Stage.needs, Stage.isReading]
  | replies =>
    refine watched .writable fun k => ?_
    cases k <;> simp [Stage.needs, Stage.isReading]
  | writes =>
    refine watched .writable fun k => ?_
    cases k <;> simp [Stage.needs, Stage.isReading]

theorem fst_proceed {p : Pending (Connection S)} {t : Turn (Connection S)} {o : Outcome}
    (outcome : t.outcome = .ok o) : (d.proceed (some id) (d.engine.commit id p t)).2.1 =
      ((d.afterTurn id p t).follow (some id) o).1 := by
  simp only [Dispatcher.proceed, Engine.commit_outcome, outcome, afterTurn]

section Received

variable {p : Pending (Connection S)} {t : Turn (Connection S)} {host : Host} {size : Nat}
  {octets : Bytes} {o : Outcome} (window : d.readSize id = some size)
  (commits : d.engine.tcpReceived host id (octets.take size) = d.engine.commit id p t)
  (outcome : t.outcome = .ok o)

include window commits outcome

theorem onReadable_complete (complete : o = .waiting ∨ o = .startWriting) :
    (d.onReadable host id (.done octets)).1 =
      (((d.afterTurn id p t).stopReading id).1.follow (some id) o).1 := by
  simp only [Dispatcher.onReadable, window, commits, Engine.commit_outcome, outcome]
  rcases complete with rfl | rfl <;> rfl

theorem onReadable_goesOn (waiting : o ≠ .waiting) (writing : o ≠ .startWriting) :
    (d.onReadable host id (.done octets)).1 =
      ((d.afterTurn id p t).follow (some id) o).1 := by
  simp only [Dispatcher.onReadable, window, commits, Engine.commit_outcome, outcome]
  cases o with
  | waiting => exact absurd rfl waiting
  | startWriting => exact absurd rfl writing
  | _ => rfl

end Received

theorem follow_absent {o : Outcome} (absent : d.connection? id = none) :
    (d.follow (some id) o).1 = d := by
  cases o <;> simp [Dispatcher.follow, Dispatcher.watch, absent]

section Turn

variable {p : Pending (Connection S)} {t : Turn (Connection S)} {a : Stage}
  (h : d.Tidy) (present : d.engine.table.find? id = some p) (origin : p.origin = .tcp conn)

include h present origin

theorem Tidy.attends_gone (entry : t.entry = none) :
    Touches id d (d.afterTurn id p t) ∧ (d.afterTurn id p t).Attends id := by
  obtain ⟨ends, stage⟩ := h.turn_gone (t := t) present origin entry
  refine ⟨h.touches ends (fun _ hne _ => hne) fun other hne => (stage other).trans (if_neg hne),
    fun kind => ?_⟩
  rw [ends.live_iff, Needs, stage, if_pos rfl]
  simp

theorem Tidy.release : Touches id d (d.release id).1 ∧ (d.release id).1.Attends id := by
  have same : (d.release id).1 = d.afterTurn id p .gone := by
    rw [Dispatcher.release, Engine.release, present]
    rfl
  rw [same]
  exact h.attends_gone present origin rfl

/-- What a turn tells of a query on a connection, it does to the dispatcher. -/
theorem Tidy.turn_tells (idles : d.Idles id) (tells : t.Tells conn a) :
    (t.outcome = .ok .released ∧ Touches id d (d.afterTurn id p t) ∧
        (d.afterTurn id p t).Attends id) ∨
      ∃ o stage, t.outcome = .ok o ∧ a.Moves o stage ∧ Touches id d (d.afterTurn id p t) ∧
        (d.afterTurn id p t).stage? id = some stage ∧ (d.afterTurn id p t).Idles id := by
  cases tells with
  | gone entry outcome => exact .inl ⟨outcome, h.attends_gone present origin entry⟩
  | @moved p' o entry origin' outcome moves =>
    obtain ⟨ends, stage⟩ := turn_kept (t := t) present origin entry origin'
    refine .inr ⟨o, p'.stage, outcome, moves, h.touches ends (fun _ _ _ => trivial) fun other hne =>
      (stage other).trans (if_neg hne), (stage id).trans (if_pos rfl), fun kind => ?_⟩
    rw [ends.live_iff, and_true]
    exact idles kind

theorem Tidy.proceed (idles : d.Idles id) (tells : t.Tells conn a) :
    Touches id d (d.proceed (some id) (d.engine.commit id p t)).2.1 ∧
      (d.proceed (some id) (d.engine.commit id p t)).2.1.Attends id := by
  rcases h.turn_tells present origin idles tells with
    ⟨outcome, gone⟩ | ⟨o, stage, outcome, moves, touches, stream, idles'⟩
  · rw [fst_proceed outcome]
    exact gone
  · rw [fst_proceed outcome]
    obtain ⟨touches', own⟩ := touches.tidy.follow stream idles' moves
    exact ⟨touches.trans touches', own⟩

/-! ## Watches fire -/

theorem Tidy.onReadable (host : Host) (read : Attempt Bytes) (idles : d.Idles id)
    (reading : p.stage.isReading = true) :
    Touches id d (d.onReadable host id read).1 ∧
      (d.onReadable host id read).1.Attends id := by
  have size : d.readSize id = some (max p.query.remaining 1) := by
    rw [readSize, Engine.tcpReadWindow_of_reading present reading]
    rfl
  have stream := stage?_of_find present origin
  have again : Touches id d (d.watch .readable id) ∧ (d.watch .readable id).Attends id :=
    h.follow stream idles (.reads reading reading)
  cases read with
  | wouldBlock => simpa only [Dispatcher.onReadable, size] using again
  | interrupted => simpa only [Dispatcher.onReadable, size] using again
  | failed => simpa only [Dispatcher.onReadable, size] using h.release present origin
  | done octets =>
    let t := p.received d.engine.setting host (octets.take (max p.query.remaining 1))
    have commits : d.engine.tcpReceived host id (octets.take (max p.query.remaining 1)) =
        d.engine.commit id p t := by
      rw [Engine.tcpReceived, present]
    rcases h.turn_tells present origin idles (Pending.received_tells origin reading) with
      ⟨outcome, gone⟩ | ⟨o, stage, outcome, moves, touches, stream', idles'⟩
    · rw [onReadable_goesOn size commits outcome (by simp) (by simp)]
      exact gone
    by_cases complete : o = .waiting ∨ o = .startWriting
    · obtain ⟨shut, idles''⟩ := touches.tidy.stopReading idles'
      have stream'' : ((d.afterTurn id p t).stopReading id).1.stage? id = some stage := by
        rw [fst_stopReading]
        exact stage?_unwatch.trans stream'
      obtain ⟨follow, own⟩ := shut.tidy.follow stream'' idles'' moves
      rw [onReadable_complete size commits outcome complete]
      exact ⟨(touches.trans shut).trans follow, own⟩
    · obtain ⟨waiting, writing⟩ := not_or.mp complete
      obtain ⟨follow, own⟩ := touches.tidy.follow stream' idles' moves
      rw [onReadable_goesOn size commits outcome waiting writing]
      exact ⟨touches.trans follow, own⟩

theorem Tidy.onWritable (written : Attempt Nat) (idles : d.Idles id)
    (writing : p.stage = .writing) :
    Touches id d (d.onWritable id written).1 ∧ (d.onWritable id written).1.Attends id := by
  have stream := stage?_of_find present origin
  have again : Touches id d (d.watch .writable id) ∧ (d.watch .writable id).Attends id :=
    h.follow (stream.trans (congrArg some writing)) idles .writes
  have left := Engine.tcpPendingWrite_of_writing present writing
  cases written with
  | wouldBlock => simpa only [Dispatcher.onWritable, left] using again
  | interrupted => simpa only [Dispatcher.onWritable, left] using again
  | failed => simpa only [Dispatcher.onWritable, left] using h.release present origin
  | done count =>
    have commits : d.engine.tcpWrote id (min count p.answer.current.length) =
        d.engine.commit id p (p.wrote (min count p.answer.current.length)) := by
      rw [Engine.tcpWrote, present]
    simp only [Dispatcher.onWritable, left, commits]
    exact h.proceed present origin idles (Pending.wrote_tells origin writing)

end Turn

namespace Attentive

variable (h : d.Attentive)

include h

theorem exists_of_mem (hw : w ∈ d.watches) : ∃ p conn, d.engine.table.find? w.query = some p ∧
    p.origin = .tcp conn ∧ p.stage.needs w.kind = true := by
  obtain ⟨stage, needed, needs⟩ := (h.attends w.query w.kind).mp ⟨w, hw, rfl, rfl⟩
  obtain ⟨⟨conn, _⟩, stream, rfl⟩ := Option.map_eq_some_iff.mp needed
  obtain ⟨p, present, origin, rfl⟩ := Table.stream?_eq_some_iff.mp stream
  exact ⟨p, conn, present, origin, needs⟩

theorem touches_retire (hw : w ∈ d.watches) : Touches w.query d (d.retire w) :=
  h.touches (h.retire hw) (fun other hne kind => by simp [hne]) fun _ _ => rfl

theorem idles_retire (hw : w ∈ d.watches) (timer : w.kind ≠ .idle) :
    (d.retire w).Idles w.query := by
  obtain ⟨p, conn, present, origin, needs⟩ := h.exists_of_mem hw
  have stream := stage?_of_find present origin
  intro kind
  rw [(h.retire hw).live_iff, h.attends w.query kind, needs_iff stream]
  generalize p.stage = stage at needs
  cases kind <;> cases hk : w.kind <;> cases stage <;> simp_all [Stage.needs, Stage.isReading]

theorem fired (awaits : d.awaits w kind = true)
    (handled : ∀ p conn, d.engine.table.find? w.query = some p → p.origin = .tcp conn →
      p.stage.needs kind = true → (d.retire w).Tidy →
      (kind ≠ .idle → (d.retire w).Idles w.query) →
      Touches w.query (d.retire w) d' ∧ d'.Attends w.query) : d'.Attentive := by
  obtain ⟨hw, rfl⟩ : w ∈ d.watches ∧ w.kind = kind := by simpa [Dispatcher.awaits] using awaits
  obtain ⟨p, conn, present, origin, needs⟩ := h.exists_of_mem hw
  have retired := h.touches_retire hw
  obtain ⟨touches, own⟩ :=
    handled p conn present origin needs retired.tidy fun timer => h.idles_retire hw timer
  exact h.touch (retired.trans touches) own

/-- Whichever watch fires, and whatever reading or writing gives, every connection is then
watched for what it needs. -/
theorem onFired (host : Host) (i : DispatcherInput S) :
    (d.onFired host i).1.Attentive := by
  have released {w : Watch} {kind} (awaits : d.awaits w kind = true) :
      ((d.retire w).release w.query).1.Attentive :=
    h.fired awaits fun _ _ present origin _ tidy _ =>
      tidy.release (d := d.retire w) present origin
  cases i with
  | signal => exact h
  | readable w read =>
    rw [Dispatcher.onFired]
    split
    · next awaits =>
      exact h.fired awaits fun p conn present origin needs tidy idles =>
        tidy.onReadable (d := d.retire w) present origin host read (idles (by simp)) needs
    · exact h
  | writable w written =>
    rw [Dispatcher.onFired]
    split
    · next awaits =>
      exact h.fired awaits fun p conn present origin needs tidy idles =>
        tidy.onWritable (d := d.retire w) present origin written (idles (by simp))
          (of_decide_eq_true needs)
    · exact h
  | timedOut w =>
    rw [Dispatcher.onFired]
    split
    · next awaits => exact released awaits
    · exact h
  | broken w =>
    rw [Dispatcher.onFired]
    split
    · next awaits => exact (Bool.or_eq_true_iff.mp awaits).elim released released
    · exact h

/-! ## Signals arrive -/

theorem of_kept (ends : Ends (fun _ _ => True) d d') (stage : ∀ id, d'.stage? id = d.stage? id) :
    d'.Attentive := by
  refine ⟨h.ends ends, fun id kind => ?_⟩
  rw [ends.live_iff, and_true, Needs, stage]
  exact h.attends id kind

theorem of_streams {e : Engine (Connection S)} {fx : Effects (Connection S)}
    (unowned : ∀ w, fx.dropped.any (·.owns w) = false)
    (streams : ∀ id, e.table.stream? id = d.engine.table.stream? id) :
    (d.afterwards e fx).1.Attentive := by
  refine h.of_kept (afterwards_kept unowned fun id kind => ?_) fun id => ?_
  · rw [slot?_afterwards, streams, slot?]
  · rw [stage?_afterwards, streams, stage?]

theorem udpReceived {host : Host} {listener : Nat} {peer : SocketAddress} {m : Bytes}
    {o : Except Fault Outcome} {e : Engine (Connection S)} {fx : Effects (Connection S)}
    (received : d.engine.udpReceived host listener peer m = some (o, e, fx)) :
    (d.afterwards e fx).1.Attentive := by
  let s : Step (Connection S) := ⟨d.engine, host, .udpReceived listener peer m, .outcome o,
    e, fx, by rw [Engine.perform, received]; rfl⟩
  obtain ⟨-, id, t, free, turn, -, found, effects⟩ | ⟨-, -, found, effects⟩ := s.received rfl
  case inr =>
    refine h.of_streams (fun w => ?_) fun other => Table.stream?_congr (found other)
    change s.effects.dropped.any _ = false
    rw [effects]
    rfl
  refine h.of_streams (fun w => ?_) fun other => ?_
  · change s.effects.dropped.any _ = false
    rw [effects, Turn.effects]
    split <;> rfl
  · change s.after.table.stream? other = s.before.table.stream? other
    rw [Table.stream?, found, Table.stream?]
    split
    · next own =>
      rw [own, free]
      cases entry : t.entry with
      | none => rfl
      | some p =>
        obtain ⟨q, -, awaits, -⟩ := Pending.awaits_of_judge rfl (turn ▸ entry)
        exact Pending.stream?_of_udp awaits.origin
    · rfl

theorem of_turn {p : Pending (Connection S)} {t : Turn (Connection S)}
    (present : d.engine.table.find? id = some p) (dropped : (t.effects p).dropped = [])
    (same : t.entry.bind Pending.stream? = p.stream?) : (d.afterTurn id p t).Attentive := by
  refine h.of_streams (fun w => ?_) fun other => ?_
  · rw [Engine.commit_effects, dropped, List.any_nil]
  · rw [stream?_commit present]
    split
    · next own => rw [own, same, Table.stream?, present, Option.bind_some]
    · rfl

theorem answered_datagram {p : Pending (Connection S)} {memory : Memory} {listener : Nat}
    {f : Fragment} {o : Outcome} (present : d.engine.table.find? f.id = some p)
    (origin : p.origin = .udp listener)
    (outcome : (p.answered d.engine.setting memory f).outcome = .ok o) :
    (d.proceed (some f.id)
      (d.engine.commit f.id p (p.answered d.engine.setting memory f))).2.1.Attentive := by
  have unstreamed : (p.answered d.engine.setting memory f).entry.bind Pending.stream? = none := by
    cases entry : (p.answered d.engine.setting memory f).entry with
    | none => rfl
    | some p' => exact Pending.stream?_of_udp (Pending.answered_datagram origin entry)
  rw [fst_proceed outcome, follow_absent]
  · refine h.of_turn present ?_ (unstreamed.trans (Pending.stream?_of_udp origin).symm)
    rw [Turn.effects, origin]
    split <;> rfl
  · rw [connection?_eq, afterTurn, afterwards, stream?_commit present, if_pos rfl, unstreamed]
    rfl

theorem backendAnswer (memory : Memory) (f : Fragment)
    (ok : (d.proceed (some f.id) (d.engine.backendAnswer memory f)).1 = .ok ()) :
    (d.proceed (some f.id) (d.engine.backendAnswer memory f)).2.1.Attentive := by
  cases present : d.engine.table.find? f.id with
  | none =>
    rw [Engine.backendAnswer, present]
    exact h.of_streams (fun _ => rfl) fun _ => rfl
  | some p =>
    have commits : d.engine.backendAnswer memory f =
        d.engine.commit f.id p (p.answered d.engine.setting memory f) := by
      rw [Engine.backendAnswer, present]
    rw [commits] at ok ⊢
    obtain ⟨o, outcome⟩ : ∃ o, (p.answered d.engine.setting memory f).outcome = .ok o := by
      cases outcome : (p.answered d.engine.setting memory f).outcome with
      | ok o => exact ⟨o, rfl⟩
      | error fault => simp [Dispatcher.proceed, Engine.commit_outcome, outcome] at ok
    cases origin : p.origin with
    | udp listener => exact h.answered_datagram present origin outcome
    | tcp conn =>
      by_cases forwarded : p.stage = .forwarded
      · rcases Pending.answered_tells d.engine.setting memory f origin forwarded
          with tells | ⟨_, _, _, failed⟩
        · have idles : d.Idles f.id := by
            intro kind
            rw [h.attends f.id kind, needs_iff (stage?_of_find present origin), forwarded]
            cases kind <;> simp [Stage.needs, Stage.isReading]
          obtain ⟨touches, own⟩ := h.proceed present origin idles tells
          exact h.touch touches own
        · simp [failed] at outcome
      · -- A fragment that comes too late changes no stage and no watch.
        rw [Pending.answered_unexpected (.inl forwarded), fst_proceed (o := .waiting) rfl]
        exact h.of_turn present rfl rfl

theorem opened {e : Engine (Connection S)} {fx : Effects (Connection S)} (socket : S)
    (absent : d.engine.table.stream? id = none) (dropped : fx.dropped = [])
    (stream : ∀ other, e.table.stream? other =
      if other = id then some (.ofSocket socket, .readingLength)
      else d.engine.table.stream? other) :
    (((d.afterwards e fx).1.watch .idle id).watch .readable id).Attentive := by
  have ends : Ends (fun _ _ => True) d (d.afterwards e fx).1 := by
    refine afterwards_kept (by simp [dropped]) fun other kind => ?_
    rw [slot?_afterwards, stream, slot?]
    split
    · next own => cases kind <;> simp [own, absent, Connection.ofSocket, Connection.watch?]
    · rfl
  have stage (other) : (d.afterwards e fx).1.stage? other =
      if other = id then some .readingLength else d.stage? other := by
    rw [stage?_afterwards, stream]
    split <;> rfl
  have unwatched (kind) : ¬ (d.afterwards e fx).1.Live id kind := by
    rw [ends.live_iff, and_true, h.attends id kind, Needs, stage?, absent]
    simp
  have reading : (d.afterwards e fx).1.stage? id = some .readingLength :=
    (stage id).trans (if_pos rfl)
  have new : Touches id d (d.afterwards e fx).1 :=
    h.touches ends (fun _ _ _ => trivial) fun other hne => (stage other).trans (if_neg hne)
  have timer := new.tidy.touches_watch .idle reading
  have reading' : ((d.afterwards e fx).1.watch .idle id).stage? id = some .readingLength :=
    stage?_watch.trans reading
  have watched := timer.tidy.touches_watch .readable reading'
  refine h.touch ((new.trans timer).trans watched) fun kind => ?_
  rw [timer.tidy.live_watch reading', new.tidy.live_watch reading,
    needs_iff (stage?_watch.trans reading')]
  cases kind <;> simp [unwatched, Stage.needs, Stage.isReading]

theorem accept {memory : Memory} {socket : S} {peer : SocketAddress} {out : Dispatch S}
    (accepted : d.accept memory socket peer = some (d', out)) : d'.Attentive := by
  obtain ⟨⟨result, e, fx⟩, performed, done⟩ := Option.map_eq_some_iff.mp accepted
  have performed' : d.engine.perform ⟨.allowing none, memory⟩
      (.tcpAccepted peer (.ofSocket socket)) = some (.accepted result, e, fx) := by
    rw [Engine.perform, performed]
    rfl
  let s : Step (Connection S) := ⟨d.engine, ⟨.allowing none, memory⟩,
    .tcpAccepted peer (.ofSocket socket), .accepted result, e, fx, performed'⟩
  obtain ⟨id, n, free, begun⟩ := s.begun_connection rfl
  cases room : WireBuffer.ofCapacity (memory .query) s.before.setting.tcpInitialBuffer with
  | error fault =>
    rw [room] at begun
    obtain ⟨refused, after, effects⟩ := begun
    obtain rfl : result = .error fault := Result.accepted.inj refused
    obtain rfl : _ = d' := congrArg Prod.fst done
    have streams (id) : e.table.stream? id = d.engine.table.stream? id :=
      Table.stream?_congr (congrArg (·.table.find? id) after)
    refine h.of_streams (fun w => ?_) streams
    rw [show fx.dropped = [.ofSocket socket] from congrArg Effects.dropped effects]
    cases hk : w.kind <;> simp [Connection.owns, Connection.ofSocket, Connection.watch?, hk]
  | ok buffer =>
    rw [room] at begun
    obtain ⟨taken, after, effects⟩ := begun
    obtain rfl : result = .ok id := Result.accepted.inj taken
    obtain rfl : ((d.afterwards e fx).1.watch .idle id).watch .readable id = d' :=
      congrArg Prod.fst done
    let new : Pending (Connection S) := .ofConnection id peer (.ofSocket socket) buffer
    have own : new.id = id := rfl
    have found (other) : e.table.find? other =
        if other = id then some new else d.engine.table.find? other :=
      (congrArg (·.table.find? other) after).trans
        (Engine.find?_begun own fun _ => Table.find?_drawn n)
    refine h.opened socket ?_ (congrArg Effects.dropped effects) fun other => ?_
    · rw [Table.stream?, show d.engine.table.find? id = none from free]
      rfl
    · rw [Table.stream?, found]
      split <;> rfl

theorem congr (table : d'.engine.table = d.engine.table) (watches : d'.watches = d.watches)
    (serial : d'.nextSerial = d.nextSerial) : d'.Attentive := by
  have slots (id kind) : d'.slot? id kind = d.slot? id kind := by rw [slot?, table, slot?]
  refine h.of_kept ⟨?_, fun w hw => ?_, fun id kind _ => slots id kind, fun id kind n hn => ?_,
    serial⟩ fun id => by rw [stage?, table, stage?]
  · rw [watches]
  · rw [watches]
    exact iff_true_intro hw
  · rwa [slots] at hn

theorem onSignal {host : Host} {signal : Signal S} {out : Dispatch S}
    (turn : d.onSignal host signal = some (.ok (), d', out)) : d'.Attentive := by
  cases signal with
  | datagram listener peer payload =>
    obtain ⟨⟨o, e, fx⟩, received, done⟩ := Option.map_eq_some_iff.mp turn
    have same : (d.proceed none (o, e, fx)).2.1 = (d.afterwards e fx).1 := by
      cases o with
      | error => rfl
      | ok o => cases o <;> rfl
    obtain rfl : d' = (d.afterwards e fx).1 := (congrArg (·.2.1) done).symm.trans same
    exact h.udpReceived received
  | accepted socket peer =>
    obtain ⟨⟨d₁, out₁⟩, accepted, done⟩ := Option.map_eq_some_iff.mp turn
    obtain rfl : d₁ = d' := congrArg (·.2.1) done
    exact h.accept accepted
  | backend event =>
    cases event with
    | answer f =>
      have done : d.proceed (some f.id) (d.engine.backendAnswer host.memory f) =
          (.ok (), d', out) := Option.some.inj turn
      have after := h.backendAnswer host.memory f (by rw [done])
      rwa [done] at after
    | trustAnchorAdd anchor =>
      obtain ⟨rfl, -⟩ : _ = d' ∧ _ := by simpa [Dispatcher.onSignal] using turn
      exact h.congr rfl rfl rfl
    | trustAnchorSetAbort =>
      obtain ⟨rfl, -⟩ : _ = d' ∧ _ := by simpa [Dispatcher.onSignal] using turn
      exact h.congr rfl rfl rfl
    | trustAnchorSetDone =>
      obtain ⟨-, rfl, -⟩ : _ ∧ _ = d' ∧ _ := by simpa [Dispatcher.onSignal] using turn
      exact h.congr rfl rfl rfl
  | backendClosed reason => simp [Dispatcher.onSignal] at turn
  | listenerFailed fault => simp [Dispatcher.onSignal] at turn
  | replaceBlocklist blocklist =>
    obtain ⟨rfl, -⟩ : _ = d' ∧ _ := by simpa [Dispatcher.onSignal] using turn
    exact h.congr rfl rfl rfl

theorem step {host : Host} {i : DispatcherInput S} {out : Dispatch S}
    (turn : d.step host i = some (.ok (), d', out)) : d'.Attentive := by
  have fired := h.onFired host i
  cases i with
  | signal signal => exact h.onSignal turn
  | _ =>
    replace turn := (Prod.mk.inj (Option.some.inj turn)).2
    rwa [turn] at fired

end Attentive

def liveCount (d : Dispatcher S K) (id : QueryId) (kind : WatchKind) : Nat :=
  d.watches.countP fun w => w.query = id && w.kind = kind

theorem liveCount_eq_zero_iff : d.liveCount id kind = 0 ↔ ¬ d.Live id kind := by
  simp [liveCount, Live]

theorem Tidy.liveCount_eq_one (h : d.Tidy) (live : d.Live id kind) : d.liveCount id kind = 1 := by
  obtain ⟨w, hw, rfl, rfl⟩ := live
  have only : d.watches.countP (fun v => v.query = w.query && v.kind = w.kind) =
      d.watches.count w := by
    refine List.countP_congr fun v hv => ?_
    simp only [Bool.and_eq_true, decide_eq_true_eq, beq_iff_eq]
    exact ⟨fun same => h.watch_unique hv hw same.1 same.2, fun same => same ▸ ⟨rfl, rfl⟩⟩
  rw [liveCount, only]
  exact List.count_eq_one_of_mem h.once.of_map hw

/-- Inputs lead from the one dispatcher to the other, with none that ends it. Time passes
between them. -/
inductive Serves (d : Dispatcher S K) : Dispatcher S K → Prop
  | start : Serves d d
  | next {d₁ d₂ : Dispatcher S K} {now : Nat} {host : Host} {i : DispatcherInput S}
      {out : Dispatch S} (serves : Serves d d₁)
      (turn : ({ d₁ with now } : Dispatcher S K).step host i = some (.ok (), d₂, out)) :
      Serves d d₂

namespace Serves

variable {ids : IdSource} {setting : Setting} {anchors : AnchorManager K} {ops : AnchorStore K}
  {listeners : Nat}

theorem slot?_start :
    (Dispatcher.start (.fresh ids setting) anchors ops listeners : Dispatcher S K).slot? id kind =
      none := rfl

theorem attentive (serves : Serves (.start (.fresh ids setting) anchors ops listeners) d) :
    d.Attentive := by
  induction serves with
  | start =>
    refine ⟨⟨?_, ?_, ?_, ?_⟩, fun id kind => ?_⟩
    · simp [slot?_start]
    · simp [slot?_start]
    · simp [Dispatcher.start]
    · simp [Dispatcher.start]
    · simp [Live, Needs, stage?, Dispatcher.start, Table.stream?, Engine.fresh]
  | @next d₁ _ now _ _ _ _ turn ih =>
    have later : ({ d₁ with now } : Dispatcher S K).Attentive := ih.congr rfl rfl rfl
    exact later.step turn

/-- However the inputs come and whatever reading and writing give, every connection has one
live timer, and one live watch for what it waits for. No other watch is live. -/
theorem watched (serves : Serves (.start (.fresh ids setting) anchors ops listeners) d) :
    (∀ id p conn, d.engine.table.find? id = some p → p.origin = .tcp conn →
      d.liveCount id .idle = 1 ∧
      (p.stage.isReading = true → d.liveCount id .readable = 1 ∧ d.liveCount id .writable = 0) ∧
      (p.stage = .writing → d.liveCount id .writable = 1 ∧ d.liveCount id .readable = 0) ∧
      (p.stage = .forwarded → d.liveCount id .readable = 0 ∧ d.liveCount id .writable = 0)) ∧
    ∀ w ∈ d.watches, ∃ p conn, d.engine.table.find? w.query = some p ∧ p.origin = .tcp conn ∧
      conn.owns w = true := by
  have h := serves.attentive
  constructor
  · intro id p conn present origin
    have needs (kind) : d.Live id kind ↔ p.stage.needs kind = true := by
      rw [h.attends id kind, needs_iff (stage?_of_find present origin)]
    have one {kind} (hk : p.stage.needs kind = true) : d.liveCount id kind = 1 :=
      h.liveCount_eq_one ((needs kind).mpr hk)
    have none {kind} (hk : ¬ p.stage.needs kind = true) : d.liveCount id kind = 0 :=
      liveCount_eq_zero_iff.mpr fun live => hk ((needs kind).mp live)
    refine ⟨one rfl, fun reading => ⟨one reading, none ?_⟩, fun writing => ⟨one ?_, none ?_⟩,
      fun forwarded => ⟨none ?_, none ?_⟩⟩
    · cases hs : p.stage <;> simp_all [Stage.needs, Stage.isReading]
    · simp [writing, Stage.needs]
    · simp [writing, Stage.needs, Stage.isReading]
    · simp [forwarded, Stage.needs, Stage.isReading]
    · simp [forwarded, Stage.needs]
  · intro w hw
    obtain ⟨p, conn, present, origin, -⟩ := h.exists_of_mem hw
    refine ⟨p, conn, present, origin, ?_⟩
    rw [h.owns_iff hw (connection?_eq.trans
      (congrArg (Option.map Prod.fst) (Table.stream?_of_find present origin)))]

/-- A connection is accepted, and the first octet is read. -/
theorem watched_first_octet : ∃ d : Dispatcher Nat Unit,
    Serves (.start (.fresh (.ofQueue [] 7) .small) (.start none)
      ⟨fun _ => (.ok [], []), fun _ store => (.ok (), store)⟩ 1) d ∧
      d.engine.tcpReadWindow ⟨7⟩ = some 1 ∧ d.liveCount ⟨7⟩ .idle = 1 ∧
      d.liveCount ⟨7⟩ .readable = 1 ∧ d.liveCount ⟨7⟩ .writable = 0 := by
  let fresh : Dispatcher Nat Unit := .start (.fresh (.ofQueue [] 7) .small) (.start none)
    ⟨fun _ => (.ok [], []), fun _ store => (.ok (), store)⟩ 1
  have drawn : fresh.engine.table.allocate = some (⟨7⟩, fresh.engine.table.drawn 1) :=
    Table.allocate_of_first (n := 0) (by simp) rfl
  let begun : Engine (Connection Nat) := fresh.engine.begun (fresh.engine.table.drawn 1)
    (.ofConnection ⟨7⟩ .loopback (.ofSocket 5) ⟨[0, 0], 0, 2⟩)
  have opened : fresh.engine.tcpAccepted .plenty .loopback (.ofSocket 5) =
      some (.ok ⟨7⟩, begun, .none) := by
    rw [Engine.tcpAccepted, drawn]
    rfl
  let accepted := ((fresh.afterwards begun .none).1.watch .idle ⟨7⟩).watch .readable ⟨7⟩
  have first : { fresh with now := 0 }.step .plenty (.signal (.accepted 5 .loopback)) =
      some (.ok (), accepted, (fresh.afterwards begun .none).2) := by
    change (fresh.accept .plenty 5 .loopback).map _ = _
    rw [accept, opened]
    rfl
  let read := { accepted with now := 0 }.onFired .plenty
    (.readable ⟨1, .readable, ⟨7⟩, 0⟩ (.done [0]))
  have second : { accepted with now := 0 }.step .plenty
      (.readable ⟨1, .readable, ⟨7⟩, 0⟩ (.done [0])) = some (.ok (), read.1, read.2) := by
    rw [Prod.mk.eta]
    rfl
  have serves : Serves fresh read.1 := .next (.next .start first) second
  let conn : Connection Nat := ⟨5, some 2, none, some 0⟩
  let p : Pending (Connection Nat) := .ofConnection ⟨7⟩ .loopback conn ⟨[0, 0], 1, 2⟩
  have present : read.1.engine.table.find? ⟨7⟩ = some p := by decide +kernel
  obtain ⟨timer, reading, -⟩ := serves.watched.1 ⟨7⟩ p conn present rfl
  exact ⟨_, serves, Engine.tcpReadWindow_of_reading present rfl, timer, reading rfl⟩

end Serves

end Dispatcher

end ResolverGate
