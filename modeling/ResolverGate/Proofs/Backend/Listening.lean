import ResolverGate.Backend.Channel
import ResolverGate.Proofs.Backend.Framing
import ResolverGate.Proofs.Backend.Payload

/-! # Listening to the engine

What a stream tells is said without reading it: frame by frame, up to its end or the first
thing that is wrong with it. The reader gives just that and then that the channel is gone,
wherever the stream was cut.
-/

namespace ResolverGate

/-! ## What a frame tells -/

namespace Frame

def eventKinds : List UInt32 := [16, 17, 18, 19]

inductive Carries : Frame → Event → Prop
  | answer (id : UInt64) (length : UInt16) (srvfail bogus : UInt8) (data : Bytes) :
      Carries ⟨16, Bytes.of64 id ++ (Bytes.of16 length ++ srvfail :: bogus :: data)⟩
        (.answer ⟨⟨id⟩, length, srvfail ≠ 0, bogus ≠ 0, data⟩)
  | trustAnchorAdd (anchor : String) : Carries ⟨17, Bytes.ofText anchor⟩ (.trustAnchorAdd anchor)
  | trustAnchorSetDone (payload : Bytes) : Carries ⟨18, payload⟩ .trustAnchorSetDone
  | trustAnchorSetAbort (payload : Bytes) : Carries ⟨19, payload⟩ .trustAnchorSetAbort

/-- What is wrong with a frame of a known kind. -/
inductive Malformed : Frame → Fault → Prop
  | answer {payload : Bytes} (short : payload.length < 12) :
      Malformed ⟨16, payload⟩ (.backendProtocol (.shortPayload .answer payload.length 12))
  | anchor {payload : Bytes} (invalid : ∀ s, payload ≠ Bytes.ofText s) :
      Malformed ⟨17, payload⟩ (.backendProtocol (.invalidText .trustAnchor))

variable {f : Frame} {e : Event} {fault : Fault}

theorem ofFrame_of_carries (h : f.Carries e) : Event.ofFrame f = .ok (some e) := by
  cases h with
  | answer id length srvfail bogus data =>
    exact congrArg (some <$> ·) (Event.answerOfPayload_eq_ok_iff.mpr
      ⟨id, length, srvfail, bogus, data, rfl, rfl⟩)
  | trustAnchorAdd anchor =>
    exact congrArg ((some ∘ Event.trustAnchorAdd) <$> ·) (textPayload_eq_ok_iff.mpr rfl)
  | trustAnchorSetDone => rfl
  | trustAnchorSetAbort => rfl

theorem ofFrame_of_malformed (h : f.Malformed fault) : Event.ofFrame f = .error fault := by
  cases h with
  | answer short =>
    exact congrArg (some <$> ·) (Event.answerOfPayload_eq_error_iff.mpr ⟨short, rfl⟩)
  | anchor invalid =>
    exact congrArg ((some ∘ Event.trustAnchorAdd) <$> ·)
      (textPayload_eq_error_iff.mpr ⟨invalid, rfl⟩)

theorem ofFrame_of_not_mem (h : f.kind ∉ eventKinds) : Event.ofFrame f = .ok none := by
  have other (kind : UInt32) (mem : kind ∈ eventKinds) : f.kind.toNat ≠ kind.toNat :=
    fun eq => h (UInt32.toNat_inj.mp eq ▸ mem)
  unfold Event.ofFrame
  split
  · next eq => exact absurd eq (other 16 (by decide))
  · next eq => exact absurd eq (other 17 (by decide))
  · next eq => exact absurd eq (other 18 (by decide))
  · next eq => exact absurd eq (other 19 (by decide))
  · rfl

theorem carries_or_malformed (h : f.kind ∈ eventKinds) :
    (∃ e, f.Carries e) ∨ ∃ fault, f.Malformed fault := by
  obtain ⟨kind, payload⟩ := f
  simp only [eventKinds, List.mem_cons, List.not_mem_nil, or_false] at h
  rcases h with rfl | rfl | rfl | rfl
  · rcases Nat.lt_or_ge payload.length 12 with short | whole
    · exact .inr ⟨_, .answer short⟩
    · obtain ⟨id, length, srvfail, bogus, data, rfl⟩ := Event.exists_fixed whole
      exact .inl ⟨_, .answer id length srvfail bogus data⟩
  · by_cases valid : ∃ s, payload = Bytes.ofText s
    · obtain ⟨s, rfl⟩ := valid
      exact .inl ⟨_, .trustAnchorAdd s⟩
    · exact .inr ⟨_, .anchor fun s eq => valid ⟨s, eq⟩⟩
  · exact .inl ⟨_, .trustAnchorSetDone payload⟩
  · exact .inl ⟨_, .trustAnchorSetAbort payload⟩

/-- Neither too long nor malformed. -/
structure Sound (f : Frame) : Prop where
  fits : f.Fits
  formed : ∀ fault, ¬ f.Malformed fault

theorem Carries.sound (h : f.Carries e) (fits : f.Fits) : f.Sound := by
  refine ⟨fits, fun fault wrong => ?_⟩
  have told := (ofFrame_of_carries h).symm.trans (ofFrame_of_malformed wrong)
  cases told

theorem sound_of_not_mem (h : f.kind ∉ eventKinds) (fits : f.Fits) : f.Sound := by
  refine ⟨fits, fun fault wrong => ?_⟩
  have told := (ofFrame_of_not_mem h).symm.trans (ofFrame_of_malformed wrong)
  cases told

end Frame

/-! ## What a stream tells -/

/-- The events that a stream tells, and what is wrong with it where they end, if anything. -/
inductive Tells : Bytes → List Event → Option Fault → Prop
  | ended : Tells [] [] none
  | event {f : Frame} {e : Event} {rest : Bytes} {events : List Event} {reason : Option Fault}
      (fits : f.Fits) (h : f.Carries e) (later : Tells rest events reason) :
      Tells (f.octets ++ rest) (e :: events) reason
  | unknown {f : Frame} {rest : Bytes} {events : List Event} {reason : Option Fault}
      (fits : f.Fits) (h : f.kind ∉ Frame.eventKinds) (later : Tells rest events reason) :
      Tells (f.octets ++ rest) events reason
  | malformed {f : Frame} {fault : Fault} (fits : f.Fits) (h : f.Malformed fault) (rest : Bytes) :
      Tells (f.octets ++ rest) [] (some fault)
  | oversized {m : Bytes} (header : Frame.headerSize ≤ m.length)
      (excess : Frame.maxPayload < Frame.declared m) :
      Tells m [] (some (.backendProtocol (.oversizedFrame (Frame.declared m))))
  | unfinished {m : Bytes} (more : m ≠ []) (part : m.length < Frame.headerSize ∨
        Frame.declared m ≤ Frame.maxPayload ∧ m.length < Frame.headerSize + Frame.declared m) :
      Tells m [] (some (.backendProtocol .unfinishedFrame))

namespace EventReader

variable {C : Type}

def read (state : List (Signal C) × EventReader) (chunk : Bytes) :
    List (Signal C) × EventReader :=
  let (signals, r) := state.2.receive chunk
  (state.1 ++ signals, r)

/-- All that a reader gives of a stream in chunks that the engine then closes. -/
def signals (chunks : List Bytes) : List (Signal C) :=
  let (given, r) := chunks.foldl read ([], start)
  given ++ r.finish.1

/-- What a stream comes to that arrives in one piece. -/
def taken (C : Type) (m : Bytes) : List (Signal C) × EventReader := start.receive m

variable {m more rest : Bytes} {f : Frame} {e : Event} {fault : Fault} {o : Oversized}

/-! ### One piece -/

theorem read_eq (buffer chunk : Bytes) :
    read ([], ⟨some buffer⟩) chunk = taken C (buffer ++ chunk) := rfl

theorem taken_of_none (h : Frame.decode m = .ok none) :
    taken C m = ([], ⟨some m⟩) := by
  simp only [taken, receive, start, List.nil_append, Frame.decodeAll_of_none h]
  rfl

theorem taken_of_error (h : Frame.decode m = .error o) : taken C m =
    ([.backendClosed (some (.backendProtocol (.oversizedFrame o.length)))], ⟨none⟩) := by
  simp only [taken, receive, start, List.nil_append, Frame.decodeAll_of_error h]
  rfl

theorem taken_of_malformed (h : Frame.decode m = .ok (some (f, rest)))
    (wrong : Event.ofFrame f = .error fault) :
    taken C m = ([.backendClosed (some fault)], ⟨none⟩) := by
  simp only [taken, receive, start, List.nil_append, Frame.decodeAll_of_some h, eventsOf, wrong]
  rfl

theorem taken_of_unknown (h : Frame.decode m = .ok (some (f, rest)))
    (unknown : Event.ofFrame f = .ok none) : taken C m = taken C rest := by
  simp only [taken, receive, start, List.nil_append, Frame.decodeAll_of_some h, eventsOf, unknown]

theorem taken_of_event (h : Frame.decode m = .ok (some (f, rest)))
    (tells : Event.ofFrame f = .ok (some e)) :
    taken C m = (.backend e :: (taken C rest).1, (taken C rest).2) := by
  simp only [taken, receive, start, List.nil_append, Frame.decodeAll_of_some h, eventsOf, tells]
  -- What stops the reader is the same for both, and the signals only differ in the first.
  generalize ((eventsOf (Frame.decodeAll rest).1).2 <|> (Frame.decodeAll rest).2.2.map _) = stop
  cases stop <;> rfl

/-! ### Chunks -/

/-- A stream may be cut anywhere. -/
theorem taken_append (m more : Bytes) : taken C (m ++ more) = read (taken C m) more := by
  -- By the frames taken off `m`: what the decoder answers there it answers with `more` behind.
  fun_induction Frame.decodeAll m with
  | case1 m o h =>
    rw [taken_of_error h, taken_of_error (Frame.decode_append_of_error h more)]
    rfl
  | case2 m h => rw [taken_of_none h, read_eq]
  | case3 m f rest h _ _ _ _ ih =>
    have first := Frame.decode_append h more
    cases told : Event.ofFrame f with
    | error fault =>
      rw [taken_of_malformed h told, taken_of_malformed first told]
      rfl
    | ok event =>
      cases event with
      | none => rw [taken_of_unknown h told, taken_of_unknown first told, ih]
      | some e =>
        rw [taken_of_event h told, taken_of_event first told, ih]
        rfl

theorem signals_eq (chunks : List Bytes) :
    signals chunks = (taken C chunks.flatten).1 ++ (taken C chunks.flatten).2.finish.1 := by
  have behind (m : Bytes) : chunks.foldl read (taken C m) = taken C (m ++ chunks.flatten) := by
    induction chunks generalizing m with
    | nil => simp
    | cons chunk chunks ih =>
      rw [List.flatten_cons, ← List.append_assoc, ← ih, taken_append m chunk]
      rfl
  have nothing : taken C [] = ([], start) := taken_of_none rfl
  have all := behind []
  rw [nothing, List.nil_append] at all
  rw [signals, all]

/-! ### What is told -/

theorem signals_of_tells {events : List Event} {reason : Option Fault}
    (h : Tells m events reason) : (taken C m).1 ++ (taken C m).2.finish.1 =
      events.map .backend ++ [.backendClosed reason] := by
  induction h with
  | ended =>
    rw [taken_of_none rfl]
    rfl
  | event fits h _ ih =>
    rw [taken_of_event (Frame.decode_eq_some_iff.mpr ⟨fits, rfl⟩) (Frame.ofFrame_of_carries h),
      List.cons_append, ih]
    rfl
  | unknown fits h _ ih =>
    rw [taken_of_unknown (Frame.decode_eq_some_iff.mpr ⟨fits, rfl⟩) (Frame.ofFrame_of_not_mem h),
      ih]
  | malformed fits h rest =>
    rw [taken_of_malformed (Frame.decode_eq_some_iff.mpr ⟨fits, rfl⟩)
      (Frame.ofFrame_of_malformed h)]
    rfl
  | oversized header excess =>
    rw [taken_of_error (Frame.decode_eq_error_iff.mpr ⟨header, excess, rfl⟩)]
    rfl
  | @unfinished m more part =>
    rw [taken_of_none (Frame.decode_eq_none_iff.mpr part)]
    cases m with
    | nil => exact absurd rfl more
    | cons => rfl

end EventReader

namespace Tells

variable {m : Bytes} {events events' : List Event} {reason reason' : Option Fault}

theorem exists_tells (m : Bytes) : ∃ events reason, Tells m events reason := by
  fun_induction Frame.decodeAll m with
  | case1 m o h =>
    obtain ⟨header, excess, -⟩ := Frame.decode_eq_error_iff.mp h
    exact ⟨_, _, .oversized header excess⟩
  | case2 m h =>
    by_cases more : m = []
    · subst more
      exact ⟨_, _, .ended⟩
    · exact ⟨_, _, .unfinished more (Frame.decode_eq_none_iff.mp h)⟩
  | case3 m f rest h _ _ _ _ ih =>
    obtain ⟨fits, rfl⟩ := Frame.decode_eq_some_iff.mp h
    obtain ⟨events, reason, later⟩ := ih
    by_cases known : f.kind ∈ Frame.eventKinds
    · rcases Frame.carries_or_malformed known with ⟨e, h⟩ | ⟨fault, h⟩
      · exact ⟨_, _, .event fits h later⟩
      · exact ⟨_, _, .malformed fits h rest⟩
    · exact ⟨_, _, .unknown fits known later⟩

theorem unique (h : Tells m events reason) (h' : Tells m events' reason') :
    events' = events ∧ reason' = reason := by
  have same := (EventReader.signals_of_tells (C := Unit) h').symm.trans
    (EventReader.signals_of_tells h)
  obtain ⟨told, closed⟩ := List.append_inj' same rfl
  exact ⟨(List.map_inj_right fun _ _ => Signal.backend.inj).mp told,
    Signal.backendClosed.inj (List.singleton_inj.mp closed)⟩

theorem exists_frames (h : Tells m events none) :
    ∃ fs : List Frame, m = fs.flatMap Frame.octets ∧ ∀ f ∈ fs, f.Sound := by
  generalize clean : (none : Option Fault) = reason at h
  induction h with
  | ended => exact ⟨[], rfl, by simp⟩
  | @event f _ _ _ _ fits carries _ ih =>
    obtain ⟨fs, rfl, sound⟩ := ih clean
    exact ⟨f :: fs, rfl, List.forall_mem_cons.mpr ⟨carries.sound fits, sound⟩⟩
  | @unknown f _ _ _ fits unknown _ ih =>
    obtain ⟨fs, rfl, sound⟩ := ih clean
    exact ⟨f :: fs, rfl, List.forall_mem_cons.mpr ⟨Frame.sound_of_not_mem unknown fits, sound⟩⟩
  | malformed | oversized | unfinished => cases clean

theorem exists_tells_frames {fs : List Frame} (sound : ∀ f ∈ fs, f.Sound) :
    ∃ events, Tells (fs.flatMap Frame.octets) events none := by
  induction fs with
  | nil => exact ⟨[], .ended⟩
  | cons f fs ih =>
    obtain ⟨⟨fits, formed⟩, sound⟩ := List.forall_mem_cons.mp sound
    obtain ⟨events, later⟩ := ih sound
    by_cases known : f.kind ∈ Frame.eventKinds
    · obtain ⟨e, carries⟩ := (Frame.carries_or_malformed known).resolve_right
        fun ⟨fault, wrong⟩ => formed fault wrong
      exact ⟨e :: events, .event fits carries later⟩
    · exact ⟨events, .unknown fits known later⟩

/-- Nothing is wrong exactly with whole frames one behind the other, none of them malformed. -/
theorem reason_eq_none_iff (h : Tells m events reason) : reason = none ↔
    ∃ fs : List Frame, m = fs.flatMap Frame.octets ∧ ∀ f ∈ fs, f.Sound := by
  constructor
  · rintro rfl
    exact h.exists_frames
  · rintro ⟨fs, rfl, sound⟩
    obtain ⟨events', told⟩ := exists_tells_frames sound
    exact (told.unique h).2

end Tells

/-- Whatever the engine writes and however it arrives, the reader gives the events that the
stream tells, in order, and then that the channel is gone: without a fault exactly if the
stream ended behind a whole frame and none was malformed. -/
theorem EventReader.signals_faithful {C : Type} (chunks : List Bytes) :
    ∃ events reason, Tells chunks.flatten events reason ∧
      (∀ events' reason', Tells chunks.flatten events' reason' →
        events' = events ∧ reason' = reason) ∧
      (∀ cut : List Bytes, cut.flatten = chunks.flatten →
        (signals cut : List (Signal C)) = events.map .backend ++ [.backendClosed reason]) ∧
      (reason = none ↔
        ∃ fs : List Frame, chunks.flatten = fs.flatMap Frame.octets ∧ ∀ f ∈ fs, f.Sound) := by
  obtain ⟨events, reason, told⟩ := Tells.exists_tells chunks.flatten
  refine ⟨events, reason, told, fun _ _ => told.unique, fun cut same => ?_, told.reason_eq_none_iff⟩
  rw [signals_eq, same, signals_of_tells told]

end ResolverGate
