import ResolverGate.Backend.Frame

/-! # Framing

A stream of frames that arrives in chunks. What has been decoded is what has arrived
whole, wherever the stream was cut, and the buffer holds the start of the next frame.
-/

namespace ResolverGate

namespace Frame

/-! ## One frame -/

def headerSize : Nat := 8

def Fits (f : Frame) : Prop := f.payload.length ≤ maxPayload

instance (f : Frame) : Decidable f.Fits := inferInstanceAs (Decidable (_ ≤ _))

def octets (f : Frame) : Bytes :=
  Bytes.of32 f.kind ++ (Bytes.ofNumber 4 f.payload.length ++ f.payload)

def declared (m : Bytes) : Nat := Bytes.toNumber ((m.drop 4).take 4)

def appendTo (buffer : Bytes) (f : Frame) : Except Oversized Unit × Bytes :=
  match f.encode with
  | .ok m => (.ok (), buffer ++ m)
  | .error o => (.error o, buffer)

def takeFrom (buffer : Bytes) : Except Oversized (Option Frame) × Bytes :=
  match decode buffer with
  | .ok (some (f, rest)) => (.ok (some f), rest)
  | .ok none => (.ok none, buffer)
  | .error o => (.error o, buffer)

variable {f : Frame} {m rest more : Bytes} {o : Oversized}

theorem length_octets (f : Frame) : f.octets.length = headerSize + f.payload.length := by
  simp only [octets, List.length_append, Bytes.length_of32, Bytes.length_ofNumber, headerSize]
  omega

theorem encode_eq_ok_iff : f.encode = .ok m ↔ f.Fits ∧ m = f.octets := by
  rw [encode, Fits, octets, ← List.append_assoc]
  split
  · next fits => simp [fits, eq_comm]
  · next excess => simp [excess]

theorem encode_eq_error_iff : f.encode = .error o ↔ ¬ f.Fits ∧ o = ⟨f.payload.length⟩ := by
  rw [encode, Fits]
  split
  · next fits => simp [fits]
  · next excess => simp [excess, eq_comm]

theorem toNat_length (h : f.Fits) : (UInt32.ofNat f.payload.length).toNat = f.payload.length := by
  rw [Fits, maxPayload] at h
  rw [UInt32.toNat_ofNat', Nat.mod_eq_of_lt (by omega)]

theorem ofNumber_length (h : f.Fits) :
    Bytes.ofNumber 4 f.payload.length = Bytes.of32 (UInt32.ofNat f.payload.length) := by
  rw [Bytes.of32, toNat_length h]

theorem exists_header (h : headerSize ≤ m.length) : ∃ kind length body,
    m = Bytes.of32 kind ++ (Bytes.of32 length ++ body) := by
  match m with
  | a :: b :: c :: d :: e :: f :: g :: i :: body =>
    refine ⟨UInt32.ofNat (Bytes.toNumber [a, b, c, d]),
      UInt32.ofNat (Bytes.toNumber [e, f, g, i]), body, ?_⟩
    rw [Bytes.of32_toNumber, Bytes.of32_toNumber]
    rfl

theorem declared_header (kind length : UInt32) (body : Bytes) :
    declared (Bytes.of32 kind ++ (Bytes.of32 length ++ body)) = length.toNat := by
  rw [declared, List.drop_left' (Bytes.length_of32 kind),
    List.take_left' (Bytes.length_of32 length), Bytes.toNumber_of32]

/-! ## Decoding -/

theorem decode_short (h : m.length < headerSize) : decode m = .ok none := by
  match m with
  | [] | [_] | [_, _] | [_, _, _] | [_, _, _, _] | [_, _, _, _, _] | [_, _, _, _, _, _]
  | [_, _, _, _, _, _, _] => rfl
  | _ :: _ :: _ :: _ :: _ :: _ :: _ :: _ :: body =>
    simp only [List.length_cons, headerSize] at h
    omega

theorem decode_header (kind length : UInt32) (body : Bytes) :
    decode (Bytes.of32 kind ++ (Bytes.of32 length ++ body)) =
      if length.toNat ≤ maxPayload then
        .ok ((Bytes.splitAt? length.toNat body).map fun (payload, rest) => (⟨kind, payload⟩, rest))
      else .error ⟨length.toNat⟩ := by
  rw [decode, Bytes.read32?_of32]
  simp only
  rw [Bytes.read32?_of32]
  simp only
  split
  · cases Bytes.splitAt? length.toNat body <;> rfl
  · rfl

/-- Exactly a frame that fits is taken, and nothing behind it. -/
theorem decode_eq_some_iff :
    decode m = .ok (some (f, rest)) ↔ f.Fits ∧ m = f.octets ++ rest := by
  constructor
  · intro h
    rcases Nat.lt_or_ge m.length headerSize with short | whole
    · simp [decode_short short] at h
    obtain ⟨kind, length, body, rfl⟩ := exists_header whole
    rw [decode_header] at h
    split at h
    · next fits =>
      simp only [Except.ok.injEq, Option.map_eq_some_iff, Prod.exists, Prod.mk.injEq] at h
      obtain ⟨payload, rest', hs, rfl, rfl⟩ := h
      obtain ⟨rfl, hl⟩ := Bytes.splitAt?_eq_some_iff.mp hs
      rw [← hl] at fits
      exact ⟨fits, by simp [octets, Bytes.of32, hl]⟩
    · simp at h
  · rintro ⟨fits, rfl⟩
    rw [octets, ofNumber_length fits, List.append_assoc, List.append_assoc, decode_header,
      toNat_length fits, Bytes.splitAt?_append]
    exact if_pos fits

theorem decode_eq_error_iff :
    decode m = .error o ↔ headerSize ≤ m.length ∧ maxPayload < declared m ∧ o = ⟨declared m⟩ := by
  rcases Nat.lt_or_ge m.length headerSize with short | whole
  · simp [decode_short short, Nat.not_le.mpr short]
  · obtain ⟨kind, length, body, rfl⟩ := exists_header whole
    rw [decode_header, declared_header]
    split
    · next fits => simp [Nat.not_lt.mpr fits]
    · next excess =>
      rw [Except.error.injEq, eq_comm]
      exact ⟨fun h => ⟨whole, Nat.lt_of_not_le excess, h⟩, fun h => h.2.2⟩

theorem decode_eq_none_iff : decode m = .ok none ↔
    m.length < headerSize ∨ declared m ≤ maxPayload ∧ m.length < headerSize + declared m := by
  rcases Nat.lt_or_ge m.length headerSize with short | whole
  · simp [decode_short short, short]
  · obtain ⟨kind, length, body, rfl⟩ := exists_header whole
    have missing : Bytes.splitAt? length.toNat body = none ↔
        (Bytes.of32 kind ++ (Bytes.of32 length ++ body)).length
          < headerSize + length.toNat := by
      simp only [Bytes.splitAt?_eq_none_iff, List.length_append, Bytes.length_of32, headerSize]
      omega
    rw [or_iff_right (Nat.not_lt.mpr whole), decode_header, declared_header, ← missing]
    split
    · next fits => simp only [fits, true_and, Except.ok.injEq, Option.map_eq_none_iff]
    · next excess => simp only [excess, false_and, reduceCtorEq]

theorem decode_append (h : decode m = .ok (some (f, rest))) (more : Bytes) :
    decode (m ++ more) = .ok (some (f, rest ++ more)) := by
  obtain ⟨fits, rfl⟩ := decode_eq_some_iff.mp h
  exact decode_eq_some_iff.mpr ⟨fits, List.append_assoc _ _ _⟩

theorem declared_append (h : headerSize ≤ m.length) (more : Bytes) :
    declared (m ++ more) = declared m := by
  obtain ⟨kind, length, body, rfl⟩ := exists_header h
  rw [List.append_assoc, List.append_assoc, declared_header, declared_header]

theorem decode_append_of_error (h : decode m = .error o) (more : Bytes) :
    decode (m ++ more) = .error o := by
  obtain ⟨header, excess, rfl⟩ := decode_eq_error_iff.mp h
  rw [← declared_append header more] at excess ⊢
  refine decode_eq_error_iff.mpr ⟨?_, excess, rfl⟩
  rw [List.length_append]
  exact Nat.le_add_right_of_le header

/-! ## Decoding until nothing is left to take -/

theorem decodeAll_of_none (h : decode m = .ok none) : decodeAll m = ([], m, none) := by
  rw [decodeAll]
  split <;> simp_all

theorem decodeAll_of_error (h : decode m = .error o) : decodeAll m = ([], m, some o) := by
  rw [decodeAll]
  split <;> simp_all

theorem decodeAll_of_some (h : decode m = .ok (some (f, rest))) :
    decodeAll m = (f :: (decodeAll rest).1, (decodeAll rest).2) := by
  rw [decodeAll]
  split <;> simp_all

theorem decodeAll_append (m more : Bytes) : decodeAll (m ++ more) =
    ((decodeAll m).1 ++ (decodeAll ((decodeAll m).2.1 ++ more)).1,
      (decodeAll ((decodeAll m).2.1 ++ more)).2) := by
  fun_induction decodeAll m with
  | case1 m o h => simp
  | case2 m h => simp
  | case3 m f rest h fs left stop all ih =>
    rw [decodeAll_of_some (decode_append h more), ih, all]
    rfl

def written (fs : List Frame) : Bytes := fs.foldl (fun buffer f => (appendTo buffer f).2) []

theorem appendTo_of_fits (h : f.Fits) (buffer : Bytes) :
    appendTo buffer f = (.ok (), buffer ++ f.octets) := by
  rw [appendTo, encode_eq_ok_iff.mpr ⟨h, rfl⟩]

theorem appendTo_of_not_fits (h : ¬ f.Fits) (buffer : Bytes) :
    appendTo buffer f = (.error ⟨f.payload.length⟩, buffer) := by
  rw [appendTo, encode_eq_error_iff.mpr ⟨h, rfl⟩]

section Stream

variable {fs : List Frame}

theorem written_eq (fit : ∀ f ∈ fs, f.Fits) : written fs = fs.flatMap octets := by
  have behind (buffer : Bytes) :
      fs.foldl (fun buffer f => (appendTo buffer f).2) buffer = buffer ++ fs.flatMap octets := by
    induction fs generalizing buffer with
    | nil => simp
    | cons f fs ih =>
      rw [List.foldl_cons, appendTo_of_fits (fit f List.mem_cons_self),
        ih (fun f hf => fit f (List.mem_cons_of_mem _ hf)), List.flatMap_cons, List.append_assoc]
  exact behind []

theorem decodeAll_stream (fit : ∀ f ∈ fs, f.Fits) (h : decode rest = .ok none) :
    decodeAll (fs.flatMap octets ++ rest) = (fs, rest, none) := by
  induction fs with
  | nil => exact decodeAll_of_none h
  | cons f fs ih =>
    have first : decode ((f :: fs).flatMap octets ++ rest)
        = .ok (some (f, fs.flatMap octets ++ rest)) :=
      decode_eq_some_iff.mpr ⟨fit f List.mem_cons_self, by simp⟩
    rw [decodeAll_of_some first, ih fun f hf => fit f (List.mem_cons_of_mem _ hf)]

theorem decode_of_prefix (fits : f.Fits) (h : m <+: f.octets)
    (short : m.length < f.octets.length) : decode m = .ok none := by
  rw [decode_eq_none_iff]
  rcases Nat.lt_or_ge m.length headerSize with hm | hm
  · exact .inl hm
  · obtain ⟨more, whole⟩ := h
    have length : declared m = f.payload.length := by
      rw [← declared_append hm more, whole, octets, ofNumber_length fits, declared_header,
        toNat_length fits]
    rw [length_octets] at short
    exact .inr ⟨length ▸ fits, length ▸ short⟩

/-- What has arrived of a stream is its first frames and a part of the next one. -/
theorem exists_cut (fit : ∀ f ∈ fs, f.Fits) (h : m <+: fs.flatMap octets) :
    ∃ n ≤ fs.length, ∃ rest, m = (fs.take n).flatMap octets ++ rest ∧ decode rest = .ok none ∧
      ∀ i < fs.length, i < n ↔ ((fs.take (i + 1)).flatMap octets).length ≤ m.length := by
  induction fs generalizing m with
  | nil =>
    obtain rfl : m = [] := List.prefix_nil.mp h
    exact ⟨0, Nat.le_refl 0, [], rfl, rfl, by simp⟩
  | cons f fs ih =>
    rw [List.flatMap_cons] at h
    have fits := fit f List.mem_cons_self
    rcases Nat.lt_or_ge m.length f.octets.length with short | whole
    · have part : m <+: f.octets := List.prefix_of_prefix_length_le h (List.prefix_append _ _)
        (Nat.le_of_lt short)
      refine ⟨0, Nat.zero_le _, m, rfl, decode_of_prefix fits part short, fun i _ => ?_⟩
      simp only [Nat.not_lt_zero, false_iff, List.take_succ_cons, List.flatMap_cons,
        List.length_append]
      omega
    · obtain ⟨m, rfl⟩ := List.prefix_of_prefix_length_le (List.prefix_append _ _) h whole
      obtain ⟨n, hn, rest, rfl, incomplete, ends⟩ :=
        ih (fun f hf => fit f (List.mem_cons_of_mem _ hf)) ((List.prefix_append_right_inj _).mp h)
      refine ⟨n + 1, Nat.succ_le_succ hn, rest, by simp, incomplete, fun i hi => ?_⟩
      cases i with
      | zero => simp
      | succ i =>
        have := ends i (Nat.lt_of_succ_lt_succ hi)
        simp only [List.take_succ_cons, List.flatMap_cons, List.length_append] at this ⊢
        omega

end Stream

/-- What one call of the decoder does to a buffer. -/
structure TakesWhole (buffer : Bytes) : Prop where
  waits : (takeFrom buffer).1 = .ok none → (takeFrom buffer).2 = buffer
  takes : ∀ f, (takeFrom buffer).1 = .ok (some f) → 8 + f.payload.length ≤ buffer.length ∧
    (takeFrom buffer).2 = buffer.drop (8 + f.payload.length)
  refuses : (∃ o, (takeFrom buffer).1 = .error o) ↔
    8 ≤ buffer.length ∧ maxPayload < declared buffer

/-- What one call of the encoder does to a buffer. -/
structure WritesWhole (buffer : Bytes) (f : Frame) : Prop where
  refuses : (∃ o, (appendTo buffer f).1 = .error o) ↔ maxPayload < f.payload.length
  untouched : maxPayload < f.payload.length → (appendTo buffer f).2 = buffer

theorem takeFrom_eq_error_iff (buffer : Bytes) :
    (takeFrom buffer).1 = .error o ↔ decode buffer = .error o := by
  rw [takeFrom]
  split <;> simp_all

theorem takesWhole (buffer : Bytes) : TakesWhole buffer where
  waits h := by
    rw [takeFrom] at h ⊢
    split at h <;> simp_all
  takes f h := by
    obtain ⟨rest, hd⟩ : ∃ rest, decode buffer = .ok (some (f, rest)) := by
      rw [takeFrom] at h
      split at h <;> simp_all
    obtain ⟨-, rfl⟩ := decode_eq_some_iff.mp hd
    have size : f.octets.length = 8 + f.payload.length := length_octets f
    rw [takeFrom, hd, ← size]
    exact ⟨by simp, List.drop_left.symm⟩
  refuses := by
    simp only [takeFrom_eq_error_iff, decode_eq_error_iff]
    constructor
    · rintro ⟨o, whole, excess, -⟩
      exact ⟨whole, excess⟩
    · rintro ⟨whole, excess⟩
      exact ⟨_, whole, excess, rfl⟩

theorem writesWhole (buffer : Bytes) (f : Frame) : WritesWhole buffer f := by
  by_cases fits : f.Fits
  · have within := Nat.not_lt.mpr fits
    constructor <;> simp [appendTo_of_fits fits, within]
  · have excess := Nat.lt_of_not_le fits
    constructor <;> simp [appendTo_of_not_fits fits, excess]

/-! ## Chunks -/

/-- A decoder, which chunks are appended to: what it gave so far, its buffer, and what
stopped it. -/
structure Decoder where
  given : List Frame
  buffer : Bytes
  stop : Option Oversized
  deriving DecidableEq, Repr

namespace Decoder

def append (d : Decoder) (chunk : Bytes) : Decoder :=
  let (fs, rest, stop) := decodeAll (d.buffer ++ chunk)
  ⟨d.given ++ fs, rest, stop⟩

def run (chunks : List Bytes) : Decoder := chunks.foldl append ⟨[], [], none⟩

def after (m : Bytes) : Decoder := ⟨(decodeAll m).1, (decodeAll m).2.1, (decodeAll m).2.2⟩

theorem append_after (m chunk : Bytes) : (after m).append chunk = after (m ++ chunk) := by
  rw [after, after, decodeAll_append]
  rfl

/-- The cuts of a stream make no difference. -/
theorem run_eq_after (chunks : List Bytes) : run chunks = after chunks.flatten := by
  have behind (m : Bytes) : chunks.foldl append (after m) = after (m ++ chunks.flatten) := by
    induction chunks generalizing m with
    | nil => simp
    | cons c cs ih => rw [List.foldl_cons, append_after, ih, List.flatten_cons, List.append_assoc]
  have start : after [] = ⟨[], [], none⟩ := by
    rw [after, decodeAll_of_none rfl]
  rw [run, ← start]
  exact behind []

/-- The decoder has kept up with the octets `m` of the stream of `fs`: it gave the frames
whose last octet is among them, and its buffer holds what follows those. -/
structure KeepsUp (d : Decoder) (fs : List Frame) (m : Bytes) : Prop where
  running : d.stop = none
  complete : ∃ n ≤ fs.length, d.given = fs.take n ∧
    ∀ i < fs.length, i < n ↔ (written (fs.take (i + 1))).length ≤ m.length
  buffered : m = written d.given ++ d.buffer

theorem keepsUp {fs : List Frame} {m : Bytes} (fit : ∀ f ∈ fs, f.Fits) (h : m <+: written fs) :
    (after m).KeepsUp fs m := by
  have first (n : Nat) : written (fs.take n) = (fs.take n).flatMap octets :=
    written_eq fun f hf => fit f (List.mem_of_mem_take hf)
  rw [written_eq fit] at h
  obtain ⟨n, hn, rest, rfl, incomplete, ends⟩ := exists_cut fit h
  rw [after, decodeAll_stream (fun f hf => fit f (List.mem_of_mem_take hf)) incomplete]
  refine ⟨rfl, ⟨n, hn, rfl, fun i hi => ?_⟩, by rw [first]⟩
  rw [first]
  exact ends i hi

/-- Frames that fit come out of any cut of their stream, each with its last octet. On any
buffer, the decoder takes a whole frame or nothing, and the encoder writes a whole
frame or nothing. -/
theorem frames_survive :
    (∀ fs chunks, (∀ f ∈ fs, f.Fits) → chunks.flatten = written fs →
      (∀ k, (run (chunks.take k)).KeepsUp fs (chunks.take k).flatten) ∧
        run chunks = ⟨fs, [], none⟩) ∧
      (∀ buffer, TakesWhole buffer) ∧ ∀ buffer f, WritesWhole buffer f := by
  refine ⟨fun fs chunks fit cut => ⟨fun k => ?_, ?_⟩, takesWhole, writesWhole⟩
  · rw [run_eq_after]
    refine keepsUp fit (cut ▸ ?_)
    exact ⟨(chunks.drop k).flatten, by rw [← List.flatten_append, List.take_append_drop]⟩
  · rw [run_eq_after, cut, written_eq fit, ← List.append_nil (fs.flatMap octets), after,
      decodeAll_stream fit rfl]

/-- Two frames in three chunks, cut inside a header and inside a payload. -/
theorem frames_survive_two : ∃ f g : Frame, f.Fits ∧ g.Fits ∧
    run [[0, 0, 0, 1, 0, 0], [0, 2, 7], [8, 0, 0, 0, 2, 0, 0, 0, 1, 9]] = ⟨[f, g], [], none⟩ := by
  let f : Frame := ⟨1, [7, 8]⟩
  let g : Frame := ⟨2, [9]⟩
  have fit : ∀ h ∈ [f, g], h.Fits := by
    intro h hh
    rcases List.mem_cons.mp hh with rfl | hh
    · decide
    · rw [List.mem_singleton.mp hh]
      decide
  exact ⟨f, g, fit f (by simp), fit g (by simp), (frames_survive.1 _ _ fit (by decide)).2⟩

end Decoder

end Frame

end ResolverGate
