import ResolverGate.Proofs.Text.Lines
import ResolverGate.Proofs.TrustAnchor.Session
import ResolverGate.TrustAnchor.File

/-! # What is kept of trust anchors

What a manager writes to its file is what another one reads from it. Lines that the reader
keeps are written as they are, and read again as they were written.
-/

namespace ResolverGate

variable {S : Type}

/-- A file of text, or no file yet. -/
inductive FilePlace.IsText : FilePlace → Prop
  | absent : IsText .absent
  | file (s : String) : IsText (.file (Bytes.ofText s))

namespace AnchorFile

/-- A text that the reader keeps as a line. -/
structure Kept (decode : Base64.Decoder) (anchor : String) : Prop where
  trimmed : Text.trim anchor.toList = anchor.toList
  single : '\n' ∉ anchor.toList
  plain : anchor.toList.head? ≠ some ';' ∧ anchor.toList.head? ≠ some '#'
  key : ∃ k, Key.ofLine decode anchor = .ok k

variable {decode : Base64.Decoder} {anchor name : String} {anchors : List String} {line : List Char}
  {lines : List (List Char)} {s : TrustAnchors}

theorem Kept.not_isComment (h : Kept decode anchor) : isComment anchor.toList = false := by
  have nonempty : anchor.toList ≠ [] := by
    intro empty
    obtain ⟨k, key⟩ := h.key
    have blank : Key.ofLine decode (String.ofList []) = .error .emptyLine := rfl
    rw [← anchor.ofList_toList, empty, blank] at key
    simp at key
  simp [isComment, nonempty, h.plain.1, h.plain.2]

theorem readLines_cons (line : List Char) (lines : List (List Char)) :
    (readLines decode (line :: lines)).1 =
      if !isComment line && (Key.ofLine decode (String.ofList line)).isOk then
        String.ofList line :: (readLines decode lines).1
      else (readLines decode lines).1 := by
  rw [readLines]
  cases isComment line with
  | true => rfl
  | false => cases Key.ofLine decode (String.ofList line) <;> rfl

theorem readLines_of_kept (kept : ∀ a ∈ anchors, Kept decode a) :
    (readLines decode (anchors.map String.toList ++ [[]])).1 = anchors := by
  induction anchors with
  | nil => rfl
  | cons a anchors ih =>
    have first := kept a List.mem_cons_self
    obtain ⟨k, key⟩ := first.key
    have rest := ih fun a ha => kept a (List.mem_cons_of_mem _ ha)
    rw [List.map_cons, List.cons_append, readLines_cons, String.ofList_toList, key,
      first.not_isComment, rest]
    rfl

theorem kept_of_mem_readLines (clean : ∀ l ∈ lines, Text.trim l = l ∧ '\n' ∉ l)
    (h : anchor ∈ (readLines decode lines).1) : Kept decode anchor := by
  induction lines with
  | nil => simp [readLines] at h
  | cons line lines ih =>
    have later := ih fun l hl => clean l (List.mem_cons_of_mem _ hl)
    obtain ⟨trimmed, single⟩ := clean line List.mem_cons_self
    rw [readLines_cons] at h
    split at h
    · next kept =>
      rcases List.mem_cons.mp h with rfl | h
      · simp only [isComment, Bool.and_eq_true, Bool.not_eq_true', Bool.or_eq_false_iff,
          decide_eq_false_iff_not] at kept
        obtain ⟨⟨⟨-, semicolon⟩, hash⟩, key⟩ := kept
        rw [← String.toList_ofList (l := line)] at trimmed single semicolon hash
        refine ⟨trimmed, single, ⟨semicolon, hash⟩, ?_⟩
        match h : Key.ofLine decode (String.ofList line) with
        | .ok k => exact ⟨k, rfl⟩
        | .error e => rw [h] at key; simp [Except.isOk, Except.toBool] at key
      · exact later h
    · exact later h

def anchorsOf (decode : Base64.Decoder) (s : String) : List String :=
  (readLines decode ((Text.trimmedLines s).map (·.2))).1

theorem kept_of_mem_anchorsOf {s : String} (h : anchor ∈ anchorsOf decode s) :
    Kept decode anchor := by
  refine kept_of_mem_readLines (fun l hl => ?_) h
  rw [Text.map_snd_trimmedLines] at hl
  obtain ⟨piece, hp, rfl⟩ := List.mem_map.mp hl
  refine ⟨Text.trim_trim piece, fun newline => ?_⟩
  have := Text.separator_of_mem_splitOn hp _ (Text.mem_of_mem_trim newline)
  simp at this

theorem toList_fileText (s : TrustAnchors) :
    s.fileText.toList = (s.anchors.map String.toList).flatMap (· ++ ['\n']) := by
  rw [TrustAnchors.fileText, String.toList_join, List.flatMap_map, List.flatMap_map]
  simp

theorem anchorsOf_fileText (kept : ∀ a ∈ s.anchors, Kept decode a) :
    anchorsOf decode s.fileText = s.anchors := by
  have single : ∀ l ∈ s.anchors.map String.toList, '\n' ∉ l := by
    simpa using fun a ha => (kept a ha).single
  have trimmed : (s.anchors.map String.toList).map Text.trim = s.anchors.map String.toList := by
    rw [List.map_map]
    exact List.map_congr_left fun a ha => (kept a ha).trimmed
  rw [anchorsOf, Text.map_snd_trimmedLines, toList_fileText, Text.splitOn_flatMap single,
    List.map_append, trimmed]
  exact readLines_of_kept kept

/-! ## The file as a store -/

variable {place : FilePlace}

theorem load_file (name s : String) :
    (load decode name (.file (Bytes.ofText s))).1 = .ok (anchorsOf decode s) := by
  simp only [load, FilePlace.readText, Bytes.toText?_eq_some_iff.mpr rfl]
  rfl

theorem exists_load (text : place.IsText) (name : String) :
    ∃ anchors, (load decode name place).1 = .ok anchors := by
  cases text with
  | absent => exact ⟨[], rfl⟩
  | file s => exact ⟨anchorsOf decode s, load_file name s⟩

theorem kept_file (name s : String) :
    (store decode name).kept (some (.file (Bytes.ofText s))) = .ofList (anchorsOf decode s) := by
  simp only [AnchorStore.kept, Option.map_some, store, load_file]

/-- Whatever is read from a text file could have been written to it. -/
theorem kept_of_mem (text : place.IsText)
    (h : anchor ∈ ((store decode name).kept (some place)).anchors) : Kept decode anchor := by
  cases text with
  | absent => exact absurd h List.not_mem_nil
  | file s =>
    rw [kept_file, TrustAnchors.mem_ofList] at h
    exact kept_of_mem_anchorsOf h

theorem save_text (text : place.IsText) :
    save name s place = (.ok (), .file (Bytes.ofText s.fileText)) := by
  cases text <;> rfl

/-- What is saved is read again. -/
theorem kept_saved (name : String) (ordered : s.Ordered)
    (kept : ∀ a ∈ s.anchors, Kept decode a) :
    (store decode name).kept (some (.file (Bytes.ofText s.fileText))) = s := by
  rw [kept_file, anchorsOf_fileText kept]
  exact ordered.ofList_eq fun _ => Iff.rfl

end AnchorFile

namespace AnchorManager

/-- A fresh manager has this active set once it has loaded, whatever the channel says; and
loading succeeds if the channel takes the announcement. -/
def Restores (ops : AnchorStore S) (store : Option S) (s : TrustAnchors) : Prop :=
  ∀ backend, ((start store).load ops backend).2.1.active = s ∧
    ((∀ n r, backend n r = .ok ()) →
      ((start store).load ops backend).1 = .ok s.anchors.length)

theorem restores_of_kept {decode : Base64.Decoder} {name : String} {place : FilePlace}
    {s : TrustAnchors} (text : place.IsText)
    (kept : (AnchorFile.store decode name).kept (some place) = s) :
    Restores (AnchorFile.store decode name) (some place) s := by
  rintro backend
  refine ⟨?_, fun accepts => ?_⟩
  · rw [load_start, kept]
  · rw [load_start_of_accepts _ _ accepts, kept]
    rintro place' mem
    exact Option.some.inj mem ▸ AnchorFile.exists_load text name

/-- The file holds the active set, and the proposed one could be written to it. -/
structure Persists (decode : Base64.Decoder) (name : String) (m : AnchorManager FilePlace) :
    Prop where
  place : ∃ place, m.store = some place ∧ place.IsText
  kept : (AnchorFile.store decode name).kept m.store = m.active
  proposed : ∀ a ∈ m.proposed.anchors, AnchorFile.Kept decode a

namespace Persists

variable {decode : Base64.Decoder} {name : String} {m : AnchorManager FilePlace} {backend : Backend}

theorem propose (h : m.Persists decode name) {anchor : String}
    (kept : AnchorFile.Kept decode anchor) :
    (m.propose anchor).Persists decode name := by
  refine ⟨h.place, h.kept, fun a ha => ?_⟩
  rcases TrustAnchors.mem_add.mp ha with rfl | ha
  · exact kept
  · exact h.proposed a ha

theorem abort (h : m.Persists decode name) : m.abort.Persists decode name :=
  ⟨h.place, h.kept, fun _ ha => absurd ha List.not_mem_nil⟩

theorem complete (h : m.Persists decode name) (ordered : m.proposed.Ordered) :
    (m.complete (AnchorFile.store decode name) backend).2.1.Persists decode name := by
  obtain ⟨place, store, text⟩ := h.place
  have saved : (m.complete (AnchorFile.store decode name) backend).2.1 =
      ⟨m.proposed, .empty, some (.file (Bytes.ofText m.proposed.fileText))⟩ := by
    rw [complete_manager, store, Option.map_some, AnchorFile.store]
    simp only [AnchorFile.save_text text]
  rw [saved]
  exact ⟨⟨_, rfl, .file _⟩, AnchorFile.kept_saved name ordered h.proposed,
    fun _ ha => absurd ha List.not_mem_nil⟩

end Persists

namespace Session

variable {decode : Base64.Decoder} {name : String} {channel : List Operation → Backend}
  {place : FilePlace} {operations : List Operation}

theorem persists_run (text : place.IsText)
    (kept : ∀ a, .propose a ∈ operations → AnchorFile.Kept decode a) :
    (run (AnchorFile.store decode name) channel (some place) operations).manager.Persists
      decode name := by
  induction operations using List.reverseRecOn with
  | nil =>
    rw [run_nil_manager]
    exact ⟨⟨place, rfl, text⟩, rfl, fun _ ha => absurd ha List.not_mem_nil⟩
  | append_singleton operations op ih =>
    have before := ih fun a ha => kept a (List.mem_append_left _ ha)
    rw [run_snoc]
    cases op with
    | propose anchor =>
      exact before.propose (kept anchor (List.mem_append_right _ List.mem_cons_self))
    | abort => exact before.abort
    | complete => exact before.complete ordered_run.2

/-- After any session on a text file, or on none yet, another manager that loads the file
has the same active set. And whatever text a file holds, what is loaded from it, saved and
loaded again stays as it is. -/
theorem survives_restart (text : place.IsText)
    (kept : ∀ a, .propose a ∈ operations → AnchorFile.Kept decode a) :
    let ops := AnchorFile.store decode name
    let m := (run ops channel (some place) operations).manager
    Restores ops m.store m.active ∧
    ∀ backend, ∃ place', ops.save ((start (some place)).load ops backend).2.1.active place =
        (.ok (), place') ∧
      Restores ops (some place') ((start (some place)).load ops backend).2.1.active := by
  intro ops m
  constructor
  · have persists : m.Persists decode name := persists_run text kept
    obtain ⟨⟨place', store, text'⟩, active, -⟩ := persists
    rw [store] at active ⊢
    exact restores_of_kept text' active
  · intro backend
    rw [load_start]
    refine ⟨_, AnchorFile.save_text text, restores_of_kept (.file _) ?_⟩
    exact AnchorFile.kept_saved name (ops.ordered_kept _) fun _ => AnchorFile.kept_of_mem text

/-- The file has line ends of two octets, a comment, a blank line and one that is no key. -/
theorem survives_restart_replaced :
    let place := FilePlace.file (Bytes.ofText
      "# keys\r\n\r\n . DNSKEY 257 3 8 AQ== \r\n. DS 20326 8 2 E0\r\n")
    let ops := AnchorFile.store Base64.standard "root.key"
    let m := (run ops (fun _ => .allowing none) (some place)
      [.propose ". DNSKEY 256 3 8 Ag==", .complete]).manager
    m.active = ⟨[". DNSKEY 256 3 8 Ag=="]⟩ ∧
      Restores ops m.store m.active := by
  intro place ops m
  have kept : AnchorFile.Kept Base64.standard ". DNSKEY 256 3 8 Ag==" :=
    ⟨by decide +kernel, by decide +kernel, by decide +kernel, _, rfl⟩
  refine ⟨?_, (survives_restart (.file _) fun a proposed => ?_).1⟩
  · decide +kernel
  · simp only [List.mem_cons, Operation.propose.injEq, reduceCtorEq, List.not_mem_nil, or_false]
      at proposed
    exact proposed ▸ kept

end Session

end AnchorManager

end ResolverGate
