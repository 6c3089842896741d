import ResolverGate.Proofs.BlocklistFile

/-! # Blocklists written in other ways

A blocklist file stands for the set of names that its lines mean. Lines may be put in another
order, repeated, joined by comments and blank lines, and each may be spelt in another way; the
set stays the same.
-/

namespace ResolverGate

/-! ## The case of letters -/

namespace Text

theorem trim_map_toLower (cs : List Char) :
    trim (cs.map Char.toLower) = (trim cs).map Char.toLower := by
  have same : isBlank ∘ Char.toLower = isBlank := funext isBlank_toLower
  simp only [trim, List.dropWhile_map, ← List.map_reverse, same]

end Text

theorem Blocklist.normalize_map_toLower (cs : List Char) :
    normalize (String.ofList (cs.map Char.toLower)) = normalize (String.ofList cs) := by
  have same : lowerAscii (String.ofList (cs.map Char.toLower)) = lowerAscii (String.ofList cs) := by
    simp only [lowerAscii, String.toList_ofList, List.map_map]
    congr 2
    funext c
    exact Text.toLower_eq_self (Text.isUpper_toLower c)
  rw [normalize, same, normalize]

namespace BlocklistFile

variable {line other : List Char} {ls ls' : List (List Char)} {name : String}

theorem isEntry_map_toLower : IsEntry (line.map Char.toLower) ↔ IsEntry line := by
  rw [isEntry_iff, isEntry_iff, ne_eq, List.map_eq_nil_iff, List.head?_map, List.forall_mem_map]
  refine and_congr_right' (and_congr (not_congr ?_) ?_)
  · simp [Text.toLower_eq_iff (show '#'.isAlpha = false by decide)]
  · simp only [Text.isBlank_toLower]

/-! ## What a line means -/

def rawLines (s : String) : List (List Char) := s.toList.splitOn '\n'

/-- The line is one word that is no comment, with blanks around it. -/
structure Names (line entry : List Char) : Prop where
  padded : Text.Padded entry line
  entry : IsEntry entry

def Means (line : List Char) (name : String) : Prop :=
  ∃ entry, Names line entry ∧ Blocklist.normalize (String.ofList entry) = name

theorem means_iff : Means line name ↔
    IsEntry (Text.trim line) ∧ Blocklist.normalize (String.ofList (Text.trim line)) = name := by
  constructor
  · rintro ⟨entry, ⟨padded, isEntry⟩, eq⟩
    have trimmed : Text.trim line = entry := by
      rw [padded.trim_eq, Text.trim_of_solid isEntry.single]
    rw [trimmed]
    exact ⟨isEntry, eq⟩
  · rintro ⟨isEntry, eq⟩
    exact ⟨_, ⟨Text.padded_trim line, isEntry⟩, eq⟩

theorem means_map_toLower : Means (line.map Char.toLower) name ↔ Means line name := by
  rw [means_iff, means_iff, Text.trim_map_toLower, isEntry_map_toLower,
    Blocklist.normalize_map_toLower]

/-- The blocklist read from a text keeps what the lines mean. -/
theorem mem_kept_ofText {s : String} :
    name ∈ (ofText s).1.kept ↔ ∃ line ∈ rawLines s, Means line name := by
  have trimmed : lines s = (rawLines s).map Text.trim := by
    rw [lines, Text.splitOn_eq_splitOnP, rawLines, List.splitOn]
    simp only [beq_eq_decide]
  rw [ofText_fst, Blocklist.mem_kept_ofNames, entries, trimmed]
  simp only [means_iff, List.mem_map, List.mem_filter, decide_eq_true_eq]
  constructor
  · rintro ⟨_, ⟨_, ⟨⟨line, mem, rfl⟩, isEntry⟩, rfl⟩, eq⟩
    exact ⟨line, mem, isEntry, eq⟩
  · rintro ⟨line, mem, isEntry, eq⟩
    exact ⟨_, ⟨_, ⟨⟨line, mem, rfl⟩, isEntry⟩, rfl⟩, eq⟩

/-! ## One line in another spelling -/

/-- Letters of ASCII are in another case, a final dot that was missing is there, or there are
blanks around the line. -/
inductive Respelt : List Char → List Char → Prop
  | cased {line other : List Char} (h : line.map Char.toLower = other.map Char.toLower) :
      Respelt line other
  | dotted (front : List Char) {after : List Char} {c : Char} (solid : Text.isBlank c = false)
      (undotted : c ≠ '.') (blank : ∀ d ∈ after, Text.isBlank d = true) :
      Respelt (front ++ c :: after) (front ++ c :: '.' :: after)
  | padded {line other : List Char} (h : Text.Padded line other) : Respelt line other

theorem isEntry_concat_dot (nonempty : line ≠ []) : IsEntry (line ++ ['.']) ↔ IsEntry line := by
  obtain ⟨c, cs, rfl⟩ := List.exists_cons_of_ne_nil nonempty
  simp [isEntry_iff, or_imp, forall_and, show Text.isBlank '.' = false by decide]

theorem normalize_concat_dot {front : List Char} {c : Char} (undotted : c ≠ '.') :
    Blocklist.normalize (String.ofList (front ++ [c] ++ ['.'])) =
      Blocklist.normalize (String.ofList (front ++ [c])) := by
  have dotted : Blocklist.dotted (String.ofList (front ++ [c] ++ ['.'])) =
      front ++ [c] ++ ['.'] := by
    simp [Blocklist.dotted, Blocklist.isDotted]
  have completed : Blocklist.dotted (String.ofList (front ++ [c])) = front ++ [c] ++ ['.'] := by
    simp [Blocklist.dotted, Blocklist.isDotted, undotted]
  rw [← String.toList_inj, Blocklist.toList_normalize, Blocklist.toList_normalize, dotted,
    completed]

theorem Respelt.means_iff (h : Respelt line other) : Means line name ↔ Means other name := by
  cases h with
  | cased h => rw [← means_map_toLower, h, means_map_toLower]
  | @dotted front after c solid undotted blank =>
    have dot : Text.isBlank '.' = false := by decide
    have word : Text.trim (front ++ c :: after) = front.dropWhile Text.isBlank ++ [c] :=
      Text.trim_append_cons solid blank
    have dotted : Text.trim (front ++ c :: '.' :: after) =
        front.dropWhile Text.isBlank ++ [c] ++ ['.'] := by
      rw [List.append_cons, Text.trim_append_cons dot blank, Text.dropWhile_concat solid]
    rw [BlocklistFile.means_iff, BlocklistFile.means_iff, word, dotted,
      isEntry_concat_dot (by simp), normalize_concat_dot undotted]
  | padded h => rw [BlocklistFile.means_iff, BlocklistFile.means_iff, h.trim_eq]

/-! ## Texts in other words -/

def IsRemark (line : List Char) : Prop :=
  Text.Padded [] line ∨ ∃ text, Text.Padded ('#' :: text) line

theorem IsRemark.not_means (h : IsRemark line) : ¬ Means line name := by
  rw [means_iff]
  rintro ⟨isEntry, -⟩
  rcases h with blank | ⟨text, comment⟩
  · rw [blank.trim_eq] at isEntry
    exact isEntry.nonempty rfl
  · have solid : Text.isBlank '#' = false := by decide
    apply isEntry.uncommented
    rw [comment.trim_eq, Text.head?_trim_cons solid]

/-- The lines say the same in other words. -/
inductive Rewritten : List (List Char) → List (List Char) → Prop
  | respelt {ls ls' : List (List Char)} (h : List.Forall₂ Respelt ls ls') : Rewritten ls ls'
  | reordered {ls ls' : List (List Char)} (h : ls.Perm ls') : Rewritten ls ls'
  | repeated {ls : List (List Char)} {line : List Char} (h : line ∈ ls) : Rewritten ls (line :: ls)
  | remarked {ls : List (List Char)} {line : List Char} (h : IsRemark line) :
      Rewritten ls (line :: ls)
  | symm {ls ls' : List (List Char)} (h : Rewritten ls ls') : Rewritten ls' ls
  | trans {ls ls' ls'' : List (List Char)} (h : Rewritten ls ls') (h' : Rewritten ls' ls'') :
      Rewritten ls ls''

theorem Rewritten.means_iff (h : Rewritten ls ls') :
    (∃ line ∈ ls, Means line name) ↔ ∃ line ∈ ls', Means line name := by
  induction h with
  | respelt h =>
    induction h with
    | nil => rfl
    | cons respelt _ ih =>
      rw [List.exists_mem_cons_iff, List.exists_mem_cons_iff, respelt.means_iff, ih]
  | reordered h => simp only [h.mem_iff]
  | @repeated ls line mem =>
    rw [List.exists_mem_cons_iff, or_iff_right_of_imp]
    exact fun means => ⟨line, mem, means⟩
  | remarked remark => rw [List.exists_mem_cons_iff, or_iff_right remark.not_means]
  | symm _ ih => exact ih.symm
  | trans _ _ ih ih' => exact ih.trans ih'

/-- Every line end with a carriage return before it. -/
def withReturns (s : String) : String :=
  String.ofList (s.toList.flatMap fun c => if c = '\n' then ['\r', '\n'] else [c])

def Returned (line other : List Char) : Prop := other = line ∨ other = line ++ ['\r']

theorem forall₂_modifyHead (c : Char) (h : List.Forall₂ Returned ls ls') :
    List.Forall₂ Returned (ls.modifyHead (c :: ·)) (ls'.modifyHead (c :: ·)) := by
  cases h with
  | nil => exact .nil
  | cons first rest =>
    refine .cons (first.imp ?_ ?_) rest
    · rintro rfl
      rfl
    · rintro rfl
      rfl

theorem returned_withReturns (s : String) :
    List.Forall₂ Returned (rawLines s) (rawLines (withReturns s)) := by
  rw [rawLines, rawLines, withReturns, String.toList_ofList]
  induction s.toList with
  | nil => exact .cons (.inl rfl) .nil
  | cons c cs ih =>
    rw [List.splitOn] at ih ⊢
    rw [List.flatMap_cons, List.splitOnP_cons_eq_if_modifyHead]
    by_cases eol : c = '\n'
    · rw [if_pos eol, if_pos (by simp [eol])]
      exact .cons (.inr rfl) ih
    · rw [if_neg eol, if_neg (by simp [eol]), List.singleton_append, List.splitOn,
        List.splitOnP_cons_eq_if_modifyHead, if_neg (by simp [eol])]
      exact forall₂_modifyHead c ih

theorem rewritten_withReturns (s : String) : Rewritten (rawLines s) (rawLines (withReturns s)) := by
  apply Rewritten.respelt
  refine (returned_withReturns s).imp ?_
  rintro line _ (rfl | rfl)
  · exact .padded ⟨[], [], by simp, by simp, by simp⟩
  · exact .padded ⟨[], ['\r'], rfl, by simp, List.forall_mem_singleton.mpr (by decide)⟩

/-- The blocklist read from a text holds what its lines mean, whatever the case of the letters in
a lookup and with or without the final dot, and counts each name once. The short way of a lookup
makes no difference. A text of other words that say the same gives a blocklist of the same names,
and so do other line ends. -/
theorem ofText_means (s : String) :
    (∀ name, (ofText s).1.contains name = true ↔ ∃ line ∈ rawLines s, ∃ entry,
        Names line entry ∧ Blocklist.Alike (String.ofList entry) name) ∧
      (∀ (b : Blocklist) name, b.contains name = b.names.contains (Blocklist.normalize name)) ∧
      (ofText s).1.size = Set.ncard {name | ∃ line ∈ rawLines s, Means line name} ∧
      (∀ t, Rewritten (rawLines s) (rawLines t) → (ofText s).1.sameNames (ofText t).1 = true ∧
        (ofText s).1.size = (ofText t).1.size ∧
        ∀ name, (ofText s).1.contains name = (ofText t).1.contains name) ∧
      (ofText s).1.sameNames (ofText (withReturns s)).1 = true := by
  have kept (s : String) : (ofText s).1.kept = {name | ∃ line ∈ rawLines s, Means line name} :=
    Set.ext fun name => mem_kept_ofText
  have same {t : String} (h : Rewritten (rawLines s) (rawLines t)) :
      (ofText s).1.kept = (ofText t).1.kept := by
    rw [kept, kept]
    exact Set.ext fun name => h.means_iff
  refine ⟨fun name => ?_, fun b name => Blocklist.contains_eq, ?_, fun t h => ⟨?_, ?_, ?_⟩, ?_⟩
  · simp only [Blocklist.contains_iff, mem_kept_ofText, Means, Blocklist.normalize_eq_iff]
  · rw [Blocklist.size_eq_ncard, kept]
  · exact Blocklist.sameNames_iff.mpr (same h)
  · rw [Blocklist.size_eq_ncard, Blocklist.size_eq_ncard, same h]
  · intro name
    rw [Bool.eq_iff_iff, Blocklist.contains_iff, Blocklist.contains_iff, same h]
  · exact Blocklist.sameNames_iff.mpr (same (rewritten_withReturns s))

/-- A comment goes, the name behind it is written with other letters, its final dot and a
carriage return, a blank line comes to it, and then the name once more. -/
theorem ofText_means_repeated :
    let s := "# ads\nAds.example"
    let t := "aDS.EXAMPLE.\r\n\naDS.EXAMPLE.\r"
    Rewritten (rawLines s) (rawLines t) ∧ (ofText s).1.sameNames (ofText t).1 = true ∧
      (ofText t).1.contains "ADS.example" = true := by
  intro s t
  have before : rawLines s = ["# ads".toList, "Ads.example".toList] := by decide +kernel
  have after : rawLines t =
      ["aDS.EXAMPLE.\r".toList, [], "aDS.EXAMPLE.\r".toList] := by decide +kernel
  have comment : IsRemark "# ads".toList :=
    .inr ⟨" ads".toList, [], [], by decide +kernel, by simp, by simp⟩
  have blank : IsRemark [] := .inl ⟨[], [], rfl, by simp, by simp⟩
  have cased : Respelt "Ads.example".toList "aDS.EXAMPLE".toList := .cased (by decide +kernel)
  have dotted : Respelt "aDS.EXAMPLE".toList "aDS.EXAMPLE.".toList :=
    @Respelt.dotted "aDS.EXAMPL".toList [] 'E' (by decide) (by decide) (by simp)
  have padded : Respelt "aDS.EXAMPLE.".toList "aDS.EXAMPLE.\r".toList :=
    .padded ⟨[], ['\r'], by decide +kernel, by simp, List.forall_mem_singleton.mpr (by decide)⟩
  have respelt {line other : List Char} (h : Respelt line other) : Rewritten [line] [other] :=
    .respelt (.cons h .nil)
  have rewritten : Rewritten (rawLines s) (rawLines t) := by
    rw [before, after]
    refine .trans (.symm (.remarked comment)) (.trans (respelt cased) ?_)
    refine .trans (respelt dotted) (.trans (respelt padded) ?_)
    exact .trans (.remarked blank) (.repeated (by simp))
  obtain ⟨same, -, found⟩ := (ofText_means s).2.2.2.1 t rewritten
  refine ⟨rewritten, same, ?_⟩
  have entry : IsEntry "Ads.example".toList := by
    refine ⟨by decide, by decide, ?_⟩
    simp [Text.isBlank, Text.blankRanges]
  have alike : Blocklist.Alike (String.ofList "Ads.example".toList) "ADS.example" := by
    unfold Blocklist.Alike
    decide +kernel
  have names : Names "Ads.example".toList "Ads.example".toList :=
    ⟨⟨[], [], by simp, by simp, by simp⟩, entry⟩
  rw [← found, (ofText_means s).1, before]
  exact ⟨_, List.mem_cons_of_mem _ (List.mem_singleton_self _), _, names, alike⟩

end BlocklistFile

end ResolverGate
