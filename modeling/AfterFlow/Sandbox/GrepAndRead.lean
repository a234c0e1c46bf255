import AfterFlow.Sandbox.FileContents
import AfterFlow.Sandbox.Replacing
import AfterFlow.Sandbox.Searches

/-!
# The lines of `grep` and of `read_file`

`grep` goes through a file by the lines that the open file yields, which end at newlines, and shows
what is in the file. `read_file` splits with `splitlines`, which ends a line at other characters as
well, it splits the text in which the container paths were given back, and it cuts off what is too
long.

## Main results

* `map_bare_fileLines` — the two splitters agree where all line ends are newlines
* `reversePathsInOutput_of_plain` — a text without host paths is given back as it is
* `grep_read_agree_iff` — when the two show the same lines
-/

namespace AfterFlow.Sandbox

open Excerpt List

variable {text line pattern content : List Char} {maxChars n : ℕ} {c : Char}

/-! ### The lines of a file -/

/-- A line without its end, `line.rstrip("\n\r")`. -/
def bare (line : List Char) : List Char := line.rdropWhile fun c => c == '\n' || c == '\r'

theorem bare_of_clean (hn : '\n' ∉ line) (hr : '\r' ∉ line) : bare line = line := by
  rw [bare, rdropWhile_eq_self_iff]
  intro hne hlast
  rw [Bool.or_eq_true, beq_iff_eq, beq_iff_eq] at hlast
  rcases hlast with h | h
  · exact hn (h ▸ getLast_mem hne)
  · exact hr (h ▸ getLast_mem hne)

theorem bare_append_newline (hn : '\n' ∉ line) (hr : '\r' ∉ line) : bare (line ++ ['\n']) = line := by
  have h := bare_of_clean hn hr
  rw [bare] at h ⊢
  rw [rdropWhile_concat_pos _ _ _ (by decide), h]

theorem flatten_fileLines (text : List Char) : (fileLines text).flatten = text := by
  fun_induction fileLines text with
  | case1 => rfl
  | case2 rest ih => rw [flatten_cons, ih, singleton_append]
  | case3 c rest hc hnil ih =>
    rw [← ih, hnil]
    rfl
  | case4 c rest hc line lines hlines ih =>
    rw [hlines] at ih
    rw [← ih, flatten_cons, flatten_cons, cons_append]

/-- A line of a file is a text without newlines, and a newline behind it unless it is the last. -/
theorem exists_body (h : line ∈ fileLines text) :
    ∃ body, '\n' ∉ body ∧ (line = body ++ ['\n'] ∨ line = body) := by
  fun_induction fileLines text generalizing line with
  | case1 => cases h
  | case2 rest ih =>
    rcases mem_cons.1 h with rfl | h
    · exact ⟨[], not_mem_nil, .inl rfl⟩
    · exact ih h
  | case3 c rest hc hnil ih =>
    rw [mem_singleton.1 h]
    exact ⟨[c], fun hmem => hc (mem_singleton.1 hmem).symm, .inr rfl⟩
  | case4 c rest hc first lines hlines ih =>
    rcases mem_cons.1 h with rfl | h
    · obtain ⟨body, hbody, hfirst⟩ := ih (hlines ▸ mem_cons_self)
      refine ⟨c :: body, ?_, hfirst.imp (congrArg (c :: ·)) (congrArg (c :: ·))⟩
      intro hmem
      rcases mem_cons.1 hmem with h | h
      · exact hc h.symm
      · exact hbody h
    · exact ih (hlines ▸ mem_cons_of_mem _ h)

theorem mem_fileLines (hr : '\r' ∉ text) (h : line ∈ fileLines text) :
    '\n' ∉ bare line ∧ (line = bare line ++ ['\n'] ∨ line = bare line) := by
  obtain ⟨body, hn, hline⟩ := exists_body h
  have hsub : ∀ c ∈ line, c ∈ text := by
    intro c hc
    rw [← flatten_fileLines text]
    exact mem_flatten.2 ⟨line, h, hc⟩
  have hbody : '\r' ∉ body := by
    intro hmem
    refine hr (hsub _ ?_)
    rcases hline with rfl | rfl
    · exact mem_append_left _ hmem
    · exact hmem
  have hbare : bare line = body := by
    rcases hline with rfl | rfl
    · exact bare_append_newline hn hbody
    · exact bare_of_clean hn hbody
  rw [hbare]
  exact ⟨hn, hline⟩

theorem containsText_bare (hr : '\r' ∉ text) (h : line ∈ fileLines text) (hn : '\n' ∉ pattern) :
    containsText pattern line = containsText pattern (bare line) := by
  rw [Bool.eq_iff_iff, containsText_iff, containsText_iff]
  rcases (mem_fileLines hr h).2 with hline | hline
  · constructor
    · intro hpattern
      rw [hline] at hpattern
      rcases Subwords.infix_append_cons hn hpattern with hpattern | hpattern
      · exact hpattern
      · exact hpattern.trans ( nil_infix)
    · intro hpattern
      rw [hline]
      exact hpattern.trans (prefix_append _ _).isInfix
  · rw [← hline]

/-- The line ends of a text are newlines. -/
def OnlyNewlines (text : List Char) : Prop := ∀ c ∈ text, PyStr.isLineEnd c = true → c = '\n'

theorem OnlyNewlines.no_return (h : OnlyNewlines text) : '\r' ∉ text := fun hmem =>
  absurd (h '\r' hmem (by decide)) (by decide)

theorem OnlyNewlines.tail {rest : List Char} (h : OnlyNewlines (c :: rest)) : OnlyNewlines rest :=
  fun d hd => h d (mem_cons_of_mem c hd)

/-- A line that is longer by a letter is longer by it without its end. -/
theorem bare_cons (hn : c ≠ '\n') (hr : '\r' ∉ c :: text) (h : line ∈ fileLines text) :
    bare (c :: line) = c :: bare line := by
  have hreturn : '\r' ∉ text := fun hmem => hr (mem_cons_of_mem c hmem)
  obtain ⟨hbody, hline⟩ := mem_fileLines hreturn h
  have hsub : '\r' ∉ bare line := by
    intro hmem
    refine hreturn ?_
    rw [← flatten_fileLines text]
    exact mem_flatten.2 ⟨line, h, ( rdropWhile_prefix _ _).subset hmem⟩
  have hn' : '\n' ∉ c :: bare line := fun hmem =>
    (mem_cons.1 hmem).elim (fun h => hn h.symm) hbody
  have hr' : '\r' ∉ c :: bare line := fun hmem =>
    (mem_cons.1 hmem).elim (fun h => hr (h ▸ mem_cons_self)) hsub
  rcases hline with hline | hline
  · rw [hline, ← cons_append, bare_append_newline hn' hr', ← hline]
  · rw [← hline] at hn' hr' ⊢
    exact bare_of_clean hn' hr'

/-- **The splitters agree** on a text whose only line ends are newlines. -/
theorem map_bare_fileLines (h : OnlyNewlines text) :
    (fileLines text).map bare = PyStr.splitlines text := by
  induction text with
  | nil => rfl
  | cons c rest ih =>
    have hrest := ih h.tail
    rw [fileLines]
    split
    · rename_i hc
      rw [hc, PyStr.splitlines_newline, map_cons, hrest]
      rfl
    · rename_i hc
      have hend : PyStr.isLineEnd c = false := by
        rw [Bool.eq_false_iff]
        exact fun hend => hc (h c mem_cons_self hend)
      rw [PyStr.splitlines_cons hend, ← hrest]
      cases hlines : fileLines rest with
      | nil =>
        have hr : c ≠ '\r' := fun hr => h.no_return (hr ▸ mem_cons_self)
        simp only [map_cons, map_nil]
        rw [bare_of_clean]
        · simpa using Ne.symm hc
        · simpa using Ne.symm hr
      | cons first lines =>
        simp only [map_cons]
        rw [bare_cons hc h.no_return (hlines ▸ mem_cons_self)]

/-! ### What is shown -/

/-- A line that is cut off has a newline, or is a part of what it was. -/
theorem truncateReadFileOutput_prefix (h : '\n' ∉ truncateReadFileOutput line maxChars) :
    truncateReadFileOutput line maxChars <+: line := by
  rw [truncateReadFileOutput] at h ⊢
  by_cases hzero : maxChars = 0
  · rw [if_pos hzero]
  · rw [if_neg hzero] at h ⊢
    by_cases hshort : line.length ≤ maxChars
    · rw [if_pos hshort]
    · rw [if_neg hshort] at h ⊢
      dsimp only at h ⊢
      split
      · exact take_prefix _ _
      · rename_i hkept
        rw [if_neg hkept] at h
        refine absurd (mem_append_right _ ?_) h
        exact mem_cons_self

/-- A line that is shown whole is short enough. -/
theorem length_of_truncate_eq (hpos : maxChars ≠ 0) (hn : '\n' ∉ line)
    (h : truncateReadFileOutput line maxChars = line) : line.length ≤ maxChars := by
  by_contra hlong
  rw [truncateReadFileOutput, if_neg hpos, if_neg hlong] at h
  dsimp only at h
  split at h
  · have hlength := congrArg length h
    rw [length_take] at hlength
    omega
  · refine hn (h ▸ mem_append_right _ ?_)
    exact mem_cons_self

/-- `read_file` shows a line of the content for a number. -/
def ShowsLine (content : List Char) (maxChars n : ℕ) (line : List Char) : Prop :=
  (1 ≤ n ∧ n ≤ (PyStr.splitlines content).length) ∧ readLineTool content maxChars n = line

theorem readLineTool_eq {k : ℕ} (h : (PyStr.splitlines content)[k]? = some line) :
    readLineTool content maxChars (k + 1) = truncateReadFileOutput line maxChars := by
  obtain ⟨hk, hline⟩ := List.getElem?_eq_some_iff.1 h
  have hne : content ≠ [] := by
    rintro rfl
    exact absurd hk (Nat.not_lt_zero k)
  have hslice : ((PyStr.splitlines content).take (k + 1)).drop (k + 1 - 1) = [line] := by
    rw [Nat.add_sub_cancel, drop_take, Nat.add_sub_cancel_left, drop_eq_getElem_cons hk,
      hline]
    rfl
  rw [readLineTool, if_neg hne, hslice]
  simp

theorem showsLine_iff : ShowsLine content maxChars n line ↔
    1 ≤ n ∧ ((PyStr.splitlines content).map (truncateReadFileOutput · maxChars))[n - 1]? =
      some line := by
  rw [ShowsLine, getElem?_map, Option.map_eq_some_iff]
  constructor
  · rintro ⟨⟨hpos, hle⟩, hline⟩
    obtain ⟨k, rfl⟩ : ∃ k, n = k + 1 := ⟨n - 1, by omega⟩
    have hk : (PyStr.splitlines content)[k]? = some ((PyStr.splitlines content)[k]) :=
      getElem?_eq_getElem (by omega)
    exact ⟨hpos, _, hk, (readLineTool_eq hk).symm.trans hline⟩
  · rintro ⟨hpos, full, hfull, hline⟩
    obtain ⟨k, rfl⟩ : ∃ k, n = k + 1 := ⟨n - 1, by omega⟩
    rw [Nat.add_sub_cancel] at hfull
    have hlt := (List.getElem?_eq_some_iff.1 hfull).1
    exact ⟨⟨hpos, hlt⟩, (readLineTool_eq hfull).trans hline⟩

/-! ### What is found -/

/-- The arguments with which the sandbox searches for a literal text, in its case. -/
def literalOptions (pattern : List Char) (globPattern : Option (List Char)) (maxResults : ℕ) :
    GrepOptions :=
  ⟨containsText pattern, globPattern, maxResults, 1000000, 200⟩

/-- A text file as a search sees it. -/
def TextFile.searched (f : TextFile) (size : ℕ) : SearchFile :=
  ⟨false, some size, false, fileLines (universalNewlines f.text)⟩

theorem truncateLine_of_short (h : (bare line).length ≤ 200) : truncateLine line 200 = bare line :=
  if_pos h

theorem length_le_of_mem (hr : '\r' ∉ text) (h : line ∈ fileLines text)
    (hshort : (bare line).length ≤ 200) : line.length ≤ 200 * 10 := by
  rcases (mem_fileLines hr h).2 with hline | hline
  · rw [hline, length_append, length_singleton]
    omega
  · rw [hline]
    omega

/-- **The lines that are found** are the lines of the file that have the text, without their
ends. -/
theorem mem_lineMatchesOf {f : TextFile} {size maxResults : ℕ} {globPattern : Option (List Char)}
    {path : List Char} (hpattern : '\n' ∉ pattern)
    (hshort : ∀ line ∈ fileLines (universalNewlines f.text), (bare line).length ≤ 200) :
    ⟨path, n, line⟩ ∈ lineMatchesOf (literalOptions pattern globPattern maxResults) path
        (f.searched size) ↔
      (1 ≤ n ∧ ((fileLines (universalNewlines f.text)).map bare)[n - 1]? = some line) ∧
        containsText pattern line = true := by
  have hr := no_return_universalNewlines f.text
  rw [lineMatchesOf, mem_map, getElem?_map, Option.map_eq_some_iff]
  constructor
  · rintro ⟨⟨raw, k⟩, hraw, heq⟩
    obtain ⟨hindex, hfound⟩ := mem_filter.1 hraw
    obtain ⟨hpos, hget⟩ := mk_mem_zipIdx_iff_le_and_getElem?_sub.1 hindex
    have hmem : raw ∈ fileLines (universalNewlines f.text) := mem_of_getElem? hget
    obtain ⟨-, rfl, hline⟩ := GrepMatch.mk.inj heq
    have hbare : bare raw = line := (truncateLine_of_short (hshort raw hmem)).symm.trans hline
    refine ⟨⟨hpos, raw, hget, hbare⟩, ?_⟩
    rw [← hbare, ← containsText_bare hr hmem hpattern]
    exact (Bool.and_eq_true_iff.1 hfound).2
  · rintro ⟨⟨hpos, raw, hget, rfl⟩, hfound⟩
    have hmem : raw ∈ fileLines (universalNewlines f.text) := mem_of_getElem? hget
    refine ⟨(raw, n), mem_filter.2 ⟨?_, ?_⟩, ?_⟩
    · exact mk_mem_zipIdx_iff_le_and_getElem?_sub.2 ⟨hpos, hget⟩
    · rw [Bool.and_eq_true, decide_eq_true_eq]
      refine ⟨length_le_of_mem hr hmem (hshort raw hmem), ?_⟩
      exact (containsText_bare hr hmem hpattern).trans hfound
    · exact congrArg (GrepMatch.mk path n) (truncateLine_of_short (hshort raw hmem))

/-! ### A file that is searched and read -/

/-- A text file that a search from a directory comes to and reads, with lines that are short enough
to be shown whole. -/
structure SearchedFile where
  root : List (List Char)
  folder : Folder
  visit : Visit
  name : List Char
  file : TextFile
  size : ℕ
  visited : visit ∈ folder.walk []
  isFile : (name, file.searched size) ∈ visit.files
  kept : shouldIgnoreName name = false
  small : size ≤ 1000000
  short : ∀ line ∈ fileLines (universalNewlines file.text), (bare line).length ≤ 200

/-- A match with the path that the sandbox gives back. -/
def GrepMatch.named (mappings : List PathMapping) (m : GrepMatch) : GrepMatch :=
  ⟨reverseResolvePath mappings m.path, m.lineNumber, m.line⟩

/-- `LocalSandbox.grep`, from a directory. -/
def sandboxGrep (pathMatch : List Char → List Char → Bool) (mappings : List PathMapping)
    (root : SearchRoot) (opts : GrepOptions) : Except SearchError (List GrepMatch × Bool) :=
  (findGrepMatches pathMatch root opts).map fun result =>
    (result.1.map (GrepMatch.named mappings), result.2)

namespace SearchedFile

variable (s : SearchedFile) (pathMatch : List Char → List Char → Bool) (isWord : Char → Bool)
  (mappings : List PathMapping) (maxChars : ℕ)

/-- The path of the file on the host. -/
def path : List Char := s.visit.path s.root s.name

/-- What is found in the file, as it is reported. -/
def reported (opts : GrepOptions) : List GrepMatch :=
  (lineMatchesOf opts s.path (s.file.searched s.size)).map (GrepMatch.named mappings)

/-- What is expected: a search that is not full reports the lines of the file that `read_file` shows
with the text in them, and no others. -/
def Agrees : Prop :=
  ∀ (pattern : List Char) (globPattern : Option (List Char)) (maxResults : ℕ),
    '\n' ∉ pattern → '\r' ∉ pattern →
    isSearched pathMatch (literalOptions pattern globPattern maxResults) s.visit s.name
      (s.file.searched s.size) = true →
    (grepMatchesOf pathMatch s.root (literalOptions pattern globPattern maxResults)
      s.folder).length < maxResults →
    (∃ before after, sandboxGrep pathMatch mappings (.directory s.root s.folder)
        (literalOptions pattern globPattern maxResults) =
      .ok (before ++ s.reported mappings (literalOptions pattern globPattern maxResults) ++ after,
        false)) ∧
    ∀ n line, ⟨reverseResolvePath mappings s.path, n, line⟩ ∈
        s.reported mappings (literalOptions pattern globPattern maxResults) ↔
      ShowsLine (readFile isWord mappings s.file) maxChars n line ∧
        containsText pattern line = true

variable {s pathMatch isWord mappings maxChars}

theorem infix_grepMatchesOf {opts : GrepOptions}
    (h : isSearched pathMatch opts s.visit s.name (s.file.searched s.size) = true) :
    lineMatchesOf opts s.path (s.file.searched s.size) <:+:
      grepMatchesOf pathMatch s.root opts s.folder := by
  have hfile : (s.name, s.file.searched s.size) ∈ s.visit.files.filter fun file =>
      isSearched pathMatch opts s.visit file.1 file.2 := mem_filter.2 ⟨s.isFile, h⟩
  have hinner := List.IsInfix.flatMap ((singleton_infix_iff _ _).2 hfile) fun file =>
    lineMatchesOf opts (s.visit.path s.root file.1) file.2
  have houter := List.IsInfix.flatMap ((singleton_infix_iff _ _).2 s.visited) fun v =>
    (v.files.filter fun file => isSearched pathMatch opts v file.1 file.2).flatMap fun file =>
      lineMatchesOf opts (v.path s.root file.1) file.2
  rw [flatMap_singleton] at hinner houter
  exact hinner.trans houter

theorem mem_reported {opts : GrepOptions} {n : ℕ} {line : List Char} :
    ⟨reverseResolvePath mappings s.path, n, line⟩ ∈ s.reported mappings opts ↔
      ⟨s.path, n, line⟩ ∈ lineMatchesOf opts s.path (s.file.searched s.size) := by
  rw [reported, mem_map]
  constructor
  · rintro ⟨m, hm, heq⟩
    obtain ⟨-, rfl, rfl⟩ := GrepMatch.mk.inj heq
    have hpath : s.path = m.path := by
      obtain ⟨_, -, rfl⟩ := mem_map.1 hm
      rfl
    rw [hpath] at hm ⊢
    exact hm
  · intro hm
    exact ⟨_, hm, rfl⟩

theorem sandboxGrep_eq {opts : GrepOptions}
    (h : isSearched pathMatch opts s.visit s.name (s.file.searched s.size) = true)
    (hroom : (grepMatchesOf pathMatch s.root opts s.folder).length < opts.maxResults) :
    ∃ before after, sandboxGrep pathMatch mappings (.directory s.root s.folder) opts =
      .ok (before ++ s.reported mappings opts ++ after, false) := by
  obtain ⟨before, after, hfound⟩ := infix_grepMatchesOf h
  have hall : findGrepMatches pathMatch (.directory s.root s.folder) opts = _ :=
    findGrepMatches_eq (Nat.zero_lt_of_lt hroom)
  rw [take_of_length_le hroom.le, decide_eq_false (not_le.2 hroom), ← hfound] at hall
  refine ⟨before.map (GrepMatch.named mappings), after.map (GrepMatch.named mappings), ?_⟩
  rw [sandboxGrep, hall, reported, ← map_append, ← map_append]
  rfl

theorem containsText_nil (text : List Char) : containsText [] text = true :=
  containsText_iff.2 nil_infix

theorem agrees_iff_lines : s.Agrees pathMatch isWord mappings maxChars ↔
    (fileLines (universalNewlines s.file.text)).map bare =
      (PyStr.splitlines (readFile isWord mappings s.file)).map
        (truncateReadFileOutput · maxChars) := by
  constructor
  · intro h
    have hsearched : ∀ maxResults, isSearched pathMatch (literalOptions [] none maxResults) s.visit
        s.name (s.file.searched s.size) = true := by
      intro maxResults
      simp [isSearched, literalOptions, TextFile.searched, s.kept, s.small]
    -- the limit does not change what there is to be found
    let all := grepMatchesOf pathMatch s.root (literalOptions [] none 0) s.folder
    have hroom : (grepMatchesOf pathMatch s.root (literalOptions [] none (all.length + 1))
        s.folder).length < all.length + 1 := Nat.lt_succ_self all.length
    have hall := (h [] none _ not_mem_nil not_mem_nil (hsearched _) hroom).2
    simp only [mem_reported, mem_lineMatchesOf not_mem_nil s.short, showsLine_iff,
      containsText_nil, and_true] at hall
    refine ext_getElem? fun k => Option.ext fun line => ?_
    have hk := hall (k + 1) line
    have hpos : 1 ≤ k + 1 := Nat.succ_pos k
    rwa [Nat.add_sub_cancel, and_iff_right hpos, and_iff_right hpos] at hk
  · intro h pattern globPattern maxResults hn _ hsearched hroom
    refine ⟨sandboxGrep_eq hsearched hroom, fun n line => ?_⟩
    rw [mem_reported, mem_lineMatchesOf hn s.short, showsLine_iff, h]

/-- A file whose lines are shown has no line end that is shown. -/
theorem onlyNewlines_of_lines
    (h : (fileLines (universalNewlines s.file.text)).map bare =
      (PyStr.splitlines (readFile isWord mappings s.file)).map
        (truncateReadFileOutput · maxChars)) :
    OnlyNewlines (universalNewlines s.file.text) := by
  intro c hc hend
  by_contra hn
  have hr := no_return_universalNewlines s.file.text
  rw [← flatten_fileLines (universalNewlines s.file.text)] at hc
  obtain ⟨raw, hraw, hmem⟩ := mem_flatten.1 hc
  obtain ⟨hclean, hline⟩ := mem_fileLines hr hraw
  have hbare : c ∈ bare raw := by
    rcases hline with hline | hline
    · rw [hline] at hmem
      rcases mem_append.1 hmem with hmem | hmem
      · exact hmem
      · exact absurd (mem_singleton.1 hmem) hn
    · rwa [← hline]
  have hshown := mem_map_of_mem (f := bare) hraw
  rw [h] at hshown
  obtain ⟨full, hfull, heq⟩ := mem_map.1 hshown
  rw [← heq] at hbare hclean
  have hfullmem := ( truncateReadFileOutput_prefix hclean).subset hbare
  rw [PyStr.no_lineEnd_of_mem_splitlines hfull c hfullmem] at hend
  cases hend

variable (s isWord mappings maxChars) in
/-- The file is shown with the paths that are in it. -/
def IsPlain : Prop :=
  s.file.agentWritten = true →
    hasHostPath isWord mappings (universalNewlines s.file.text) = false

variable (s maxChars) in
/-- No line is cut off when it is shown. -/
def IsWhole : Prop :=
  maxChars = 0 ∨ ∀ line ∈ PyStr.splitlines (universalNewlines s.file.text), line.length ≤ maxChars

theorem IsPlain.readFile_eq (h : s.IsPlain isWord mappings) :
    readFile isWord mappings s.file = universalNewlines s.file.text := by
  simp only [readFile]
  split
  · exact reversePathsInOutput_of_plain (h ‹_›)
  · rfl

theorem IsWhole.map_truncate (h : s.IsWhole maxChars) :
    (PyStr.splitlines (universalNewlines s.file.text)).map (truncateReadFileOutput · maxChars) =
      PyStr.splitlines (universalNewlines s.file.text) := by
  refine (map_congr_left fun line hline => ?_).trans (map_id _)
  rw [truncateReadFileOutput]
  rcases h with hzero | hshort
  · rw [if_pos hzero, id]
  · split
    · rfl
    · rw [if_pos (hshort line hline), id]

end SearchedFile

/-- **The two agree on a file** if its only line ends are newlines, no line of it is cut off, and it
has no host path that is given back as another; and then only, where it has no such path. -/
theorem grep_read_agree_iff (s : SearchedFile) (pathMatch : List Char → List Char → Bool)
    (isWord : Char → Bool) (mappings : List PathMapping) (maxChars : ℕ) :
    (s.IsPlain isWord mappings →
      (s.Agrees pathMatch isWord mappings maxChars ↔
        OnlyNewlines (universalNewlines s.file.text) ∧ s.IsWhole maxChars)) ∧
    (s.Agrees pathMatch isWord mappings maxChars →
      OnlyNewlines (universalNewlines s.file.text)) := by
  refine ⟨fun hplain => ⟨fun h => ?_, fun ⟨honly, hwhole⟩ => ?_⟩, fun h =>
    SearchedFile.onlyNewlines_of_lines (SearchedFile.agrees_iff_lines.1 h)⟩
  · have hlines := SearchedFile.agrees_iff_lines.1 h
    have honly := SearchedFile.onlyNewlines_of_lines hlines
    rw [map_bare_fileLines honly, hplain.readFile_eq] at hlines
    refine ⟨honly, or_iff_not_imp_left.2 fun hpos line hline => ?_⟩
    have hsame : truncateReadFileOutput line maxChars = line :=
      map_inj_left.1 (hlines.symm.trans (map_id _).symm) line hline
    exact length_of_truncate_eq hpos
      (fun hmem => absurd (PyStr.no_lineEnd_of_mem_splitlines hline _ hmem) (by decide)) hsame
  · rw [SearchedFile.agrees_iff_lines, map_bare_fileLines honly, hplain.readFile_eq,
      hwhole.map_truncate]

/-- A file with two lines. -/
def twoLineFile : SearchedFile where
  root := [['w']]
  folder := .readable [] [("a.txt".toList, (TextFile.mk "a\nb".toList true).searched 3)]
  visit := ⟨[], [], [("a.txt".toList, (TextFile.mk "a\nb".toList true).searched 3)]⟩
  name := "a.txt".toList
  file := ⟨"a\nb".toList, true⟩
  size := 3
  visited := mem_cons_self
  isFile := mem_cons_self
  kept := by decide
  small := by decide
  short := by decide

theorem grep_read_agree_demo : twoLineFile.Agrees (fun _ _ => true) (fun _ => false)
    [⟨"/mnt/w".toList, "/w".toList, false⟩] 10 := by
  refine ((grep_read_agree_iff twoLineFile _ _ _ _).1 fun _ => by decide).2 ⟨?_, .inr (by decide)⟩
  show ∀ c ∈ "a\nb".toList, PyStr.isLineEnd c = true → c = '\n'
  decide

/-- A file with a form feed. -/
def formFeedFile : SearchedFile where
  root := [['w']]
  folder := .readable [] [("a.txt".toList, (TextFile.mk "a\x0cb".toList false).searched 3)]
  visit := ⟨[], [], [("a.txt".toList, (TextFile.mk "a\x0cb".toList false).searched 3)]⟩
  name := "a.txt".toList
  file := ⟨"a\x0cb".toList, false⟩
  size := 3
  visited := mem_cons_self
  isFile := mem_cons_self
  kept := by decide
  small := by decide
  short := by decide

/-- A form feed ends a line of `read_file`, and none of `grep`. -/
theorem form_feed_splits : ¬∀ (s : SearchedFile) (maxChars : ℕ),
    s.Agrees (fun _ _ => true) (fun _ => false) [] maxChars := by
  intro h
  have hlines := SearchedFile.agrees_iff_lines.1 (h formFeedFile 0)
  exact absurd (congrArg List.length hlines) (by decide)

end AfterFlow.Sandbox
