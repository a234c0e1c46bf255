import AfterFlow.Collecting
import AfterFlow.Excerpt
import AfterFlow.Sandbox.HostFiles

/-!
# Searches

`find_glob_matches` and `find_grep_matches` walk a directory with `os.walk`, which does not follow
links, and return as soon as they have `max_results` matches. They say that the results are truncated
whenever they return that way, also when the last match there is was the one that made them full.

What `PurePosixPath.match` and the compiled pattern say of a text are parameters, for patterns that
they take.

## Main results

* `searches_sound_iff` — the results are as expected iff matches are not just as many
-/

namespace AfterFlow.Sandbox

open Collecting Excerpt List

/-! ### The walk -/

/-- What a search looks at in a file. -/
structure SearchFile where
  isSymlink : Bool
  /-- The size, unless `stat` raises. -/
  size : Option ℕ
  /-- `is_binary_file`. -/
  isBinary : Bool
  /-- The lines with their ends, as they are read before the file ends or reading raises. -/
  lines : List (List Char)

/-- A directory, with its entries in the order of `os.scandir`. What `os.walk` does not enter, a
link or a directory that cannot be read, is closed. -/
inductive Folder where
  | closed
  | readable (dirs : List (List Char × Folder)) (files : List (List Char × SearchFile))

/-- What a search sees of a directory: its relative path, and its entries without the directories
that are ignored. -/
structure Visit where
  rel : List (List Char)
  dirs : List (List Char)
  files : List (List Char × SearchFile)

mutual

/-- `os.walk`, with the ignored directories taken out of `dirs`. -/
def Folder.walk : Folder → List (List Char) → List Visit
  | .closed, _ => []
  | .readable dirs files, rel =>
    ⟨rel, (dirs.map Prod.fst).filter fun name => !shouldIgnoreName name, files⟩ :: walkAll dirs rel

def walkAll : List (List Char × Folder) → List (List Char) → List Visit
  | [], _ => []
  | (name, folder) :: dirs, rel =>
    (if shouldIgnoreName name then [] else folder.walk (rel ++ [name])) ++ walkAll dirs rel

end

/-- The root of a search, by its names. -/
inductive SearchRoot where
  | missing
  | notDirectory
  | directory (names : List (List Char)) (folder : Folder)

inductive SearchError where
  | fileNotFound
  | notADirectory
  deriving DecidableEq

/-! ### The searches -/

section

variable (pathMatch : List Char → List Char → Bool)

/-- `path_matches`. -/
def pathMatches (pattern relPath : List Char) : Bool :=
  pathMatch pattern relPath ||
    ("**/".toList.isPrefixOf pattern && pathMatch (pattern.drop 3) relPath)

/-- `(rel_dir / name).as_posix()`. -/
def Visit.relPath (v : Visit) (name : List Char) : List Char := ['/'].intercalate (v.rel ++ [name])

/-- `str(Path(current_root) / name)`. -/
def Visit.path (v : Visit) (root : List (List Char)) (name : List Char) : List Char :=
  ofParts (root ++ (v.rel ++ [name]))

/-- What `find_glob_matches` does with a name. -/
def globName (root : List (List Char)) (pattern : List Char) (maxResults : ℕ) (v : Visit)
    (found : List (List Char)) (name : List Char) :
    Except (List (List Char)) (List (List Char)) :=
  if pathMatches pathMatch pattern (v.relPath name) then push maxResults found (v.path root name)
  else .ok found

/-- What it does with the subdirectories of one directory. -/
def globDirs (root : List (List Char)) (pattern : List Char) (includeDirs : Bool) (maxResults : ℕ)
    (v : Visit) (found : List (List Char)) : Except (List (List Char)) (List (List Char)) :=
  if includeDirs then v.dirs.foldlM (globName pathMatch root pattern maxResults v) found
  else .ok found

/-- What it does with its files. -/
def globFiles (root : List (List Char)) (pattern : List Char) (maxResults : ℕ) (v : Visit)
    (found : List (List Char)) : Except (List (List Char)) (List (List Char)) :=
  v.files.foldlM (fun found file =>
    if shouldIgnoreName file.1 then .ok found
    else globName pathMatch root pattern maxResults v found file.1) found

/-- `find_glob_matches`. -/
def findGlobMatches (root : SearchRoot) (pattern : List Char) (includeDirs : Bool)
    (maxResults : ℕ) : Except SearchError (List (List Char) × Bool) :=
  match root with
  | .missing => .error .fileNotFound
  | .notDirectory => .error .notADirectory
  | .directory names folder => .ok <| collect fun found =>
    (folder.walk []).foldlM (fun found v =>
      globDirs pathMatch names pattern includeDirs maxResults v found >>=
        globFiles pathMatch names pattern maxResults v) found

/-- `truncate_line`. -/
def truncateLine (line : List Char) (maxChars : ℕ) : List Char :=
  let line := line.rdropWhile fun c => c == '\n' || c == '\r'
  if line.length ≤ maxChars then line
  else sliceTo line (maxChars - 3) ++ "...".toList

/-- The arguments of `find_grep_matches`, with what the compiled pattern finds in a line. -/
structure GrepOptions where
  search : List Char → Bool
  globPattern : Option (List Char)
  maxResults : ℕ
  maxFileSize : ℕ
  lineSummaryLength : ℕ

/-- Whether a file is read, in the order of the checks. -/
def isSearched (opts : GrepOptions) (v : Visit) (name : List Char) (file : SearchFile) : Bool :=
  !shouldIgnoreName name &&
    opts.globPattern.all (fun pattern => pathMatches pathMatch pattern (v.relPath name)) &&
    !file.isSymlink && file.size.any (fun size => size ≤ opts.maxFileSize) && !file.isBinary

/-- What `find_grep_matches` does with a line. -/
def grepLine (opts : GrepOptions) (path : List Char) (found : List GrepMatch)
    (line : List Char × ℕ) : Except (List GrepMatch) (List GrepMatch) :=
  if opts.lineSummaryLength * 10 < line.1.length then .ok found
  else if opts.search line.1 then
    push opts.maxResults found ⟨path, line.2, truncateLine line.1 opts.lineSummaryLength⟩
  else .ok found

/-- What it does in one directory. The path of a file that is no link is its resolved path. -/
def grepVisit (root : List (List Char)) (opts : GrepOptions) (found : List GrepMatch) (v : Visit) :
    Except (List GrepMatch) (List GrepMatch) :=
  v.files.foldlM (fun found file =>
    if isSearched pathMatch opts v file.1 file.2 then
      (file.2.lines.zipIdx 1).foldlM (grepLine opts (v.path root file.1)) found
    else .ok found) found

/-- `find_grep_matches`. -/
def findGrepMatches (root : SearchRoot) (opts : GrepOptions) :
    Except SearchError (List GrepMatch × Bool) :=
  match root with
  | .missing => .error .fileNotFound
  | .notDirectory => .error .notADirectory
  | .directory names folder => .ok <| collect fun found =>
    (folder.walk []).foldlM (grepVisit pathMatch names opts) found

end

/-! ### The full lists -/

section

variable (pathMatch : List Char → List Char → Bool)

/-- All paths that match, in the order of the walk. -/
def globMatchesOf (root : List (List Char)) (pattern : List Char) (includeDirs : Bool)
    (folder : Folder) : List (List Char) :=
  (folder.walk []).flatMap fun v =>
    (((if includeDirs then v.dirs else []) ++
        (v.files.map Prod.fst).filter fun name => !shouldIgnoreName name).filter fun name =>
      pathMatches pathMatch pattern (v.relPath name)).map (v.path root)

/-- All lines that match in a file. -/
def lineMatchesOf (opts : GrepOptions) (path : List Char) (file : SearchFile) : List GrepMatch :=
  ((file.lines.zipIdx 1).filter fun line =>
      decide (line.1.length ≤ opts.lineSummaryLength * 10) && opts.search line.1).map fun line =>
    ⟨path, line.2, truncateLine line.1 opts.lineSummaryLength⟩

/-- All lines that match, in the order of the walk. -/
def grepMatchesOf (root : List (List Char)) (opts : GrepOptions) (folder : Folder) :
    List GrepMatch :=
  (folder.walk []).flatMap fun v =>
    (v.files.filter fun file => isSearched pathMatch opts v file.1 file.2).flatMap fun file =>
      lineMatchesOf opts (v.path root file.1) file.2

end

variable {pathMatch : List Char → List Char → Bool} {root : List (List Char)}
  {pattern path : List Char} {includeDirs : Bool} {maxResults : ℕ} {folder : Folder}
  {opts : GrepOptions} {v : Visit}

theorem collects_globDirs (v : Visit) :
    Collects maxResults (globDirs pathMatch root pattern includeDirs maxResults v)
      (((if includeDirs then v.dirs else []).filter fun name =>
        pathMatches pathMatch pattern (v.relPath name)).map (v.path root)) := by
  cases includeDirs with
  | false => exact collects_ok
  | true => exact collects_filter v.dirs _ (v.path root)

theorem collects_globFiles (v : Visit) :
    Collects maxResults (globFiles pathMatch root pattern maxResults v)
      ((((v.files.map Prod.fst).filter fun name => !shouldIgnoreName name).filter fun name =>
        pathMatches pathMatch pattern (v.relPath name)).map (v.path root)) := by
  have hstep : (fun found file => if shouldIgnoreName file.1 then .ok found
      else globName pathMatch root pattern maxResults v found file.1) =
        fun found (file : List Char × SearchFile) =>
          if !shouldIgnoreName file.1 && pathMatches pathMatch pattern (v.relPath file.1) then
            push maxResults found (v.path root file.1) else .ok found := by
    funext found file
    cases shouldIgnoreName file.1 <;> rfl
  have hfull : (v.files.filter fun file => !shouldIgnoreName file.1 &&
      pathMatches pathMatch pattern (v.relPath file.1)).map (fun file => v.path root file.1) =
    (((v.files.map Prod.fst).filter fun name => !shouldIgnoreName name).filter fun name =>
      pathMatches pathMatch pattern (v.relPath name)).map (v.path root) := by
    rw [filter_filter, filter_map, map_map]
    simp only [Function.comp_def, Bool.and_comm]
  rw [← hfull]
  show Collects maxResults (fun found => v.files.foldlM _ found) _
  rw [hstep]
  exact collects_filter v.files _ fun file => v.path root file.1

theorem collects_grepLine (file : SearchFile) :
    Collects opts.maxResults (fun found => (file.lines.zipIdx 1).foldlM (grepLine opts path) found)
      (lineMatchesOf opts path file) := by
  have hstep : grepLine opts path = fun found line =>
      if decide (line.1.length ≤ opts.lineSummaryLength * 10) && opts.search line.1 then
        push opts.maxResults found ⟨path, line.2, truncateLine line.1 opts.lineSummaryLength⟩
      else .ok found := by
    funext found line
    rw [grepLine]
    by_cases hlong : opts.lineSummaryLength * 10 < line.1.length
    · rw [if_pos hlong, decide_eq_false (not_le.2 hlong)]
      rfl
    · rw [if_neg hlong, decide_eq_true (not_lt.1 hlong)]
      rfl
  rw [hstep, lineMatchesOf]
  exact collects_filter (file.lines.zipIdx 1) _ _

theorem collects_grepVisit (v : Visit) :
    Collects opts.maxResults (fun found => grepVisit pathMatch root opts found v)
      ((v.files.filter fun file => isSearched pathMatch opts v file.1 file.2).flatMap fun file =>
        lineMatchesOf opts (v.path root file.1) file.2) :=
  Collects.foldlM_filter v.files (fun file => isSearched pathMatch opts v file.1 file.2) fun file =>
    collects_grepLine file.2

/-- **The loops find the beginning** of the full list, and return early if it is no shorter. -/
theorem findGlobMatches_eq (hpos : 0 < maxResults) :
    findGlobMatches pathMatch (.directory root folder) pattern includeDirs maxResults =
      .ok ((globMatchesOf pathMatch root pattern includeDirs folder).take maxResults,
        decide (maxResults ≤ (globMatchesOf pathMatch root pattern includeDirs folder).length)) :=
  congrArg Except.ok <| Collects.collect_eq (Collects.foldlM fun v _ => by
    rw [filter_append, map_append]
    exact (collects_globDirs v).bind (collects_globFiles v)) hpos

theorem findGrepMatches_eq (hpos : 0 < opts.maxResults) :
    findGrepMatches pathMatch (.directory root folder) opts =
      .ok ((grepMatchesOf pathMatch root opts folder).take opts.maxResults,
        decide (opts.maxResults ≤ (grepMatchesOf pathMatch root opts folder).length)) :=
  congrArg Except.ok (Collects.collect_eq
    (Collects.foldlM fun v _ => collects_grepVisit v) hpos)

/-! ### What is left out -/

/-- No name is ignored. -/
def Kept (names : List (List Char)) : Prop := ∀ name ∈ names, shouldIgnoreName name = false

theorem Kept.append {a b : List (List Char)} (ha : Kept a) (hb : Kept b) : Kept (a ++ b) := by
  intro name hname
  rcases mem_append.1 hname with h | h
  · exact ha name h
  · exact hb name h

/-- What is visited is below what the walk began with, and no name on the way is ignored. -/
def Below (rel : List (List Char)) (v : Visit) : Prop :=
  (∃ rest, v.rel = rel ++ rest ∧ Kept rest) ∧ Kept v.dirs

mutual

theorem Folder.below_of_mem_walk : ∀ (folder : Folder) (rel : List (List Char)) {v : Visit},
    v ∈ folder.walk rel → Below rel v
  | .closed, _, _, h => by cases h
  | .readable dirs files, rel, v, h => by
    rw [Folder.walk] at h
    rcases mem_cons.1 h with rfl | h
    · refine ⟨⟨[], (append_nil rel).symm, fun _ hname => by cases hname⟩, ?_⟩
      intro name hname
      simpa using (mem_filter.1 hname).2
    · exact below_of_mem_walkAll dirs rel h

theorem below_of_mem_walkAll : ∀ (dirs : List (List Char × Folder)) (rel : List (List Char))
    {v : Visit}, v ∈ walkAll dirs rel → Below rel v
  | [], _, _, h => by cases h
  | (name, folder) :: dirs, rel, v, h => by
    rw [walkAll] at h
    rcases mem_append.1 h with h | h
    · split at h
      · cases h
      · rename_i hname
        obtain ⟨⟨rest, hrel, hkept⟩, hdirs⟩ := folder.below_of_mem_walk _ h
        refine ⟨⟨name :: rest, ?_, ?_⟩, hdirs⟩
        · rw [hrel, append_assoc, singleton_append]
        · intro part hpart
          rcases mem_cons.1 hpart with rfl | hpart
          · exact Bool.eq_false_iff.2 hname
          · exact hkept part hpart
    · exact below_of_mem_walkAll dirs rel h

end

/-- The path is one below the root, and no name on the way, nor its own, is ignored. -/
def IsKeptPath (root : List (List Char)) (path : List Char) : Prop :=
  ∃ rel, path = ofParts (root ++ rel) ∧ Kept rel

theorem isKeptPath_path {name : List Char} (hv : v ∈ folder.walk [])
    (hname : shouldIgnoreName name = false) : IsKeptPath root (v.path root name) := by
  obtain ⟨⟨rest, hrel, hkept⟩, -⟩ := folder.below_of_mem_walk [] hv
  refine ⟨v.rel ++ [name], rfl, ?_⟩
  rw [hrel, nil_append]
  refine hkept.append fun name' hname' => ?_
  rwa [mem_singleton.1 hname']

theorem isKeptPath_globMatchesOf
    (h : path ∈ globMatchesOf pathMatch root pattern includeDirs folder) : IsKeptPath root path := by
  obtain ⟨v, hv, hpath⟩ := mem_flatMap.1 h
  obtain ⟨name, hname, rfl⟩ := mem_map.1 hpath
  refine isKeptPath_path hv ?_
  rcases mem_append.1 (mem_filter.1 hname).1 with hdir | hfile
  · split at hdir
    · exact (folder.below_of_mem_walk [] hv).2 name hdir
    · cases hdir
  · simpa using (mem_filter.1 hfile).2

theorem isKeptPath_grepMatchesOf {m : GrepMatch} (h : m ∈ grepMatchesOf pathMatch root opts folder) :
    IsKeptPath root m.path := by
  obtain ⟨v, hv, hm⟩ := mem_flatMap.1 h
  obtain ⟨file, hfile, hm⟩ := mem_flatMap.1 hm
  obtain ⟨line, -, rfl⟩ := mem_map.1 hm
  refine isKeptPath_path hv ?_
  have hsearched := (mem_filter.1 hfile).2
  simp only [isSearched, Bool.and_eq_true, Bool.not_eq_true'] at hsearched
  exact hsearched.1.1.1.1

/-! ### What is expected -/

/-- What is expected of results: they are the first ones, none is ignored, and the flag says whether
there are more. -/
structure Sound {β : Type} (full : List β) (maxResults : ℕ) (isKept : β → Prop)
    (result : List β × Bool) : Prop where
  first : result.1 = full.take maxResults
  kept : ∀ r ∈ result.1, isKept r
  truncated : result.2 = true ↔ result.1.length < full.length

theorem sound_iff {β : Type} {full : List β} {isKept : β → Prop} (h : ∀ r ∈ full, isKept r) :
    Sound full maxResults isKept (full.take maxResults, decide (maxResults ≤ full.length)) ↔
      full.length ≠ maxResults := by
  constructor
  · intro hsound hlength
    have hflag := hsound.truncated
    rw [decide_eq_true_eq, length_take] at hflag
    omega
  · intro hne
    refine ⟨rfl, fun r hr => h r (mem_of_mem_take hr), ?_⟩
    rw [decide_eq_true_eq, length_take]
    omega

/-- **The results are as expected**, exactly if there are not just as many matches as are wanted. -/
theorem searches_sound_iff (pathMatch : List Char → List Char → Bool) (root : List (List Char))
    (folder : Folder) :
    (∀ (pattern : List Char) (includeDirs : Bool) (maxResults : ℕ), 0 < maxResults →
        ∃ result,
          findGlobMatches pathMatch (.directory root folder) pattern includeDirs maxResults =
              .ok result ∧
            (Sound (globMatchesOf pathMatch root pattern includeDirs folder) maxResults
                (IsKeptPath root) result ↔
              (globMatchesOf pathMatch root pattern includeDirs folder).length ≠ maxResults)) ∧
      ∀ opts : GrepOptions, 0 < opts.maxResults →
        ∃ result, findGrepMatches pathMatch (.directory root folder) opts = .ok result ∧
          (Sound (grepMatchesOf pathMatch root opts folder) opts.maxResults
              (fun m => IsKeptPath root m.path) result ↔
            (grepMatchesOf pathMatch root opts folder).length ≠ opts.maxResults) := by
  constructor
  · intro pattern includeDirs maxResults hpos
    exact ⟨_, findGlobMatches_eq hpos, sound_iff fun _ => isKeptPath_globMatchesOf⟩
  · intro opts hpos
    exact ⟨_, findGrepMatches_eq hpos, sound_iff fun _ => isKeptPath_grepMatchesOf⟩

/-- A directory with one file, in which every path matches. -/
def oneFile : Folder := .readable [] [("a.txt".toList, ⟨false, some 3, false, ["hi\n".toList]⟩)]

theorem searches_sound_once :
    ∃ result, findGlobMatches (fun _ _ => true) (.directory [['w']] oneFile) "**".toList false 2 =
        .ok result ∧
      (Sound (globMatchesOf (fun _ _ => true) [['w']] "**".toList false oneFile) 2
          (IsKeptPath [['w']]) result ↔
        (globMatchesOf (fun _ _ => true) [['w']] "**".toList false oneFile).length ≠ 2) :=
  (searches_sound_iff (fun _ _ => true) [['w']] oneFile).1 "**".toList false 2 (by decide)

/-- The only match there is makes the results truncated. -/
theorem search_full : ¬∀ (folder : Folder) (maxResults : ℕ), 0 < maxResults →
    ∀ result, findGlobMatches (fun _ _ => true) (.directory [['w']] folder) "**".toList false
        maxResults = .ok result →
      (result.2 = true ↔ result.1.length <
        (globMatchesOf (fun _ _ => true) [['w']] "**".toList false folder).length) := by
  intro h
  have hflag := h oneFile 1 (by decide) _ (findGlobMatches_eq (by decide))
  exact absurd (hflag.1 (by decide)) (by decide)

end AfterFlow.Sandbox
