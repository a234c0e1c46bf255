import AfterFlow.Sandbox.Paths

/-!
# Files of the host

A file system without symbolic links is a list of entries, each with its names from the root, and
with each entry its parent is a directory of it. `list_dir`, `find_glob_matches` and
`find_grep_matches` walk it from a directory, and leave out what has an ignored name on the way.
-/

namespace AfterFlow.Sandbox

open List

/-- The patterns of `IGNORE_PATTERNS` without a star. -/
def exactIgnoreNames : List String :=
  [".git", ".svn", ".hg", ".bzr", "node_modules", "__pycache__", ".venv", "venv", ".env", "env", ".tox",
    ".nox", ".eggs", "site-packages", "dist", "build", ".next", ".nuxt", ".output", ".turbo", "target",
    "out", ".idea", ".vscode", ".project", ".classpath", ".settings", ".DS_Store", "Thumbs.db",
    "desktop.ini", ".cache", "logs", ".coverage", "coverage", ".nyc_output", "htmlcov",
    ".pytest_cache", ".mypy_cache", ".ruff_cache"]

/-- What follows the star in the patterns that begin with one. -/
def ignoreEndings : List String :=
  [".egg-info", ".swp", ".swo", "~", ".lnk", ".log", ".tmp", ".temp", ".bak", ".cache"]

/-- `should_ignore_name`. -/
def shouldIgnoreName (name : List Char) : Bool :=
  exactIgnoreNames.any (fun exact => exact.toList == name) ||
    ignoreEndings.any (fun ending => ending.toList.isSuffixOf name) ||
    -- `.upload-*.part`
    (".upload-".toList.isPrefixOf name && ".part".toList.isSuffixOf name && 13 ≤ name.length)

structure HostEntry where
  names : List (List Char)
  isDir : Bool
  deriving DecidableEq

def HostEntry.path (e : HostEntry) : List Char := ofParts e.names

/-- A file system without symbolic links. -/
structure FileTree where
  entries : List HostEntry
  isName : ∀ e ∈ entries, ∀ name ∈ e.names, IsName name
  ne_root : ∀ e ∈ entries, e.names ≠ []
  nodup : (entries.map HostEntry.names).Nodup
  parents : ∀ e ∈ entries, e.names.dropLast ≠ [] → ⟨e.names.dropLast, true⟩ ∈ entries

structure GrepMatch where
  path : List Char
  lineNumber : Nat
  line : List Char
  deriving DecidableEq

namespace FileTree

variable (fs : FileTree)

def isDir (names : List (List Char)) : Bool := names == [] || fs.entries.contains ⟨names, true⟩

/-- What a walk from a directory comes to. -/
def walk (root : List (List Char)) : List HostEntry :=
  if fs.isDir root then
    fs.entries.filter fun e => root.isPrefixOf e.names && decide (root.length < e.names.length) &&
      (e.names.drop root.length).all fun name => !shouldIgnoreName name
  else []

/-- `list_dir`, which comes down to `maxDepth`. -/
def listDir (root : List (List Char)) (maxDepth : Nat) : List HostEntry :=
  (fs.walk root).filter fun e => e.names.length ≤ root.length + maxDepth

/-- `rel_path`. -/
def relPath (root : List (List Char)) (e : HostEntry) : List Char :=
  ['/'].intercalate (e.names.drop root.length)

/-- What is returned when there may be too many: the walk ends with the match that makes them
full. -/
def truncate {α : Type} (maxResults : Nat) (found : List α) : List α × Bool :=
  if found ≠ [] ∧ maxResults ≤ found.length then (found.take (max 1 maxResults), true)
  else (found, false)

/-- `find_glob_matches`, of a directory. What `path_matches` says of a relative path is `takes`. -/
def globMatches (root : List (List Char)) (takes : List Char → Bool) (includeDirs : Bool)
    (maxResults : Nat) : List HostEntry × Bool :=
  truncate maxResults <| (fs.walk root).filter fun e =>
    (includeDirs || !e.isDir) && takes (relPath root e)

/-- `find_grep_matches`, of a directory. The lines that match are in `hits`: none of a file that is
too large or binary, and none that is too long. -/
def grepMatches (root : List (List Char)) (takes : List Char → Bool)
    (hits : HostEntry → List (Nat × List Char)) (maxResults : Nat) :
    List (HostEntry × Nat × List Char) × Bool :=
  truncate maxResults <| ((fs.walk root).filter fun e => !e.isDir && takes (relPath root e)).flatMap
    fun e => (hits e).map fun hit => (e, hit)

end FileTree

/-! ### What is found -/

namespace FileTree

variable {fs : FileTree} {root : List (List Char)} {e : HostEntry}

theorem mem_walk (h : e ∈ fs.walk root) :
    e ∈ fs.entries ∧ root <+: e.names ∧ root.length < e.names.length := by
  rw [walk] at h
  split at h
  · obtain ⟨hmem, hcond⟩ := mem_filter.1 h
    rw [Bool.and_eq_true, Bool.and_eq_true, isPrefixOf_iff_prefix, decide_eq_true_eq] at hcond
    exact ⟨hmem, hcond.1⟩
  · cases h

theorem mem_of_truncate {α : Type} {maxResults : Nat} {found : List α} {a : α}
    (h : a ∈ (truncate maxResults found).1) : a ∈ found := by
  rw [truncate] at h
  split at h
  · exact mem_of_mem_take h
  · exact h

theorem truncate_of_length {α : Type} {maxResults : Nat} {found : List α}
    (h : found.length < maxResults) : (truncate maxResults found).1 = found := by
  rw [truncate, if_neg fun hfull => Nat.not_le.2 h hfull.2]

theorem mem_walk_of_mem_globMatches {takes : List Char → Bool} {includeDirs : Bool} {maxResults : Nat}
    (h : e ∈ (fs.globMatches root takes includeDirs maxResults).1) : e ∈ fs.walk root :=
  (mem_filter.1 (mem_of_truncate h)).1

theorem mem_walk_of_mem_grepMatches {takes : List Char → Bool}
    {hits : HostEntry → List (Nat × List Char)} {maxResults : Nat} {hit : Nat × List Char}
    (h : (e, hit) ∈ (fs.grepMatches root takes hits maxResults).1) : e ∈ fs.walk root := by
  obtain ⟨e', hmem, hhit⟩ := mem_flatMap.1 (mem_of_truncate h)
  obtain ⟨_, -, heq⟩ := mem_map.1 hhit
  obtain rfl : e' = e := congrArg Prod.fst heq
  exact (mem_filter.1 hmem).1

theorem globMatches_all : (fs.globMatches root (fun _ => true) true ((fs.walk root).length + 1)).1 =
    fs.walk root := by
  have hall : (fs.walk root).filter (fun e => (true || !e.isDir) && true) = fs.walk root :=
    filter_eq_self.2 fun _ _ => rfl
  rw [globMatches, hall]
  exact truncate_of_length (Nat.lt_succ_self _)

theorem nodup_listDir (fs : FileTree) (root : List (List Char)) (maxDepth : Nat) :
    ((fs.listDir root maxDepth).map HostEntry.names).Nodup := by
  have hsub : (fs.listDir root maxDepth).Sublist fs.entries := by
    refine filter_sublist.trans ?_
    rw [walk]
    split
    · exact filter_sublist
    · exact nil_sublist _
  exact fs.nodup.sublist (hsub.map _)

end FileTree

end AfterFlow.Sandbox
