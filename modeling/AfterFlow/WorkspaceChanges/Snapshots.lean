import AfterFlow.Diffs.Script
import AfterFlow.Keyed.Dict
import AfterFlow.PyStr
import Mathlib.Data.Finset.Sort
import Mathlib.Data.String.Basic

/-!
# Workspace snapshots and their comparison

A snapshot holds what is known of the files of a workspace: size, time, hash, and the text, if it is
to be compared. `compare_snapshots` goes through the paths of two snapshots in order and lists what
was created, modified and deleted, with a diff where there may be one, within limits on the number
of files listed and on the bytes of the diffs.

The edit script between two texts is a parameter, which may be any script between their lines that
shows all changes; how a script is printed is that of `difflib.unified_diff`. What a file of the
cache holds is a parameter as well.
-/

namespace AfterFlow.WorkspaceChanges

open Diffs Keyed PyStr

/-! ### Files -/

inductive DiffUnavailableReason where
  | binary
  | large
  | sensitive
  | truncated
  deriving DecidableEq

structure WorkspaceChangeLimits where
  maxFiles : ℕ := 200
  maxFileBytesForDiff : ℕ := 256 * 1024
  maxTotalDiffBytes : ℕ := 1024 * 1024
  deriving DecidableEq

/-- What is known of a file. The content of a sensitive one is unavailable for that reason. -/
structure FileSnapshot where
  path : String
  root : String
  size : ℕ
  mtimeNs : ℤ
  sha256 : Option String
  binary : Bool := false
  sensitive : Bool := false
  text : Option String := none
  textPath : Option String := none
  contentUnavailableReason : Option DiffUnavailableReason := none
  hsensitive : sensitive = true → contentUnavailableReason = some .sensitive := by decide

structure WorkspaceSnapshot where
  files : Dict String FileSnapshot
  truncated : Bool := false

/-- What the file system shows of a file; what raises an `OSError` is `none`. -/
structure HostFile where
  virtualPath : String
  root : String
  /-- Size and time. -/
  stat : Option (ℕ × ℤ)
  /-- Whether it is binary by its suffix or its first bytes. -/
  looksBinary : Option Bool
  sha256 : String
  /-- Its text, if its bytes are one. -/
  content : Option (Option String)
  /-- The file its text is cached in, if there is a cache. -/
  textPath : Option String

/-- `_snapshot_file`; `sensitive` is `is_sensitive_workspace_path` of the path. -/
def snapshotFile (limits : WorkspaceChangeLimits) (sensitive shouldIncludeText : Bool)
    (f : HostFile) : Option FileSnapshot := do
  let (size, mtimeNs) ← f.stat
  if sensitive then
    some { path := f.virtualPath, root := f.root, size, mtimeNs, sha256 := none
           sensitive := true, contentUnavailableReason := some .sensitive }
  else
    let binary ← f.looksBinary
    let sha256 := if size ≤ limits.maxFileBytesForDiff then some f.sha256 else none
    if binary then
      some { path := f.virtualPath, root := f.root, size, mtimeNs, sha256, binary := true
             contentUnavailableReason := some .binary }
    else if limits.maxFileBytesForDiff < size then
      some { path := f.virtualPath, root := f.root, size, mtimeNs, sha256
             contentUnavailableReason := some .large }
    else if shouldIncludeText then
      match ← f.content with
      | none => some { path := f.virtualPath, root := f.root, size, mtimeNs, sha256, binary := true
                       contentUnavailableReason := some .binary }
      | some decoded =>
        match f.textPath with
        | some textPath =>
          some { path := f.virtualPath, root := f.root, size, mtimeNs, sha256
                 textPath := some textPath }
        | none => some { path := f.virtualPath, root := f.root, size, mtimeNs, sha256
                         text := some decoded }
    else some { path := f.virtualPath, root := f.root, size, mtimeNs, sha256 }

/-- **What the scanner makes** of a sensitive path has neither a hash nor a text, and says why. -/
theorem snapshotFile_sensitive {limits : WorkspaceChangeLimits} {shouldIncludeText : Bool}
    {f : HostFile} {snapshot : FileSnapshot}
    (h : snapshotFile limits true shouldIncludeText f = some snapshot) :
    snapshot.sensitive = true ∧ snapshot.contentUnavailableReason = some .sensitive ∧
      snapshot.sha256 = none ∧ snapshot.text = none ∧ snapshot.textPath = none := by
  obtain ⟨⟨size, mtimeNs⟩, -, hsnapshot⟩ := Option.bind_eq_some_iff.1 h
  cases hsnapshot
  exact ⟨rfl, rfl, rfl, rfl, rfl⟩

/-- A file with a text. -/
def textFile (text : String) : FileSnapshot :=
  { path := "/p", root := "workspace", size := text.utf8ByteSize, mtimeNs := 0, sha256 := none
    text := some text }

/-- A binary file of a size. -/
def binaryFile (size : ℕ) : FileSnapshot :=
  { path := "/p", root := "workspace", size := size, mtimeNs := 0, sha256 := none, binary := true
    contentUnavailableReason := some .binary }

/-! ### Diffs -/

abbrev Line := List Char

/-- A script between two texts, and what is shown of it: lines with ranges, and edits. All changes
are shown. -/
structure ShownScript (a b : List Line) where
  script : List (Edit Line)
  shown : List (Line ⊕ Edit Line)
  before_eq : before script = a
  after_eq : after script = b
  changes_eq : changes (shown.filterMap Sum.getRight?) = changes script

/-- A choice of a script between any two texts. -/
abbrev Differ := ∀ a b : List Line, ShownScript a b

/-- How a line with a range or an edit is printed. -/
@[grind =] def shownLine : Line ⊕ Edit Line → Line
  | .inl range => "@@ ".toList ++ range
  | .inr (.keep line) => ' ' :: line
  | .inr (.remove line) => '-' :: line
  | .inr (.insert line) => '+' :: line

/-- `difflib.unified_diff` with an empty `lineterm`: two header lines and the hunks, or nothing if
nothing changes. -/
def unifiedDiff (D : Differ) (a b : List Line) (fromfile tofile : Line) : List Line :=
  if changes (D a b).script = [] then []
  else ("--- ".toList ++ fromfile) :: ("+++ ".toList ++ tofile) :: (D a b).shown.map shownLine

/-- `line.startswith(start)`. -/
def startsWith (start : String) (line : Line) : Bool := start.toList.isPrefixOf line

/-- The loop body of `_count_diff_lines`. -/
def countDiffLine (counts : ℕ × ℕ) (line : Line) : ℕ × ℕ :=
  if startsWith "+++ " line || startsWith "--- " line then counts
  else if startsWith "+" line then (counts.1 + 1, counts.2)
  else if startsWith "-" line then (counts.1, counts.2 + 1)
  else counts

/-- `_count_diff_lines`: additions and deletions. -/
def countDiffLines (lines : List Line) : ℕ × ℕ := lines.foldl countDiffLine (0, 0)

/-- `"\n".join(lines)`. -/
def joinLines (lines : List Line) : String := String.ofList (['\n'].intercalate lines)

structure DiffResult where
  diff : String
  additions : ℕ
  deletions : ℕ
  diffTruncated : Bool
  reason : Option DiffUnavailableReason
  deriving DecidableEq

/-- `_diff_unavailable_reason`. -/
def diffUnavailableReason (beforeFile afterFile : Option FileSnapshot) :
    Option DiffUnavailableReason :=
  let reasons := [beforeFile, afterFile].reduceOption.map FileSnapshot.contentUnavailableReason
  [.sensitive, .binary, .large].find? fun preferred => some preferred ∈ reasons

variable (D : Differ) (readCached : String → Option String)

/-- `_snapshot_text`. -/
def snapshotText (file : Option FileSnapshot) : Option String :=
  match file with
  | none => some ""
  | some file =>
    match file.text with
    | some text => some text
    | none => (file.textPath.filter (· ≠ "")).bind readCached

/-- `_build_diff`. -/
@[grind =] def buildDiff (path : String) (beforeFile afterFile : Option FileSnapshot) (remainingBytes : ℕ) :
    DiffResult :=
  match diffUnavailableReason beforeFile afterFile with
  | some reason => ⟨"", 0, 0, false, some reason⟩
  | none =>
    match snapshotText readCached beforeFile, snapshotText readCached afterFile with
    | some beforeText, some afterText =>
      let lines := unifiedDiff D (splitlines beforeText.toList) (splitlines afterText.toList)
        ('a' :: path.toList) ('b' :: path.toList)
      let diff := joinLines lines
      let counts := countDiffLines lines
      if remainingBytes < diff.utf8ByteSize then ⟨"", counts.1, counts.2, true, some .truncated⟩
      else ⟨diff, counts.1, counts.2, false, none⟩
    | _, _ => ⟨"", 0, 0, false, none⟩

/-! ### The comparison -/

inductive WorkspaceChangeStatus where
  | created
  | modified
  | deleted
  deriving DecidableEq

structure WorkspaceFileChange where
  path : String
  root : String
  status : WorkspaceChangeStatus
  binary : Bool
  sensitive : Bool
  sizeBefore : Option ℕ
  sizeAfter : Option ℕ
  sha256Before : Option String
  sha256After : Option String
  diff : String
  diffTruncated : Bool
  diffUnavailableReason : Option DiffUnavailableReason
  additions : ℕ
  deletions : ℕ
  deriving DecidableEq

structure WorkspaceChangeSummary where
  created : ℕ := 0
  modified : ℕ := 0
  deleted : ℕ := 0
  additions : ℕ := 0
  deletions : ℕ := 0
  truncated : Bool := false
  deriving DecidableEq

structure WorkspaceChangeResult where
  summary : WorkspaceChangeSummary
  files : List WorkspaceFileChange
  limits : WorkspaceChangeLimits
  deriving DecidableEq

/-- `_status`. -/
def fileStatus (beforeFile afterFile : Option FileSnapshot) : WorkspaceChangeStatus :=
  match beforeFile, afterFile with
  | none, _ => .created
  | some _, none => .deleted
  | some _, some _ => .modified

/-- `_same_file`. -/
def sameFile (beforeFile afterFile : FileSnapshot) : Bool :=
  match beforeFile.sha256, afterFile.sha256 with
  | some hashBefore, some hashAfter => hashBefore = hashAfter
  | _, _ => beforeFile.size = afterFile.size && beforeFile.mtimeNs = afterFile.mtimeNs

/-- The file is there on both sides, and the same. -/
def unchanged (beforeFile afterFile : Option FileSnapshot) : Bool :=
  match beforeFile, afterFile with
  | some beforeFile, some afterFile => sameFile beforeFile afterFile
  | _, _ => false

/-- What the loop of `compare_snapshots` carries. -/
structure Totals where
  changes : List WorkspaceFileChange := []
  created : ℕ := 0
  modified : ℕ := 0
  deleted : ℕ := 0
  additions : ℕ := 0
  deletions : ℕ := 0
  totalDiffBytes : ℕ := 0
  truncated : Bool := false

/-- An entry of the list. -/
def fileChange (path : String) (beforeFile afterFile : Option FileSnapshot) (d : DiffResult) :
    WorkspaceFileChange where
  path := path
  root := ((afterFile <|> beforeFile).map FileSnapshot.root).getD ""
  status := fileStatus beforeFile afterFile
  binary := ((afterFile <|> beforeFile).map FileSnapshot.binary).getD false
  sensitive := ((afterFile <|> beforeFile).map FileSnapshot.sensitive).getD false
  sizeBefore := beforeFile.map FileSnapshot.size
  sizeAfter := afterFile.map FileSnapshot.size
  sha256Before := beforeFile.bind FileSnapshot.sha256
  sha256After := afterFile.bind FileSnapshot.sha256
  diff := d.diff
  diffTruncated := d.diffTruncated
  diffUnavailableReason := d.reason
  additions := d.additions
  deletions := d.deletions

/-- The loop body of `compare_snapshots`. -/
def comparePath (before after : WorkspaceSnapshot) (limits : WorkspaceChangeLimits) (t : Totals)
    (path : String) : Totals :=
  let beforeFile := before.files.lookup path
  let afterFile := after.files.lookup path
  if unchanged beforeFile afterFile then t
  else
    let d := buildDiff D readCached path beforeFile afterFile
      (limits.maxTotalDiffBytes - t.totalDiffBytes)
    let status := fileStatus beforeFile afterFile
    let listed := t.changes.length < limits.maxFiles
    { changes := if listed then t.changes ++ [fileChange path beforeFile afterFile d] else t.changes
      created := if status = .created then t.created + 1 else t.created
      modified := if status = .modified then t.modified + 1 else t.modified
      deleted := if status = .deleted then t.deleted + 1 else t.deleted
      additions := t.additions + d.additions
      deletions := t.deletions + d.deletions
      totalDiffBytes := t.totalDiffBytes + d.diff.utf8ByteSize
      truncated := t.truncated || d.diffTruncated || decide (d.reason = some .large) ||
        decide (d.reason = some .truncated) || !decide listed }

/-- `sorted(set(before.files) | set(after.files))`. -/
def allPaths (before after : WorkspaceSnapshot) : List String :=
  (before.files.keys ∪ after.files.keys).sort (· ≤ ·)

/-- `compare_snapshots`. -/
def compareSnapshots (before after : WorkspaceSnapshot) (limits : WorkspaceChangeLimits) :
    WorkspaceChangeResult :=
  let t := (allPaths before after).foldl (comparePath D readCached before after limits)
    { truncated := before.truncated || after.truncated }
  ⟨⟨t.created, t.modified, t.deleted, t.additions, t.deletions, t.truncated⟩, t.changes, limits⟩

end AfterFlow.WorkspaceChanges
