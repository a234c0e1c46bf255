import AfterFlow.WorkspaceChanges.Snapshots

/-!
# Line counts

`_count_diff_lines` tells the header lines of a diff by their text, `+++ ` or `--- `, and not by
their place. An inserted line that starts with `++ ` is printed with `+++ `, and a removed one that
starts with `-- ` with `--- `; these are not counted. All others are.

## Main results

* `diff_counts_iff` — right iff no changed line looks like a header
-/

namespace AfterFlow.WorkspaceChanges

open Diffs PyStr

/-- The line is taken for a header. -/
def isHeader (line : Line) : Bool := startsWith "+++ " line || startsWith "--- " line

/-- The line is counted as an addition. -/
def isAddition (line : Line) : Bool := !isHeader line && startsWith "+" line

/-- The line is counted as a deletion. -/
def isDeletion (line : Line) : Bool := !isHeader line && startsWith "-" line

theorem not_minus_of_plus {line : Line} (h : startsWith "+" line = true) :
    startsWith "-" line = false := by
  cases line with
  | nil => exact absurd h (by decide)
  | cons c line =>
    obtain rfl : '+' = c := by simpa [startsWith] using h
    rfl

theorem countDiffLine_eq (counts : ℕ × ℕ) (line : Line) : countDiffLine counts line =
    (counts.1 + if isAddition line then 1 else 0, counts.2 + if isDeletion line then 1 else 0) := by
  rw [countDiffLine, ← isHeader, isAddition, isDeletion]
  cases isHeader line with
  | true => simp
  | false =>
    cases hplus : startsWith "+" line with
    | true => simp [not_minus_of_plus hplus]
    | false => cases startsWith "-" line <;> simp

/-- **The counts** are the numbers of lines that are counted. -/
theorem countDiffLines_eq (lines : List Line) :
    countDiffLines lines = (lines.countP isAddition, lines.countP isDeletion) := by
  have hfold : ∀ (lines : List Line) (counts : ℕ × ℕ), lines.foldl countDiffLine counts =
      (counts.1 + lines.countP isAddition, counts.2 + lines.countP isDeletion) := by
    intro lines
    induction lines with
    | nil =>
      intro counts
      rfl
    | cons line lines ih =>
      intro counts
      rw [List.foldl_cons, ih, countDiffLine_eq, List.countP_cons, List.countP_cons]
      simp only [Prod.mk.injEq]
      omega
  rw [countDiffLines, hfold]
  simp

/-! ### Printed lines -/

theorem isAddition_insert (line : Line) : isAddition ('+' :: line) = !startsWith "++ " line := by
  have hheader : isHeader ('+' :: line) = (startsWith "++ " line || false) := rfl
  have hplus : startsWith "+" ('+' :: line) = true := rfl
  rw [isAddition, hheader, hplus, Bool.or_false, Bool.and_true]

theorem isDeletion_remove (line : Line) : isDeletion ('-' :: line) = !startsWith "-- " line := by
  have hheader : isHeader ('-' :: line) = (false || startsWith "-- " line) := rfl
  have hminus : startsWith "-" ('-' :: line) = true := rfl
  rw [isDeletion, hheader, hminus, Bool.false_or, Bool.and_true]

/-- A printed line is counted as an addition if it shows the insertion of a line that does not make
it look like a header. -/
theorem isAddition_shownLine (x : Line ⊕ Edit Line) : isAddition (shownLine x) =
    ((x.getRight?.bind Edit.inserted?).any fun line => !startsWith "++ " line) := by
  rcases x with range | (line | line | line)
  · rfl
  · rfl
  · rw [shownLine, isAddition]
    exact Bool.and_false _
  · exact isAddition_insert line

theorem isDeletion_shownLine (x : Line ⊕ Edit Line) : isDeletion (shownLine x) =
    ((x.getRight?.bind Edit.removed?).any fun line => !startsWith "-- " line) := by
  rcases x with range | (line | line | line)
  · rfl
  · rfl
  · exact isDeletion_remove line
  · rw [shownLine, isDeletion]
    exact Bool.and_false _

theorem countP_filterMap_any {α β : Type} (f : α → Option β) (p : β → Bool) (l : List α) :
    (l.countP fun a => (f a).any p) = (l.filterMap f).countP p := by
  induction l with
  | nil => rfl
  | cons a l ih =>
    cases h : f a with
    | none => simp [h, ih]
    | some b => simp [h, ih, List.countP_cons]

variable {a b : List Line} {fromfile tofile : Line}

/-- **What is counted in a printed diff**: the inserted lines that do not start with `++ ` and the
removed ones that do not start with `-- `. -/
theorem countDiffLines_unifiedDiff (D : Differ) :
    countDiffLines (unifiedDiff D a b fromfile tofile) =
      ((inserted (D a b).script).countP fun line => !startsWith "++ " line,
        (removed (D a b).script).countP fun line => !startsWith "-- " line) := by
  have hinserted := congrArg inserted (D a b).changes_eq
  have hremoved := congrArg removed (D a b).changes_eq
  rw [inserted_changes, inserted_changes] at hinserted
  rw [removed_changes, removed_changes] at hremoved
  rw [countDiffLines_eq, unifiedDiff]
  split
  · rename_i hnone
    rw [← inserted_changes, ← removed_changes, hnone]
    rfl
  · -- the two header lines are not counted
    have haddition : ∀ lines, (("--- ".toList ++ fromfile) :: ("+++ ".toList ++ tofile) ::
        lines).countP isAddition = lines.countP isAddition := fun _ => rfl
    have hdeletion : ∀ lines, (("--- ".toList ++ fromfile) :: ("+++ ".toList ++ tofile) ::
        lines).countP isDeletion = lines.countP isDeletion := fun _ => rfl
    rw [haddition, hdeletion, List.countP_map, List.countP_map, ← hinserted, ← hremoved, inserted,
      removed, List.filterMap_filterMap, List.filterMap_filterMap, ← countP_filterMap_any,
      ← countP_filterMap_any]
    congr 1
    · exact List.countP_congr fun x _ => by rw [Function.comp_apply, isAddition_shownLine]
    · exact List.countP_congr fun x _ => by rw [Function.comp_apply, isDeletion_shownLine]

/-! ### The counts of a file -/

variable {D : Differ} {readCached : String → Option String} {path beforeText afterText : String}
  {beforeFile afterFile : Option FileSnapshot} {remainingBytes : ℕ}

theorem counts_buildDiff (hreason : diffUnavailableReason beforeFile afterFile = none)
    (hbefore : snapshotText readCached beforeFile = some beforeText)
    (hafter : snapshotText readCached afterFile = some afterText) :
    let d := buildDiff D readCached path beforeFile afterFile remainingBytes
    (d.additions, d.deletions) =
      countDiffLines (unifiedDiff D (splitlines beforeText.toList) (splitlines afterText.toList)
        ('a' :: path.toList) ('b' :: path.toList)) := by
  intro d
  have hd : d = buildDiff D readCached path beforeFile afterFile remainingBytes := rfl
  rw [hd, buildDiff, hreason, hbefore, hafter]
  simp only
  split <;> rfl

/-- **Line counts are right exactly if no changed line looks like a header**: for any two texts that
are compared, and any right script between them, the additions and deletions are the numbers of
inserted and removed lines, and their difference that of the numbers of lines, iff no inserted line
starts with `++ ` and no removed line with `-- `. -/
theorem diff_counts_iff (hreason : diffUnavailableReason beforeFile afterFile = none)
    (hbefore : snapshotText readCached beforeFile = some beforeText)
    (hafter : snapshotText readCached afterFile = some afterText) :
    let d := buildDiff D readCached path beforeFile afterFile remainingBytes
    let linesBefore := splitlines beforeText.toList
    let linesAfter := splitlines afterText.toList
    let script := (D linesBefore linesAfter).script
    ((d.additions : ℤ) - d.deletions = linesAfter.length - linesBefore.length ∧
      d.additions = (inserted script).length ∧ d.deletions = (removed script).length) ↔
      (∀ line ∈ inserted script, startsWith "++ " line = false) ∧
        ∀ line ∈ removed script, startsWith "-- " line = false := by
  intro d linesBefore linesAfter script
  have hcounts : (d.additions, d.deletions) = _ := counts_buildDiff hreason hbefore hafter
  rw [countDiffLines_unifiedDiff, Prod.mk.injEq] at hcounts
  obtain ⟨hadditions, hdeletions⟩ := hcounts
  have hlength := length_after script
  rw [(D linesBefore linesAfter).before_eq, (D linesBefore linesAfter).after_eq] at hlength
  have hall : d.additions = (inserted script).length ↔
      ∀ line ∈ inserted script, startsWith "++ " line = false := by
    rw [hadditions, List.countP_eq_length]
    simp only [Bool.not_eq_true']
    rfl
  have hall' : d.deletions = (removed script).length ↔
      ∀ line ∈ removed script, startsWith "-- " line = false := by
    rw [hdeletions, List.countP_eq_length]
    simp only [Bool.not_eq_true']
    rfl
  rw [← hall, ← hall']
  constructor
  · rintro ⟨-, hinserted, hremoved⟩
    exact ⟨hinserted, hremoved⟩
  · rintro ⟨hinserted, hremoved⟩
    refine ⟨?_, hinserted, hremoved⟩
    rw [hinserted, hremoved]
    omega

/-- The differ that removes all lines and inserts all others, in one hunk, with the range of a file
that is created with one line. -/
def rewriteAll : Differ := fun a b =>
  { script := a.map .remove ++ b.map .insert
    shown := .inl "-0,0 +1 @@".toList :: (a.map Edit.remove ++ b.map Edit.insert).map .inr
    before_eq := by simp [before, List.filterMap_map, Function.comp_def, Edit.before?]
    after_eq := by simp [after, List.filterMap_map, Function.comp_def, Edit.after?]
    changes_eq := by
      rw [List.filterMap_cons, List.filterMap_map]
      exact congrArg changes List.filterMap_some }

/-- A file with one line is created. -/
theorem diff_counts_iff_created :
    let d := buildDiff rewriteAll (fun _ => none) "/p" none (some (textFile "x")) 100
    (d.additions : ℤ) - d.deletions = 1 - 0 ∧ d.additions = 1 ∧ d.deletions = 0 :=
  (@diff_counts_iff rewriteAll (fun _ => none) "/p" "" "x" none (some (textFile "x")) 100
    rfl rfl rfl).2 ⟨by decide, by decide⟩

/-- The line of the file that is created starts with two plus signs and a blank. -/
theorem diff_counts_plus :
    let d := buildDiff rewriteAll (fun _ => none) "/p" none (some (textFile "++ x")) 100
    let script := (rewriteAll (splitlines "".toList) (splitlines "++ x".toList)).script
    d.additions = 0 ∧ (inserted script).length = 1 ∧
      ¬(d.additions : ℤ) - d.deletions =
        (splitlines "++ x".toList).length - (splitlines "".toList).length := by
  decide

end AfterFlow.WorkspaceChanges
