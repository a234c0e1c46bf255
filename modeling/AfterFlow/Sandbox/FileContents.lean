import AfterFlow.Excerpt
import AfterFlow.Sandbox.Masking

/-!
# Texts on their way in and out of files

A local sandbox writes a text with the container paths in it resolved, and when it reads a file that
it has written it gives the container paths back. Any file is read with line ends made newlines. What
`\w` takes is a parameter.
-/

namespace AfterFlow.Sandbox

open Excerpt Substitution

/-! ### Lines -/

/-- The line ends of a file are newlines, when it is read as text. -/
@[grind =] def universalNewlines : List Char → List Char
  | [] => []
  | '\r' :: '\n' :: rest => '\n' :: universalNewlines rest
  | c :: rest => (if c = '\r' then '\n' else c) :: universalNewlines rest

theorem no_return_universalNewlines (text : List Char) : '\r' ∉ universalNewlines text := by
  fun_induction universalNewlines text with
  | case1 => exact List.not_mem_nil
  | case2 rest ih => simpa using ih
  | case3 c rest _ ih =>
    intro h
    rcases List.mem_cons.1 h with h | h
    · split at h
      · exact absurd h (by decide)
      · exact absurd h.symm ‹_›
    · exact ih h

/-- The lines that a file opened as text yields, with their ends. -/
@[grind =] def fileLines : List Char → List (List Char)
  | [] => []
  | c :: rest =>
    if c = '\n' then [c] :: fileLines rest
    else
      match fileLines rest with
      | [] => [[c]]
      | line :: lines => (c :: line) :: lines

/-! ### Paths -/

/-- What a pattern takes behind a container path: nothing, or from a slash to the end of the path. -/
def pathTail (rest : List Char) : List Char :=
  if rest.head? = some '/' then rest.takeWhile fun c => !isPathEnd c else []

/-- A character is left as it is, and a container path is resolved. -/
def resolveStep (mappings : List PathMapping) (part : Char ⊕ List Char)
    (rest : Except PathError (List Char)) : Except PathError (List Char) :=
  match part with
  | .inl c => rest.map (c :: ·)
  | .inr matchedPath => do
    let resolved ← resolvePath mappings matchedPath
    rest.map (resolved.map toForwardSlash ++ ·)

section

variable (isWord : Char → Bool) (mappings : List PathMapping)

/-- Whether a path ends before a text, in a file or an output. -/
def isContentBoundary (rest : List Char) : Bool :=
  rest.head?.all fun c => c == '/' || !(isWord c || c == '.' || c == '-')

/-- `_content_pattern`: a container path, the longest one first, up to the end of the path. -/
def contentMatch (text : List Char) : Option (ℕ × List Char) :=
  let sorted := mappings.insertionSort fun m m' => m'.containerPath.length ≤ m.containerPath.length
  sorted.findSome? fun m =>
    (stripBy (· == ·) m.containerPath text).bind fun rest =>
      if isContentBoundary isWord rest then
        let n := m.containerPath.length + (pathTail rest).length
        some (n, text.take n)
      else none

/-- `_resolve_paths_in_content`. -/
def resolvePathsInContent (content : List Char) : Except PathError (List Char) :=
  (scan (contentMatch isWord mappings) 0 content).foldr (resolveStep mappings) (.ok [])

/-- What the reverse pattern of a mapping finds, and what comes in its place. -/
def reverseMatch (m : PathMapping) (text : List Char) : Option (ℕ × List Char) :=
  (stripBy (· == ·) m.root text).bind fun rest =>
    if isContentBoundary isWord rest then
      let tail := if rest.head?.any isSeparator then rest.takeWhile fun c => !isPathEnd c else []
      let n := m.root.length + tail.length
      some (n, reverseResolvePath mappings (text.take n))
    else none

/-- `_reverse_resolve_paths_in_output`. -/
def reversePathsInOutput (output : List Char) : List Char :=
  (byLocalSpecificity mappings).foldl
    (fun result m => subst (reverseMatch isWord mappings m) result) output

/-- Whether the reverse pattern of a mapping finds anything in the text. -/
def hasHostPath (text : List Char) : Bool :=
  mappings.any fun m => text.tails.any fun rest => (reverseMatch isWord mappings m rest).isSome

variable {isWord mappings} in
/-- **A text without host paths** is given back as it is. -/
theorem reversePathsInOutput_of_plain {text : List Char}
    (h : hasHostPath isWord mappings text = false) :
    reversePathsInOutput isWord mappings text = text := by
  have hnone : ∀ m ∈ byLocalSpecificity mappings,
      subst (reverseMatch isWord mappings m) text = text := by
    intro m hm
    refine subst_of_none fun rest _ hrest => ?_
    have hmem := (List.perm_insertionSort _ _).mem_iff.1 hm
    simp only [hasHostPath, List.any_eq_false, List.mem_tails, Bool.not_eq_true,
      Option.isSome_eq_false_iff, Option.isNone_iff_eq_none] at h
    exact h m hmem rest hrest
  rw [reversePathsInOutput]
  generalize byLocalSpecificity mappings = sorted at hnone
  induction sorted with
  | nil => rfl
  | cons m sorted ih =>
    rw [List.foldl_cons, hnone m List.mem_cons_self]
    exact ih fun m' hm' => hnone m' (List.mem_cons_of_mem m hm')

/-! ### Reading -/

/-- A file that can be read as text, and whether its path is in `_agent_written_paths`. -/
structure TextFile where
  text : List Char
  agentWritten : Bool
  deriving DecidableEq

/-- `LocalSandbox.read_file`. -/
def readFile (f : TextFile) : List Char :=
  let content := universalNewlines f.text
  if f.agentWritten then reversePathsInOutput isWord mappings content else content

end

def readMarker (kept total : ℕ) : List Char :=
  fillIn ["\n... [truncated: showing first ", " of ",
    " chars. Use start_line/end_line to read a specific range] ..."] [digits kept, digits total]

/-- `_truncate_read_file_output`. -/
def truncateReadFileOutput (output : List Char) (maxChars : ℕ) : List Char :=
  if maxChars = 0 then output
  else if output.length ≤ maxChars then output
  else
    let total := output.length
    let kept := maxChars - (readMarker total total).length
    if kept = 0 then output.take maxChars
    else output.take kept ++ readMarker kept total

/-- `read_file` of one line, for a file with the content. -/
def readLineTool (content : List Char) (maxChars n : ℕ) : List Char :=
  if content = [] then "(empty)".toList
  else
    truncateReadFileOutput (['\n'].intercalate (((PyStr.splitlines content).take n).drop (n - 1)))
      maxChars

end AfterFlow.Sandbox
