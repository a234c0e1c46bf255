import AfterFlow.Sandbox.FileContents
import AfterFlow.Sandbox.Replacing

/-!
# Edits of a file by `str_replace`

`str_replace` reads a file as it is shown, replaces a text in what is shown and writes all of it
back. So what is not replaced goes through the reading and the writing as well: line ends become
newlines, and container paths become host paths. It also replaces an empty text, and the first of
several occurrences, and it has nothing against an empty file.

A file and what is shown of it are compared piece by piece: a piece is a character, or the directory
of a mapping, which is a host path in the file and a container path in what is shown. An edit goes
through if the searches for paths find the pieces of the new text that are directories and nothing
else, and leave the rest of every path as it is.

How the write ends is a parameter: it may be refused, and it may raise when the file was opened.

## Main results

* `AreFound.resolvePathsInContent`, `AreFound.readFile` — pieces that are found are written as they
  are in the file, and read as they are shown
* `str_replace_edits` — the tool does what is expected in the calls that fit, and in no other where
  the new text is plain
-/

namespace AfterFlow.Sandbox

open Substitution

/-! ### The tool -/

structure StrReplaceCall where
  oldStr : List Char
  newStr : List Char
  replaceAll : Bool

/-- A file that cannot be read as text, or one that can. -/
inductive HostFile where
  | unreadable
  | readable (f : TextFile)
  deriving DecidableEq

/-- How a write ends. -/
inductive WriteOutcome where
  /-- It raises before the file is opened: the mount is read-only, or there is no directory. -/
  | refused
  /-- It raises when the file was opened and emptied. What is in it then may be no text. -/
  | cut (left : Option (List Char))
  | done

inductive Reply where
  | ok
  | error
  deriving DecidableEq

section

variable (isWord : Char → Bool) (mappings : List PathMapping)

/-- `LocalSandbox.write_file`, of a file that is there. -/
@[grind =] def writeBack (outcome : WriteOutcome) (f : TextFile) (content : List Char) : Reply × HostFile :=
  match outcome with
  | .refused => (.error, .readable f)
  | .cut left =>
    match resolvePathsInContent isWord mappings content with
    | .error _ => (.error, .readable f)
    | .ok _ => (.error, left.elim .unreadable fun text => .readable ⟨text, f.agentWritten⟩)
  | .done =>
    match resolvePathsInContent isWord mappings content with
    | .error _ => (.error, .readable f)
    | .ok text => (.ok, .readable ⟨text, true⟩)

/-- `str_replace_tool`, of a path that it accepts. -/
def strReplace (outcome : WriteOutcome) (file : HostFile) (call : StrReplaceCall) :
    Reply × HostFile :=
  match file with
  | .unreadable => (.error, .unreadable)
  | .readable f =>
    let content := readFile isWord mappings f
    if content = [] then (.ok, .readable f)
    else if !containsText call.oldStr content then (.error, .readable f)
    else
      writeBack isWord mappings outcome f
        (replaceText content call.oldStr call.newStr call.replaceAll)

end

/-! ### Pieces -/

/-- A piece of a text: a character, or the directory of a mapping. -/
inductive Piece where
  | char (c : Char)
  | root (m : PathMapping)
  deriving DecidableEq

namespace Piece

/-- The piece in the file. -/
def host : Piece → List Char
  | .char c => [c]
  | .root m => m.root

/-- The piece as it is shown. -/
def shown : Piece → List Char
  | .char c => [c]
  | .root m => m.containerPath

def isRoot : Piece → Bool
  | .char _ => false
  | .root _ => true

/-- The piece while the file is read, when the directories of these mappings are given back. -/
def between (done : List PathMapping) : Piece → List Char
  | .char c => [c]
  | .root m => if m ∈ done then m.containerPath else m.root

/-- The piece is given back by the mapping. -/
def isDue (done : List PathMapping) (m : PathMapping) (p : Piece) : Bool :=
  p = .root m && !done.contains m

end Piece

section

variable (isWord : Char → Bool) (mappings : List PathMapping)

/-- The path at the piece is resolved to the one at its directory. -/
def isResolved (p : Piece) (tail : List Char) : Bool :=
  match resolvePath mappings (p.shown ++ tail) with
  | .ok resolved => resolved.map toForwardSlash = p.host ++ tail
  | .error _ => false

/-- The path at the directory is given back as the one at the piece. -/
def isGivenBack (p : Piece) (tail : List Char) : Bool :=
  reverseResolvePath mappings (p.host ++ tail) = p.shown ++ tail

/-- One mapping after the other finds its own directories among the pieces. -/
@[grind =] def areGivenBack (ps : List Piece) : (done rest : List PathMapping) → Bool
  | _, [] => true
  | done, m :: rest =>
    reads (reverseMatch isWord mappings m) (Piece.between done) (Piece.isDue done m)
        (isGivenBack mappings) 0 ps &&
      areGivenBack ps (m :: done) rest

/-- **The pieces are found**: when the text that is shown is written, its container paths are the
pieces that are directories and no others, and each of them is resolved to its directory; and so the
other way around when the file is read. -/
structure AreFound (ps : List Piece) : Prop where
  lines : '\r' ∉ ps.flatMap Piece.host
  resolved : reads (contentMatch isWord mappings) Piece.shown Piece.isRoot (isResolved mappings) 0 ps
    = true
  givenBack : areGivenBack isWord mappings ps [] (byLocalSpecificity mappings) = true

end

section

variable {isWord : Char → Bool} {mappings : List PathMapping} {ps : List Piece} {n : ℕ}
  {text found : List Char}

theorem contentMatch_eq_some (h : contentMatch isWord mappings text = some (n, found)) :
    found = text.take n := by
  obtain ⟨m, -, hm⟩ := List.exists_of_findSome?_eq_some h
  obtain ⟨rest, -, hrest⟩ := Option.bind_eq_some_iff.1 hm
  split at hrest
  · cases hrest
    rfl
  · cases hrest

theorem reverseMatch_eq_some {m : PathMapping}
    (h : reverseMatch isWord mappings m text = some (n, found)) :
    found = reverseResolvePath mappings (text.take n) := by
  obtain ⟨rest, -, hrest⟩ := Option.bind_eq_some_iff.1 h
  split at hrest
  · cases hrest
    rfl
  · cases hrest

theorem take_append_of_le {l rest : List Char} (h : l.length ≤ n) :
    (l ++ rest).take n = l ++ rest.take (n - l.length) := by
  rw [List.take_append, List.take_of_length_le h]

/-- **What is written** is the file of the pieces. -/
theorem AreFound.resolvePathsInContent (h : AreFound isWord mappings ps) :
    resolvePathsInContent isWord mappings (ps.flatMap Piece.shown) = .ok (ps.flatMap Piece.host) := by
  have hkeep : ∀ p : Piece, p.isRoot = false → p.host = p.shown := by
    intro p hp
    cases p with
    | char c => rfl
    | root m => cases hp
  have hwritten : (scan (contentMatch isWord mappings) 0 ((ps.flatMap Piece.shown).drop 0)).foldr
      (resolveStep mappings) (Except.ok []) = Except.ok ((ps.flatMap Piece.host).drop 0) := by
    refine foldr_scan_of_reads hkeep (fun _ _ => rfl) ?_ h.resolved
    intro p rest n found t _ hfind hle hgood
    rw [contentMatch_eq_some hfind, take_append_of_le hle, resolveStep]
    rw [isResolved] at hgood
    split at hgood
    · rename_i resolved hresolved
      rw [hresolved, ← List.append_assoc, ← of_decide_eq_true hgood]
      rfl
    · cases hgood
  exact hwritten

theorem Piece.between_of_not_isDue {done : List PathMapping} {m : PathMapping} {p : Piece}
    (h : p.isDue done m = false) : p.between (m :: done) = p.between done := by
  cases p with
  | char c => rfl
  | root m' =>
    by_cases hm : m' = m
    · subst hm
      have hdone : m' ∈ done := by simpa [Piece.isDue] using h
      rw [between, between, if_pos hdone, if_pos (List.mem_cons_of_mem _ hdone)]
    · simp only [between, List.mem_cons, hm, false_or]

theorem Piece.isDue_iff {done : List PathMapping} {m : PathMapping} {p : Piece} :
    p.isDue done m = true ↔ p = .root m ∧ m ∉ done := by
  simp [Piece.isDue]

/-- A mapping gives back its own directories. -/
theorem foldl_of_areGivenBack {done rest : List PathMapping}
    (h : areGivenBack isWord mappings ps done rest = true) :
    rest.foldl (fun result m => subst (reverseMatch isWord mappings m) result)
        (ps.flatMap (Piece.between done)) = ps.flatMap (Piece.between (rest.reverse ++ done)) := by
  induction rest generalizing done with
  | nil => rfl
  | cons m rest ih =>
    rw [areGivenBack, Bool.and_eq_true] at h
    have hpass : subst (reverseMatch isWord mappings m) (ps.flatMap (Piece.between done)) =
        ps.flatMap (Piece.between (m :: done)) := by
      refine subst_of_reads (fun p hp => Piece.between_of_not_isDue hp) ?_ h.1
      intro p rest n r hdue hfind hle hgood
      obtain ⟨rfl, hm⟩ := Piece.isDue_iff.1 hdue
      have hhost : (Piece.root m).between done = m.root := if_neg hm
      have hshown : (Piece.root m).between (m :: done) = m.containerPath := if_pos List.mem_cons_self
      rw [hhost] at hle hgood hfind
      rw [reverseMatch_eq_some hfind, take_append_of_le hle, hhost, hshown]
      exact of_decide_eq_true hgood
    rw [List.foldl_cons, hpass, ih h.2, List.reverse_cons, List.append_assoc]
    rfl

theorem universalNewlines_of_no_return {text : List Char} (h : '\r' ∉ text) : universalNewlines text = text := by
  fun_induction universalNewlines text with
  | case1 => rfl
  | case2 rest => exact absurd List.mem_cons_self h
  | case3 c rest _ ih =>
    rw [List.mem_cons, not_or] at h
    rw [if_neg (Ne.symm h.1), ih h.2]

/-- **What is read** is what is shown of the pieces. -/
theorem AreFound.readFile (h : AreFound isWord mappings ps) (hps : ∀ m, .root m ∈ ps → m ∈ mappings) :
    readFile isWord mappings ⟨ps.flatMap Piece.host, true⟩ = ps.flatMap Piece.shown := by
  have hbefore : ps.flatMap Piece.host = ps.flatMap (Piece.between []) :=
    congrArg (ps.flatMap ·) (funext fun p => by cases p <;> simp [Piece.host, Piece.between])
  have hafter : ps.flatMap (Piece.between ((byLocalSpecificity mappings).reverse ++ [])) =
      ps.flatMap Piece.shown := by
    refine List.flatMap_congr fun p hp => ?_
    cases p with
    | char c => rfl
    | root m =>
      have hm : m ∈ byLocalSpecificity mappings := (List.mem_insertionSort _).2 (hps m hp)
      rw [Piece.between, if_pos (by simpa using hm)]
      rfl
  rw [Sandbox.readFile, if_pos rfl, universalNewlines_of_no_return h.lines, hbefore, reversePathsInOutput,
    foldl_of_areGivenBack h.givenBack, hafter]

end

/-! ### What is expected -/

/-- A text occurs in another at one place only. -/
def OccursOnce (old content : List Char) : Prop :=
  ∃ before after, content = before ++ (old ++ after) ∧
    ∀ before' after', content = before' ++ (old ++ after') → before' = before

/-- Where a text starts at one position only, it occurs once. -/
theorem occursOnce_of_drop {old content : List Char} {n : ℕ} (h : old <+: content.drop n)
    (honly : ∀ k ≤ content.length, old <+: content.drop k → k = n) : OccursOnce old content := by
  obtain ⟨after, hafter⟩ := h
  refine ⟨content.take n, after, by rw [hafter, List.take_append_drop], fun before' after' heq => ?_⟩
  have hlength : before'.length = n := by
    refine honly _ ?_ ?_
    · rw [heq, List.length_append]
      exact Nat.le_add_right _ _
    · rw [heq, List.drop_left]
      exact List.prefix_append _ _
  rw [← hlength, heq, List.take_left]

/-- What an edit does to a part of the file: pieces that are replaced, as their text is in the file,
the pieces in their place, and those that follow. -/
structure HostEdit where
  text : List Char
  replaced : List Piece
  put : List Piece
  following : List Piece

/-- The pieces of the text before. -/
def piecesBefore (start : List Piece) (edits : List HostEdit) : List Piece :=
  start ++ edits.flatMap fun e => e.replaced ++ e.following

/-- The pieces of the text after. -/
def piecesAfter (start : List Piece) (edits : List HostEdit) : List Piece :=
  start ++ edits.flatMap fun e => e.put ++ e.following

section

variable (isWord : Char → Bool) (mappings : List PathMapping)

/-- The new text that is to be shown. -/
def newContent (f : TextFile) (call : StrReplaceCall) : List Char :=
  replaceText (readFile isWord mappings f) call.oldStr call.newStr call.replaceAll

/-- **The edits are those that were asked for**: the pieces are the file and what is shown of it, but
for line ends within what is replaced, what is replaced is shown as the old text, and what comes in
its place as the new one. -/
structure AreAsked (f : TextFile) (call : StrReplaceCall) (start : List Piece)
    (edits : List HostEdit) : Prop where
  text : f.text = start.flatMap Piece.host ++
    edits.flatMap fun e => e.text ++ e.following.flatMap Piece.host
  lines : ∀ e ∈ edits, universalNewlines e.text = e.replaced.flatMap Piece.host
  old : ∀ e ∈ edits, e.replaced.flatMap Piece.shown = call.oldStr
  new : ∀ e ∈ edits, e.put.flatMap Piece.shown = call.newStr
  before : readFile isWord mappings f = (piecesBefore start edits).flatMap Piece.shown
  after : newContent isWord mappings f call = (piecesAfter start edits).flatMap Piece.shown
  mapped : ∀ m, .root m ∈ piecesBefore start edits ++ piecesAfter start edits → m ∈ mappings

/-- What is expected of a call. -/
structure Edits (f : TextFile) (call : StrReplaceCall) (result : Reply × HostFile) : Prop where
  /-- It succeeds only if the text is not empty and occurs, and only once unless all are replaced. -/
  asked : result.1 = .ok → call.oldStr ≠ [] ∧
    call.oldStr <:+: readFile isWord mappings f ∧
    (call.replaceAll = false → OccursOnce call.oldStr (readFile isWord mappings f))
  /-- Then the file is as it was but for what is replaced, -/
  kept : result.1 = .ok → ∃ start edits, AreAsked isWord mappings f call start edits ∧
    ∃ written, result.2 = .readable ⟨(piecesAfter start edits).flatMap Piece.host, written⟩
  /-- and the new text is shown. -/
  shown : result.1 = .ok → ∃ f', result.2 = .readable f' ∧
    readFile isWord mappings f' = newContent isWord mappings f call
  /-- After an error the file is as it was. -/
  unchanged : result.1 = .error → result.2 = .readable f

/-! ### The calls that keep to it -/

/-- The new text has a container path that leaves its directory. -/
def LeavesDirectory (f : TextFile) (call : StrReplaceCall) : Prop :=
  ∃ e, resolvePathsInContent isWord mappings (newContent isWord mappings f call) = .error e

/-- The write is refused or leaves the file as it was, or the call asks for one edit and the pieces
of the new text are found. -/
def WriteFits (outcome : WriteOutcome) (f : TextFile) (call : StrReplaceCall) : Prop :=
  match outcome with
  | .refused => True
  | .cut left => left = some f.text
  | .done => call.oldStr ≠ [] ∧
      (call.replaceAll = false → OccursOnce call.oldStr (readFile isWord mappings f)) ∧
      ∃ start edits, AreAsked isWord mappings f call start edits ∧
        AreFound isWord mappings (piecesAfter start edits)

/-- A text without directories of mappings. -/
structure IsPlain (text : List Char) : Prop where
  container : ∀ m ∈ mappings, ¬m.containerPath <:+: text
  root : ∀ m ∈ mappings, ¬m.root <:+: text
  root_lines : ∀ m ∈ mappings, ¬m.root <:+: universalNewlines text

/-- The file is not shown empty, and the text does not occur in it, or the new one cannot be written,
or the write fits. -/
def EditFits (outcome : WriteOutcome) (f : TextFile) (call : StrReplaceCall) : Prop :=
  readFile isWord mappings f ≠ [] ∧
    (call.oldStr <:+: readFile isWord mappings f →
      LeavesDirectory isWord mappings f call ∨ WriteFits isWord mappings outcome f call)

end

variable {isWord : Char → Bool} {mappings : List PathMapping} {outcome : WriteOutcome}
  {f : TextFile} {call : StrReplaceCall} {text : List Char}

/-! ### Plain texts -/

theorem infix_of_stripBy {v rest : List Char} (h : stripBy (· == ·) v text = some rest) :
    v <:+: text := by
  suffices hprefix : text = v ++ rest from hprefix ▸ (List.prefix_append v rest).isInfix
  induction v generalizing text with
  | nil => exact Option.some.inj h
  | cons c v ih =>
    cases text with
    | nil => cases h
    | cons c' text =>
      rw [stripBy] at h
      split at h
      · rename_i hc
        rw [beq_iff_eq.1 hc, ih h, List.cons_append]
      · cases h

theorem contentMatch_of_plain (h : ∀ m ∈ mappings, ¬m.containerPath <:+: text) :
    contentMatch isWord mappings text = none := by
  rw [contentMatch, List.findSome?_eq_none_iff]
  intro m hm
  rw [Option.bind_eq_none_iff]
  exact fun rest hrest => absurd (infix_of_stripBy hrest) (h m ((List.mem_insertionSort _).1 hm))

theorem reverseMatch_of_plain {m : PathMapping} (h : ¬m.root <:+: text) :
    reverseMatch isWord mappings m text = none := by
  rw [reverseMatch, Option.bind_eq_none_iff]
  exact fun rest hrest => absurd (infix_of_stripBy hrest) h

theorem reversePathsInOutput_of_no_root (h : ∀ m ∈ mappings, ¬m.root <:+: text) :
    reversePathsInOutput isWord mappings text = text := by
  refine reversePathsInOutput_of_plain (List.any_eq_false.2 fun m hm => ?_)
  rw [Bool.not_eq_true, List.any_eq_false]
  intro rest hrest
  rw [reverseMatch_of_plain fun hinside => h m hm (hinside.trans ((List.mem_tails _ _).1 hrest).isInfix)]
  exact Bool.false_ne_true

/-- A plain text has no pieces that are directories. -/
theorem isRoot_of_plain {ps : List Piece} (h : IsPlain mappings (ps.flatMap Piece.shown))
    (hps : ∀ m, .root m ∈ ps → m ∈ mappings) : ∀ p ∈ ps, p.isRoot = false := by
  intro p hp
  cases p with
  | char c => rfl
  | root m =>
    obtain ⟨before, after, rfl⟩ := List.append_of_mem hp
    refine absurd ?_ (h.container m (hps m hp))
    rw [List.flatMap_append, List.flatMap_cons]
    exact ⟨_, _, List.append_assoc _ _ _⟩

/-- **The pieces of a plain text are found** if it is shown again. -/
theorem areFound_of_plain {ps : List Piece} (h : IsPlain mappings (ps.flatMap Piece.shown))
    (hps : ∀ m, .root m ∈ ps → m ∈ mappings)
    (hshown : readFile isWord mappings ⟨ps.flatMap Piece.host, true⟩ = ps.flatMap Piece.shown) :
    AreFound isWord mappings ps := by
  have hchars := isRoot_of_plain h hps
  have hget : ∀ get : Piece → List Char, (∀ c, get (.char c) = [c]) →
      ps.flatMap get = ps.flatMap Piece.shown := by
    intro get hget
    refine List.flatMap_congr fun p hp => ?_
    cases p with
    | char c => exact hget c
    | root m => cases hchars _ hp
  rw [hget Piece.host fun _ => rfl, readFile, if_pos rfl,
    reversePathsInOutput_of_no_root h.root_lines] at hshown
  refine ⟨?_, reads_of_none hchars fun s _ hs => ?_, ?_⟩
  · rw [hget Piece.host fun _ => rfl, ← hshown]
    exact no_return_universalNewlines _
  · exact contentMatch_of_plain fun m hm hinside => h.container m hm (hinside.trans hs.isInfix)
  · have hall : ∀ done rest, (∀ m ∈ rest, m ∈ mappings) →
        areGivenBack isWord mappings ps done rest = true := by
      intro done rest hrest
      induction rest generalizing done with
      | nil => rfl
      | cons m rest ih =>
        rw [areGivenBack, ih _ fun m' hm' => hrest m' (List.mem_cons_of_mem m hm'), Bool.and_true]
        refine reads_of_none (fun p hp => ?_) fun s _ hs => reverseMatch_of_plain fun hinside => ?_
        · cases p with
          | char c => rfl
          | root m => cases hchars _ hp
        · rw [hget (Piece.between done) fun _ => rfl] at hs
          exact h.root m (hrest m List.mem_cons_self) (hinside.trans hs.isInfix)
    exact hall _ _ fun m hm => (List.mem_insertionSort _).1 hm

/-! ### The calls -/

theorem edits_error {file : HostFile} :
    Edits isWord mappings f call (.error, file) ↔ file = .readable f := by
  constructor
  · exact fun h => h.unchanged rfl
  · intro h
    exact ⟨(fun hok => by cases hok), (fun hok => by cases hok), (fun hok => by cases hok),
      fun _ => h⟩

theorem edits_ok {start : List Piece} {edits : List HostEdit}
    (hoccurs : call.oldStr <:+: readFile isWord mappings f) (hne : call.oldStr ≠ [])
    (honce : call.replaceAll = false → OccursOnce call.oldStr (readFile isWord mappings f))
    (hasked : AreAsked isWord mappings f call start edits)
    (hfound : AreFound isWord mappings (piecesAfter start edits)) :
    Edits isWord mappings f call
      (.ok, .readable ⟨(piecesAfter start edits).flatMap Piece.host, true⟩) where
  asked _ := ⟨hne, hoccurs, honce⟩
  kept _ := ⟨start, edits, hasked, true, rfl⟩
  shown _ := ⟨_, rfl, (hfound.readFile fun m hm => hasked.mapped m
    (List.mem_append_right _ hm)).trans hasked.after.symm⟩
  unchanged herr := by cases herr

/-- A write that fits is as expected. -/
theorem edits_writeBack (hoccurs : call.oldStr <:+: readFile isWord mappings f)
    (h : LeavesDirectory isWord mappings f call ∨ WriteFits isWord mappings outcome f call) :
    Edits isWord mappings f call
      (writeBack isWord mappings outcome f (newContent isWord mappings f call)) := by
  rcases h with ⟨e, he⟩ | h
  · have hsame : writeBack isWord mappings outcome f (newContent isWord mappings f call) =
        (.error, .readable f) := by
      cases outcome <;> simp only [writeBack, he]
    rw [hsame]
    exact edits_error.2 rfl
  · cases outcome with
    | refused => exact edits_error.2 rfl
    | cut left =>
      obtain rfl : left = some f.text := h
      cases hresolve : resolvePathsInContent isWord mappings (newContent isWord mappings f call) with
      | error e =>
        simp only [writeBack, hresolve]
        exact edits_error.2 rfl
      | ok text =>
        simp only [writeBack, hresolve]
        exact edits_error.2 rfl
    | done =>
      obtain ⟨hne, honce, start, edits, hasked, hfound⟩ := h
      have hresolve : resolvePathsInContent isWord mappings (newContent isWord mappings f call) =
          .ok ((piecesAfter start edits).flatMap Piece.host) := by
        rw [hasked.after, hfound.resolvePathsInContent]
      simp only [writeBack, hresolve]
      exact edits_ok hoccurs hne honce hasked hfound

/-- **A write of a plain text** that is as expected fits. -/
theorem fits_writeBack (hplain : IsPlain mappings (newContent isWord mappings f call))
    (h : Edits isWord mappings f call
      (writeBack isWord mappings outcome f (newContent isWord mappings f call))) :
    LeavesDirectory isWord mappings f call ∨ WriteFits isWord mappings outcome f call := by
  cases hresolve : resolvePathsInContent isWord mappings (newContent isWord mappings f call) with
  | error e => exact .inl ⟨e, hresolve⟩
  | ok text =>
    refine .inr ?_
    cases outcome with
    | refused => trivial
    | cut left =>
      simp only [writeBack, hresolve, edits_error] at h
      cases left with
      | none => cases h
      | some left => exact congrArg (fun g : TextFile => some g.text) (HostFile.readable.inj h)
    | done =>
      simp only [writeBack, hresolve] at h
      obtain ⟨hne, -, honce⟩ := h.asked rfl
      obtain ⟨start, edits, hasked, written, hwritten⟩ := h.kept rfl
      obtain ⟨f', hf', hshown⟩ := h.shown rfl
      obtain rfl := HostFile.readable.inj hf'
      have htext : text = (piecesAfter start edits).flatMap Piece.host :=
        congrArg TextFile.text (HostFile.readable.inj hwritten)
      rw [htext, hasked.after] at hshown
      exact ⟨hne, honce, start, edits, hasked, areFound_of_plain (hasked.after ▸ hplain)
        (fun m hm => hasked.mapped m (List.mem_append_right _ hm)) hshown⟩

/-- **The tool does what is expected** of a file that can be read, in the calls that fit, and only in
those if the new text is plain; and it fails for a file that cannot. -/
theorem str_replace_edits (isWord : Char → Bool) (mappings : List PathMapping)
    (outcome : WriteOutcome) (call : StrReplaceCall) :
    (∀ f,
      (EditFits isWord mappings outcome f call →
        Edits isWord mappings f call (strReplace isWord mappings outcome (.readable f) call)) ∧
      (IsPlain mappings (newContent isWord mappings f call) →
        Edits isWord mappings f call (strReplace isWord mappings outcome (.readable f) call) →
        EditFits isWord mappings outcome f call)) ∧
      strReplace isWord mappings outcome .unreadable call = (.error, .unreadable) := by
  refine ⟨fun f => ?_, rfl⟩
  rw [strReplace, EditFits]
  split
  · rename_i hempty
    refine ⟨fun hfits => absurd hempty hfits.1, fun _ h => ?_⟩
    obtain ⟨hne, hoccurs, -⟩ := h.asked rfl
    rw [hempty, List.infix_nil] at hoccurs
    exact absurd hoccurs hne
  · rename_i hne
    by_cases hoccurs : call.oldStr <:+: readFile isWord mappings f
    · rw [containsText_iff.2 hoccurs, if_neg (by simp)]
      exact ⟨fun hfits => edits_writeBack hoccurs (hfits.2 hoccurs),
        fun hplain h => ⟨hne, fun _ => fits_writeBack hplain h⟩⟩
    · have hnone : containsText call.oldStr (readFile isWord mappings f) = false :=
        Bool.eq_false_iff.2 fun h => hoccurs (containsText_iff.1 h)
      rw [hnone, if_pos (by rfl)]
      exact ⟨fun _ => edits_error.2 rfl, fun _ _ => ⟨hne, fun h => absurd h hoccurs⟩⟩

def demoMapping : PathMapping := ⟨"/mnt/ws".toList, "/srv/t1".toList, false⟩

/-- A file that the agent wrote, with two host paths, and a call that changes the end of the first
one and the line end behind it. -/
theorem str_replace_edits_demo :
    let f : TextFile := ⟨"/srv/t1/a\r\nto /srv/t1/b".toList, true⟩
    let call : StrReplaceCall := ⟨"a\n".toList, "c ".toList, false⟩
    strReplace (fun c => c.isAlphanum) [demoMapping] .done (.readable f) call =
        (.ok, .readable ⟨"/srv/t1/c to /srv/t1/b".toList, true⟩) ∧
      Edits (fun c => c.isAlphanum) [demoMapping] f call
        (strReplace (fun c => c.isAlphanum) [demoMapping] .done (.readable f) call) := by
  refine ⟨by decide +kernel, ((str_replace_edits _ _ _ _).1 _).1 ⟨by decide +kernel, fun _ => .inr
    ⟨by decide, fun _ => ?_, [.root demoMapping, .char '/'],
      [⟨"a\r\n".toList, "a\n".toList.map .char, "c ".toList.map .char,
        "to ".toList.map .char ++ .root demoMapping :: "/b".toList.map .char⟩], ?_, ?_⟩⟩⟩
  · exact occursOnce_of_drop (n := 8) (by decide +kernel) (by decide +kernel)
  · exact ⟨by decide +kernel, by decide +kernel, by decide +kernel, by decide +kernel,
      by decide +kernel, by decide +kernel, by simp [piecesBefore, piecesAfter]⟩
  · exact ⟨by decide +kernel, by decide +kernel, by decide +kernel⟩

/-- The first of two occurrences is replaced. -/
theorem str_replace_first : ¬∀ (f : TextFile) (call : StrReplaceCall),
    Edits (fun _ => false) [] f call (strReplace (fun _ => false) [] .done (.readable f) call) := by
  intro h
  have honce := ((h ⟨"aXbX".toList, false⟩ ⟨"X".toList, "Y".toList, false⟩).asked (by decide)).2.2 rfl
  obtain ⟨before, after, hcontent, honly⟩ := honce
  have hfirst := honly ['a'] "bX".toList (by decide)
  have hlast := honly "aXb".toList [] (by decide)
  rw [← hfirst] at hlast
  exact absurd hlast (by decide)

end AfterFlow.Sandbox
