import AfterFlow.Excerpt

/-!
# Tool outputs within a budget

A long output of a tool is stored in a file, and the model sees its beginning, its end and a
reference to the file. Where it cannot be stored, the middle is left out. Beginning and end are cut
at lines, if there is one near: the beginning ends earlier for it, and the end should begin later.
In a preview it begins earlier.
-/

namespace AfterFlow.ToolOutput

open Excerpt

/-! ### Lines -/

def isNewline (c : Char) : Bool := c == '\n'

/-- `_snap_to_line_boundary`. -/
def snapToLineBoundary (text : List Char) (pos : ℕ) : ℕ :=
  if pos = 0 ∨ text.length ≤ pos then pos
  else
    match rfindIn isNewline text (pos / 2) pos with
    | some nl => nl + 1
    | none => pos

/-- `_snap_start_to_line_boundary`. -/
def snapStartToLineBoundary (text : List Char) (pos : ℕ) : ℕ :=
  if pos = 0 ∨ text.length ≤ pos then pos
  else
    match findIn isNewline text pos (pos + (text.length - pos) / 2) with
    | some nl => nl + 1
    | none => pos

variable {text content : List Char} {pos headChars tailChars : ℕ}

theorem snapToLineBoundary_le : snapToLineBoundary text pos ≤ pos := by
  rw [snapToLineBoundary]
  split
  · exact Nat.le_refl pos
  · split
    · rename_i nl hnl
      exact (rfindIn_eq_some hnl).2.1
    · exact Nat.le_refl pos

theorem snapToLineBoundary_of_some {nl : ℕ} (hinside : pos < text.length)
    (h : rfindIn isNewline text (pos / 2) pos = some nl) : snapToLineBoundary text pos = nl + 1 := by
  have hlt := (rfindIn_eq_some h).2.1
  rw [snapToLineBoundary, if_neg (by omega), h]

theorem snapToLineBoundary_of_none
    (h : pos < text.length → rfindIn isNewline text (pos / 2) pos = none) :
    snapToLineBoundary text pos = pos := by
  rw [snapToLineBoundary]
  split
  · rfl
  · rw [h (by omega)]

theorem snapStartToLineBoundary_bounds (h : pos ≤ text.length) :
    pos ≤ snapStartToLineBoundary text pos ∧ snapStartToLineBoundary text pos ≤ text.length := by
  rw [snapStartToLineBoundary]
  split
  · exact ⟨Nat.le_refl pos, h⟩
  · split
    · rename_i nl hnl
      have hbounds := bounds_of_findIn hnl
      omega
    · exact ⟨Nat.le_refl pos, h⟩

/-! ### Previews -/

/-- `head_end` and `tail_start` of `_build_preview`. -/
def previewCut (content : List Char) (headChars tailChars : ℕ) : Cut content :=
  let headEnd := snapToLineBoundary content (min headChars content.length)
  let tailStart := max headEnd (content.length - tailChars)
  let snapped := snapToLineBoundary content tailStart
  have hhead : headEnd ≤ content.length := snapToLineBoundary_le.trans (Nat.min_le_right _ _)
  have htail : tailStart ≤ content.length := Nat.max_le.2 ⟨hhead, Nat.sub_le _ _⟩
  { headEnd
    tailStart := if headEnd < snapped then snapped else tailStart
    ordered := by
      split
      · exact Nat.le_of_lt ‹_›
      · exact Nat.le_max_left _ _
    within := by
      split
      · exact snapToLineBoundary_le.trans htail
      · exact htail }

/-- The reference to the file. -/
def reference (toolName virtualPath : List Char) (total omitted : ℕ) : List Char :=
  fillIn ["\n\n[Full ", " output saved to ", " (", " chars, ~",
      " tokens). Use read_file with start_line and end_line to access specific sections. ",
      " chars omitted from this preview.]\n\n"]
    [toolName, virtualPath, digits total, digits (total / 4), digits omitted]

/-- `_build_preview`. -/
def buildPreview (content toolName virtualPath : List Char) (headChars tailChars : ℕ) : List Char :=
  let cut := previewCut content headChars tailChars
  cut.head ++ reference toolName virtualPath content.length cut.omitted ++ cut.tail

/-- Before the last `tailChars` characters, in the second half of what precedes them, there is no
line break behind the head, or the last one is followed by no more characters there than the head
was shortened by. -/
def TailNearLine (content : List Char) (headChars tailChars : ℕ) : Prop :=
  let headEnd := snapToLineBoundary content (min headChars content.length)
  let tailStart := content.length - tailChars
  tailStart < content.length → ∀ nl, rfindIn isNewline content (tailStart / 2) tailStart = some nl →
    headEnd ≤ nl → headEnd + tailStart ≤ headChars + nl + 1

theorem headEnd_le : snapToLineBoundary content (min headChars content.length) ≤ headChars :=
  snapToLineBoundary_le.trans (Nat.min_le_left _ _)

/-- **The preview shows what it may**, exactly if there is a line near its tail. -/
theorem shown_previewCut_le_iff :
    (previewCut content headChars tailChars).head.length +
        (previewCut content headChars tailChars).tail.length ≤ headChars + tailChars ↔
      TailNearLine content headChars tailChars := by
  have hhead : snapToLineBoundary content (min headChars content.length) ≤ headChars := headEnd_le
  have htotal : snapToLineBoundary content (min headChars content.length) ≤ content.length :=
    snapToLineBoundary_le.trans (Nat.min_le_right _ _)
  rw [Cut.length_head, Cut.length_tail, TailNearLine, previewCut]
  dsimp only
  generalize snapToLineBoundary content (min headChars content.length) = headEnd at hhead htotal ⊢
  by_cases hgap : headEnd < content.length - tailChars
  · rw [Nat.max_eq_right hgap.le]
    by_cases hline : ∃ nl, content.length - tailChars < content.length ∧
        rfindIn isNewline content ((content.length - tailChars) / 2)
          (content.length - tailChars) = some nl
    · obtain ⟨nl, hinside, hnl⟩ := hline
      have hlt := (rfindIn_eq_some hnl).2.1
      rw [snapToLineBoundary_of_some hinside hnl]
      constructor
      · intro h _ nl' hnl' hbehind
        obtain rfl := Option.some.inj (hnl.symm.trans hnl')
        rw [if_pos (by omega)] at h
        omega
      · intro h
        have hbound := h hinside nl hnl
        split <;> omega
    · rw [snapToLineBoundary_of_none, if_pos hgap]
      · constructor
        · intro _ hinside nl hnl
          exact absurd ⟨nl, hinside, hnl⟩ hline
        · intro _
          omega
      · intro hinside
        exact Option.eq_none_iff_forall_ne_some.2 fun nl hnl => hline ⟨nl, hinside, hnl⟩
  · have hsnap : ¬headEnd < snapToLineBoundary content headEnd := by
      have hle : snapToLineBoundary content headEnd ≤ headEnd := snapToLineBoundary_le
      omega
    rw [Nat.max_eq_left (not_lt.1 hgap), if_neg hsnap]
    constructor
    · intro _ _ nl hnl hbehind
      have hlt := (rfindIn_eq_some hnl).2.1
      omega
    · intro _
      omega

/-! ### Fallbacks -/

/-- `head_end` and `tail_start` of `_build_fallback`. -/
def fallbackCut (content : List Char) (effectiveHead effectiveTail : ℕ) : Cut content :=
  let headEnd := snapToLineBoundary content (min effectiveHead content.length)
  let tailStart := max headEnd (content.length - effectiveTail)
  have hhead : headEnd ≤ content.length := snapToLineBoundary_le.trans (Nat.min_le_right _ _)
  have htail : tailStart ≤ content.length := Nat.max_le.2 ⟨hhead, Nat.sub_le _ _⟩
  { headEnd
    tailStart := snapStartToLineBoundary content tailStart
    ordered := (Nat.le_max_left _ _).trans (snapStartToLineBoundary_bounds htail).1
    within := (snapStartToLineBoundary_bounds htail).2 }

def fallbackMarker (toolName : List Char) (n : ℕ) : List Char :=
  fillIn ["\n\n[... ", " chars omitted from ",
      " output. Persistent storage unavailable. Consider narrowing the query or using more specific parameters.]\n\n"]
    [digits n, toolName]

/-- `_build_fallback`. -/
def buildFallback (content toolName : List Char) (maxChars headChars tailChars : ℕ) : List Char :=
  let total := content.length
  if maxChars = 0 ∨ total ≤ maxChars then content
  else
    let markerOverhead := (fallbackMarker toolName total).length
    if maxChars ≤ markerOverhead then content.take maxChars
    else
      let budget := maxChars - markerOverhead
      let effectiveHead := min headChars budget
      let effectiveTail := min tailChars (budget - effectiveHead)
      let cut := fallbackCut content effectiveHead effectiveTail
      cut.head ++ fallbackMarker toolName cut.omitted ++ cut.tail

variable {toolName : List Char} {maxChars n m : ℕ}

theorem length_fallbackMarker_mono (h : n ≤ m) :
    (fallbackMarker toolName n).length ≤ (fallbackMarker toolName m).length := by
  have hdigits := length_digits_mono h
  rw [fallbackMarker, fallbackMarker, length_fillIn, length_fillIn]
  refine Nat.add_le_add_left ?_ _
  simpa using hdigits

theorem shown_fallbackCut_le :
    (fallbackCut content headChars tailChars).head.length +
        (fallbackCut content headChars tailChars).tail.length ≤ headChars + tailChars := by
  have hhead : snapToLineBoundary content (min headChars content.length) ≤ headChars := headEnd_le
  have htotal : snapToLineBoundary content (min headChars content.length) ≤ content.length :=
    snapToLineBoundary_le.trans (Nat.min_le_right _ _)
  have htail := (snapStartToLineBoundary_bounds (Nat.max_le.2 ⟨htotal,
    Nat.sub_le content.length tailChars⟩)).1
  have hright := Nat.le_max_right (snapToLineBoundary content (min headChars content.length))
    (content.length - tailChars)
  rw [Cut.length_head, Cut.length_tail, fallbackCut]
  dsimp only
  omega

/-- **A fallback keeps its bound.** -/
theorem length_buildFallback_le (hmax : 0 < maxChars) :
    (buildFallback content toolName maxChars headChars tailChars).length ≤ maxChars := by
  rw [buildFallback]
  dsimp only
  split
  · omega
  · split
    · exact List.length_take_le _ _
    · rename_i hlong hroom
      generalize hhead : min headChars (maxChars - (fallbackMarker toolName content.length).length) =
        head
      generalize htail : min tailChars (maxChars -
        (fallbackMarker toolName content.length).length - head) = tail
      have hshown : (fallbackCut content head tail).head.length +
          (fallbackCut content head tail).tail.length ≤ head + tail := shown_fallbackCut_le
      have hmarker : (fallbackMarker toolName (fallbackCut content head tail).omitted).length ≤
          (fallbackMarker toolName content.length).length :=
        length_fallbackMarker_mono (Cut.omitted_le _)
      rw [List.length_append, List.length_append]
      omega

theorem buildFallback_shows (hlong : maxChars < content.length) (hmax : 0 < maxChars) :
    ∃ cut : Cut content, buildFallback content toolName maxChars headChars tailChars =
        cut.head ++ fallbackMarker toolName cut.omitted ++ cut.tail ∨
      buildFallback content toolName maxChars headChars tailChars = cut.head ++ cut.tail := by
  rw [buildFallback, if_neg (by omega)]
  dsimp only
  split
  · refine ⟨⟨maxChars, content.length, hlong.le, Nat.le_refl _⟩, .inr ?_⟩
    rw [Cut.head, Cut.tail, List.drop_length, List.append_nil]
  · exact ⟨_, .inl rfl⟩

end AfterFlow.ToolOutput
