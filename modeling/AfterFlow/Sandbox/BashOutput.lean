import AfterFlow.Excerpt
import AfterFlow.Sandbox.Masking
import AfterFlow.Sandbox.Replacing

/-!
# What `bash` returns

The output of a command goes back without host paths, without the values that were injected into its
environment, and shortened in the middle. Each value is replaced in what the earlier ones left, so
what a replacement puts in must not make up another value with what is around it; neither must the
marker in the middle.

## Main results

* `bash_leaks_nothing` — no value is returned, within the bound
-/

namespace AfterFlow.Sandbox

open Excerpt List

/-! ### Redaction -/

def secretRedaction : List Char := "[redacted]".toList

def minMaskLength : ℕ := 8

/-- The values of an environment that are masked, longest first. -/
def maskedValues (env : List (List Char × List Char)) : List (List Char) :=
  ((env.map Prod.snd).filter fun v => v ≠ [] ∧ minMaskLength ≤ v.length).insertionSort
    fun v w => w.length ≤ v.length

/-- `mask_secret_values`. -/
def maskSecretValues (output : List Char) (injectedEnv : Option (List (List Char × List Char))) :
    List Char :=
  match injectedEnv with
  | none => output
  | some env =>
    if env = [] ∨ output = [] then output
    else (maskedValues env).foldl (fun output v => replaceText output v secretRedaction true) output

/-! ### Truncation -/

def truncationMarker (n : ℕ) : List Char :=
  fillIn ["\n... [middle truncated: ", " chars skipped] ...\n"] [digits n]

/-- `_truncate_bash_output`. -/
def truncateBashOutput (output : List Char) (maxChars : ℤ) : List Char :=
  if maxChars = 0 then output
  else if output.length ≤ maxChars then output
  else
    let totalLen := output.length
    let markerMaxLen := (truncationMarker totalLen).length
    let kept := (maxChars - markerMaxLen).toNat
    if kept = 0 then sliceTo output maxChars
    else
      let headLen := kept / 2
      let tailLen := kept - headLen
      let skipped := totalLen - kept
      output.take headLen ++ truncationMarker skipped ++ output.drop (totalLen - tailLen)

/-! ### The tool -/

/-- `{**(env or {}), **other}`, unless there is no other. -/
def withEnv (env other : Option (List (List Char × List Char))) :
    Option (List (List Char × List Char)) :=
  match other with
  | none => env
  | some [] => env
  | some other => some (other.foldl (fun d e => withEntry d e.1 e.2) (env.getD []))

/-- What `bash_tool` knows when the command has run. -/
structure BashCall where
  isLocal : Bool
  /-- Where a directory is on the file system. -/
  resolved : List Char → List Char
  settings : Settings
  customExists : Bool
  threadData : Option ThreadData
  activeSecrets : Option (List (List Char × List Char))
  githubEnv : Option (List (List Char × List Char))
  maxChars : ℤ

/-- The environment that is injected. -/
def BashCall.injectedEnv (call : BashCall) : Option (List (List Char × List Char)) :=
  withEnv (call.activeSecrets.filter (· ≠ [])) call.githubEnv

/-- The output without host paths and without values. -/
def BashCall.masked (call : BashCall) (output : List Char) : List Char :=
  let output := if call.isLocal then
    maskLocalPathsInOutput call.resolved call.settings call.customExists call.threadData output
  else output
  maskSecretValues output call.injectedEnv

/-- What `bash_tool` returns of the output of the command. -/
def bashOutput (call : BashCall) (output : List Char) : List Char :=
  truncateBashOutput (call.masked output) call.maxChars

/-! ### No value is left -/

variable {output value : List Char} {env : List (List Char × List Char)} {maxChars : ℤ}

/-- A value without the letters of the redaction and of the markers. -/
structure Distinctive (value : List Char) : Prop where
  redaction : ∀ c ∈ secretRedaction, c ∉ value
  marker : ∀ n, ∀ c ∈ truncationMarker n, c ∉ value

theorem mem_maskedValues : value ∈ maskedValues env ↔
    value ∈ env.map Prod.snd ∧ value ≠ [] ∧ minMaskLength ≤ value.length := by
  rw [maskedValues, mem_insertionSort, mem_filter, decide_eq_true_eq]

theorem not_infix_foldl_replace {values : List (List Char)} (hvalues : ∀ v ∈ values, v ≠ [])
    (hdistinctive : ∀ c ∈ secretRedaction, c ∉ value) (h : value ∈ values ∨ ¬value <:+: output) :
    ¬value <:+: values.foldl (fun output v => replaceText output v secretRedaction true) output := by
  induction values generalizing output with
  | nil =>
    rcases h with h | h
    · cases h
    · exact h
  | cons v values ih =>
    have hredaction : secretRedaction ≠ [] := by decide
    have hv : v ≠ [] := hvalues v mem_cons_self
    refine ih (fun w hw => hvalues w (mem_cons_of_mem v hw)) ?_
    rcases h with h | h
    · rcases mem_cons.1 h with rfl | h
      · exact .inr (not_infix_replace_self hv hdistinctive hredaction)
      · exact .inl h
    · exact .inr (not_infix_replace hv hdistinctive hredaction h)

/-- **No value is left**, if it is long enough and apart. -/
theorem not_infix_maskSecretValues (hvalue : value ∈ env.map Prod.snd)
    (hlong : minMaskLength ≤ value.length) (hdistinctive : Distinctive value) :
    ¬value <:+: maskSecretValues output (some env) := by
  have hne : value ≠ [] := by
    rintro rfl
    exact absurd hlong (by decide)
  rw [maskSecretValues]
  split
  · rename_i hnone
    rcases hnone with rfl | rfl
    · cases hvalue
    · rwa [infix_nil]
  · refine not_infix_foldl_replace (fun v hv => (mem_maskedValues.1 hv).2.1) hdistinctive.redaction ?_
    exact .inl (mem_maskedValues.2 ⟨hvalue, hne, hlong⟩)

/-! ### The ways an output is returned -/

theorem marker_ne_nil (n : ℕ) : truncationMarker n ≠ [] := by
  rw [truncationMarker, fillIn, fillIn]
  simp

theorem length_truncationMarker_mono {n m : ℕ} (h : n ≤ m) :
    (truncationMarker n).length ≤ (truncationMarker m).length := by
  rw [truncationMarker, truncationMarker, length_fillIn, length_fillIn]
  refine Nat.add_le_add_left ?_ _
  simpa using length_digits_mono h

/-- An output is returned as it is, or cut off where the marker has no room, or cut in the middle. -/
theorem truncateBashOutput_cases (output : List Char) (maxChars : ℤ) :
    (maxChars = 0 ∨ output.length ≤ maxChars) ∧ truncateBashOutput output maxChars = output ∨
      (maxChars ≠ 0 ∧ maxChars < output.length) ∧
        (maxChars ≤ (truncationMarker output.length).length ∧
            truncateBashOutput output maxChars = sliceTo output maxChars ∨
          (truncationMarker output.length).length < maxChars ∧
            ∃ cut : Cut output,
              cut.head.length + cut.tail.length + (truncationMarker output.length).length =
                  maxChars ∧
                truncateBashOutput output maxChars =
                  cut.head ++ truncationMarker cut.omitted ++ cut.tail) := by
  rw [truncateBashOutput]
  by_cases hzero : maxChars = 0
  · exact .inl ⟨.inl hzero, if_pos hzero⟩
  · rw [if_neg hzero]
    by_cases hshort : output.length ≤ maxChars
    · exact .inl ⟨.inr hshort, if_pos hshort⟩
    · rw [if_neg hshort]
      refine .inr ⟨⟨hzero, not_le.1 hshort⟩, ?_⟩
      dsimp only
      generalize hmarker : (truncationMarker output.length).length = markerLen
      by_cases hroom : (maxChars - markerLen).toNat = 0
      · exact .inl ⟨by omega, if_pos hroom⟩
      · rw [if_neg hroom]
        generalize hkept : (maxChars - markerLen).toNat = kept at hroom
        have hordered : kept / 2 ≤ output.length - (kept - kept / 2) := by omega
        let cut : Cut output :=
          ⟨kept / 2, output.length - (kept - kept / 2), hordered, Nat.sub_le _ _⟩
        have hshown : cut.head.length + cut.tail.length = kept := by
          rw [Cut.length_head, Cut.length_tail]
          show kept / 2 + (output.length - (output.length - (kept - kept / 2))) = kept
          omega
        have homitted : cut.omitted = output.length - kept := by
          have htotal := cut.length_shown
          omega
        refine .inr ⟨by omega, cut, by omega, ?_⟩
        rw [homitted]
        rfl

theorem length_truncateBashOutput_le (h : 0 < maxChars) :
    (truncateBashOutput output maxChars).length ≤ maxChars := by
  rcases truncateBashOutput_cases output maxChars with ⟨hshort, heq⟩ | ⟨-, h'⟩
  · rw [heq]
    omega
  · rcases h' with ⟨-, heq⟩ | ⟨-, cut, hshown, heq⟩
    · rw [heq]
      exact length_sliceTo_le h.le
    · have hmarker := length_truncationMarker_mono cut.omitted_le
      rw [heq, length_append, length_append]
      omega

/-- A value that is not in an output, and shares no letter with the markers, is not in what is
returned of it. -/
theorem not_infix_truncateBashOutput (hdistinctive : Distinctive value) (h : ¬value <:+: output) :
    ¬value <:+: truncateBashOutput output maxChars := by
  rcases truncateBashOutput_cases output maxChars with ⟨-, heq⟩ | ⟨-, h'⟩
  · rwa [heq]
  · rcases h' with ⟨-, heq⟩ | ⟨-, cut, -, heq⟩
    · rw [heq]
      exact fun hvalue => h (hvalue.trans ( sliceTo_prefix output maxChars).isInfix)
    · rw [heq, append_assoc]
      intro hvalue
      rcases Subwords.infix_append_apart (hdistinctive.marker _) (marker_ne_nil _) hvalue with hv | hv
      · exact h (hv.trans ( take_prefix _ _).isInfix)
      · exact h (hv.trans (drop_suffix _ _).isInfix)

/-- What is expected of an environment: its values are long enough and apart. -/
def BashCall.Masks (call : BashCall) : Prop :=
  ∀ env, call.injectedEnv = some env → ∀ value ∈ env.map Prod.snd,
    minMaskLength ≤ value.length ∧ Distinctive value

/-- **No value is returned**, within the bound. Where there is room for the marker, what is left out
is counted; where there is none, the output is cut off. -/
theorem bash_leaks_nothing (call : BashCall) (output : List Char) (h : call.Masks) :
    (∀ env, call.injectedEnv = some env → ∀ value ∈ env.map Prod.snd,
        ¬value <:+: bashOutput call output) ∧
      (0 < call.maxChars → (bashOutput call output).length ≤ call.maxChars) ∧
      (bashOutput call output ≠ call.masked output →
        ((truncationMarker (call.masked output).length).length < call.maxChars →
          ∃ cut : Cut (call.masked output),
            cut.head ++ cut.middle ++ cut.tail = call.masked output ∧
              bashOutput call output =
                cut.head ++ truncationMarker cut.middle.length ++ cut.tail) ∧
        (call.maxChars ≤ (truncationMarker (call.masked output).length).length →
          bashOutput call output = sliceTo (call.masked output) call.maxChars)) := by
  refine ⟨?_, length_truncateBashOutput_le, ?_⟩
  · intro env henv value hvalue
    obtain ⟨hlong, hdistinctive⟩ := h env henv value hvalue
    refine not_infix_truncateBashOutput hdistinctive ?_
    rw [BashCall.masked, henv]
    exact not_infix_maskSecretValues hvalue hlong hdistinctive
  · intro hcut
    rw [bashOutput] at hcut ⊢
    rcases truncateBashOutput_cases (call.masked output) call.maxChars with ⟨-, heq⟩ | ⟨-, h'⟩
    · exact absurd heq hcut
    · rcases h' with ⟨hnone, heq⟩ | ⟨hroom, cut, -, heq⟩
      · exact ⟨fun hroom => absurd hroom (not_lt.2 hnone), fun _ => heq⟩
      · refine ⟨fun _ => ⟨cut, cut.parts, ?_⟩, fun hnone => absurd hroom (not_lt.2 hnone)⟩
        rw [heq, Cut.omitted_eq]

theorem Distinctive.of_upper (h : ∀ c ∈ value, c.isUpper) : Distinctive value := by
  have hnone : ∀ c, c.isUpper = false → c ∉ value := by
    intro c hc hmem
    rw [h c hmem] at hc
    cases hc
  constructor
  · intro c hc
    exact hnone c ((by decide : ∀ c ∈ secretRedaction, c.isUpper = false) c hc)
  · intro n c hc
    refine hnone c ?_
    rcases mem_fillIn hc with ⟨t, ht, hc⟩ | ⟨v, hv, hc⟩
    · exact (by decide : ∀ t ∈ ["\n... [middle truncated: ", " chars skipped] ...\n"],
        ∀ c ∈ t.toList, c.isUpper = false) t ht c hc
    · rw [mem_singleton.1 hv, digits, Nat.toString_eq_repr, Nat.toList_repr] at hc
      have hdigit := Nat.isDigit_of_mem_toDigits (by decide) (by decide) hc
      rw [Char.isDigit, Bool.and_eq_true, decide_eq_true_eq, decide_eq_true_eq] at hdigit
      exact decide_eq_false fun hupper => absurd (UInt32.le_trans hupper.1 hdigit.2) (by decide)

/-- A call whose environment has one value. -/
def maskingCall (maxChars : ℤ) : BashCall :=
  { isLocal := false
    resolved := id
    settings := ⟨[], none, [], none, []⟩
    customExists := false
    threadData := none
    activeSecrets := some [("API_KEY".toList, "GHJKLQVW".toList)]
    githubEnv := none
    maxChars }

theorem maskingCall_masks (maxChars : ℤ) : (maskingCall maxChars).Masks := by
  intro env henv value hvalue
  obtain rfl := Option.some.inj henv
  rw [mem_singleton.1 hvalue]
  exact ⟨by decide, Distinctive.of_upper (by decide)⟩

theorem bash_leaks_nothing_once : (maskingCall 5).Masks ∧
    ¬"GHJKLQVW".toList <:+: bashOutput (maskingCall 5) "key=GHJKLQVW".toList :=
  ⟨maskingCall_masks 5, (bash_leaks_nothing (maskingCall 5) "key=GHJKLQVW".toList
    (maskingCall_masks 5)).1 _ rfl _ (mem_singleton_self _)⟩

/-- A small bound has no room for the marker. -/
theorem bash_counts_nothing : ¬∀ (call : BashCall) (output : List Char), call.Masks →
    bashOutput call output ≠ call.masked output →
      ∃ cut : Cut (call.masked output),
        bashOutput call output = cut.head ++ truncationMarker cut.middle.length ++ cut.tail := by
  intro h
  obtain ⟨cut, hcut⟩ := h (maskingCall 3) "hello".toList (maskingCall_masks 3) (by decide)
  have hshort : (bashOutput (maskingCall 3) "hello".toList).length = 3 := by decide
  have hmarker := length_truncationMarker_mono (Nat.zero_le cut.middle.length)
  have hlong : 3 < (truncationMarker 0).length := by decide
  rw [hcut, length_append, length_append] at hshort
  omega

end AfterFlow.Sandbox
