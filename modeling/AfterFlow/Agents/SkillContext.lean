import AfterFlow.Agents.Delegations
import AfterFlow.Keyed.Latest
import AfterFlow.Words

/-!
# The skill context

The channel `skill_context` of a thread's state holds references to the skills that were read. Its
reducer `merge_skill_context` normalizes every entry, old and new, and keeps the newest entry of
each path, the paths in the order of their last read, and the last 8 of them.

Normalizing puts the words of a description together with single blanks and cuts it after 500
characters. A cut after a blank leaves the blank at the end, and the next merge takes it away. So a
stored entry may change with every merge, also with an empty one, although an empty update is to
preserve what there is. This is the only way an entry changes.

## Main results

* `keeps_iff_clean` — the promises are kept iff no description is cut after a blank
-/

namespace AfterFlow.Agents

open Keyed PyStr List

/-! ### Entries -/

/-- A value of an entry that comes; of another object, whether it is truthy and its `str`. -/
inductive PyObject where
  | none
  | bool (b : Bool)
  | int (n : ℤ)
  | str (s : String)
  | other (truthy : Bool) (text : String)
  deriving DecidableEq

namespace PyObject

def truthy : PyObject → Bool
  | .none => false
  | .bool b => b
  | .int n => n ≠ 0
  | .str s => s ≠ ""
  | .other truthy _ => truthy

/-- `str(value)`. -/
def text : PyObject → String
  | .none => "None"
  | .bool b => if b then "True" else "False"
  | .int n => toString n
  | .str s => s
  | .other _ text => text

/-- The value if it is an `int`; a `bool` is the number it equals. -/
def asInt : PyObject → Option ℤ
  | .bool b => some (if b then 1 else 0)
  | .int n => some n
  | _ => Option.none

def asStr : PyObject → Option String
  | .str s => some s
  | _ => Option.none

end PyObject

/-- An entry as it comes: what it has under the keys that are read. -/
structure RawSkillEntry where
  name : Option PyObject := none
  path : Option PyObject := none
  description : Option PyObject := none
  loadedAt : Option PyObject := none
  deriving DecidableEq

structure SkillEntry where
  name : String
  path : String
  description : String
  loadedAt : ℤ
  deriving DecidableEq

/-- A stored entry, as it comes to the next merge. -/
def SkillEntry.toRaw (e : SkillEntry) : RawSkillEntry :=
  ⟨some (.str e.name), some (.str e.path), some (.str e.description), some (.int e.loadedAt)⟩

/-- `_SKILL_CONTEXT_MAX_ENTRIES`. -/
def skillContextMaxEntries : ℕ := 8

/-- `_SKILL_DESCRIPTION_MAX_CHARS`. -/
def skillDescriptionMaxChars : ℕ := 500

/-- `" ".join(description.split())[:500]`. -/
def shortDescription (description : String) : String :=
  String.ofList ((joinWords (words description.toList)).take skillDescriptionMaxChars)

/-- `str(entry.get("name") or "")`. -/
def nameText (name : Option PyObject) : String :=
  ((name.filter PyObject.truthy).map PyObject.text).getD ""

/-- The description that is stored; empty if it comes as no string. -/
def descriptionText (description : Option PyObject) : String :=
  ((description.bind PyObject.asStr).map shortDescription).getD ""

/-- `_normalize_skill_entry`. -/
def normalizeSkillEntry (entry : RawSkillEntry) : Except KeyError SkillEntry :=
  match entry.path with
  | none => .error ⟨"path"⟩
  | some path => .ok
    { name := nameText entry.name
      path := path.text
      description := descriptionText entry.description
      loadedAt := (entry.loadedAt.bind PyObject.asInt).getD 0 }

/-! ### The reducer -/

/-- An existing entry goes in the place of one with its path, or to the end. -/
def keepPlace (l : List (String × SkillEntry)) (e : SkillEntry) : List (String × SkillEntry) :=
  if e.path ∈ keys l then l.map fun p => if p.1 = e.path then (e.path, e) else p
  else l ++ [(e.path, e)]

/-- A new entry goes to the end, and one with its path is removed. -/
def moveToEnd (l : List (String × SkillEntry)) (e : SkillEntry) : List (String × SkillEntry) :=
  l.filter (fun p => p.1 ≠ e.path) ++ [(e.path, e)]

/-- `merge_skill_context`. -/
def mergeSkillContext (existing new : List RawSkillEntry) : Except KeyError (List SkillEntry) := do
  let normalizedExisting ← existing.mapM normalizeSkillEntry
  if new.isEmpty then .ok normalizedExisting
  else
    let normalizedNew ← new.mapM normalizeSkillEntry
    let byPath := normalizedNew.foldl moveToEnd (normalizedExisting.foldl keepPlace [])
    .ok ((byPath.map Prod.snd).rtake skillContextMaxEntries)

/-- One update after the other, from an empty channel. -/
def mergeReads (batches : List (List RawSkillEntry)) : Except KeyError (List SkillEntry) :=
  batches.foldlM (fun l batch => mergeSkillContext (l.map SkillEntry.toRaw) batch) []

/-! ### Normalizing -/

variable {r : RawSkillEntry} {e : SkillEntry} {l l' : List SkillEntry}

/-- The description of an entry is not cut after a blank: if its words, joined by single blanks,
are too long, the last character that is kept is none. -/
def Clean (r : RawSkillEntry) : Prop :=
  ∀ description, r.description = some (.str description) →
    (joinWords (words description.toList))[skillDescriptionMaxChars - 1]? ≠ some ' '

theorem shortDescription_toList (d : String) : (shortDescription d).toList =
    (joinWords (words d.toList)).take skillDescriptionMaxChars := by
  simp [shortDescription]

/-- A short description is a fixed point unless it was cut after a blank. -/
theorem shortDescription_shortDescription_iff {d : String} :
    shortDescription (shortDescription d) = shortDescription d ↔
      (joinWords (words d.toList))[skillDescriptionMaxChars - 1]? ≠ some ' ' := by
  have hwords : ∀ w ∈ words d.toList, IsWord w := fun w hw => isWord_of_mem_words hw
  constructor
  · intro hfixed hblank
    -- the stored text has 500 characters, the last of them a blank
    obtain ⟨hlong, -⟩ := List.getElem?_eq_some_iff.1 hblank
    have hlength : (shortDescription d).toList.length = skillDescriptionMaxChars := by
      rw [shortDescription_toList, List.length_take, Nat.min_eq_left]
      rw [skillDescriptionMaxChars] at hlong ⊢
      omega
    have hlast : (shortDescription d).toList.getLast? = some ' ' := by
      rw [getLast?_eq_getElem?, hlength, shortDescription_toList, getElem?_take_of_lt
        (by decide), hblank]
    -- its words make no longer text, so nothing is cut from it, and it ends in no blank
    have hshort := length_joinWords_words_le (shortDescription d).toList
    rw [hlength] at hshort
    have hwords' : ∀ w ∈ words (shortDescription d).toList, IsWord w :=
      fun w hw => isWord_of_mem_words hw
    rw [← hfixed, shortDescription_toList, take_of_length_le hshort] at hlast
    exact getLast?_joinWords hwords' hlast
  · intro hblank
    obtain ⟨ws, hws, htake⟩ := take_joinWords hwords hblank
    have hlength : (joinWords ws).length ≤ skillDescriptionMaxChars := by
      rw [← htake]
      exact length_take_le _ _
    rw [shortDescription, shortDescription_toList, htake, words_joinWords hws,
      take_of_length_le hlength, ← htake]
    rfl

theorem normalize_eq_ok (h : normalizeSkillEntry r = .ok e) :
    r.path ≠ none ∧ e.description = descriptionText r.description := by
  rw [normalizeSkillEntry] at h
  cases hpath : r.path with
  | none => simp [hpath] at h
  | some path =>
    simp only [hpath, Except.ok.injEq] at h
    rw [← h]
    exact ⟨by simp, rfl⟩

theorem nameText_str (s : String) : nameText (some (.str s)) = s := by
  by_cases h : s = ""
  · rw [h]
    rfl
  · have htruthy : PyObject.truthy (.str s) = true := decide_eq_true h
    rw [nameText, Option.filter_some_pos htruthy]
    rfl

theorem normalize_toRaw_iff : normalizeSkillEntry e.toRaw = .ok e ↔
    shortDescription e.description = e.description := by
  have hnormal : normalizeSkillEntry e.toRaw =
      .ok { e with description := shortDescription e.description } := by
    show Except.ok (ε := KeyError) (SkillEntry.mk (nameText (some (.str e.name))) _ _ _) = _
    rw [nameText_str]
    rfl
  rw [hnormal, Except.ok.injEq]
  constructor
  · intro h
    exact congrArg SkillEntry.description h
  · intro h
    rw [h]

/-- **When a stored entry is a fixed point** of the normalizer. -/
theorem normalize_stored_iff (h : normalizeSkillEntry r = .ok e) :
    normalizeSkillEntry e.toRaw = .ok e ↔ Clean r := by
  rw [normalize_toRaw_iff, (normalize_eq_ok h).2, Clean]
  by_cases hd : ∃ d, r.description = some (.str d)
  · obtain ⟨d, hd⟩ := hd
    have htext : descriptionText (some (.str d)) = shortDescription d := rfl
    rw [hd, htext, shortDescription_shortDescription_iff]
    constructor
    · rintro hblank _ ⟨⟩
      exact hblank
    · intro hblank
      exact hblank d rfl
  · have hnone : descriptionText r.description = "" := by
      rw [descriptionText]
      cases hr : r.description with
      | none => rfl
      | some v =>
        cases v with
        | str d => exact absurd ⟨d, hr⟩ hd
        | none | bool | int | other => rfl
    rw [hnone]
    exact ⟨fun _ d hr => absurd ⟨d, hr⟩ hd, fun _ => by decide⟩

/-! ### The last distinct paths -/

/-- Entries under their paths. -/
def byPath (l : List SkillEntry) : List (String × SkillEntry) := l.map fun e => (e.path, e)

/-- The newest entries of the last 8 distinct paths. -/
def recentSkills (l : List SkillEntry) : List SkillEntry :=
  ((latest (byPath l)).rtake skillContextMaxEntries).map Prod.snd

theorem byPath_append : byPath (l ++ l') = byPath l ++ byPath l' := map_append

theorem byPath_map_snd {ps : List (String × SkillEntry)} (h : ∀ p ∈ ps, p ∈ byPath l) :
    byPath (ps.map Prod.snd) = ps := by
  rw [byPath, map_map]
  refine (map_congr_left fun p hp => ?_).trans (map_id ps)
  obtain ⟨e, -, rfl⟩ := mem_map.1 (h p hp)
  rfl

theorem byPath_recentSkills :
    byPath (recentSkills l) = (latest (byPath l)).rtake skillContextMaxEntries :=
  byPath_map_snd fun _ hp => latest_sublist.subset (mem_of_mem_drop hp)

theorem nodup_recentSkills : (keys (byPath (recentSkills l))).Nodup := by
  rw [byPath_recentSkills]
  exact nodup_keys_latest.sublist ((drop_sublist _ _).map _)

theorem foldl_keepPlace (h : (keys (byPath l)).Nodup) : l.foldl keepPlace [] = byPath l := by
  induction l using List.reverseRecOn with
  | nil => rfl
  | append_singleton l e ih =>
    rw [byPath_append, Keyed.keys, map_append] at h
    rw [foldl_concat, ih h.of_append_left, byPath_append, keepPlace, if_neg]
    · rfl
    · intro hmem
      exact (nodup_append.1 h).2.2 e.path hmem e.path (by simp [byPath]) rfl

/-- **A new entry** displaces the one with its path. -/
theorem moveToEnd_eq {ps : List (String × SkillEntry)} (h : (keys ps).Nodup) :
    moveToEnd ps e = latest (ps ++ [(e.path, e)]) := by
  rw [latest_append_filter, latest_of_nodup h, moveToEnd]
  simp [Keyed.keys, latest]

theorem foldl_moveToEnd {ps : List (String × SkillEntry)} (h : (keys ps).Nodup) :
    l.foldl moveToEnd ps = latest (ps ++ byPath l) := by
  induction l generalizing ps with
  | nil =>
    rw [byPath, map_nil, append_nil, latest_of_nodup h]
    rfl
  | cons e l ih =>
    rw [foldl_cons, moveToEnd_eq h, ih nodup_keys_latest, latest_latest_append]
    simp [byPath]

/-! ### Runs -/

/-- All entries are normalized. -/
def Stored (l : List SkillEntry) : Prop := ∀ e ∈ l, normalizeSkillEntry e.toRaw = .ok e

theorem mapM_toRaw (h : Stored l) : (l.map SkillEntry.toRaw).mapM normalizeSkillEntry = .ok l := by
  induction l with
  | nil => rfl
  | cons e l ih =>
    rw [map_cons, mapM_cons, h e mem_cons_self,
      ih fun e he => h e (mem_cons_of_mem _ he)]
    rfl

theorem mergeSkillContext_nil (h : Stored l) :
    mergeSkillContext (l.map SkillEntry.toRaw) [] = .ok l := by
  rw [mergeSkillContext, mapM_toRaw h]
  rfl

theorem map_rtake {α β : Type} (f : α → β) (l : List α) (n : ℕ) :
    (l.map f).rtake n = (l.rtake n).map f := by
  rw [List.rtake, List.rtake, map_drop, length_map]

/-- **One batch** on top of what was read before. -/
theorem mergeSkillContext_recent (batch : List RawSkillEntry) (h : Stored (recentSkills l)) :
    mergeSkillContext ((recentSkills l).map SkillEntry.toRaw) batch =
      (batch.mapM normalizeSkillEntry).map fun new => recentSkills (l ++ new) := by
  by_cases hbatch : batch = []
  · rw [hbatch, mergeSkillContext_nil h]
    simp [Except.map, pure, Except.pure]
  · rw [mergeSkillContext, mapM_toRaw h]
    have hempty : batch.isEmpty = false := by simpa using hbatch
    cases hnew : batch.mapM normalizeSkillEntry with
    | error error => simp [hempty, bind, Except.bind, Except.map]
    | ok new =>
      have hmerged : (((new.foldl moveToEnd ((recentSkills l).foldl keepPlace [])).map
          Prod.snd).rtake skillContextMaxEntries) = recentSkills (l ++ new) := by
        rw [foldl_keepPlace nodup_recentSkills, foldl_moveToEnd nodup_recentSkills,
          byPath_recentSkills, map_rtake, rtake_latest_append nodup_keys_latest,
          latest_latest_append, ← byPath_append]
        rfl
      simp [hempty, bind, Except.bind, Except.map, hmerged]

variable {batches : List (List RawSkillEntry)}

theorem stored_of_clean {reads : List RawSkillEntry} (hclean : ∀ r ∈ reads, r.path ≠ none → Clean r)
    (h : reads.mapM normalizeSkillEntry = .ok l) : Stored l := by
  induction reads generalizing l with
  | nil =>
    obtain rfl := Except.ok.inj h
    intro e he
    cases he
  | cons r reads ih =>
    rw [mapM_cons] at h
    cases hr : normalizeSkillEntry r with
    | error error => simp [hr, bind, Except.bind] at h
    | ok e =>
      cases hrest : reads.mapM normalizeSkillEntry with
      | error error => simp [hr, hrest, bind, Except.bind] at h
      | ok es =>
        simp only [hr, hrest, bind, Except.bind, pure, Except.pure, Except.ok.injEq] at h
        rw [← h]
        intro e' he'
        rcases mem_cons.1 he' with rfl | he'
        · exact (normalize_stored_iff hr).2
            (hclean r mem_cons_self (normalize_eq_ok hr).1)
        · exact ih (fun r hr => hclean r (mem_cons_of_mem _ hr)) hrest e' he'

theorem stored_recentSkills (h : Stored l) : Stored (recentSkills l) := by
  intro e he
  obtain ⟨p, hp, rfl⟩ := mem_map.1 he
  obtain ⟨e, hmem, rfl⟩ := mem_map.1 (latest_sublist.subset (mem_of_mem_drop hp))
  exact h e hmem

/-- **Clean reads leave the newest entries of the last 8 distinct paths**, in any batching. -/
theorem mergeReads_eq (hclean : ∀ r ∈ batches.flatten, r.path ≠ none → Clean r) :
    mergeReads batches = (batches.flatten.mapM normalizeSkillEntry).map recentSkills := by
  induction batches using List.reverseRecOn with
  | nil => rfl
  | append_singleton batches batch ih =>
    rw [flatten_concat] at hclean ⊢
    have hbefore := ih fun r hr => hclean r (mem_append_left _ hr)
    rw [mergeReads, foldlM_append, ← mergeReads, hbefore, mapM_append]
    cases hl : batches.flatten.mapM normalizeSkillEntry with
    | error error => rfl
    | ok l =>
      have hstored : Stored (recentSkills l) :=
        stored_recentSkills (stored_of_clean (fun r hr => hclean r (mem_append_left _ hr)) hl)
      have hstep := mergeSkillContext_recent batch hstored
      cases hnew : batch.mapM normalizeSkillEntry with
      | error error =>
        rw [hnew] at hstep
        simp [bind, Except.bind, Except.map, hstep]
      | ok new =>
        rw [hnew] at hstep
        simp [bind, Except.bind, Except.map, pure, Except.pure, hstep]

/-- What the reducer promises of a sequence of reads in batches. -/
structure Keeps (batches : List (List RawSkillEntry)) : Prop where
  /-- The newest entries of the last 8 distinct paths are stored. -/
  recent : mergeReads batches = (batches.flatten.mapM normalizeSkillEntry).map recentSkills
  /-- The last read is at the end. -/
  last : ∀ reads r e l, batches.flatten = reads ++ [r] → normalizeSkillEntry r = .ok e →
    mergeReads batches = .ok l → l.getLast? = some e
  /-- An empty batch changes nothing. -/
  empty : ∀ l, mergeReads batches = .ok l →
    mergeSkillContext (l.map SkillEntry.toRaw) [] = .ok l
  /-- The stored entries are fixed points. -/
  fixed : ∀ l, mergeReads batches = .ok l → Stored l

theorem getLast?_recentSkills : (recentSkills (l ++ [e])).getLast? = some e := by
  have hlatest : latest (byPath (l ++ [e])) =
      (latest (byPath l)).filter (fun p => p.1 ∉ keys [(e.path, e)]) ++ [(e.path, e)] := by
    rw [byPath_append]
    exact latest_append_filter
  rw [recentSkills, hlatest, List.rtake, drop_append_of_le_length (by simp [skillContextMaxEntries]),
    map_append, map_singleton, getLast?_concat]

theorem keeps_of_clean (hclean : ∀ r ∈ batches.flatten, r.path ≠ none → Clean r) :
    Keeps batches := by
  have hrecent := mergeReads_eq hclean
  have hstored : ∀ l, mergeReads batches = .ok l → Stored l := by
    intro l hl
    rw [hrecent] at hl
    cases hreads : batches.flatten.mapM normalizeSkillEntry with
    | error error => simp [hreads, Except.map] at hl
    | ok es =>
      rw [hreads] at hl
      obtain rfl := Except.ok.inj hl
      exact stored_recentSkills (stored_of_clean hclean hreads)
  constructor
  · exact hrecent
  · intro reads r e l hreads hr hl
    rw [hrecent, hreads, mapM_append] at hl
    cases hes : reads.mapM normalizeSkillEntry with
    | error error => simp [hes, bind, Except.bind, Except.map] at hl
    | ok es =>
      simp only [hes, hr, mapM_cons, mapM_nil, bind, Except.bind, pure, Except.pure,
        Except.map, Except.ok.injEq] at hl
      rw [← hl]
      exact getLast?_recentSkills
  · intro l hl
    exact mergeSkillContext_nil (hstored l hl)
  · exact hstored

theorem mergeReads_single (h : normalizeSkillEntry r = .ok e) : mergeReads [[r]] = .ok [e] := by
  have hmerge : mergeSkillContext [] [r] = .ok [e] := by
    rw [mergeSkillContext]
    simp only [mapM_nil, mapM_cons, h, bind, Except.bind, pure, Except.pure]
    rfl
  rw [mergeReads]
  simp only [foldlM_cons, foldlM_nil, map_nil, hmerge]
  rfl

/-- **The reducer keeps its promises exactly for clean descriptions**: of any reads, taken in any
order, as often as one likes and in any batches, the promises are kept iff none of the reads (that
have a path) has a description that is cut after a blank. -/
theorem keeps_iff_clean (reads : Set RawSkillEntry) :
    (∀ batches, (∀ r ∈ batches.flatten, r ∈ reads) → Keeps batches) ↔
      ∀ r ∈ reads, r.path ≠ none → Clean r := by
  constructor
  · intro h r hr hpath
    obtain ⟨e, he⟩ : ∃ e, normalizeSkillEntry r = .ok e := by
      rw [normalizeSkillEntry]
      cases hp : r.path with
      | none => exact absurd hp hpath
      | some path => exact ⟨_, rfl⟩
    have hkeeps : Keeps [[r]] := h [[r]] (by simpa using hr)
    have hfixed := hkeeps.fixed [e] (mergeReads_single he) e (by simp)
    exact (normalize_stored_iff he).1 hfixed
  · intro h batches hbatches
    exact keeps_of_clean fun r hr => h r (hbatches r hr)

/-- A word of `n` letters and one more word. -/
def twoWords (n : ℕ) : List Char := List.replicate n 'x' ++ ' ' :: ['y']

theorem blank_twoWords {n : ℕ} (hn : n ≠ 0) : (joinWords (words (twoWords n)))[n]? = some ' ' := by
  have hword : IsWord (List.replicate n 'x') := by
    refine ⟨by simpa using hn, fun c hc => ?_⟩
    rw [eq_of_mem_replicate hc]
    rfl
  rw [twoWords, words_cons hword, words_word ⟨by simp, by decide⟩, joinWords_cons_cons,
    getElem?_append_right (by simp)]
  simp

/-- A read whose description has a blank as its 500th character. -/
def cutRead : RawSkillEntry :=
  { path := some (.str "p"), description := some (.str (String.ofList (twoWords 499))) }

theorem not_keeps_cutRead : ¬Keeps [[cutRead]] := by
  intro h
  obtain ⟨e, he⟩ : ∃ e, normalizeSkillEntry cutRead = .ok e := ⟨_, rfl⟩
  have hstored := h.fixed [e] (mergeReads_single he) e (by simp)
  have hclean : Clean cutRead := (normalize_stored_iff he).1 hstored
  refine hclean _ rfl ?_
  rw [String.toList_ofList]
  exact blank_twoWords (by decide)

end AfterFlow.Agents
