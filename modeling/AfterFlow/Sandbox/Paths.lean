import Mathlib.Data.List.DropRight

/-!
# Paths

A path is a text, and on a file system without symbolic links its text alone says where it leads:
repeated slashes and segments that are dots count for nothing, and two dots take the segment before
them back. Backslashes are characters like others, except where the code replaces them.
-/

namespace AfterFlow.Sandbox

open List

/-- `path.split("/")`. -/
def segments (path : List Char) : List (List Char) := path.splitOn '/'

/-- Go on to a segment from the place that is left so far. -/
def place (done : List (List Char)) (segment : List Char) : List (List Char) :=
  if segment = [] ∨ segment = ['.'] then done
  else if segment = ['.', '.'] then done.dropLast
  else done ++ [segment]

/-- The names on the way from the root. -/
def resolveParts (path : List Char) : List (List Char) := (segments path).foldl place []

/-- The path with these names. -/
def ofParts (parts : List (List Char)) : List Char := '/' :: ['/'].intercalate parts

/-- `str(Path(path).resolve())`. -/
def resolve (path : List Char) : List Char := ofParts (resolveParts path)

/-- `path == root or path.startswith(f"{root}/")`. -/
def isAtOrUnder (root path : List Char) : Bool := path == root || (root ++ ['/']).isPrefixOf path

/-- `text.lstrip("/")`. -/
def lstripSlash (text : List Char) : List Char := text.dropWhile (· == '/')

/-- `text.rstrip("/")`. -/
def rstripSlash (text : List Char) : List Char := text.rdropWhile (· == '/')

def isSeparator (c : Char) : Bool := c == '/' || c == '\\'

/-- `_path_separator_for_style`. -/
def pathSeparatorForStyle (path : List Char) : Char :=
  if path.contains '\\' && !path.contains '/' then '\\' else '/'

/-- `_join_path_preserving_style`. -/
def joinPathPreservingStyle (base relative : List Char) : List Char :=
  if relative = [] then base
  else
    let separator := pathSeparatorForStyle base
    let other := if separator == '/' then '\\' else '/'
    let normalizedRelative :=
      (relative.map fun c => if c == other then separator else c).dropWhile isSeparator
    base.rdropWhile isSeparator ++ separator :: normalizedRelative

/-- Go on to a segment in `posixpath.normpath`. -/
def normPlace (absolute : Bool) (done : List (List Char)) (segment : List Char) : List (List Char) :=
  if segment = [] ∨ segment = ['.'] then done
  else if segment ≠ ['.', '.'] ∨ (!absolute ∧ done = []) ∨ done.getLast? = some ['.', '.'] then
    done ++ [segment]
  else done.dropLast

/-- `posixpath.normpath`: two slashes at the start stay, three and more do not. -/
def normpath (path : List Char) : List Char :=
  let slashes := path.takeWhile (· == '/')
  let initialSlashes := if slashes.length = 2 then slashes else slashes.take 1
  let comps := (segments path).foldl (normPlace !slashes.isEmpty) []
  let result := initialSlashes ++ ['/'].intercalate comps
  if result = [] then ['.'] else result

/-! ### Segments -/

/-- A segment that is the name of a file or directory. -/
structure IsName (segment : List Char) : Prop where
  ne_nil : segment ≠ []
  ne_dot : segment ≠ ['.']
  ne_dots : segment ≠ ['.', '.']
  no_slash : '/' ∉ segment

variable {path p q : List Char} {done parts segs : List (List Char)}

theorem segments_append (p q : List Char) : segments (p ++ '/' :: q) = segments p ++ segments q :=
  splitOn_append_cons_self p q

theorem segments_cons (p : List Char) : segments ('/' :: p) = [] :: segments p :=
  segments_append [] p

theorem no_slash_of_mem_segments {segment : List Char} (h : segment ∈ segments path) :
    '/' ∉ segment := by
  induction path generalizing segment with
  | nil =>
    obtain rfl := mem_singleton.1 h
    exact not_mem_nil
  | cons c path ih =>
    rw [segments, splitOn_cons_eq_if_modifyHead] at h
    split at h
    · rcases mem_cons.1 h with rfl | h
      · exact not_mem_nil
      · exact ih h
    · rename_i hc
      obtain ⟨head, rest, heq⟩ := exists_cons_of_ne_nil (splitOn_ne_nil '/' path)
      rw [heq, modifyHead_cons] at h
      have hmem : ∀ {segment}, segment ∈ head :: rest → '/' ∉ segment := fun hs =>
        ih (by rw [segments, heq]; exact hs)
      rcases mem_cons.1 h with rfl | h
      · rw [mem_cons, not_or]
        exact ⟨fun hslash => hc (beq_iff_eq.2 hslash.symm), hmem mem_cons_self⟩
      · exact hmem (mem_cons_of_mem _ h)

theorem mem_intercalate {x : Char} {l : List (List Char)} :
    x ∈ ['/'].intercalate l → x = '/' ∨ ∃ part ∈ l, x ∈ part := by
  induction l with
  | nil => exact nofun
  | cons part l ih =>
    by_cases hnil : l = []
    · subst hnil
      rw [intercalate_singleton]
      exact fun h => .inr ⟨part, mem_cons_self, h⟩
    · rw [intercalate_cons_of_ne_nil hnil, append_assoc, singleton_append]
      intro h
      rcases mem_append.1 h with h | h
      · exact .inr ⟨part, mem_cons_self, h⟩
      · rcases mem_cons.1 h with h | h
        · exact .inl h
        · exact (ih h).imp id fun ⟨p, hp, hx⟩ => ⟨p, mem_cons_of_mem _ hp, hx⟩

theorem mem_of_mem_segment {x : Char} {segment : List Char} (h : segment ∈ segments path)
    (hx : x ∈ segment) : x ∈ path := by
  have hmem : ∀ l : List (List Char), segment ∈ l → x ∈ ['/'].intercalate l := by
    intro l hl
    induction l with
    | nil => cases hl
    | cons part l ih =>
      by_cases hnil : l = []
      · subst hnil
        obtain rfl := mem_singleton.1 hl
        rwa [intercalate_singleton]
      · rw [intercalate_cons_of_ne_nil hnil, append_assoc, singleton_append,
          mem_append, mem_cons]
        rcases mem_cons.1 hl with rfl | hl
        · exact .inl hx
        · exact .inr (.inr (ih hl))
  have hpath : ['/'].intercalate (segments path) = path := intercalate_splitOn '/'
  rw [← hpath]
  exact hmem _ h

theorem place_name {segment : List Char} (h : IsName segment) :
    place done segment = done ++ [segment] := by
  rw [place, if_neg, if_neg h.ne_dots]
  exact fun hor => hor.elim h.ne_nil h.ne_dot

theorem foldl_place_names (h : ∀ segment ∈ segs, IsName segment) :
    segs.foldl place done = done ++ segs := by
  induction segs generalizing done with
  | nil => rw [foldl_nil, append_nil]
  | cons segment segs ih =>
    rw [foldl_cons, place_name (h segment mem_cons_self),
      ih fun s hs => h s (mem_cons_of_mem _ hs), append_assoc, singleton_append]

/-- Whether a segment counts, where there are no two dots. -/
def counts (segment : List Char) : Bool := !(segment == [] || segment == ['.'])

theorem foldl_place (h : ['.', '.'] ∉ segs) : segs.foldl place done = done ++ segs.filter counts := by
  induction segs generalizing done with
  | nil => rw [foldl_nil, filter_nil, append_nil]
  | cons segment segs ih =>
    rw [mem_cons, not_or] at h
    rw [foldl_cons, ih h.2, place]
    by_cases hskip : segment = [] ∨ segment = ['.']
    · rw [if_pos hskip, filter_cons_of_neg]
      simpa [counts, or_iff_not_imp_left] using hskip
    · rw [if_neg hskip, if_neg (Ne.symm h.1), filter_cons_of_pos, append_assoc,
        singleton_append]
      simpa [counts] using hskip

theorem names_foldl_place (hdone : ∀ segment ∈ done, IsName segment)
    (hsegs : ∀ segment ∈ segs, '/' ∉ segment) : ∀ segment ∈ segs.foldl place done, IsName segment := by
  induction segs generalizing done with
  | nil => exact hdone
  | cons segment segs ih =>
    refine ih (fun name hname => ?_) fun s hs => hsegs s (mem_cons_of_mem _ hs)
    rw [place] at hname
    split at hname
    · exact hdone name hname
    · rename_i hskip
      split at hname
      · exact hdone name (dropLast_subset done hname)
      · rename_i hdots
        rcases mem_append.1 hname with hname | hname
        · exact hdone name hname
        · obtain rfl := mem_singleton.1 hname
          rw [not_or] at hskip
          exact ⟨hskip.1, hskip.2, hdots, hsegs name mem_cons_self⟩

theorem names_resolveParts (path : List Char) : ∀ segment ∈ resolveParts path, IsName segment :=
  names_foldl_place (fun _ h => nomatch h) fun _ h => no_slash_of_mem_segments h

/-! ### Resolved paths -/

theorem resolveParts_append (p q : List Char) :
    resolveParts (p ++ '/' :: q) = (segments q).foldl place (resolveParts p) := by
  rw [resolveParts, segments_append, foldl_append, resolveParts]

theorem resolveParts_slash (p : List Char) : resolveParts ('/' :: p) = resolveParts p := by
  rw [resolveParts, segments_cons, foldl_cons]
  rfl

theorem resolveParts_slash_end (p : List Char) : resolveParts (p ++ ['/']) = resolveParts p := by
  rw [resolveParts_append]
  rfl

theorem segments_intercalate (h : ∀ segment ∈ segs, IsName segment) (hne : segs ≠ []) :
    segments (['/'].intercalate segs) = segs :=
  splitOn_intercalate '/' (fun s hs => (h s hs).no_slash) hne

theorem resolveParts_ofParts (h : ∀ segment ∈ parts, IsName segment) :
    resolveParts (ofParts parts) = parts := by
  rw [ofParts, resolveParts_slash]
  by_cases hne : parts = []
  · subst hne
    rfl
  · rw [resolveParts, segments_intercalate h hne, foldl_place_names h, nil_append]

@[simp] theorem resolveParts_resolve (p : List Char) : resolveParts (resolve p) = resolveParts p :=
  resolveParts_ofParts (names_resolveParts p)

@[simp] theorem resolve_resolve (p : List Char) : resolve (resolve p) = resolve p := by
  rw [resolve, resolveParts_resolve, ← resolve]

theorem foldl_place_lstrip (q : List Char) :
    (segments (lstripSlash q)).foldl place done = (segments q).foldl place done := by
  induction q with
  | nil => rfl
  | cons c q ih =>
    by_cases hc : c = '/'
    · subst hc
      rw [segments_cons, foldl_cons]
      exact ih
    · rw [lstripSlash, dropWhile_cons_of_neg (by simpa using hc)]

end AfterFlow.Sandbox
