import AfterFlow.Sandbox.HostFiles
import AfterFlow.Sandbox.ReadTools

/-!
# Paths that are reported

What a sandbox finds on the host it reports under a container path: that of the mapping with the
longest local path. Given such a path, it looks for the mapping with the longest container path. The
two are one unless a mapping's container path lies over a directory that another mapping has, and
hides it. To a listing the sandbox adds the mappings whose container paths are children of the
directory, and means to leave out those that are there already; but it looks for their names among
whole paths.

## Main results

* `LocalSandbox.comes_back_iff` — when a path that is reported leads back
* `reported_paths_iff` — when all paths of a directory do, and each is reported once
* `user_data_listed_twice` — the thread's own directories in `/mnt/user-data`
-/

namespace AfterFlow.Sandbox

open List Option

/-- A sandbox with its mappings. -/
structure LocalSandbox where
  pathMappings : List PathMapping
  absolute : ∀ m ∈ pathMappings, m.containerPath.head? = some '/'
  distinct : (pathMappings.map PathMapping.container).Nodup
  below : ∀ m ∈ pathMappings, m.root ≠ ['/']
  clean : ∀ m ∈ pathMappings, '\\' ∉ m.containerPath ∧ '\\' ∉ m.root

namespace LocalSandbox

variable (s : LocalSandbox)

/-- `_reverse_resolve_path`. -/
def reverse (path : List Char) : List Char := reverseResolvePath s.pathMappings path

/-- `_resolve_path`. -/
def resolved (path : List Char) : Except PathError (List Char) := resolvePath s.pathMappings path

/-- `entry.rstrip("/\\")`. -/
def stripEntry (entry : List Char) : List Char := entry.rdropWhile isSeparator

/-- What `list_dir` of the file system calls an entry. -/
def entryText (e : HostEntry) : List Char := if e.isDir then e.path ++ ['/'] else e.path

/-- What `list_dir` reports for an entry. -/
def reportEntry (e : HostEntry) : List Char :=
  let entry := entryText e
  if entry.getLast?.any isSeparator then
    let reversed := s.reverse (stripEntry entry)
    if reversed.getLast? = some '/' then reversed else reversed ++ ['/']
  else s.reverse entry

/-- Whether a mapping's container path is a child of the path. -/
def isChild (path : List Char) (m : PathMapping) : Bool :=
  (rstripSlash path ++ ['/']).isPrefixOf m.containerPath &&
    !(m.containerPath.drop (rstripSlash path).length.succ).contains '/'

/-- `existing_dirs`. -/
def existingDirs (result : List (List Char)) : List (List Char) :=
  (result.filter fun e => e.getLast? = some '/').map rstripSlash

/-- The children that `list_dir` adds. -/
def overlay (fs : FileTree) (path : List Char) (result : List (List Char)) : List PathMapping :=
  s.pathMappings.filter fun m => isChild path m &&
    !(existingDirs result).contains (m.containerPath.drop (rstripSlash path).length.succ) &&
    fs.isDir (resolveParts m.localPath)

/-- `list_dir`, before it is sorted. -/
def listDir (fs : FileTree) (path : List Char) (maxDepth : Nat) :
    Except PathError (List (List Char)) := do
  let resolvedPath ← s.resolved path
  let result := (fs.listDir (resolveParts resolvedPath) maxDepth).map s.reportEntry
  return result ++ (s.overlay fs path result).map fun m => m.containerPath ++ ['/']

/-- `glob`. -/
def glob (fs : FileTree) (path : List Char) (takes : List Char → Bool) (includeDirs : Bool)
    (maxResults : Nat) : Except PathError (List (List Char) × Bool) := do
  let resolvedPath ← s.resolved path
  let (matched, truncated) :=
    fs.globMatches (resolveParts resolvedPath) takes includeDirs maxResults
  return (matched.map fun e => s.reverse e.path, truncated)

/-- `grep`. -/
def grep (fs : FileTree) (path : List Char) (takes : List Char → Bool)
    (hits : HostEntry → List (Nat × List Char)) (maxResults : Nat) :
    Except PathError (List GrepMatch × Bool) := do
  let resolvedPath ← s.resolved path
  let (matched, truncated) := fs.grepMatches (resolveParts resolvedPath) takes hits maxResults
  return (matched.map fun (e, lineNumber, line) => ⟨s.reverse e.path, lineNumber, line⟩, truncated)

/-! ### What hides a place -/

/-- The mapping under which a place is reported. -/
def naming? (place : List Char) : Option PathMapping :=
  (byLocalSpecificity s.pathMappings).find? fun m => isAtOrUnder m.root place

/-- The other mapping's container path lies in the mapping's, at or over the place. -/
def Covers (m m' : PathMapping) (rest place : List Char) : Prop :=
  m'.container = m.containerPath ++ '/' :: rest ∧ isAtOrUnder (m.root ++ '/' :: rest) place = true

/-- The last mapping over a place is of another directory than the one that is there. -/
def Shadowed (place : List Char) : Prop :=
  ∃ m m' rest, s.naming? place = some m ∧ m' ∈ s.pathMappings ∧ Covers m m' rest place ∧
    (∀ m'' ∈ s.pathMappings, ∀ rest', Covers m m'' rest' place → rest'.length ≤ rest.length) ∧
    m'.root ≠ m.root ++ '/' :: rest

/-- A place's path, under the mapping that names it. -/
def nameUnder (m : PathMapping) (place : List Char) : List Char :=
  if lstripSlash (place.drop m.root.length) = [] then m.containerPath
  else m.containerPath ++ '/' :: lstripSlash (place.drop m.root.length)

/-- A child of the path has its directory in the one that is listed, under the same name. -/
def Doubled (fs : FileTree) (path : List Char) (root : List (List Char)) (maxDepth : Nat) : Prop :=
  ∃ m ∈ s.pathMappings, ∃ name ≠ [], '/' ∉ name ∧ m.containerPath = rstripSlash path ++ '/' :: name ∧
    ⟨resolveParts m.localPath, true⟩ ∈ fs.listDir root maxDepth ∧
    ∃ m', s.naming? m.root = some m' ∧ nameUnder m' m.root = m.containerPath

/-- A report leads to the very entry. -/
def Leads (e : HostEntry) (report : List Char) : Prop := s.resolved report = .ok e.path

/-- The reports of a directory lead to what was found there, and a listing has each entry once. -/
structure Returns (fs : FileTree) (path : List Char) (root : List (List Char)) (maxDepth : Nat) :
    Prop where
  listed : ∀ result, s.listDir fs path maxDepth = .ok result → ∃ reports children,
    result = reports ++ children ∧ List.Forall₂ s.Leads (fs.listDir root maxDepth) reports
  once : ∀ result, s.listDir fs path maxDepth = .ok result → result.Nodup
  globbed : ∀ takes includeDirs maxResults reports truncated,
    s.glob fs path takes includeDirs maxResults = .ok (reports, truncated) →
      List.Forall₂ s.Leads (fs.globMatches root takes includeDirs maxResults).1 reports
  grepped : ∀ takes hits maxResults reports truncated,
    s.grep fs path takes hits maxResults = .ok (reports, truncated) →
      List.Forall₂ (fun hit report => s.Leads hit.1 report.path)
        (fs.grepMatches root takes hits maxResults).1 reports

end LocalSandbox

/-! ### Texts of paths -/

variable {s : LocalSandbox} {m m' : PathMapping} {c path q rel rest place : List Char}

/-- What follows a slash in a path of names. -/
def Proper (q : List Char) : Prop := ∀ segment ∈ segments q, IsName segment

theorem Proper.ne_nil (h : Proper q) : q ≠ [] := by
  rintro rfl
  exact (h [] (mem_singleton.2 rfl)).ne_nil rfl

theorem Proper.lstrip (h : Proper q) : lstripSlash q = q := by
  cases q with
  | nil => rfl
  | cons c q =>
    refine dropWhile_cons_of_neg fun hc => ?_
    obtain rfl := eq_of_beq hc
    rw [Proper, segments_cons] at h
    exact (h [] mem_cons_self).ne_nil rfl

theorem Proper.right (h : Proper (rest ++ '/' :: q)) : Proper q := fun segment hmem =>
  h segment (by rw [segments_append]; exact mem_append_right _ hmem)

theorem lstrip_slashes (n : Nat) : lstripSlash (List.replicate n '/' ++ q) = lstripSlash q := by
  induction n with
  | zero => rfl
  | succ n ih => exact ih

theorem rstrip_append (l : List Char) : ∃ n, l = rstripSlash l ++ List.replicate n '/' := by
  induction l using List.reverseRecOn with
  | nil => exact ⟨0, rfl⟩
  | append_singleton l c ih =>
    by_cases hc : c = '/'
    · subst hc
      obtain ⟨n, hn⟩ := ih
      refine ⟨n + 1, ?_⟩
      rw [rstripSlash, rdropWhile_concat_pos _ _ _ (by decide), ← rstripSlash,
        replicate_succ', ← append_assoc, ← hn]
    · refine ⟨0, ?_⟩
      rw [rstripSlash, rdropWhile_concat_neg _ _ _ (by simpa using hc)]
      exact (append_nil _).symm

theorem rstrip_ne_slash {l : List Char} : (rstripSlash l).getLast? ≠ some '/' := by
  intro h
  have hne : rstripSlash l ≠ [] := by
    rintro heq
    rw [heq] at h
    cases h
  have hlast := rdropWhile_last_not (· == '/') l hne
  rw [getLast?_eq_some_getLast hne, some.injEq] at h
  exact hlast (beq_iff_eq.2 h)

theorem container_last (h : m.container ≠ ['/']) : m.container.getLast? ≠ some '/' := by
  rw [PathMapping.container] at h ⊢
  split at h
  · exact absurd rfl h
  · rename_i hne
    rw [if_neg hne]
    exact rstrip_ne_slash

theorem container_cases (m : PathMapping) :
    ∃ n, (m.container = ['/'] ∧ m.containerPath = List.replicate n '/') ∨
      (m.container ≠ ['/'] ∧ m.containerPath = m.container ++ List.replicate n '/') := by
  obtain ⟨n, hn⟩ := rstrip_append m.containerPath
  refine ⟨n, ?_⟩
  by_cases hempty : rstripSlash m.containerPath = []
  · left
    rw [hempty, nil_append] at hn
    exact ⟨if_pos hempty, hn⟩
  · right
    have hsame : m.container = rstripSlash m.containerPath := if_neg hempty
    rw [hsame]
    exact ⟨fun h => rstrip_ne_slash (congrArg getLast? h), hn⟩

theorem ne_root_of_longer (h : m.container.length < m'.container.length) :
    m'.container ≠ ['/'] := by
  intro hroot
  rw [hroot, length_singleton, Nat.lt_one_iff, length_eq_zero_iff,
    PathMapping.container] at h
  split at h
  · cases h
  · contradiction

/-! ### From the host to the container -/

namespace LocalSandbox

theorem reverse?_eq (m : PathMapping) (place : List Char) :
    m.reverse? place = if isAtOrUnder m.root place then some (nameUnder m place) else none := rfl

/-- **A place is reported under the mapping that names it.** -/
theorem reverse_eq (hnames : resolve place = place) (hclean : '\\' ∉ place)
    (h : s.naming? place = some m) : s.reverse place = nameUnder m place := by
  have hsame : place.map (fun c => if c = '\\' then '/' else c) = place := by
    refine (map_congr_left fun c hc => ?_).trans (map_id' place)
    exact if_neg fun h : c = '\\' => hclean (h ▸ hc)
  have hlist : ∀ ms : List PathMapping, ms.find? (fun m => isAtOrUnder m.root place) = some m →
      ms.findSome? (fun m => m.reverse? place) = some (nameUnder m place) := by
    intro ms hfind
    induction ms with
    | nil => cases hfind
    | cons a ms ih =>
      rw [findSome?_cons, reverse?_eq]
      by_cases ha : isAtOrUnder a.root place = true
      · rw [find?_cons_of_pos (p := fun m : PathMapping => isAtOrUnder m.root place) ha] at hfind
        obtain rfl := some.inj hfind
        rw [if_pos ha]
      · rw [find?_cons_of_neg (p := fun m : PathMapping => isAtOrUnder m.root place) ha] at hfind
        rw [if_neg ha]
        exact ih hfind
  rw [reverse, reverseResolvePath, hsame, hnames, hlist _ h]
  rfl

theorem naming_mem (h : s.naming? place = some m) :
    m ∈ s.pathMappings ∧ isAtOrUnder m.root place = true :=
  ⟨(perm_insertionSort _ _).mem_iff.1 (mem_of_find?_eq_some h),
    find?_some (p := fun m : PathMapping => isAtOrUnder m.root place) h⟩

/-! ### From the container to the host -/

/-- What is found fits, and nothing that fits is longer. -/
theorem findPathMapping_spec {mappings : List PathMapping}
    (h : findPathMapping mappings path = some (m, rel)) :
    m ∈ mappings ∧ m.relative? path = some rel ∧ ∀ m' ∈ mappings, (m'.relative? path).isSome = true →
      m'.container.length ≤ m.container.length := by
  have hsorted : (byContainerSpecificity mappings).Pairwise
      fun m m' => m'.container.length ≤ m.container.length := pairwise_insertionSort _ _
  have hmem : ∀ m', m' ∈ byContainerSpecificity mappings ↔ m' ∈ mappings := fun m' =>
    (perm_insertionSort _ mappings).mem_iff
  have hlist : ∀ ms : List PathMapping,
      ms.Pairwise (fun m m' => m'.container.length ≤ m.container.length) →
      (ms.findSome? fun m => (m.relative? path).map fun rel => (m, rel)) = some (m, rel) →
      m ∈ ms ∧ m.relative? path = some rel ∧ ∀ m' ∈ ms, (m'.relative? path).isSome = true →
        m'.container.length ≤ m.container.length := by
    intro ms hpair hfind
    induction ms with
    | nil => cases hfind
    | cons a ms ih =>
      rw [pairwise_cons] at hpair
      rw [findSome?_cons] at hfind
      cases ha : a.relative? path with
      | none =>
        rw [ha] at hfind
        obtain ⟨hin, hrel, hmax⟩ := ih hpair.2 hfind
        refine ⟨mem_cons_of_mem _ hin, hrel, fun m' hm' hsome => ?_⟩
        rcases mem_cons.1 hm' with rfl | hm'
        · rw [ha] at hsome
          cases hsome
        · exact hmax m' hm' hsome
      | some r =>
        rw [ha] at hfind
        obtain ⟨rfl, rfl⟩ := Prod.mk.inj (some.inj hfind)
        refine ⟨mem_cons_self, ha, fun m' hm' _ => ?_⟩
        rcases mem_cons.1 hm' with rfl | hm'
        · exact le_rfl
        · exact hpair.1 m' hm'
  obtain ⟨hin, hrel, hmax⟩ := hlist _ hsorted h
  exact ⟨(hmem m).1 hin, hrel, fun m' hm' => hmax m' ((hmem m').2 hm')⟩

theorem eq_of_container (hm : m ∈ s.pathMappings) (hm' : m' ∈ s.pathMappings)
    (h : m.container = m'.container) : m = m' :=
  inj_on_of_nodup_map s.distinct hm hm' h

theorem relative?_append (habsolute : m.containerPath.head? = some '/') (tail : List Char)
    (htail : tail = [] ∨ tail.head? = some '/') :
    m.relative? (m.containerPath ++ tail) = some (lstripSlash tail) := by
  obtain ⟨n, ⟨hroot, hn⟩ | ⟨hroot, hn⟩⟩ := container_cases m
  · have hhead : (m.containerPath ++ tail).head? = some '/' := by
      rw [head?_append, habsolute]
      rfl
    rw [PathMapping.relative?, if_pos hroot, if_pos hhead, hn, lstrip_slashes]
  · rw [relative?_eq_some hroot]
    conv_lhs => rw [hn]
    conv_rhs => rw [hn]
    rw [append_assoc, drop_left, lstrip_slashes, isAtOrUnder_iff_exists]
    refine ⟨?_, rfl⟩
    cases n with
    | zero =>
      rcases htail with rfl | htail
      · exact .inl (append_nil _)
      · obtain ⟨q, rfl⟩ := head?_eq_some_iff.1 htail
        exact .inr ⟨q, rfl⟩
    | succ n => exact .inr ⟨List.replicate n '/' ++ tail, rfl⟩

/-- A longer container path that fits goes beyond the mapping's own. -/
theorem longer_container (hlong : m.container.length < m'.container.length)
    (hfits : isAtOrUnder m'.container (m.containerPath ++ '/' :: q) = true) :
    ∃ rest, m'.container = m.containerPath ++ '/' :: rest ∧ isAtOrUnder rest q = true := by
  have hroot := ne_root_of_longer hlong
  have hstarts : m'.container <+: (m.containerPath ++ ['/']) ++ q := by
    rw [append_assoc, singleton_append]
    rcases isAtOrUnder_iff.1 hfits with heq | hin
    · rw [heq]
    · exact (prefix_append _ _).trans hin
  have hbeyond : (m.containerPath ++ ['/']).length < m'.container.length := by
    by_contra hshort
    -- otherwise the container path would end among the slashes
    have hin : m'.container <+: m.containerPath ++ ['/'] :=
      prefix_of_prefix_length_le hstarts (prefix_append _ _) (Nat.not_lt.1 hshort)
    obtain ⟨base, n, hbase, hlen⟩ : ∃ base n, m.containerPath = base ++ List.replicate n '/' ∧
        base.length < m'.container.length := by
      obtain ⟨n, ⟨-, hn⟩ | ⟨-, hn⟩⟩ := container_cases m
      · exact ⟨[], n, hn, Nat.zero_lt_of_lt hlong⟩
      · exact ⟨_, n, hn, hlong⟩
    rw [hbase, append_assoc, ← replicate_succ'] at hin
    obtain ⟨tail, htail⟩ := prefix_of_prefix_length_le (prefix_append _ _) hin hlen.le
    rw [← htail, prefix_append_right_inj] at hin
    have htailne : tail ≠ [] := by
      rintro rfl
      rw [← htail, append_nil] at hlen
      exact lt_irrefl _ hlen
    have hall : ∀ c ∈ tail, c = '/' := fun c hc => eq_of_mem_replicate (hin.subset hc)
    refine container_last hroot ?_
    rw [← htail, getLast?_append_of_ne_nil _ htailne, getLast?_eq_some_getLast htailne,
      hall _ (getLast_mem htailne)]
  obtain ⟨rest, hrest⟩ :=
    prefix_of_prefix_length_le (prefix_append _ _) hstarts hbeyond.le
  refine ⟨rest, ?_, ?_⟩
  · rw [← hrest, append_assoc, singleton_append]
  · rw [← hrest, append_assoc, singleton_append] at hfits
    rw [isAtOrUnder_iff_exists] at hfits ⊢
    refine hfits.imp (fun heq => ?_) fun ⟨r, heq⟩ => ⟨r, ?_⟩
    · exact (List.cons.inj (append_cancel_left heq)).2
    · rw [append_assoc, cons_append] at heq
      exact (List.cons.inj (append_cancel_left heq)).2

theorem under_append (x : List Char) :
    isAtOrUnder (x ++ '/' :: rest) (x ++ '/' :: q) = isAtOrUnder rest q := by
  rw [Bool.eq_iff_iff, isAtOrUnder_iff, isAtOrUnder_iff, append_cancel_left_eq, List.cons.injEq,
    append_assoc, prefix_append_right_inj, cons_append, cons_prefix_cons]
  simp only [true_and]

theorem prefix_of_relative? (hhead : path.head? = some '/') (h : (m.relative? path).isSome = true) :
    m.container <+: path := by
  obtain ⟨rel, hrel⟩ := isSome_iff_exists.1 h
  by_cases hroot : m.container = ['/']
  · rw [hroot]
    obtain ⟨tail, rfl⟩ := head?_eq_some_iff.1 hhead
    exact ⟨tail, rfl⟩
  · rcases isAtOrUnder_iff.1 ((relative?_eq_some hroot).1 hrel).1 with heq | hin
    · rw [heq]
    · exact (prefix_append _ _).trans hin

theorem head_append (habsolute : m.containerPath.head? = some '/') (tail : List Char) :
    (m.containerPath ++ tail).head? = some '/' := by
  rw [head?_append, habsolute]
  rfl

theorem fits_cases (hm : m ∈ s.pathMappings) (hm' : m' ∈ s.pathMappings) (hne : m' ≠ m)
    (hfits : (m'.relative? (m.containerPath ++ '/' :: q)).isSome = true) :
    m'.container.length < m.container.length ∨
      ∃ rest, m'.container = m.containerPath ++ '/' :: rest ∧ isAtOrUnder rest q = true := by
  have habsolute := s.absolute m hm
  have hown : (m.relative? (m.containerPath ++ '/' :: q)).isSome = true := by
    rw [relative?_append habsolute _ (.inr rfl)]
    rfl
  rcases Nat.lt_trichotomy m'.container.length m.container.length with hlt | heq | hgt
  · exact .inl hlt
  · refine absurd (eq_of_container hm' hm ?_) hne
    have hhead := head_append habsolute ('/' :: q)
    exact (prefix_of_prefix_length_le (prefix_of_relative? hhead hfits)
      (prefix_of_relative? hhead hown) heq.le).eq_of_length heq
  · right
    obtain ⟨rel, hrel⟩ := isSome_iff_exists.1 hfits
    exact longer_container hgt ((relative?_eq_some (ne_root_of_longer hgt)).1 hrel).1

theorem isSome_relative?_append (h : (m'.relative? path).isSome = true) (q : List Char) :
    (m'.relative? (path ++ '/' :: q)).isSome = true := by
  obtain ⟨rel, hrel⟩ := isSome_iff_exists.1 h
  by_cases hroot : m'.container = ['/']
  · rw [PathMapping.relative?, if_pos hroot] at hrel
    split at hrel
    · rename_i hhead
      rw [PathMapping.relative?, if_pos hroot, if_pos (by rw [head?_append, hhead]; rfl)]
      rfl
    · cases hrel
  · rw [(relative?_eq_some hroot).2 ⟨isAtOrUnder_trans ((relative?_eq_some hroot).1 hrel).1
      (isAtOrUnder_iff_exists.2 (.inr ⟨q, rfl⟩)), rfl⟩]
    rfl

theorem findPathMapping_containerPath (hm : m ∈ s.pathMappings) :
    findPathMapping s.pathMappings m.containerPath = some (m, []) := by
  have hown := relative?_append (s.absolute m hm) [] (.inl rfl)
  rw [append_nil] at hown
  refine findPathMapping_eq hm hown fun m' hm' hne hfits => ?_
  refine (fits_cases hm hm' hne (isSome_relative?_append hfits [])).resolve_right ?_
  rintro ⟨rest, hrest, -⟩
  have hlen := (prefix_of_relative? (s.absolute m hm) hfits).length_le
  rw [hrest, length_append, length_cons] at hlen
  omega

/-! ### There and back -/

theorem ofParts_append {a : List (List Char)} (ha : a ≠ []) (q : List Char) :
    ofParts (a ++ segments q) = ofParts a ++ '/' :: q := by
  have hq : ['/'].intercalate (segments q) = q := intercalate_splitOn '/'
  have hne : segments q ≠ [] := splitOn_ne_nil '/' q
  rw [ofParts, ofParts, intercalate_append ha hne, hq]
  rfl

theorem root_ne_nil (hm : m ∈ s.pathMappings) : resolveParts m.localPath ≠ [] := fun h =>
  s.below m hm (by rw [PathMapping.root, resolve, h]; rfl)

theorem resolved_of_find (hfind : findPathMapping s.pathMappings path = some (m, rel)) :
    (rel = [] → s.resolved path = .ok m.root) ∧
      (Proper rel → s.resolved path = .ok (m.root ++ '/' :: rel)) := by
  have hm := (findPathMapping_spec hfind).1
  constructor
  · rintro rfl
    refine (resolvePath_eq hfind (by decide)).trans ?_
    exact congrArg (fun names => Except.ok (ofParts names)) (append_nil _)
  · intro hrel
    have hdots : ['.', '.'] ∉ segments rel := fun hmem => (hrel _ hmem).ne_dots rfl
    rw [resolved, resolvePath_eq hfind hdots, filter_counts_names hrel,
      ofParts_append (root_ne_nil hm)]
    rfl

theorem proper_of_under {names : List (List Char)} (hnames : ∀ name ∈ names, IsName name)
    (hne : names ≠ []) (hm : m ∈ s.pathMappings) (h : isAtOrUnder m.root (ofParts names) = true) :
    ofParts names = m.root ∨ ∃ q, Proper q ∧ ofParts names = m.root ++ '/' :: q := by
  refine (isAtOrUnder_iff_exists.1 h).imp id fun ⟨q, hq⟩ => ⟨q, ?_, hq⟩
  have hsegments := congrArg segments hq
  rw [segments_append, PathMapping.root, resolve, ofParts, ofParts, segments_cons, segments_cons,
    segments_intercalate hnames hne, segments_intercalate (names_resolveParts _) (root_ne_nil hm),
    cons_append, List.cons.injEq] at hsegments
  intro segment hmem
  exact hnames segment (by rw [hsegments.2]; exact mem_append_right _ hmem)

theorem shadowed_iff (hnaming : s.naming? place = some m) (hm' : m' ∈ s.pathMappings)
    (hcovers : Covers m m' rest place)
    (hlast : ∀ m'' ∈ s.pathMappings, ∀ rest', Covers m m'' rest' place → rest'.length ≤ rest.length) :
    s.Shadowed place ↔ m'.root ≠ m.root ++ '/' :: rest := by
  refine ⟨?_, fun hne => ⟨m, m', rest, hnaming, hm', hcovers, hlast, hne⟩⟩
  rintro ⟨m₂, m₃, rest', hnaming', hm₃, hcovers', hlast', hne⟩
  obtain rfl := some.inj (hnaming.symm.trans hnaming')
  have hlen : rest.length = rest'.length :=
    Nat.le_antisymm (hlast' m' hm' rest hcovers) (hlast m₃ hm₃ rest' hcovers')
  have hstarts : ∀ {rest}, isAtOrUnder (m.root ++ '/' :: rest) place = true →
      m.root ++ '/' :: rest <+: place := by
    intro rest h
    rcases isAtOrUnder_iff.1 h with heq | hin
    · rw [heq]
    · exact (prefix_append _ _).trans hin
  have hlen' : (m.root ++ '/' :: rest).length = (m.root ++ '/' :: rest').length := by
    rw [length_append, length_append, length_cons, length_cons, hlen]
  have hrest := (prefix_of_prefix_length_le (hstarts hcovers.2) (hstarts hcovers'.2)
    hlen'.le).eq_of_length hlen'
  obtain rfl := (List.cons.inj (append_cancel_left hrest)).2
  rwa [eq_of_container hm' hm₃ (hcovers.1.trans hcovers'.1.symm)]

theorem fits_of_covers (hm : m ∈ s.pathMappings) (h : Covers m m' rest (m.root ++ '/' :: q)) :
    isAtOrUnder rest q = true ∧ (m'.relative? (m.containerPath ++ '/' :: q)).isSome = true ∧
      m.container.length < m'.container.length := by
  have hin : isAtOrUnder rest q = true := by rw [← under_append]; exact h.2
  have hpos : 0 < m.containerPath.length := length_pos_iff.2 fun hnil => by
    have := s.absolute m hm
    rw [hnil] at this
    cases this
  have hlong : m.container.length < m'.container.length := by
    rw [h.1, length_append, length_cons]
    obtain ⟨n, ⟨hn, -⟩ | ⟨-, hn⟩⟩ := container_cases m
    · rw [hn, length_singleton]
      omega
    · rw [hn, length_append]
      omega
  refine ⟨hin, ?_, hlong⟩
  rw [(relative?_eq_some (ne_root_of_longer hlong)).2 ⟨by rw [h.1, under_append]; exact hin, rfl⟩]
  rfl

/-- **A path that is reported leads back unless the place is shadowed.** -/
theorem comes_back_iff {names : List (List Char)} (hnames : ∀ name ∈ names, IsName name)
    (hne : names ≠ []) (hclean : '\\' ∉ ofParts names) (hnaming : s.naming? (ofParts names) = some m) :
    s.resolved (s.reverse (ofParts names)) = .ok (ofParts names) ↔ ¬s.Shadowed (ofParts names) := by
  have hresolve : resolve (ofParts names) = ofParts names := by
    rw [resolve, resolveParts_ofParts hnames]
  obtain ⟨hm, hunder⟩ := naming_mem hnaming
  rw [reverse_eq hresolve hclean hnaming, nameUnder]
  rcases proper_of_under hnames hne hm hunder with heq | ⟨q, hq, heq⟩
  · -- the directory of the mapping itself
    rw [heq, drop_length, if_pos (show lstripSlash [] = [] from rfl),
      (resolved_of_find (findPathMapping_containerPath hm)).1 rfl]
    refine iff_of_true rfl ?_
    rintro ⟨m₂, m', rest, hnaming', -, hcovers, -, -⟩
    rw [heq] at hnaming
    obtain rfl := some.inj (hnaming.symm.trans hnaming')
    have hlen : (m.root ++ '/' :: rest).length ≤ m.root.length := by
      rcases isAtOrUnder_iff.1 hcovers.2 with heq | hin
      · exact (congrArg List.length heq).symm.le
      · exact ((prefix_append _ _).trans hin).length_le
    rw [length_append, length_cons] at hlen
    omega
  · have hrel : lstripSlash ('/' :: q) = q := hq.lstrip
    rw [heq, drop_left, hrel, if_neg hq.ne_nil]
    rw [heq] at hnaming
    have hown := relative?_append (s.absolute m hm) ('/' :: q) (.inr rfl)
    rw [hrel] at hown
    cases hfind : findPathMapping s.pathMappings (m.containerPath ++ '/' :: q) with
    | none =>
      rw [findPathMapping, findSome?_eq_none_iff] at hfind
      have hnone := hfind m ((perm_insertionSort _ _).mem_iff.2 hm)
      rw [hown] at hnone
      cases hnone
    | some found =>
      obtain ⟨m₁, rel₁⟩ := found
      obtain ⟨hm₁, hrel₁, hmax⟩ := findPathMapping_spec hfind
      by_cases hsame : m₁ = m
      · -- nothing covers the place
        subst hsame
        obtain rfl := some.inj (hown.symm.trans hrel₁)
        refine iff_of_true ((resolved_of_find hfind).2 hq) ?_
        rintro ⟨m₂, m', rest, hnaming', hm', hcovers, -, -⟩
        obtain rfl := some.inj (hnaming.symm.trans hnaming')
        obtain ⟨-, hfits, hlong⟩ := fits_of_covers hm₁ hcovers
        exact absurd (hmax m' hm' hfits) (Nat.not_le.2 hlong)
      · obtain hshort | ⟨rest, hrest, hin⟩ := fits_cases hm hm₁ hsame (by rw [hrel₁]; rfl)
        · exact absurd (hmax m hm (by rw [hown]; rfl)) (Nat.not_le.2 hshort)
        · have hcovers : Covers m m₁ rest (m.root ++ '/' :: q) :=
            ⟨hrest, by rw [under_append]; exact hin⟩
          have hlast : ∀ m'' ∈ s.pathMappings, ∀ rest', Covers m m'' rest' (m.root ++ '/' :: q) →
              rest'.length ≤ rest.length := by
            intro m'' hm'' rest' hcovers'
            have hlen := hmax m'' hm'' (fits_of_covers hm hcovers').2.1
            rw [hcovers'.1, hrest, length_append, length_append, length_cons,
              length_cons] at hlen
            omega
          have hroot := ne_root_of_longer (fits_of_covers hm hcovers).2.2
          have hrel₁' := ((relative?_eq_some hroot).1 hrel₁).2
          rw [shadowed_iff hnaming hm₁ hcovers hlast, not_not]
          rcases isAtOrUnder_iff_exists.1 hin with rfl | ⟨q', rfl⟩
          · rw [hrest, drop_length] at hrel₁'
            rw [(resolved_of_find hfind).1 hrel₁', Except.ok.injEq]
          · rw [hrest, show m.containerPath ++ '/' :: (rest ++ '/' :: q') =
              (m.containerPath ++ '/' :: rest) ++ '/' :: q' by simp, drop_left] at hrel₁'
            have hq' : lstripSlash ('/' :: q') = q' := hq.right.lstrip
            rw [hq'] at hrel₁'
            subst hrel₁'
            rw [(resolved_of_find hfind).2 hq.right, Except.ok.injEq,
              show m.root ++ '/' :: (rest ++ '/' :: rel₁) = (m.root ++ '/' :: rest) ++ '/' :: rel₁ by
                simp, append_cancel_right_eq]

theorem nameUnder_fits (hm : m ∈ s.pathMappings) :
    (findPathMapping s.pathMappings (nameUnder m place)).isSome = true := by
  have hfits : (m.relative? (nameUnder m place)).isSome = true := by
    rw [nameUnder]
    split
    · have hown := relative?_append (s.absolute m hm) [] (.inl rfl)
      rw [append_nil] at hown
      rw [hown]
      rfl
    · rw [relative?_append (s.absolute m hm) _ (.inr rfl)]
      rfl
  by_contra hnone
  rw [not_isSome_iff_eq_none, findPathMapping, findSome?_eq_none_iff] at hnone
  have hm' := hnone m ((perm_insertionSort _ _).mem_iff.2 hm)
  rw [map_eq_none_iff] at hm'
  rw [hm'] at hfits
  cases hfits

/-! ### A slash at the end -/

/-- A relative path with a slash after it, if there is one. -/
def addSlash (rel : List Char) : List Char := if rel = [] then [] else rel ++ ['/']

theorem lstrip_append_slash (x : List Char) : lstripSlash (x ++ ['/']) = addSlash (lstripSlash x) := by
  induction x with
  | nil => rfl
  | cons c x ih =>
    by_cases hc : c = '/'
    · subst hc
      exact ih
    · have hkeep : ∀ tail, lstripSlash (c :: tail) = c :: tail := fun tail =>
        dropWhile_cons_of_neg (by simpa using hc)
      rw [cons_append, hkeep, hkeep, addSlash, if_neg (cons_ne_nil _ _)]
      rfl

theorem relative?_slash (hpath : path.head? = some '/') :
    m.relative? (path ++ ['/']) = (m.relative? path).map addSlash := by
  by_cases hroot : m.container = ['/']
  · rw [PathMapping.relative?, PathMapping.relative?, if_pos hroot, if_pos hroot, if_pos hpath,
      if_pos (by rw [head?_append, hpath]; rfl), lstrip_append_slash]
    rfl
  · have hsame : isAtOrUnder m.container (path ++ ['/']) = isAtOrUnder m.container path := by
      rw [Bool.eq_iff_iff, isAtOrUnder_iff, isAtOrUnder_iff]
      constructor
      · rintro (heq | hin)
        · exact absurd (by rw [← heq, getLast?_concat]) (container_last hroot)
        · rcases prefix_concat_iff.1 hin with heq | hin
          · exact .inl (append_cancel_right heq).symm
          · exact .inr hin
      · rintro (rfl | hin)
        · exact .inr (prefix_refl _)
        · exact .inr (hin.trans (prefix_append _ _))
    rw [PathMapping.relative?, PathMapping.relative?, if_neg hroot, if_neg hroot, hsame]
    split
    · rename_i hunder
      have hlen : m.container.length ≤ path.length := by
        rcases isAtOrUnder_iff.1 hunder with rfl | hin
        · exact le_rfl
        · exact ((prefix_append _ _).trans hin).length_le
      rw [drop_append_of_le_length hlen, lstrip_append_slash]
      rfl
    · rfl

/-- **A slash at the end of a path changes nothing.** -/
theorem resolved_slash (hpath : path.head? = some '/')
    (hfind : (findPathMapping s.pathMappings path).isSome = true) :
    s.resolved (path ++ ['/']) = s.resolved path := by
  have hfound : findPathMapping s.pathMappings (path ++ ['/']) =
      (findPathMapping s.pathMappings path).map fun found => (found.1, addSlash found.2) := by
    rw [findPathMapping, findPathMapping, map_findSome?]
    congr 1
    funext m
    rw [relative?_slash hpath, Function.comp_apply]
    cases m.relative? path <;> rfl
  obtain ⟨⟨m, rel⟩, hrel⟩ := isSome_iff_exists.1 hfind
  rw [hrel] at hfound
  rw [resolved, resolved, resolvePath, resolvePath, resolvePathWithMapping, resolvePathWithMapping,
    hfound, hrel]
  simp only [map_some]
  have htext : (if addSlash rel = [] then m.root else resolve (m.root ++ '/' :: addSlash rel)) =
      if rel = [] then m.root else resolve (m.root ++ '/' :: rel) := by
    rw [addSlash]
    by_cases hnil : rel = []
    · rw [if_pos hnil, if_pos rfl, if_pos hnil]
    · rw [if_neg hnil, if_neg (append_ne_nil_of_left_ne_nil hnil _), if_neg hnil, resolve,
        resolve, ← cons_append, ← append_assoc, resolveParts_slash_end]
  rw [htext]

/-! ### Backslashes -/

theorem mem_resolve {x : Char} (h : x ∈ resolve path) : x = '/' ∨ x ∈ path := by
  have hsub : ∀ (segs done : List (List Char)), ∀ part ∈ segs.foldl place done,
      part ∈ done ∨ part ∈ segs := by
    intro segs
    induction segs with
    | nil => exact fun _ _ h => .inl h
    | cons segment segs ih =>
      intro done part hpart
      rcases ih _ part hpart with h | h
      · rw [Sandbox.place] at h
        split at h
        · exact .inl h
        · split at h
          · exact .inl (dropLast_subset done h)
          · rcases mem_append.1 h with h | h
            · exact .inl h
            · exact .inr (mem_cons.2 (.inl (mem_singleton.1 h)))
      · exact .inr (mem_cons_of_mem _ h)
  rcases mem_cons.1 h with h | h
  · exact .inl h
  · refine (mem_intercalate h).imp id fun hpart => ?_
    obtain ⟨part, hpart, hx⟩ := hpart
    exact mem_of_mem_segment ((hsub _ _ part hpart).resolve_left not_mem_nil) hx

theorem clean_resolve (h : '\\' ∉ path) : '\\' ∉ resolve path := fun hmem =>
  (mem_resolve hmem).elim (by decide) h

theorem clean_lstrip (h : '\\' ∉ path) (n : Nat) : '\\' ∉ lstripSlash (path.drop n) := fun hmem =>
  h (mem_of_mem_drop ((dropWhile_sublist _).subset hmem))

/-- A path without backslashes leads to one without. -/
theorem clean_of_resolved (h : '\\' ∉ path) (hplace : s.resolved path = .ok place) :
    '\\' ∉ place := by
  rw [resolved, resolvePath, resolvePathWithMapping] at hplace
  cases hfind : findPathMapping s.pathMappings path with
  | none =>
    rw [hfind] at hplace
    obtain rfl := Except.ok.inj hplace
    exact h
  | some found =>
    obtain ⟨m, rel⟩ := found
    obtain ⟨hm, hrel, -⟩ := findPathMapping_spec hfind
    have hclean : '\\' ∉ rel := by
      rw [PathMapping.relative?] at hrel
      split at hrel
      · split at hrel
        · obtain rfl := some.inj hrel
          exact clean_lstrip h 0
        · cases hrel
      · split at hrel
        · obtain rfl := some.inj hrel
          exact clean_lstrip h _
        · cases hrel
    have htext : '\\' ∉ (if rel = [] then m.root else resolve (m.root ++ '/' :: rel)) := by
      split
      · exact (s.clean m hm).2
      · refine clean_resolve ?_
        rw [mem_append, not_or, mem_cons, not_or]
        exact ⟨(s.clean m hm).2, by decide, hclean⟩
    rw [hfind] at hplace
    simp only at hplace
    by_cases hin : resolveParts m.root <+:
        resolveParts (if rel = [] then m.root else resolve (m.root ++ '/' :: rel))
    · rw [if_pos hin] at hplace
      obtain rfl := Except.ok.inj hplace
      exact htext
    · rw [if_neg hin] at hplace
      cases hplace

theorem clean_reverse (s : LocalSandbox) (place : List Char) : '\\' ∉ s.reverse place := by
  have hplace : '\\' ∉ resolve (place.map fun c => if c = '\\' then '/' else c) := by
    refine clean_resolve fun hmem => ?_
    obtain ⟨c, -, hc⟩ := mem_map.1 hmem
    split at hc
    · exact absurd hc (by decide)
    · contradiction
  rw [reverse, reverseResolvePath]
  cases hfind : (byLocalSpecificity s.pathMappings).findSome? fun m =>
      m.reverse? (resolve (place.map fun c => if c = '\\' then '/' else c)) with
  | none => exact hplace
  | some report =>
    obtain ⟨m, hm, hreport⟩ := exists_of_findSome?_eq_some hfind
    have hcontainer := (s.clean m ((perm_insertionSort _ _).mem_iff.1 hm)).1
    rw [reverse?_eq] at hreport
    split at hreport
    · obtain rfl := some.inj hreport
      simp only [getD_some]
      rw [nameUnder]
      split
      · exact hcontainer
      · rw [mem_append, not_or, mem_cons, not_or]
        exact ⟨hcontainer, by decide, clean_lstrip hplace _⟩
    · cases hreport

/-! ### Entries -/

variable {fs : FileTree} {root : List (List Char)} {resolvedPath : List Char} {maxDepth : Nat}
  {e : HostEntry}

theorem entry_dir (he : e ∈ fs.entries) : ∃ dir : Dir, dir.names = e.names ∧ dir.path = e.path :=
  ⟨⟨e.names, fs.isName e he, fs.ne_root e he⟩, rfl, rfl⟩

theorem resolve_entry (he : e ∈ fs.entries) :
    resolveParts e.path = e.names ∧ resolve e.path = e.path := by
  have hparts : resolveParts e.path = e.names := resolveParts_ofParts (fs.isName e he)
  exact ⟨hparts, by rw [resolve, hparts]; rfl⟩

/-- What is found under a container path has a mapping that names it. -/
theorem exists_naming (hfind : (findPathMapping s.pathMappings path).isSome = true)
    (hok : s.resolved path = .ok resolvedPath) (he : e ∈ fs.walk (resolveParts resolvedPath)) :
    ∃ m, s.naming? e.path = some m := by
  obtain ⟨⟨m₀, rel₀⟩, hfind⟩ := isSome_iff_exists.1 hfind
  have hm₀ := (findPathMapping_spec hfind).1
  have hstarts : resolveParts m₀.root <+: resolveParts resolvedPath := by
    rw [resolved, resolvePath, resolvePathWithMapping, hfind] at hok
    simp only at hok
    by_cases hin : resolveParts m₀.root <+:
        resolveParts (if rel₀ = [] then m₀.root else resolve (m₀.root ++ '/' :: rel₀))
    · rw [if_pos hin] at hok
      rwa [← show _ = resolvedPath from Except.ok.inj hok]
    · rw [if_neg hin] at hok
      cases hok
  obtain ⟨rest, hrest⟩ := hstarts.trans (FileTree.mem_walk he).2.1
  have hunder : isAtOrUnder m₀.root e.path = true := by
    rw [PathMapping.root, resolveParts_resolve] at hrest
    rw [PathMapping.root, resolve, HostEntry.path, ← hrest]
    exact under_ofParts (root_ne_nil hm₀) rest
  have hsome : (s.naming? e.path).isSome = true := by
    rw [naming?, find?_isSome]
    exact ⟨m₀, (perm_insertionSort _ _).mem_iff.2 hm₀, hunder⟩
  exact isSome_iff_exists.1 hsome

theorem leads_iff (he : e ∈ fs.entries) (hnaming : s.naming? e.path = some m) :
    s.Leads e (s.reverse e.path) ↔ '\\' ∉ e.path ∧ ¬s.Shadowed e.path := by
  constructor
  · intro h
    have hclean := clean_of_resolved (clean_reverse s e.path) h
    exact ⟨hclean, (comes_back_iff (fs.isName e he) (fs.ne_root e he) hclean hnaming).1 h⟩
  · rintro ⟨hclean, hshadowed⟩
    exact (comes_back_iff (fs.isName e he) (fs.ne_root e he) hclean hnaming).2 hshadowed

theorem entry_last (he : e ∈ fs.entries) (hclean : '\\' ∉ e.path) :
    stripEntry e.path = e.path ∧ e.path.getLast?.any isSeparator = false := by
  obtain ⟨dir, -, hdir⟩ := entry_dir he
  rw [← hdir] at hclean ⊢
  have hstrip := rdropWhile_path dir fun hlast => hclean (mem_of_getLast? hlast)
  refine ⟨hstrip, ?_⟩
  have hne : dir.path ≠ [] := cons_ne_nil _ _
  rw [getLast?_eq_some_getLast hne]
  exact Bool.eq_false_iff.2 (rdropWhile_eq_self_iff.1 hstrip hne)

theorem reportEntry_eq (he : e ∈ fs.entries) (hclean : '\\' ∉ e.path) :
    s.reportEntry e = if e.isDir = true ∧ (s.reverse e.path).getLast? ≠ some '/' then
      s.reverse e.path ++ ['/'] else s.reverse e.path := by
  obtain ⟨hstrip, hlast⟩ := entry_last he hclean
  rw [reportEntry, entryText]
  by_cases hdir : e.isDir = true
  · have hstrip' : stripEntry (e.path ++ ['/']) = e.path := by
      rw [stripEntry, rdropWhile_concat_pos _ _ _ (by decide)]
      exact hstrip
    have hsep : ((e.path ++ ['/']).getLast?.any isSeparator) = true := by
      rw [getLast?_concat]
      rfl
    simp only [hsep, ↓reduceIte, hstrip', hdir, true_and, ne_eq, ite_not]
  · simp only [hlast, Bool.false_eq_true, ↓reduceIte, hdir, false_and]

theorem reverse_head (s : LocalSandbox) (place : List Char) :
    (s.reverse place).head? = some '/' := by
  rw [reverse, reverseResolvePath]
  cases hfind : (byLocalSpecificity s.pathMappings).findSome? fun m =>
      m.reverse? (resolve (place.map fun c => if c = '\\' then '/' else c)) with
  | none => rfl
  | some report =>
    obtain ⟨m, hm, hreport⟩ := exists_of_findSome?_eq_some hfind
    have habsolute := s.absolute m ((perm_insertionSort _ _).mem_iff.1 hm)
    rw [reverse?_eq] at hreport
    split at hreport
    · obtain rfl := some.inj hreport
      simp only [getD_some]
      rw [nameUnder]
      split
      · exact habsolute
      · exact head_append habsolute _
    · cases hreport

theorem reportEntry_head (s : LocalSandbox) (e : HostEntry) :
    (s.reportEntry e).head? = some '/' := by
  rw [reportEntry]
  split
  · simp only
    split
    · exact reverse_head s _
    · rw [head?_append, reverse_head]
      rfl
  · exact reverse_head s _

theorem resolved_reportEntry (he : e ∈ fs.entries) (hclean : '\\' ∉ e.path)
    (hnaming : s.naming? e.path = some m) :
    s.resolved (s.reportEntry e) = s.resolved (s.reverse e.path) := by
  rw [reportEntry_eq he hclean]
  split
  · refine resolved_slash (reverse_head s _) ?_
    rw [reverse_eq (resolve_entry he).2 hclean hnaming]
    exact nameUnder_fits (naming_mem hnaming).1
  · rfl

/-! ### Children that are added -/

theorem mem_existingDirs {reports : List (List Char)} {name : List Char}
    (hreports : ∀ report ∈ reports, report.head? = some '/')
    (h : name ∈ existingDirs reports) : name = [] ∨ '/' ∈ name := by
  obtain ⟨report, hmem, rfl⟩ := mem_map.1 h
  have hhead := hreports report (mem_filter.1 hmem).1
  obtain ⟨n, hn⟩ := rstrip_append report
  cases hstrip : rstripSlash report with
  | nil => exact .inl rfl
  | cons c name =>
    rw [hstrip] at hn
    rw [hn] at hhead
    exact .inr (mem_cons.2 (.inl (some.inj hhead).symm))

theorem resolved_containerPath_slash (hm : m ∈ s.pathMappings) :
    s.resolved (m.containerPath ++ ['/']) = .ok m.root := by
  have hfind := findPathMapping_containerPath hm
  rw [resolved_slash (s.absolute m hm) (by rw [hfind]; rfl)]
  exact (resolved_of_find hfind).1 rfl

theorem reverse_ne_slash (he : e ∈ fs.entries) (hclean : '\\' ∉ e.path)
    (hnaming : s.naming? e.path = some m') (hm : m ∈ s.pathMappings) :
    s.reverse e.path ≠ m.containerPath ++ ['/'] := by
  obtain ⟨hm', hunder⟩ := naming_mem hnaming
  rw [reverse_eq (resolve_entry he).2 hclean hnaming, nameUnder]
  rcases proper_of_under (fs.isName e he) (fs.ne_root e he) hm' hunder with heq | ⟨q, hq, heq⟩
  · rw [show e.path = m'.root from heq, drop_length, if_pos (show lstripSlash [] = [] from rfl)]
    intro hsame
    have hstrip : rstripSlash m'.containerPath = rstripSlash m.containerPath := by
      rw [hsame, rstripSlash, rdropWhile_concat_pos _ _ _ (by decide), rstripSlash]
    obtain rfl := eq_of_container hm' hm (by rw [PathMapping.container, PathMapping.container, hstrip])
    exact absurd (congrArg List.length hsame) (by simp)
  · have hrel : lstripSlash ('/' :: q) = q := hq.lstrip
    rw [show e.path = m'.root ++ '/' :: q from heq, drop_left, hrel, if_neg hq.ne_nil]
    intro hsame
    have hlast := (entry_last he hclean).2
    have hends : ∀ x : List Char, (x ++ '/' :: q).getLast? = q.getLast? := by
      intro x
      rw [getLast?_append, getLast?_cons, getLast?_eq_some_getLast hq.ne_nil]
      rfl
    rw [show e.path = m'.root ++ '/' :: q from heq, hends, ← hends m'.containerPath, hsame,
      getLast?_concat] at hlast
    cases hlast

/-- A child that is added was there already: its directory is among those listed. -/
theorem doubled_of_mem (hall : ∀ e ∈ fs.listDir root maxDepth, s.Leads e (s.reverse e.path) ∧
      '\\' ∉ e.path ∧ ∃ m, s.naming? e.path = some m)
    (he : e ∈ fs.listDir root maxDepth) {reports : List (List Char)}
    (hm : m ∈ s.overlay fs path reports) (heq : s.reportEntry e = m.containerPath ++ ['/']) :
    s.Doubled fs path root maxDepth := by
  have hin : e ∈ fs.entries := (FileTree.mem_walk (mem_filter.1 he).1).1
  obtain ⟨hleads, hclean, m', hnaming⟩ := hall e he
  obtain ⟨hmem, hadded⟩ := mem_filter.1 hm
  rw [Bool.and_eq_true, Bool.and_eq_true] at hadded
  obtain ⟨⟨hchild, -⟩, hdir⟩ := hadded
  have hroot : e.path = m.root := by
    have hsame := resolved_reportEntry hin hclean hnaming
    rw [heq, resolved_containerPath_slash hmem] at hsame
    exact (Except.ok.inj (hsame.trans hleads)).symm
  have hnames : e.names = resolveParts m.localPath := by
    rw [← (resolve_entry hin).1, hroot, PathMapping.root, resolveParts_resolve]
  have hdirectory : e = ⟨resolveParts m.localPath, true⟩ := by
    rw [FileTree.isDir, ← hnames, Bool.or_eq_true, beq_iff_eq, contains_iff_mem] at hdir
    rw [← hnames]
    exact inj_on_of_nodup_map fs.nodup hin (hdir.resolve_left (fs.ne_root e hin)) rfl
  have hreverse : s.reverse e.path = m.containerPath ∧ m.containerPath.getLast? ≠ some '/' := by
    rw [reportEntry_eq hin hclean] at heq
    split at heq
    · rename_i hcond
      have hsame := append_cancel_right heq
      exact ⟨hsame, hsame ▸ hcond.2⟩
    · exact absurd heq (reverse_ne_slash hin hclean hnaming hmem)
  obtain ⟨hreverse, hlast⟩ := hreverse
  rw [isChild, Bool.and_eq_true, isPrefixOf_iff_prefix, Bool.not_eq_true', Bool.eq_false_iff,
    ne_eq, contains_iff_mem] at hchild
  obtain ⟨⟨name, hname⟩, hslash⟩ := hchild
  have hdrop : m.containerPath.drop (rstripSlash path).length.succ = name := by
    rw [← hname, Nat.succ_eq_add_one,
      show (rstripSlash path).length + 1 = (rstripSlash path ++ ['/']).length by simp, drop_left]
  rw [hdrop] at hslash
  refine ⟨m, hmem, name, ?_, hslash, ?_, hdirectory ▸ he, m', hroot ▸ hnaming, ?_⟩
  · rintro rfl
    rw [← hname, append_nil, getLast?_concat] at hlast
    exact hlast rfl
  · rw [← hname, append_assoc, singleton_append]
  · rw [← hreverse, reverse_eq (resolve_entry hin).2 hclean hnaming, hroot]

/-- A child whose directory is listed is added all the same. -/
theorem not_nodup_of_doubled (h : s.Doubled fs path root maxDepth) :
    ¬((fs.listDir root maxDepth).map s.reportEntry ++
      (s.overlay fs path ((fs.listDir root maxDepth).map s.reportEntry)).map
        fun m => m.containerPath ++ ['/']).Nodup := by
  obtain ⟨m, hm, name, hname, hslash, hpath, hin, m', hnaming, hunder⟩ := h
  have hentry : (⟨resolveParts m.localPath, true⟩ : HostEntry) ∈ fs.entries :=
    (FileTree.mem_walk (mem_filter.1 hin).1).1
  have hlast : m.containerPath.getLast? ≠ some '/' := by
    rw [hpath, getLast?_append, getLast?_cons, getLast?_eq_some_getLast hname]
    exact fun h => hslash (some.inj h ▸ getLast_mem hname)
  have hreport : s.reportEntry ⟨resolveParts m.localPath, true⟩ = m.containerPath ++ ['/'] := by
    have hroot : resolve m.root = m.root := resolve_resolve _
    have hreverse : s.reverse m.root = m.containerPath := by
      rw [reverse_eq hroot (s.clean m hm).2 hnaming, hunder]
    have hpathof : (⟨resolveParts m.localPath, true⟩ : HostEntry).path = m.root := rfl
    rw [reportEntry_eq hentry (by rw [hpathof]; exact (s.clean m hm).2), hpathof, hreverse,
      if_pos ⟨rfl, hlast⟩]
  have hadded : m ∈ s.overlay fs path ((fs.listDir root maxDepth).map s.reportEntry) := by
    refine mem_filter.2 ⟨hm, ?_⟩
    have hdrop : m.containerPath.drop (rstripSlash path).length.succ = name := by
      rw [hpath, append_cons, Nat.succ_eq_add_one,
        show (rstripSlash path).length + 1 = (rstripSlash path ++ ['/']).length by simp, drop_left]
    rw [isChild, hdrop, Bool.and_eq_true, Bool.and_eq_true, Bool.and_eq_true,
      isPrefixOf_iff_prefix, FileTree.isDir, Bool.or_eq_true, contains_iff_mem]
    refine ⟨⟨⟨?_, ?_⟩, ?_⟩, .inr hentry⟩
    · exact ⟨name, by rw [hpath, append_assoc, singleton_append]⟩
    · rw [Bool.not_eq_true', Bool.eq_false_iff, ne_eq, contains_iff_mem]
      exact hslash
    · rw [Bool.not_eq_true', Bool.eq_false_iff, ne_eq, contains_iff_mem]
      intro hmem
      refine (mem_existingDirs (fun report hreport => ?_) hmem).elim hname hslash
      obtain ⟨e, -, rfl⟩ := mem_map.1 hreport
      exact reportEntry_head s e
  intro hnodup
  exact (nodup_append.1 hnodup).2.2 _ (mem_map.2 ⟨_, hin, hreport⟩) _
    (mem_map.2 ⟨m, hadded, rfl⟩) rfl

theorem glob_ok (hok : s.resolved path = .ok resolvedPath) (takes : List Char → Bool)
    (includeDirs : Bool) (maxResults : Nat) : s.glob fs path takes includeDirs maxResults =
      .ok ((fs.globMatches (resolveParts resolvedPath) takes includeDirs maxResults).1.map
          (fun e => s.reverse e.path),
        (fs.globMatches (resolveParts resolvedPath) takes includeDirs maxResults).2) := by
  rw [glob, hok]
  rfl

theorem grep_ok (hok : s.resolved path = .ok resolvedPath) (takes : List Char → Bool)
    (hits : HostEntry → List (Nat × List Char)) (maxResults : Nat) :
    s.grep fs path takes hits maxResults =
      .ok ((fs.grepMatches (resolveParts resolvedPath) takes hits maxResults).1.map
          (fun hit => ⟨s.reverse hit.1.path, hit.2.1, hit.2.2⟩),
        (fs.grepMatches (resolveParts resolvedPath) takes hits maxResults).2) := by
  rw [grep, hok]
  rfl

end LocalSandbox

/-- **What is reported for a directory leads back, each entry once, exactly when** no name in it has
a backslash, no place in it is shadowed, and no child is there already. -/
theorem reported_paths_iff (s : LocalSandbox) (fs : FileTree) {path resolvedPath : List Char}
    (hfind : (findPathMapping s.pathMappings path).isSome = true)
    (hok : s.resolved path = .ok resolvedPath) (maxDepth : Nat) :
    s.Returns fs path (resolveParts resolvedPath) maxDepth ↔
      (∀ e ∈ fs.walk (resolveParts resolvedPath), '\\' ∉ e.path ∧ ¬s.Shadowed e.path) ∧
        ¬s.Doubled fs path (resolveParts resolvedPath) maxDepth := by
  have hlisting : s.listDir fs path maxDepth =
      .ok ((fs.listDir (resolveParts resolvedPath) maxDepth).map s.reportEntry ++
        (s.overlay fs path ((fs.listDir (resolveParts resolvedPath) maxDepth).map s.reportEntry)).map
          fun m => m.containerPath ++ ['/']) := by
    rw [LocalSandbox.listDir, hok]
    rfl
  have hwalk : ∀ e ∈ fs.walk (resolveParts resolvedPath), (∃ m, s.naming? e.path = some m) ∧
      (s.Leads e (s.reverse e.path) ↔ '\\' ∉ e.path ∧ ¬s.Shadowed e.path) := by
    intro e he
    obtain ⟨m, hnaming⟩ := LocalSandbox.exists_naming hfind hok he
    exact ⟨⟨m, hnaming⟩, LocalSandbox.leads_iff (FileTree.mem_walk he).1 hnaming⟩
  constructor
  · intro h
    refine ⟨fun e he => (hwalk e he).2.1 ?_, fun hdoubled => ?_⟩
    · have hleads := h.globbed _ _ _ _ _ (LocalSandbox.glob_ok hok (fun _ => true) true
        ((fs.walk (resolveParts resolvedPath)).length + 1))
      rw [FileTree.globMatches_all, forall₂_map_right_iff, forall₂_same] at hleads
      exact hleads e he
    · exact LocalSandbox.not_nodup_of_doubled hdoubled (h.once _ hlisting)
  · rintro ⟨hall, hdoubled⟩
    have hleads : ∀ e ∈ fs.walk (resolveParts resolvedPath), s.Leads e (s.reverse e.path) :=
      fun e he => (hwalk e he).2.2 (hall e he)
    have hreport : ∀ e ∈ fs.listDir (resolveParts resolvedPath) maxDepth,
        s.resolved (s.reportEntry e) = .ok e.path := by
      intro e he
      have hin := (mem_filter.1 he).1
      obtain ⟨m, hnaming⟩ := (hwalk e hin).1
      exact (LocalSandbox.resolved_reportEntry (FileTree.mem_walk hin).1 (hall e hin).1 hnaming).trans
        (hleads e hin)
    refine ⟨fun result hresult => ?_, fun result hresult => ?_, ?_, ?_⟩
    · rw [hlisting] at hresult
      refine ⟨_, _, (Except.ok.inj hresult).symm, ?_⟩
      rw [forall₂_map_right_iff, forall₂_same]
      exact hreport
    · rw [hlisting] at hresult
      obtain rfl := Except.ok.inj hresult
      refine nodup_append.2 ⟨?_, ?_, ?_⟩
      · refine List.Nodup.of_map s.resolved ?_
        have hpaths : ((fs.listDir (resolveParts resolvedPath) maxDepth).map s.reportEntry).map
            s.resolved = ((fs.listDir (resolveParts resolvedPath) maxDepth).map
              HostEntry.names).map fun names => Except.ok (ofParts names) := by
          rw [List.map_map, List.map_map]
          exact List.map_congr_left hreport
        rw [hpaths]
        refine List.Nodup.map_on (fun names hnames names' hnames' heq => ?_)
          (FileTree.nodup_listDir fs _ _)
        obtain ⟨e, he, rfl⟩ := mem_map.1 hnames
        obtain ⟨e', he', rfl⟩ := mem_map.1 hnames'
        rw [← (LocalSandbox.resolve_entry (FileTree.mem_walk (mem_filter.1 he).1).1).1,
          ← (LocalSandbox.resolve_entry (FileTree.mem_walk (mem_filter.1 he').1).1).1]
        exact congrArg resolveParts (Except.ok.inj heq)
      · refine List.Nodup.map_on ?_ (List.Nodup.filter _ (List.Nodup.of_map _ s.distinct))
        exact fun m hm m' hm' h => LocalSandbox.eq_of_container (mem_filter.1 hm).1
          (mem_filter.1 hm').1 (by rw [PathMapping.container, PathMapping.container,
            append_cancel_right h])
      · intro report hmem report' hmem' heq
        obtain ⟨e, he, rfl⟩ := mem_map.1 hmem
        obtain ⟨m, hm, rfl⟩ := mem_map.1 hmem'
        refine hdoubled (LocalSandbox.doubled_of_mem (fun e he => ?_) he hm heq)
        have hin := (mem_filter.1 he).1
        exact ⟨hleads e hin, (hall e hin).1, (hwalk e hin).1⟩
    · intro takes includeDirs maxResults reports truncated hglob
      rw [LocalSandbox.glob_ok hok] at hglob
      obtain ⟨rfl, -⟩ := Prod.mk.inj (Except.ok.inj hglob)
      rw [forall₂_map_right_iff, forall₂_same]
      exact fun e he => hleads e (FileTree.mem_walk_of_mem_globMatches he)
    · intro takes hits maxResults reports truncated hgrep
      rw [LocalSandbox.grep_ok hok] at hgrep
      obtain ⟨rfl, -⟩ := Prod.mk.inj (Except.ok.inj hgrep)
      rw [forall₂_map_right_iff, forall₂_same]
      exact fun hit hhit => hleads hit.1 (FileTree.mem_walk_of_mem_grepMatches hhit)

/-! ### A thread's own directories -/

/-- `/srv/data` with a file in it. -/
def dataTree : FileTree where
  entries := [⟨["srv".toList], true⟩, ⟨["srv".toList, "data".toList], true⟩,
    ⟨["srv".toList, "data".toList, "a.txt".toList], false⟩]
  isName := by decide +kernel
  ne_root := by decide +kernel
  nodup := by decide +kernel
  parents := by decide +kernel

/-- `/srv/data` at `/mnt/data`. -/
def dataSandbox : LocalSandbox where
  pathMappings := [⟨"/mnt/data".toList, "/srv/data".toList, false⟩]
  absolute := by decide +kernel
  distinct := by decide +kernel
  below := by decide +kernel
  clean := by decide +kernel

theorem reported_paths_demo : dataSandbox.Returns dataTree "/mnt/data".toList
    (resolveParts "/srv/data".toList) 2 := by
  have honly : ∀ m ∈ dataSandbox.pathMappings, ∀ m' ∈ dataSandbox.pathMappings,
      m'.container.length ≤ m.containerPath.length := by decide +kernel
  refine (reported_paths_iff dataSandbox dataTree (by decide +kernel) (by decide +kernel) 2).2
    ⟨fun e he => ⟨?_, ?_⟩, ?_⟩
  · have hclean : ∀ e ∈ dataTree.walk (resolveParts "/srv/data".toList), '\\' ∉ e.path := by
      decide +kernel
    exact hclean e he
  · rintro ⟨m, m', rest, hnaming, hm', ⟨hcontainer, -⟩, -⟩
    have hlen := honly m (LocalSandbox.naming_mem hnaming).1 m' hm'
    rw [hcontainer, length_append, length_cons] at hlen
    omega
  · rintro ⟨m, hm, -, -, -, -, hin, -⟩
    have hout : ∀ m ∈ dataSandbox.pathMappings, (⟨resolveParts m.localPath, true⟩ : HostEntry) ∉
        dataTree.listDir (resolveParts "/srv/data".toList) 2 := by decide +kernel
    exact hout m hm hin

/-- The directory of a thread. -/
def threadTree : FileTree where
  entries := [⟨["t".toList], true⟩, ⟨["t".toList, "workspace".toList], true⟩]
  isName := by decide +kernel
  ne_root := by decide +kernel
  nodup := by decide +kernel
  parents := by decide +kernel

/-- The thread's directories at `/mnt/user-data`. -/
def threadSandbox : LocalSandbox where
  pathMappings := [⟨"/mnt/user-data".toList, "/t".toList, false⟩,
    ⟨"/mnt/user-data/workspace".toList, "/t/workspace".toList, false⟩]
  absolute := by decide +kernel
  distinct := by decide +kernel
  below := by decide +kernel
  clean := by decide +kernel

/-- **The thread's own directories are listed twice.** -/
theorem user_data_listed_twice : ¬∀ (s : LocalSandbox) (fs : FileTree) (path resolvedPath : List Char)
    (maxDepth : Nat), (findPathMapping s.pathMappings path).isSome = true →
      s.resolved path = .ok resolvedPath →
      s.Returns fs path (resolveParts resolvedPath) maxDepth := by
  intro h
  have hreturns := h threadSandbox threadTree "/mnt/user-data".toList "/t".toList 2
    (by decide +kernel) (by decide +kernel)
  have htwice : threadSandbox.listDir threadTree "/mnt/user-data".toList 2 =
      .ok ["/mnt/user-data/workspace/".toList, "/mnt/user-data/workspace/".toList] := by
    decide +kernel
  exact absurd (hreturns.once _ htwice) (by decide)

end AfterFlow.Sandbox
