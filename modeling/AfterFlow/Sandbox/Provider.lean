import AfterFlow.Sandbox.ToolPaths

/-!
# The mappings of a thread

`LocalSandboxProvider` maps the public skills and the custom mounts for every thread, and for each
thread its directories, its ACP workspace and its user's skills. A mount under one of the container
paths that are reserved for these is left out. So for a path under a reserved container path that is
mapped, no other mapping is longer.
-/

namespace AfterFlow.Sandbox

open List

theorem isName_iff {segment : List Char} : IsName segment ↔
    segment ≠ [] ∧ segment ≠ ['.'] ∧ segment ≠ ['.', '.'] ∧ '/' ∉ segment :=
  ⟨fun h => ⟨h.ne_nil, h.ne_dot, h.ne_dots, h.no_slash⟩, fun h => ⟨h.1, h.2.1, h.2.2.1, h.2.2.2⟩⟩

instance (segment : List Char) : Decidable (IsName segment) := decidable_of_iff' _ isName_iff

/-- A directory of the host below the root, resolved. -/
structure Dir where
  names : List (List Char)
  isName : ∀ name ∈ names, IsName name
  ne_nil : names ≠ []

def Dir.path (d : Dir) : List Char := ofParts d.names

/-- `mount.container_path.rstrip("/") or "/"`. -/
def Mount.container (m : Mount) : List Char :=
  if rstripSlash m.containerPath = [] then ['/'] else rstripSlash m.containerPath

/-- What the configuration and the host have for a thread and its user. -/
structure Deployment where
  skillsContainer : List Char
  skillsDir : Dir
  skillsExist : Bool
  publicExists : Bool
  /-- Whether the user sees the skills of before there were users. -/
  legacyMounted : Bool
  userCustomDir : Dir
  userDataDir : Dir
  acpDir : Dir
  /-- The custom mounts with a host path that exists. -/
  mounts : List Mount

namespace Deployment

variable (d : Deployment)

/-- A directory in the skills container. -/
def skillsAt (name : String) : List Char := d.skillsContainer ++ '/' :: name.toList

/-- The thread's directories. -/
def threadData : ThreadData where
  workspacePath := joinPath d.userDataDir.path "workspace".toList
  uploadsPath := joinPath d.userDataDir.path "uploads".toList
  outputsPath := joinPath d.userDataDir.path "outputs".toList

/-- What the tools read. -/
def settings : Settings where
  skillsContainer := d.skillsContainer
  skillsHost := if d.skillsExist then some d.skillsDir.path else none
  userCustomDir := d.userCustomDir.path
  acpHost := some d.acpDir.path
  mounts := d.mounts

/-- `_RESERVED_CONTAINER_PREFIXES`. -/
def reserved : List (List Char) :=
  [d.skillsAt "public", d.skillsAt "custom", d.skillsAt "legacy", acpWorkspaceVirtualPath,
    virtualPathPrefix]

/-- The mapping of a custom mount, if it is not skipped. -/
def mountMapping? (m : Mount) : Option PathMapping :=
  if m.hostPath.head? ≠ some '/' ∨ m.container.head? ≠ some '/' ∨
      d.reserved.any (fun p => isAtOrUnder p m.container) then none
  else some ⟨m.container, resolve m.hostPath, m.readOnly⟩

/-- `_setup_path_mappings`. -/
def staticMappings : List PathMapping :=
  (if d.publicExists then
    [⟨d.skillsAt "public", joinPath d.skillsDir.path "public".toList, true⟩] else []) ++
  d.mounts.filterMap d.mountMapping?

/-- `_build_thread_path_mappings`. -/
def threadPathMappings : List PathMapping :=
  [⟨virtualPathPrefix, d.userDataDir.path, false⟩,
    ⟨virtualPathPrefix ++ "/workspace".toList, d.threadData.workspacePath, false⟩,
    ⟨virtualPathPrefix ++ "/uploads".toList, d.threadData.uploadsPath, false⟩,
    ⟨virtualPathPrefix ++ "/outputs".toList, d.threadData.outputsPath, false⟩,
    ⟨acpWorkspaceVirtualPath, d.acpDir.path, false⟩,
    ⟨d.skillsAt "custom", d.userCustomDir.path, true⟩] ++
  if d.legacyMounted then
    [⟨d.skillsAt "legacy", joinPath d.skillsDir.path "custom".toList, true⟩] else []

/-- The path mappings of the thread's sandbox. -/
def pathMappings : List PathMapping := d.staticMappings ++ d.threadPathMappings

end Deployment

/-! ### Prefixes -/

variable {c c' path p q rel : List Char} {m m' : PathMapping} {mappings : List PathMapping}

theorem isAtOrUnder_iff : isAtOrUnder c path = true ↔ path = c ∨ c ++ ['/'] <+: path := by
  rw [isAtOrUnder, Bool.or_eq_true, beq_iff_eq, isPrefixOf_iff_prefix]

theorem isAtOrUnder_iff_exists :
    isAtOrUnder c path = true ↔ path = c ∨ ∃ q, path = c ++ '/' :: q := by
  rw [isAtOrUnder_iff]
  refine or_congr_right ⟨fun ⟨q, hq⟩ => ⟨q, ?_⟩, fun ⟨q, hq⟩ => ⟨q, ?_⟩⟩
  · rw [← hq, append_assoc, singleton_append]
  · rw [hq, append_assoc, singleton_append]

theorem isAtOrUnder_self (c : List Char) : isAtOrUnder c c = true := isAtOrUnder_iff.2 (.inl rfl)

theorem isAtOrUnder_of_length (h : isAtOrUnder c path = true) (h' : isAtOrUnder c' path = true)
    (hlen : c.length ≤ c'.length) : isAtOrUnder c c' = true := by
  have hc' : c' <+: path := by
    rcases isAtOrUnder_iff.1 h' with rfl | h'
    · exact prefix_refl _
    · exact (prefix_append _ _).trans h'
  rw [isAtOrUnder_iff]
  rcases isAtOrUnder_iff.1 h with rfl | h
  · exact .inl (hc'.eq_of_length_le hlen)
  · rcases Nat.eq_or_lt_of_le hlen with hlen | hlen
    · left
      exact (prefix_of_prefix_length_le hc' ((prefix_append _ _).trans h)
        hlen.symm.le).eq_of_length hlen.symm
    · right
      refine prefix_of_prefix_length_le h hc' ?_
      rw [length_append, length_singleton]
      exact hlen

theorem isAtOrUnder_trans (h : isAtOrUnder c c' = true) (h' : isAtOrUnder c' path = true) :
    isAtOrUnder c path = true := by
  rw [isAtOrUnder_iff_exists] at *
  rcases h with rfl | ⟨q, rfl⟩
  · exact h'
  · rcases h' with rfl | ⟨r, rfl⟩
    · exact .inr ⟨q, rfl⟩
    · exact .inr ⟨q ++ '/' :: r, by rw [append_assoc, cons_append]⟩

theorem relative?_eq_some (hc : m.container ≠ ['/']) :
    m.relative? path = some rel ↔
      isAtOrUnder m.container path = true ∧ rel = lstripSlash (path.drop m.container.length) := by
  rw [PathMapping.relative?, if_neg hc]
  split
  · rename_i h
    exact ⟨fun heq => ⟨h, (Option.some.inj heq).symm⟩, fun heq => congrArg some heq.2.symm⟩
  · rename_i h
    exact iff_of_false nofun fun heq => h heq.1

/-! ### The mapping that is found -/

/-- **The longest of the mappings that fit is found.** -/
theorem findPathMapping_eq (hm : m ∈ mappings) (hrel : m.relative? path = some rel)
    (hlongest : ∀ m' ∈ mappings, m' ≠ m → (m'.relative? path).isSome = true →
      m'.container.length < m.container.length) :
    findPathMapping mappings path = some (m, rel) := by
  have hsorted : (byContainerSpecificity mappings).Pairwise
      fun m m' => m'.container.length ≤ m.container.length := pairwise_insertionSort _ _
  have hmem : ∀ m', m' ∈ byContainerSpecificity mappings ↔ m' ∈ mappings := fun m' =>
    (perm_insertionSort _ mappings).mem_iff
  have hlist : ∀ ms : List PathMapping, m ∈ ms → (∀ m' ∈ ms, m' ∈ mappings) →
      ms.Pairwise (fun m m' => m'.container.length ≤ m.container.length) →
      (ms.findSome? fun m => (m.relative? path).map fun rel => (m, rel)) = some (m, rel) := by
    intro ms hin hsub hpair
    induction ms with
    | nil => cases hin
    | cons a ms ih =>
      rw [pairwise_cons] at hpair
      by_cases ha : a = m
      · subst ha
        rw [findSome?_cons, hrel]
        rfl
      · have hms : m ∈ ms := (mem_cons.1 hin).resolve_left fun h => ha h.symm
        have hnone : a.relative? path = none := by
          cases hrela : a.relative? path with
          | none => rfl
          | some r =>
            have hlt := hlongest a (hsub a mem_cons_self) ha (by rw [hrela]; rfl)
            exact absurd (hpair.1 m hms) (Nat.not_le.2 hlt)
        rw [findSome?_cons, hnone]
        exact ih hms (fun m' hm' => hsub m' (mem_cons_of_mem _ hm')) hpair.2
  exact hlist _ ((hmem m).2 hm) (fun m' => (hmem m').1) hsorted

theorem findPathMapping_of_under (hm : m ∈ mappings) (hc : 1 < m.container.length)
    (hpath : isAtOrUnder m.container path = true)
    (hothers : ∀ m' ∈ mappings, m' ≠ m → m'.container ≠ ['/'] →
      isAtOrUnder m'.container path = true → isAtOrUnder m.container m'.container = false) :
    findPathMapping mappings path = some (m, lstripSlash (path.drop m.container.length)) := by
  have hcroot : m.container ≠ ['/'] := by
    intro hroot
    rw [hroot] at hc
    exact absurd hc (by decide)
  refine findPathMapping_eq hm ((relative?_eq_some hcroot).2 ⟨hpath, rfl⟩) fun m' hm' hne hsome => ?_
  by_cases hroot : m'.container = ['/']
  · rwa [hroot, length_singleton]
  · obtain ⟨rel', hrel'⟩ := Option.isSome_iff_exists.1 hsome
    have hpath' := ((relative?_eq_some hroot).1 hrel').1
    by_contra hlen
    have hunder := isAtOrUnder_of_length hpath hpath' (Nat.not_lt.1 hlen)
    rw [hothers m' hm' hne hroot hpath'] at hunder
    cases hunder

/-! ### Where a path leads -/

theorem counted_name {segment : List Char} (hdots : ['.', '.'] ∉ segments rel)
    (h : segment ∈ (segments rel).filter counts) : IsName segment := by
  obtain ⟨hmem, hcounts⟩ := mem_filter.1 h
  rw [counts, Bool.not_eq_true', Bool.or_eq_false_iff, beq_eq_false_iff_ne,
    beq_eq_false_iff_ne] at hcounts
  exact ⟨hcounts.1, hcounts.2, fun h => hdots (h ▸ hmem), no_slash_of_mem_segments hmem⟩

theorem names_under (hdots : ['.', '.'] ∉ segments rel) :
    ∀ name ∈ resolveParts path ++ (segments rel).filter counts, IsName name := by
  intro name hname
  rcases mem_append.1 hname with h | h
  · exact names_resolveParts _ name h
  · exact counted_name hdots h

theorem hostPlace_of_none (h : findPathMapping mappings path = none) :
    hostPlace mappings path = .ok (resolveParts path) := by
  rw [hostPlace, resolvePath, resolvePathWithMapping, h]
  rfl

/-- **Without two dots a path stays in the directory of its mapping.** -/
theorem resolvePath_eq (hfind : findPathMapping mappings path = some (m, rel))
    (hdots : ['.', '.'] ∉ segments rel) : resolvePath mappings path =
      .ok (ofParts (resolveParts m.localPath ++ (segments rel).filter counts)) := by
  have htext : (if rel = [] then m.root else resolve (m.root ++ '/' :: rel)) =
      ofParts (resolveParts m.localPath ++ (segments rel).filter counts) := by
    split
    · rename_i hrel
      subst hrel
      exact congrArg ofParts (append_nil _).symm
    · rw [resolve, resolveParts_append, foldl_place hdots, PathMapping.root, resolveParts_resolve]
  have hprefix : resolveParts m.root <+:
      resolveParts (if rel = [] then m.root else resolve (m.root ++ '/' :: rel)) := by
    rw [htext, resolveParts_ofParts (names_under hdots), PathMapping.root, resolveParts_resolve]
    exact prefix_append _ _
  rw [resolvePath, resolvePathWithMapping, hfind]
  simp only
  rw [if_pos hprefix]
  exact congrArg Except.ok htext

theorem hostPlace_eq (hfind : findPathMapping mappings path = some (m, rel))
    (hdots : ['.', '.'] ∉ segments rel) :
    hostPlace mappings path = .ok (resolveParts m.localPath ++ (segments rel).filter counts) := by
  rw [hostPlace, resolvePath_eq hfind hdots]
  exact congrArg Except.ok (resolveParts_ofParts (names_under hdots))

/-! ### Two dots -/

theorem segments_map (path : List Char) : segments (path.map toForwardSlash) =
    (segments path).flatMap fun segment => segments (segment.map toForwardSlash) := by
  have hjoin : ∀ segs : List (List Char), segs ≠ [] →
      segments ((['/'].intercalate segs).map toForwardSlash) =
        segs.flatMap fun segment => segments (segment.map toForwardSlash) := by
    intro segs
    induction segs with
    | nil => exact fun h => absurd rfl h
    | cons segment segs ih =>
      intro _
      by_cases hsegs : segs = []
      · subst hsegs
        rw [intercalate_singleton, flatMap_singleton]
      · rw [intercalate_cons_of_ne_nil hsegs, append_assoc, singleton_append,
          map_append, map_cons, flatMap_cons, ← ih hsegs]
        exact segments_append _ _
  have hpath : ['/'].intercalate (segments path) = path := intercalate_splitOn '/'
  conv_lhs => rw [← hpath]
  exact hjoin _ (splitOn_ne_nil '/' path)

theorem no_dots_of_traversal (h : hasTraversal path = false) : ['.', '.'] ∉ segments path := by
  intro hmem
  rw [hasTraversal, Bool.eq_false_iff, ne_eq, contains_iff_mem, segments_map] at h
  exact h (mem_flatMap.2 ⟨_, hmem, mem_singleton.2 rfl⟩)

theorem mem_segments_lstrip {segment : List Char} (h : segment ∈ segments (lstripSlash path)) :
    segment ∈ segments path := by
  induction path with
  | nil => exact h
  | cons c path ih =>
    by_cases hc : c = '/'
    · subst hc
      rw [segments_cons]
      exact mem_cons_of_mem _ (ih h)
    · rwa [lstripSlash, dropWhile_cons_of_neg (by simpa using hc)] at h

theorem no_dots_of_under (h : isAtOrUnder c path = true) (hdots : ['.', '.'] ∉ segments path) :
    ['.', '.'] ∉ segments (lstripSlash (path.drop c.length)) := by
  rcases isAtOrUnder_iff_exists.1 h with rfl | ⟨q, rfl⟩
  · rw [drop_length]
    decide
  · rw [drop_left]
    intro hmem
    rw [segments_append] at hdots
    have hslash := mem_segments_lstrip hmem
    rw [segments_cons] at hslash
    rcases mem_cons.1 hslash with hslash | hslash
    · cases hslash
    · exact hdots (mem_append_right _ hslash)

end AfterFlow.Sandbox
