import AfterFlow.Sandbox.Provider
import Mathlib.Data.List.Infix

/-!
# One path, four tools

`ls`, `glob`, `grep` and `read_file` each take a virtual path to a place on the host. For files in
the thread's directories they all go the same way. For a custom mount `glob` and `grep` have no
branch, and refuse what the others read. For skills and the ACP workspace `read_file` makes the host
path itself, and the others leave it to the sandbox's mappings; where these agree is said here.

## Main results

* `places_agree` — the tools refuse such a path or find one place
* `mount_not_searched` — a custom mount that `ls` lists and `glob` refuses
-/

namespace AfterFlow.Sandbox

open List

namespace Deployment

variable (d : Deployment)

/-- Where `ls`, `glob`, `grep` and `read_file` look. -/
def places (path : List Char) : List (Except ToolError (List (List Char))) :=
  [lsPath d.settings d.threadData path, searchPath d.settings d.threadData path,
    searchPath d.settings d.threadData path, readPath d.settings d.threadData path].map
      fun handed => handed.bind (hostPlace d.pathMappings)

/-- The tools refuse the path, or they find one place. -/
def Agree (path : List Char) : Prop :=
  (∀ place ∈ d.places path, place = .error .permission) ∨
    ∃ names, ∀ place ∈ d.places path, place = .ok names

/-- No mapping is for the directory, for one above it or for a place in it. -/
def Apart (dir : Dir) : Prop :=
  ∀ m ∈ d.pathMappings, m.container ≠ ['/'] ∧ isAtOrUnder m.container dir.path = false ∧
    isAtOrUnder dir.path m.container = false

instance (dir : Dir) : Decidable (d.Apart dir) := by
  rw [Apart]
  infer_instance

/-- The names of the thread's directories. -/
def threadNames : List String := ["workspace", "uploads", "outputs"]

/-- The paths that all tools take in the same way. -/
inductive OneWay (path : List Char) : Prop
  | refused (h : validateLocalToolPath d.settings path true ≠ .ok ())
  | thread (hskills : isSkillsPath d.settings path = false) (hacp : isAcpWorkspacePath path = false)
      (hcustom : isCustomMountPath d.settings path = false)
  | userSkills (h : isAtOrUnder (d.skillsAt "custom") path = true) (hexist : d.skillsExist = true)
      (hapart : d.Apart d.userCustomDir)
  | publicSkills (h : isAtOrUnder (d.skillsAt "public") path = true) (hexist : d.skillsExist = true)
      (hpublic : d.publicExists = true) (hpath : '\\' ∉ path) (hdir : '\\' ∉ d.skillsDir.path)
      (hapart : d.Apart d.skillsDir)
  | acp (hskills : isSkillsPath d.settings path = false) (h : isAcpWorkspacePath path = true)
      (hpath : '\\' ∉ path) (hdir : '\\' ∉ d.acpDir.path) (hapart : d.Apart d.acpDir)
  | mounted (hskills : isSkillsPath d.settings path = false) (hacp : isAcpWorkspacePath path = false)
      (name : String) (hname : name ∈ threadNames)
      (h : isAtOrUnder (virtualPathPrefix ++ '/' :: name.toList) path = true) (hpath : '\\' ∉ path)
      (hdir : '\\' ∉ d.userDataDir.path) (hapart : d.Apart d.userDataDir)

end Deployment

/-! ### Directories -/

variable {d : Deployment} {dir : Dir} {path rel c : List Char} {m : PathMapping}

theorem counts_of_isName {name : List Char} (h : IsName name) : counts name = true := by
  simp [counts, h.ne_nil, h.ne_dot]

theorem filter_counts_names {names : List (List Char)} (h : ∀ name ∈ names, IsName name) :
    names.filter counts = names :=
  filter_eq_self.2 fun name hname => counts_of_isName (h name hname)

theorem pathParts_names {names : List (List Char)} (h : ∀ name ∈ names, IsName name) :
    pathParts (ofParts names) = names :=
  pathParts_ofParts (fun name hname => (h name hname).no_slash)
    fun name hname => counts_of_isName (h name hname)

theorem resolveParts_path (dir : Dir) : resolveParts dir.path = dir.names :=
  resolveParts_ofParts dir.isName

theorem resolveParts_joinPath (dir : Dir) (hdots : ['.', '.'] ∉ segments rel) :
    resolveParts (joinPath dir.path rel) = dir.names ++ (segments rel).filter counts := by
  rw [joinPath, Dir.path, pathParts_names dir.isName]
  refine resolveParts_ofParts fun name hname => ?_
  rcases mem_append.1 hname with h | h
  · exact dir.isName name h
  · exact counted_name hdots h

theorem lstrip_head (rel : List Char) : (lstripSlash rel).head? ≠ some '/' := by
  induction rel with
  | nil => exact nofun
  | cons c rel ih =>
    by_cases hc : c = '/'
    · subst hc
      exact ih
    · rw [lstripSlash, dropWhile_cons_of_neg (by simpa using hc)]
      exact fun h => hc (Option.some.inj h)

theorem resolveParts_rdropWhile (hpath : '\\' ∉ path) :
    resolveParts (path.rdropWhile isSeparator) = resolveParts path := by
  induction path using reverseRecOn with
  | nil => rfl
  | append_singleton path c ih =>
    rw [mem_append, not_or, mem_singleton] at hpath
    by_cases hc : c = '/'
    · subst hc
      rw [rdropWhile_concat_pos _ _ _ (by decide), ih hpath.1, resolveParts_append]
      rfl
    · rw [rdropWhile_concat_neg]
      simpa [isSeparator, hc] using Ne.symm hpath.2

theorem pathSeparator_slash (hpath : '\\' ∉ path) : pathSeparatorForStyle path = '/' := by
  rw [pathSeparatorForStyle, if_neg]
  simpa using fun h => absurd h hpath

theorem joinPreserving_eq_strip (hdir : '\\' ∉ dir.path) (hrel : '\\' ∉ rel)
    (hhead : rel.head? ≠ some '/') (hnil : rel ≠ []) :
    joinPathPreservingStyle dir.path rel = dir.path.rdropWhile isSeparator ++ '/' :: rel := by
  have hsep := pathSeparator_slash hdir
  have hsame : rel.map (fun c => if c == '\\' then '/' else c) = rel := by
    refine (map_congr_left fun c hc => ?_).trans (map_id' rel)
    exact if_neg fun h : (c == '\\') = true => hrel (eq_of_beq h ▸ hc)
  have hdrop : rel.dropWhile isSeparator = rel := by
    cases rel with
    | nil => rfl
    | cons c rel =>
      refine dropWhile_cons_of_neg ?_
      rw [isSeparator, Bool.or_eq_true, beq_iff_eq, beq_iff_eq, not_or]
      exact ⟨fun h => hhead (congrArg some h), fun h => hrel (h ▸ mem_cons_self)⟩
  rw [joinPathPreservingStyle, if_neg hnil]
  simp only [hsep, beq_self_eq_true, ↓reduceIte]
  rw [hsame, hdrop]

theorem resolveParts_joinPreserving (dir : Dir) (hdir : '\\' ∉ dir.path) (hrel : '\\' ∉ rel)
    (hhead : rel.head? ≠ some '/') (hdots : ['.', '.'] ∉ segments rel) :
    resolveParts (joinPathPreservingStyle dir.path rel) =
      dir.names ++ (segments rel).filter counts := by
  by_cases hnil : rel = []
  · subst hnil
    rw [joinPathPreservingStyle, if_pos rfl, resolveParts_path]
    exact (append_nil _).symm
  · rw [joinPreserving_eq_strip hdir hrel hhead hnil, resolveParts_append,
      resolveParts_rdropWhile hdir, resolveParts_path, foldl_place hdots]

theorem path_last (dir : Dir) (hne : dir.path ≠ []) : dir.path.getLast hne ≠ '/' := by
  intro hslash
  have hsegments : segments dir.path = [] :: dir.names := by
    rw [Dir.path, ofParts, segments_cons, segments_intercalate dir.isName dir.ne_nil]
  have hends : segments dir.path = segments dir.path.dropLast ++ [[]] := by
    conv_lhs => rw [← dropLast_append_getLast hne, hslash]
    exact segments_append _ []
  have hmem : dir.names.getLast dir.ne_nil = [] := by
    have hlasts := congrArg getLast? (hsegments.symm.trans hends)
    rw [getLast?_cons_of_ne_nil dir.ne_nil, getLast?_eq_some_getLast dir.ne_nil,
      getLast?_append] at hlasts
    simpa using hlasts
  exact (dir.isName _ (getLast_mem dir.ne_nil)).ne_nil hmem

theorem rdropWhile_path (dir : Dir) (hdir : dir.path.getLast? ≠ some '\\') :
    dir.path.rdropWhile isSeparator = dir.path := by
  refine rdropWhile_eq_self_iff.2 fun hne hlast => ?_
  rw [isSeparator, Bool.or_eq_true, beq_iff_eq, beq_iff_eq] at hlast
  rcases hlast with hslash | hbackslash
  · exact path_last dir hne hslash
  · exact hdir (hbackslash ▸ getLast?_eq_some_getLast hne)

theorem joinPreserving_eq (hdir : '\\' ∉ dir.path) (hrel : '\\' ∉ rel)
    (hhead : rel.head? ≠ some '/') (hnil : rel ≠ []) :
    joinPathPreservingStyle dir.path rel = dir.path ++ '/' :: rel := by
  rw [joinPreserving_eq_strip hdir hrel hhead hnil,
    rdropWhile_path dir fun hlast => hdir (mem_of_getLast? hlast)]

theorem findPathMapping_of_apart (h : d.Apart dir) (hpath : isAtOrUnder dir.path path = true) :
    findPathMapping d.pathMappings path = none := by
  rw [findPathMapping, findSome?_eq_none_iff]
  intro m hm
  obtain ⟨hroot, habove, hbelow⟩ := h m ((perm_insertionSort _ _).mem_iff.1 hm)
  have hnone : m.relative? path = none := by
    cases hrel : m.relative? path with
    | none => rfl
    | some r =>
      have hunder := ((relative?_eq_some hroot).1 hrel).1
      rcases Nat.le_total m.container.length dir.path.length with hlen | hlen
      · rw [isAtOrUnder_of_length hunder hpath hlen] at habove
        cases habove
      · rw [isAtOrUnder_of_length hpath hunder hlen] at hbelow
        cases hbelow
  rw [hnone]
  rfl

theorem intercalate_append {a b : List (List Char)} (ha : a ≠ []) (hb : b ≠ []) :
    ['/'].intercalate (a ++ b) = ['/'].intercalate a ++ '/' :: ['/'].intercalate b := by
  induction a with
  | nil => exact absurd rfl ha
  | cons s a ih =>
    by_cases hnil : a = []
    · subst hnil
      rw [singleton_append, intercalate_cons_of_ne_nil hb, intercalate_singleton,
        append_assoc, singleton_append]
    · rw [cons_append, intercalate_cons_of_ne_nil (append_ne_nil_of_left_ne_nil hnil b),
        ih hnil, intercalate_cons_of_ne_nil hnil, append_assoc, append_assoc,
        append_assoc]

theorem under_ofParts {a : List (List Char)} (ha : a ≠ []) (b : List (List Char)) :
    isAtOrUnder (ofParts a) (ofParts (a ++ b)) = true := by
  rw [isAtOrUnder_iff_exists]
  by_cases hb : b = []
  · subst hb
    exact .inl (by rw [append_nil])
  · exact .inr ⟨['/'].intercalate b, by rw [ofParts, ofParts, intercalate_append ha hb]; rfl⟩

theorem filter_lstrip (rel : List Char) :
    (segments (lstripSlash rel)).filter counts = (segments rel).filter counts := by
  induction rel with
  | nil => rfl
  | cons c rel ih =>
    by_cases hc : c = '/'
    · subst hc
      rw [segments_cons, filter_cons_of_neg (by decide), ← ih]
      rfl
    · rw [lstripSlash, dropWhile_cons_of_neg (by simpa using hc)]

/-! ### Normalised paths -/

theorem foldl_normPlace {done segs : List (List Char)} (hdone : ['.', '.'] ∉ done) :
    segs.foldl (normPlace true) done = segs.foldl place done := by
  induction segs generalizing done with
  | nil => rfl
  | cons segment segs ih =>
    have hsame : normPlace true done segment = place done segment := by
      have hlast : done.getLast? ≠ some ['.', '.'] := fun h => hdone (mem_of_getLast? h)
      rw [normPlace, place]
      split
      · rfl
      · by_cases hdots : segment = ['.', '.']
        · rw [if_pos hdots, if_neg]
          simp [hdots, hlast]
        · rw [if_neg hdots, if_pos (.inl hdots)]
    rw [foldl_cons, foldl_cons, hsame, ih]
    rw [place]
    split
    · exact hdone
    · split
      · exact fun h => hdone (dropLast_subset done h)
      · rename_i hdots
        rw [mem_append, mem_singleton, not_or]
        exact ⟨hdone, fun h => hdots h.symm⟩

theorem normpath_eq (h : path.head? ≠ some '/') : normpath ('/' :: path) = resolve ('/' :: path) := by
  have htake : ('/' :: path).takeWhile (· == '/') = ['/'] := by
    rw [takeWhile_cons_of_pos (by decide)]
    cases path with
    | nil => rfl
    | cons c path =>
      rw [takeWhile_cons_of_neg]
      simpa using fun hc => h (congrArg some hc)
  rw [normpath, htake, resolve, ofParts, resolveParts,
    ← show (segments ('/' :: path)).foldl (normPlace true) [] = (segments ('/' :: path)).foldl place []
      from foldl_normPlace not_mem_nil]
  rfl

theorem path_head (dir : Dir) (rest : List Char) :
    ∃ p, dir.path ++ rest = '/' :: p ∧ p.head? ≠ some '/' := by
  obtain ⟨name, names, hnames⟩ := exists_cons_of_ne_nil dir.ne_nil
  have hname := dir.isName name (by rw [hnames]; exact mem_cons_self)
  obtain ⟨c, l, hc⟩ := exists_cons_of_ne_nil hname.ne_nil
  refine ⟨['/'].intercalate dir.names ++ rest, rfl, ?_⟩
  rw [hnames, hc, intercalate_cons_cons_left]
  exact fun h => hname.no_slash (by rw [hc, Option.some.inj h]; exact mem_cons_self)

/-! ### The mappings of a deployment -/

namespace Deployment

def publicMapping (d : Deployment) : PathMapping :=
  ⟨d.skillsAt "public", joinPath d.skillsDir.path "public".toList, true⟩

def customMapping (d : Deployment) : PathMapping := ⟨d.skillsAt "custom", d.userCustomDir.path, true⟩

def acpMapping (d : Deployment) : PathMapping := ⟨acpWorkspaceVirtualPath, d.acpDir.path, false⟩

/-- The container paths of the thread's directories. -/
def threadContainers : List (List Char) :=
  virtualPathPrefix :: ["/workspace", "/uploads", "/outputs"].map fun name =>
    virtualPathPrefix ++ name.toList

theorem container_eq {e : Char} (h : m.containerPath.getLast? = some e) (he : e ≠ '/') :
    m.container = m.containerPath := by
  obtain ⟨init, hinit⟩ := getLast?_eq_some_iff.1 h
  have hstrip : rstripSlash m.containerPath = m.containerPath := by
    rw [rstripSlash, hinit, rdropWhile_concat_neg]
    simpa using he
  rw [PathMapping.container, hstrip, if_neg]
  rw [hinit]
  exact append_ne_nil_of_right_ne_nil _ (cons_ne_nil _ _)

theorem skillsAt_container {name : String} {e : Char} {local_ : List Char} {ro : Bool}
    (h : name.toList.getLast? = some e) (he : e ≠ '/') :
    (⟨d.skillsAt name, local_, ro⟩ : PathMapping).container = d.skillsAt name := by
  refine container_eq ?_ he
  show (d.skillsContainer ++ '/' :: name.toList).getLast? = some e
  rw [getLast?_append, getLast?_cons, h]
  rfl

theorem threadContainer_container {c : List Char} (hc : c ∈ threadContainers)
    (localPath : List Char) (readOnly : Bool) :
    (⟨c, localPath, readOnly⟩ : PathMapping).container ∈ threadContainers := by
  have hall : ∀ c ∈ threadContainers, (if rstripSlash c = [] then ['/'] else rstripSlash c) = c := by
    decide
  rw [show (⟨c, localPath, readOnly⟩ : PathMapping).container = c from hall c hc]
  exact hc

/-- A mount that is not skipped is not under a reserved container path. -/
theorem mount_not_reserved {mount : Mount} (h : d.mountMapping? mount = some m) {c : List Char}
    (hc : c ∈ d.reserved) : isAtOrUnder c m.container = false := by
  rw [mountMapping?] at h
  split at h
  · cases h
  · rename_i hkept
    rw [not_or, not_or] at hkept
    obtain rfl := Option.some.inj h
    have hsame : (⟨mount.container, resolve mount.hostPath, mount.readOnly⟩ : PathMapping).container =
        mount.container := by
      rw [PathMapping.container, Mount.container]
      by_cases hnil : rstripSlash mount.containerPath = []
      · rw [if_pos hnil]
        rfl
      · have hidem : rstripSlash (rstripSlash mount.containerPath) =
            rstripSlash mount.containerPath := rdropWhile_idempotent _ _
        rw [if_neg hnil, hidem, if_neg hnil]
    rw [hsame]
    exact Bool.eq_false_iff.2 fun hunder => hkept.2.2 (any_eq_true.2 ⟨c, hc, hunder⟩)

/-- **Every mapping of a deployment is one of these.** -/
theorem mem_pathMappings_cases {P : PathMapping → Prop} (h : m ∈ d.pathMappings)
    (hpublic : P d.publicMapping)
    (hmount : ∀ m : PathMapping, (∀ c ∈ d.reserved, isAtOrUnder c m.container = false) → P m)
    (hthread : ∀ m ∈ d.threadPathMappings.take 4, m.container ∈ threadContainers → P m)
    (hacp : P d.acpMapping) (hcustom : P d.customMapping)
    (hlegacy : ∀ m : PathMapping, m.container = d.skillsAt "legacy" → P m) : P m := by
  rcases mem_append.1 h with h | h
  · rcases mem_append.1 h with h | h
    · split at h
      · obtain rfl := mem_singleton.1 h
        exact hpublic
      · cases h
    · obtain ⟨mount, -, hmapping⟩ := mem_filterMap.1 h
      exact hmount m fun c hc => mount_not_reserved hmapping hc
  · rcases mem_append.1 h with h | h
    · simp only [mem_cons, not_mem_nil, or_false] at h
      rcases h with rfl | rfl | rfl | rfl | rfl | rfl
      · exact hthread _ (mem_of_getElem? (i := 0) rfl)
          (threadContainer_container (by decide) _ _)
      · exact hthread _ (mem_of_getElem? (i := 1) rfl)
          (threadContainer_container (by decide) _ _)
      · exact hthread _ (mem_of_getElem? (i := 2) rfl)
          (threadContainer_container (by decide) _ _)
      · exact hthread _ (mem_of_getElem? (i := 3) rfl)
          (threadContainer_container (by decide) _ _)
      · exact hacp
      · exact hcustom
    · split at h
      · obtain rfl := mem_singleton.1 h
        exact hlegacy _ (skillsAt_container (e := 'y') rfl (by decide))
      · cases h

theorem under_skillsAt (a b : String) :
    isAtOrUnder (d.skillsAt a) (d.skillsAt b) = isAtOrUnder a.toList b.toList := by
  rw [Bool.eq_iff_iff, isAtOrUnder_iff, isAtOrUnder_iff, skillsAt, skillsAt, append_assoc,
    append_cancel_left_eq, prefix_append_right_inj, cons_append,
    cons_prefix_cons, cons.injEq]
  simp only [true_and]

theorem not_under_other {name : String} {e : Char} (hname : name.toList.getLast? = some e)
    (he : e = 'c' ∨ e = 'm') {c : List Char} (hc : c ∈ acpWorkspaceVirtualPath :: threadContainers) :
    isAtOrUnder (d.skillsAt name) c = false := by
  have hlast : (d.skillsAt name).getLast? = some e := by
    rw [skillsAt, getLast?_append, getLast?_cons, hname]
    rfl
  have hall : ∀ c ∈ acpWorkspaceVirtualPath :: threadContainers, ∀ p ∈ c.inits,
      isAtOrUnder p c = true → p.getLast? ≠ some 'c' ∧ p.getLast? ≠ some 'm' := by decide +kernel
  refine Bool.eq_false_iff.2 fun hunder => ?_
  have hmem : d.skillsAt name ∈ c.inits := by
    rw [mem_inits]
    rcases isAtOrUnder_iff.1 hunder with rfl | h
    · exact prefix_refl _
    · exact (prefix_append _ _).trans h
  have hne := hall c hc _ hmem hunder
  rw [hlast] at hne
  rcases he with rfl | rfl
  · exact hne.1 rfl
  · exact hne.2 rfl

theorem length_skillsAt (name : String) : 1 < (d.skillsAt name).length ∨ name.toList = [] := by
  rw [skillsAt, length_append, length_cons]
  cases name.toList with
  | nil => exact .inr rfl
  | cons e l =>
    left
    rw [length_cons]
    omega

/-- A path of the user's own skills has their mapping. -/
theorem findPathMapping_custom (h : isAtOrUnder (d.skillsAt "custom") path = true) :
    findPathMapping d.pathMappings path =
      some (d.customMapping, lstripSlash (path.drop (d.skillsAt "custom").length)) := by
  have hcontainer : d.customMapping.container = d.skillsAt "custom" :=
    skillsAt_container (e := 'm') rfl (by decide)
  have hmem : d.customMapping ∈ d.pathMappings := by
    refine mem_append_right _ (mem_append_left _ ?_)
    exact mem_of_getElem? (i := 5) rfl
  rw [← hcontainer]
  refine findPathMapping_of_under hmem ?_ (by rwa [hcontainer]) fun m' hm' => ?_
  · rw [hcontainer]
    exact (length_skillsAt "custom").resolve_right (by decide)
  · rw [hcontainer]
    refine mem_pathMappings_cases (P := fun m' => m' ≠ d.customMapping → m'.container ≠ ['/'] →
      isAtOrUnder m'.container path = true → isAtOrUnder (d.skillsAt "custom") m'.container = false)
      hm' ?_ ?_ ?_ ?_ ?_ ?_
    · intro _ _ _
      rw [show d.publicMapping.container = d.skillsAt "public" from
        skillsAt_container (e := 'c') rfl (by decide), under_skillsAt]
      decide
    · exact fun m hm _ _ _ => hm _ (by simp [reserved])
    · exact fun m _ hm _ _ _ =>
        not_under_other (e := 'm') rfl (.inr rfl) (mem_cons_of_mem _ hm)
    · intro _ _ _
      exact not_under_other (e := 'm') rfl (.inr rfl) mem_cons_self
    · exact fun hne => absurd rfl hne
    · intro m hm _ _ _
      rw [hm, under_skillsAt]
      decide

/-- A path of the public skills has their mapping. -/
theorem findPathMapping_public (hpublic : d.publicExists = true)
    (h : isAtOrUnder (d.skillsAt "public") path = true) :
    findPathMapping d.pathMappings path =
      some (d.publicMapping, lstripSlash (path.drop (d.skillsAt "public").length)) := by
  have hcontainer : d.publicMapping.container = d.skillsAt "public" :=
    skillsAt_container (e := 'c') rfl (by decide)
  have hmem : d.publicMapping ∈ d.pathMappings := by
    refine mem_append_left _ (mem_append_left _ ?_)
    rw [if_pos hpublic]
    exact mem_cons_self
  rw [← hcontainer]
  refine findPathMapping_of_under hmem ?_ (by rwa [hcontainer]) fun m' hm' => ?_
  · rw [hcontainer]
    exact (length_skillsAt "public").resolve_right (by decide)
  · rw [hcontainer]
    refine mem_pathMappings_cases (P := fun m' => m' ≠ d.publicMapping → m'.container ≠ ['/'] →
      isAtOrUnder m'.container path = true → isAtOrUnder (d.skillsAt "public") m'.container = false)
      hm' ?_ ?_ ?_ ?_ ?_ ?_
    · exact fun hne => absurd rfl hne
    · exact fun m hm _ _ _ => hm _ (by simp [reserved])
    · exact fun m _ hm _ _ _ =>
        not_under_other (e := 'c') rfl (.inl rfl) (mem_cons_of_mem _ hm)
    · intro _ _ _
      exact not_under_other (e := 'c') rfl (.inl rfl) mem_cons_self
    · intro _ _ _
      rw [show d.customMapping.container = d.skillsAt "custom" from
        skillsAt_container (e := 'm') rfl (by decide), under_skillsAt]
      decide
    · intro m hm _ _ _
      rw [hm, under_skillsAt]
      decide

theorem not_under_skillsAt {name : String} (hskills : isSkillsPath d.settings path = false)
    (h : isAtOrUnder (d.skillsAt name) path = true) : False := by
  rw [isSkillsPath, show d.settings.skillsContainer = d.skillsContainer from rfl,
    isAtOrUnder_trans (isAtOrUnder_iff_exists.2 (.inr ⟨_, rfl⟩)) h] at hskills
  cases hskills

/-- A path of the ACP workspace that is no path of skills has its mapping. -/
theorem findPathMapping_acp (hskills : isSkillsPath d.settings path = false)
    (h : isAcpWorkspacePath path = true) :
    findPathMapping d.pathMappings path =
      some (d.acpMapping, lstripSlash (path.drop acpWorkspaceVirtualPath.length)) := by
  have hcontainer : d.acpMapping.container = acpWorkspaceVirtualPath := rfl
  have hmem : d.acpMapping ∈ d.pathMappings := by
    refine mem_append_right _ (mem_append_left _ ?_)
    exact mem_of_getElem? (i := 4) rfl
  rw [← hcontainer]
  refine findPathMapping_of_under hmem (by rw [hcontainer]; decide) (by rwa [hcontainer])
    fun m' hm' => ?_
  rw [hcontainer]
  refine mem_pathMappings_cases (P := fun m' => m' ≠ d.acpMapping → m'.container ≠ ['/'] →
    isAtOrUnder m'.container path = true → isAtOrUnder acpWorkspaceVirtualPath m'.container = false)
    hm' ?_ ?_ ?_ ?_ ?_ ?_
  · intro _ _ hunder
    rw [show d.publicMapping.container = d.skillsAt "public" from
      skillsAt_container (e := 'c') rfl (by decide)] at hunder
    exact (not_under_skillsAt hskills hunder).elim
  · exact fun m hm _ _ _ => hm _ (by simp [reserved])
  · intro m _ hm _ _ _
    have hall : ∀ c ∈ threadContainers, isAtOrUnder acpWorkspaceVirtualPath c = false := by decide
    exact hall _ hm
  · exact fun hne => absurd rfl hne
  · intro _ _ hunder
    rw [show d.customMapping.container = d.skillsAt "custom" from
      skillsAt_container (e := 'm') rfl (by decide)] at hunder
    exact (not_under_skillsAt hskills hunder).elim
  · intro m hm _ _ hunder
    rw [hm] at hunder
    exact (not_under_skillsAt hskills hunder).elim

/-! ### The thread's directories under a mount -/

theorem threadName_isName {name : String} (h : name ∈ threadNames) :
    IsName name.toList ∧ pathParts name.toList = [name.toList] := by
  have hall : ∀ name ∈ threadNames, IsName name.toList ∧ pathParts name.toList = [name.toList] := by
    decide
  exact hall name h

/-- One of the thread's directories. -/
def threadDir (d : Deployment) {name : String} (h : name ∈ threadNames) : Dir where
  names := d.userDataDir.names ++ [name.toList]
  isName := by
    intro segment hmem
    rcases mem_append.1 hmem with hmem | hmem
    · exact d.userDataDir.isName segment hmem
    · rw [mem_singleton.1 hmem]
      exact (threadName_isName h).1
  ne_nil := append_ne_nil_of_right_ne_nil _ (cons_ne_nil _ _)

theorem threadDir_path (d : Deployment) {name : String} (h : name ∈ threadNames) :
    (d.threadDir h).path = joinPath d.userDataDir.path name.toList := by
  rw [joinPath, Dir.path, Dir.path, pathParts_names d.userDataDir.isName, (threadName_isName h).2]
  rfl

theorem threadDir_clean {name : String} (h : name ∈ threadNames) (hdir : '\\' ∉ d.userDataDir.path) :
    '\\' ∉ (d.threadDir h).path := by
  have hpath : (d.threadDir h).path = d.userDataDir.path ++ '/' :: name.toList := by
    rw [Dir.path, Dir.path, threadDir, ofParts, ofParts, intercalate_append d.userDataDir.ne_nil
      (cons_ne_nil _ _), intercalate_singleton]
    rfl
  have hall : ∀ name ∈ threadNames, '\\' ∉ '/' :: name.toList := by decide
  rw [hpath, mem_append, not_or]
  exact ⟨hdir, hall name h⟩

theorem threadMappings_eq (d : Deployment) : threadMappings d.threadData =
    threadNames.map (fun name =>
      (virtualPathPrefix ++ '/' :: name.toList, joinPath d.userDataDir.path name.toList)) ++
        [(virtualPathPrefix, d.userDataDir.path)] := by
  have hparent : ∀ name ∈ threadNames,
      parentPath (joinPath d.userDataDir.path name.toList) = d.userDataDir.path := by
    intro name hname
    rw [← d.threadDir_path hname, parentPath, Dir.path, pathParts_names (d.threadDir hname).isName]
    show ofParts (d.userDataDir.names ++ [name.toList]).dropLast = _
    rw [dropLast_concat]
    rfl
  have hworkspace := hparent "workspace" (by decide)
  have huploads := hparent "uploads" (by decide)
  have houtputs := hparent "outputs" (by decide)
  rw [threadMappings]
  simp only [threadData, hworkspace, huploads, houtputs, and_self, ↓reduceIte]
  simp [threadNames]

/-- The mapping of one of the thread's directories. -/
def threadMapping (d : Deployment) (name : String) : PathMapping :=
  ⟨virtualPathPrefix ++ '/' :: name.toList, joinPath d.userDataDir.path name.toList, false⟩

theorem threadNames_apart {a b : String} (ha : a ∈ threadNames) (hb : b ∈ threadNames)
    (hunder : isAtOrUnder (virtualPathPrefix ++ '/' :: a.toList) path = true)
    (hunder' : isAtOrUnder (virtualPathPrefix ++ '/' :: b.toList) path = true) : a = b := by
  have hall : ∀ a ∈ threadNames, ∀ b ∈ threadNames, isAtOrUnder
      (virtualPathPrefix ++ '/' :: a.toList) (virtualPathPrefix ++ '/' :: b.toList) = true →
      a = b := by decide
  rcases Nat.le_total (virtualPathPrefix ++ '/' :: a.toList).length
    (virtualPathPrefix ++ '/' :: b.toList).length with hlen | hlen
  · exact hall a ha b hb (isAtOrUnder_of_length hunder hunder' hlen)
  · exact (hall b hb a ha (isAtOrUnder_of_length hunder' hunder hlen)).symm

/-- A path in one of the thread's directories has its mapping. -/
theorem findPathMapping_thread {name : String} (hname : name ∈ threadNames)
    (hskills : isSkillsPath d.settings path = false)
    (h : isAtOrUnder (virtualPathPrefix ++ '/' :: name.toList) path = true) :
    findPathMapping d.pathMappings path = some (d.threadMapping name,
      lstripSlash (path.drop (virtualPathPrefix ++ '/' :: name.toList).length)) := by
  have hcontainer : ∀ name ∈ threadNames, (d.threadMapping name).container =
      virtualPathPrefix ++ '/' :: name.toList := by
    intro name hname
    simp only [threadNames, mem_cons, not_mem_nil, or_false] at hname
    rcases hname with rfl | rfl | rfl <;> rfl
  have hmem : d.threadMapping name ∈ d.pathMappings := by
    refine mem_append_right _ (mem_append_left _ ?_)
    simp only [threadNames, mem_cons, not_mem_nil, or_false] at hname
    rcases hname with rfl | rfl | rfl
    · exact mem_of_getElem? (i := 1) rfl
    · exact mem_of_getElem? (i := 2) rfl
    · exact mem_of_getElem? (i := 3) rfl
  have hunder : isAtOrUnder virtualPathPrefix (virtualPathPrefix ++ '/' :: name.toList) = true :=
    isAtOrUnder_iff_exists.2 (.inr ⟨_, rfl⟩)
  have hothers : ∀ c ∈ [virtualPathPrefix, acpWorkspaceVirtualPath],
      isAtOrUnder (virtualPathPrefix ++ '/' :: name.toList) c = false := by
    have hall : ∀ name ∈ threadNames, ∀ c ∈ [virtualPathPrefix, acpWorkspaceVirtualPath],
        isAtOrUnder (virtualPathPrefix ++ '/' :: name.toList) c = false := by decide
    exact hall name hname
  rw [← hcontainer name hname]
  refine findPathMapping_of_under hmem ?_ (by rwa [hcontainer name hname]) fun m' hm' => ?_
  · rw [hcontainer name hname, length_append]
    exact Nat.lt_of_lt_of_le (by decide : 1 < virtualPathPrefix.length) (Nat.le_add_right _ _)
  rw [hcontainer name hname]
  refine mem_pathMappings_cases (P := fun m' => m' ≠ d.threadMapping name → m'.container ≠ ['/'] →
    isAtOrUnder m'.container path = true →
    isAtOrUnder (virtualPathPrefix ++ '/' :: name.toList) m'.container = false) hm' ?_ ?_ ?_ ?_ ?_ ?_
  · intro _ _ hin
    rw [show d.publicMapping.container = d.skillsAt "public" from
      skillsAt_container (e := 'c') rfl (by decide)] at hin
    exact (not_under_skillsAt hskills hin).elim
  · intro m hm _ _ _
    refine Bool.eq_false_iff.2 fun hin => ?_
    have hout := hm virtualPathPrefix (by simp [reserved])
    rw [isAtOrUnder_trans hunder hin] at hout
    cases hout
  · intro m hm _ hne _ hin
    have hcases : m.container = virtualPathPrefix ∨ ∃ b ∈ threadNames, m = d.threadMapping b := by
      simp only [threadPathMappings, cons_append, take_succ_cons, take_zero,
        mem_cons, not_mem_nil, or_false] at hm
      rcases hm with rfl | rfl | rfl | rfl
      · exact .inl rfl
      · exact .inr ⟨"workspace", by decide, rfl⟩
      · exact .inr ⟨"uploads", by decide, rfl⟩
      · exact .inr ⟨"outputs", by decide, rfl⟩
    rcases hcases with hc | ⟨b, hb, rfl⟩
    · rw [hc]
      exact hothers _ (by simp)
    · rw [hcontainer b hb] at hin
      exact absurd (congrArg d.threadMapping (threadNames_apart hb hname hin h)) hne
  · exact fun _ _ _ => hothers acpWorkspaceVirtualPath (by simp)
  · intro _ _ hin
    rw [show d.customMapping.container = d.skillsAt "custom" from
      skillsAt_container (e := 'm') rfl (by decide)] at hin
    exact (not_under_skillsAt hskills hin).elim
  · intro m hm _ _ hin
    rw [hm] at hin
    exact (not_under_skillsAt hskills hin).elim

/-- What a directory's mapping makes of a path under its virtual path. -/
theorem replaceBase_of_under (dir : Dir) (hdir : '\\' ∉ dir.path) (hpath : '\\' ∉ path)
    (h : isAtOrUnder c path = true) (hdots : ['.', '.'] ∉ segments path) :
    ∃ p, replaceBase path c dir.path = some p ∧
      resolveParts p = dir.names ++ (segments (lstripSlash (path.drop c.length))).filter counts := by
  rw [replaceBase]
  by_cases heq : path = c
  · rw [if_pos heq, heq, drop_length]
    exact ⟨_, rfl, (resolveParts_path dir).trans (append_nil _).symm⟩
  · have hprefix : (c ++ ['/']).isPrefixOf path = true :=
      isPrefixOf_iff_prefix.2 ((isAtOrUnder_iff.1 h).resolve_left heq)
    have hrel : '\\' ∉ lstripSlash (path.drop c.length) := fun hmem =>
      hpath (mem_of_mem_drop ((dropWhile_sublist _).subset hmem))
    have hsep := pathSeparator_slash hdir
    have hparts := resolveParts_joinPreserving dir hdir hrel (lstrip_head _) (no_dots_of_under h hdots)
    rw [if_neg heq, if_pos hprefix, hsep]
    refine ⟨_, rfl, ?_⟩
    split
    · rw [resolveParts_slash_end, hparts]
    · exact hparts

theorem replaceBase_of_not_under {a : List Char} (h : isAtOrUnder c path = false) :
    replaceBase path c a = none := by
  rw [isAtOrUnder, Bool.or_eq_false_iff, beq_eq_false_iff_ne] at h
  rw [replaceBase, if_neg h.1, h.2]
  rfl

/-- A path in one of the thread's directories is replaced by one in its place on the host. -/
theorem resolveParts_replaceVirtualPath {name : String} (hname : name ∈ threadNames)
    (hpath : '\\' ∉ path) (hdir : '\\' ∉ d.userDataDir.path)
    (h : isAtOrUnder (virtualPathPrefix ++ '/' :: name.toList) path = true)
    (hdots : ['.', '.'] ∉ segments path) :
    resolveParts (replaceVirtualPath path d.threadData) = (d.threadDir hname).names ++ (segments
      (lstripSlash (path.drop (virtualPathPrefix ++ '/' :: name.toList).length))).filter counts := by
  obtain ⟨p, hp, hparts⟩ :=
    replaceBase_of_under (d.threadDir hname) (threadDir_clean hname hdir) hpath h hdots
  have hothers : ∀ b ∈ threadNames, b ≠ name → ∀ a,
      replaceBase path (virtualPathPrefix ++ '/' :: b.toList) a = none := by
    intro b hb hne a
    refine replaceBase_of_not_under (Bool.eq_false_iff.2 fun hin => ?_)
    exact hne (threadNames_apart hb hname hin h)
  have hfind : replaceVirtualPath path d.threadData = p := by
    have hlist : ∀ names : List String, name ∈ names → (∀ b ∈ names, b ∈ threadNames) →
        (names.map (fun name => (virtualPathPrefix ++ '/' :: name.toList,
          joinPath d.userDataDir.path name.toList)) ++
            [(virtualPathPrefix, d.userDataDir.path)]).findSome?
            (fun base => replaceBase path base.1 base.2) = some p := by
      intro names hin hsub
      induction names with
      | nil => cases hin
      | cons b names ih =>
        rw [map_cons, cons_append, findSome?_cons]
        by_cases hb : b = name
        · subst hb
          simp only
          rw [← threadDir_path d hname, hp]
        · simp only
          rw [hothers b (hsub b mem_cons_self) hb]
          exact ih ((mem_cons.1 hin).resolve_left (Ne.symm hb))
            fun b hb => hsub b (mem_cons_of_mem _ hb)
    simp only [replaceVirtualPath]
    rw [threadMappings_eq, hlist threadNames hname fun _ h => h]
    rfl
  rw [hfind, hparts]

/-! ### Agreement -/

theorem isSkills_of_under {name : String} (h : isAtOrUnder (d.skillsAt name) path = true) :
    isSkillsPath d.settings path = true :=
  isAtOrUnder_trans (isAtOrUnder_iff_exists.2 (.inr ⟨_, rfl⟩)) h

theorem no_dots_of_valid {readOnly : Bool}
    (h : validateLocalToolPath d.settings path readOnly = .ok ()) : ['.', '.'] ∉ segments path := by
  refine no_dots_of_traversal (Bool.eq_false_iff.2 fun htraversal => ?_)
  rw [validateLocalToolPath, if_pos htraversal] at h
  cases h

theorem no_dots_of_find {mappings : List PathMapping}
    (h : findPathMapping mappings path = some (m, rel)) (hdots : ['.', '.'] ∉ segments path) :
    ['.', '.'] ∉ segments rel := by
  obtain ⟨a, -, ha⟩ := exists_of_findSome?_eq_some h
  obtain ⟨r, hr, heq⟩ := Option.map_eq_some_iff.1 ha
  obtain ⟨rfl, rfl⟩ := Prod.mk.inj heq
  by_cases hroot : a.container = ['/']
  · rw [PathMapping.relative?, if_pos hroot] at hr
    split at hr
    · rw [← Option.some.inj hr]
      exact fun hmem => hdots (mem_segments_lstrip hmem)
    · cases hr
  · obtain ⟨hunder, rfl⟩ := (relative?_eq_some hroot).1 hr
    exact no_dots_of_under hunder hdots

/-- The mapping that is found leads where `read_file` goes by itself. -/
theorem agree_of_place {p : List Char} {names : List (List Char)}
    (hvalid : validateLocalToolPath d.settings path true = .ok ())
    (hkind : isSkillsPath d.settings path = true ∨ isAcpWorkspacePath path = true)
    (hplace : hostPlace d.pathMappings path = .ok names)
    (hread : readPath d.settings d.threadData path = .ok p)
    (hhost : hostPlace d.pathMappings p = .ok names) : d.Agree path := by
  have hboth : (isSkillsPath d.settings path || isAcpWorkspacePath path) = true := by
    rwa [Bool.or_eq_true]
  have hls : lsPath d.settings d.threadData path = .ok path := by
    rw [lsPath, hvalid, hboth]
    rfl
  have hsearch : searchPath d.settings d.threadData path = .ok path := by
    rw [searchPath, hvalid, hboth]
    rfl
  refine .inr ⟨names, fun place hmem => ?_⟩
  simp only [places, hls, hsearch, hread, map_cons, map_nil, mem_cons,
    not_mem_nil, or_false] at hmem
  rcases hmem with rfl | rfl | rfl | rfl
  · exact hplace
  · exact hplace
  · exact hplace
  · exact hhost

theorem validate_error {readOnly : Bool} {e : ToolError}
    (h : validateLocalToolPath d.settings path readOnly = .error e) : e = .permission := by
  rw [validateLocalToolPath] at h
  repeat' split at h
  all_goals first | cases h; rfl | cases h

theorem hostPlace_error {mappings : List PathMapping} {e : ToolError}
    (h : hostPlace mappings path = .error e) : e = .permission := by
  rw [hostPlace] at h
  split at h
  · cases h
  · cases h
    rfl

/-! ### The user's skills -/

/-- What is left of a path in a skills directory below the skills container. -/
theorem drop_skillsAt {name : String} (h : isAtOrUnder (d.skillsAt name) path = true)
    (hname : name.toList.head? ≠ some '/') (hne : name.toList ≠ []) :
    path ≠ d.skillsContainer ∧ lstripSlash (path.drop d.skillsContainer.length) =
      name.toList ++ path.drop (d.skillsAt name).length ∧
      isAtOrUnder name.toList (name.toList ++ path.drop (d.skillsAt name).length) = true := by
  have hstrip : ∀ q, lstripSlash (('/' :: name.toList) ++ q) = name.toList ++ q := by
    intro q
    obtain ⟨c, l, hc⟩ := exists_cons_of_ne_nil hne
    rw [hc] at hname ⊢
    rw [lstripSlash, cons_append, dropWhile_cons_of_pos (by decide), cons_append,
      dropWhile_cons_of_neg]
    simpa using fun h => hname (congrArg some h)
  have hpath : ∀ q, path = d.skillsAt name ++ q → path ≠ d.skillsContainer ∧
      lstripSlash (path.drop d.skillsContainer.length) = name.toList ++ q := by
    rintro q rfl
    rw [skillsAt, append_assoc, drop_left, hstrip]
    refine ⟨fun heq => ?_, rfl⟩
    have hlen := congrArg length heq
    rw [length_append, length_append, length_cons] at hlen
    omega
  rcases isAtOrUnder_iff_exists.1 h with rfl | ⟨q, rfl⟩
  · rw [drop_length]
    exact ⟨(hpath [] (append_nil _).symm).1, (hpath [] (append_nil _).symm).2, by
      rw [append_nil]
      exact isAtOrUnder_self _⟩
  · rw [drop_left]
    exact ⟨(hpath _ rfl).1, (hpath _ rfl).2, isAtOrUnder_iff_exists.2 (.inr ⟨q, rfl⟩)⟩

theorem readPath_of_skills (hvalid : validateLocalToolPath d.settings path true = .ok ())
    (hskills : isSkillsPath d.settings path = true) :
    readPath d.settings d.threadData path = resolveSkillsPath d.settings path := by
  rw [readPath, hvalid, hskills]
  rfl

theorem joined_place (dir : Dir) (hdots : ['.', '.'] ∉ segments rel) :
    isAtOrUnder dir.path (if rel = [] then dir.path else joinPath dir.path rel) = true ∧
      resolveParts (if rel = [] then dir.path else joinPath dir.path rel) =
        dir.names ++ (segments rel).filter counts := by
  split
  · rename_i hnil
    rw [hnil, resolveParts_path]
    exact ⟨isAtOrUnder_self _, (append_nil _).symm⟩
  · refine ⟨?_, resolveParts_joinPath _ hdots⟩
    rw [joinPath, Dir.path, pathParts_names dir.isName]
    exact under_ofParts dir.ne_nil _

theorem agree_userSkills (hvalid : validateLocalToolPath d.settings path true = .ok ())
    (h : isAtOrUnder (d.skillsAt "custom") path = true) (hexist : d.skillsExist = true)
    (hapart : d.Apart d.userCustomDir) : d.Agree path := by
  have hskills := isSkills_of_under h
  have hdots := no_dots_of_under h (no_dots_of_valid hvalid)
  obtain ⟨hne, hrelative, hunder⟩ := drop_skillsAt h (by decide) (by decide)
  have hread : readPath d.settings d.threadData path =
      .ok (if lstripSlash (path.drop (d.skillsAt "custom").length) = [] then d.userCustomDir.path
        else joinPath d.userCustomDir.path
          (lstripSlash (path.drop (d.skillsAt "custom").length))) := by
    rw [readPath_of_skills hvalid hskills, resolveSkillsPath,
      show d.settings.skillsHost = some d.skillsDir.path from if_pos hexist]
    simp only
    rw [show d.settings.skillsContainer = d.skillsContainer from rfl, if_neg hne, hrelative,
      if_pos hunder, drop_left]
    rfl
  obtain ⟨hhost, hparts⟩ := joined_place d.userCustomDir hdots
  refine agree_of_place hvalid (.inl hskills) (hostPlace_eq (findPathMapping_custom h) hdots) hread ?_
  rw [hostPlace_of_none (findPathMapping_of_apart hapart hhost), hparts]
  exact congrArg (fun names => Except.ok (names ++ _)) (resolveParts_path _).symm

/-! ### The public skills and the ACP workspace -/

theorem under_joinPreserving (hdir : '\\' ∉ dir.path) (hrel : '\\' ∉ rel)
    (hhead : rel.head? ≠ some '/') :
    isAtOrUnder dir.path (joinPathPreservingStyle dir.path rel) = true ∧
      (rel ≠ [] → joinPathPreservingStyle dir.path rel = dir.path ++ '/' :: rel) := by
  by_cases hnil : rel = []
  · rw [joinPathPreservingStyle, if_pos hnil]
    exact ⟨isAtOrUnder_self _, fun h => absurd hnil h⟩
  · have heq := joinPreserving_eq hdir hrel hhead hnil
    rw [heq]
    exact ⟨isAtOrUnder_iff_exists.2 (.inr ⟨rel, rfl⟩), fun _ => rfl⟩

theorem agree_publicSkills (hvalid : validateLocalToolPath d.settings path true = .ok ())
    (h : isAtOrUnder (d.skillsAt "public") path = true) (hexist : d.skillsExist = true)
    (hpublic : d.publicExists = true) (hpath : '\\' ∉ path) (hdir : '\\' ∉ d.skillsDir.path)
    (hapart : d.Apart d.skillsDir) : d.Agree path := by
  have hskills := isSkills_of_under h
  have hdots := no_dots_of_under h (no_dots_of_valid hvalid)
  obtain ⟨hne, hrelative, -⟩ := drop_skillsAt h (by decide) (by decide)
  have hrelPath : '\\' ∉ lstripSlash (path.drop d.skillsContainer.length) := fun hmem =>
    hpath (mem_of_mem_drop ((dropWhile_sublist _).subset hmem))
  have hcustom : isAtOrUnder "custom".toList (lstripSlash (path.drop d.skillsContainer.length)) =
      false := by
    rw [hrelative, Bool.eq_false_iff]
    intro hunder
    rcases isAtOrUnder_iff.1 hunder with heq | hin
    · exact absurd (congrArg head? heq) (by simp)
    · exact absurd (cons_prefix_cons.1 hin).1 (by decide)
  have hread : readPath d.settings d.threadData path = .ok (joinPathPreservingStyle
      d.skillsDir.path (lstripSlash (path.drop d.skillsContainer.length))) := by
    rw [readPath_of_skills hvalid hskills, resolveSkillsPath,
      show d.settings.skillsHost = some d.skillsDir.path from if_pos hexist]
    simp only
    rw [show d.settings.skillsContainer = d.skillsContainer from rfl, if_neg hne, hcustom]
    rfl
  have hfilter : (segments (lstripSlash (path.drop d.skillsContainer.length))).filter counts =
      "public".toList ::
        (segments (lstripSlash (path.drop (d.skillsAt "public").length))).filter counts := by
    rw [hrelative, filter_lstrip]
    rcases isAtOrUnder_iff_exists.1 h with heq | ⟨q, heq⟩
    · rw [heq, drop_length]
      decide
    · rw [heq, drop_left, segments_append, segments_cons, filter_append]
      rfl
  have hreldots : ['.', '.'] ∉ segments (lstripSlash (path.drop d.skillsContainer.length)) :=
    no_dots_of_under hskills (no_dots_of_valid hvalid)
  have hhost := findPathMapping_of_apart hapart
    (under_joinPreserving hdir hrelPath (lstrip_head _)).1
  refine agree_of_place hvalid (.inl hskills)
    (hostPlace_eq (findPathMapping_public hpublic h) hdots) hread ?_
  rw [hostPlace_of_none hhost, resolveParts_joinPreserving _ hdir hrelPath (lstrip_head _) hreldots,
    hfilter, show d.publicMapping.localPath = joinPath d.skillsDir.path "public".toList from rfl,
    resolveParts_joinPath _ (by decide), append_assoc]
  rfl

/-- The ACP workspace is read in one way. -/
theorem agree_acp (hvalid : validateLocalToolPath d.settings path true = .ok ())
    (hskills : isSkillsPath d.settings path = false) (h : isAcpWorkspacePath path = true)
    (hpath : '\\' ∉ path) (hdir : '\\' ∉ d.acpDir.path) (hapart : d.Apart d.acpDir) :
    d.Agree path := by
  have hdots := no_dots_of_under h (no_dots_of_valid hvalid)
  have hrelPath : '\\' ∉ lstripSlash (path.drop acpWorkspaceVirtualPath.length) := fun hmem =>
    hpath (mem_of_mem_drop ((dropWhile_sublist _).subset hmem))
  have hjoined := resolveParts_joinPreserving d.acpDir hdir hrelPath (lstrip_head _) hdots
  have hcommon : isCommonPath (normpath d.acpDir.path) (normpath (joinPathPreservingStyle
      d.acpDir.path (lstripSlash (path.drop acpWorkspaceVirtualPath.length)))) = true := by
    have hnorm : ∀ rest, normpath (d.acpDir.path ++ rest) = resolve (d.acpDir.path ++ rest) := by
      intro rest
      obtain ⟨p, hp, hhead⟩ := path_head d.acpDir rest
      rw [hp, normpath_eq hhead]
    have hbase : normpath d.acpDir.path = d.acpDir.path := by
      have := hnorm []
      rw [append_nil] at this
      rw [this, resolve, resolveParts_path, Dir.path]
    have hcandidate : normpath (joinPathPreservingStyle d.acpDir.path
        (lstripSlash (path.drop acpWorkspaceVirtualPath.length))) =
        resolve (joinPathPreservingStyle d.acpDir.path
          (lstripSlash (path.drop acpWorkspaceVirtualPath.length))) := by
      by_cases hnil : lstripSlash (path.drop acpWorkspaceVirtualPath.length) = []
      · rw [hnil, joinPathPreservingStyle, if_pos rfl, hbase, resolve, resolveParts_path, Dir.path]
      · rw [joinPreserving_eq hdir hrelPath (lstrip_head _) hnil]
        exact hnorm _
    rw [isCommonPath, hbase, hcandidate, Bool.and_eq_true, isPrefixOf_iff_prefix, Dir.path,
      pathParts_names d.acpDir.isName, resolve, pathParts_names (names_resolveParts _),
      ← Dir.path, hjoined]
    exact ⟨prefix_append _ _, decide_eq_true rfl⟩
  have hread : readPath d.settings d.threadData path = .ok (joinPathPreservingStyle d.acpDir.path
      (lstripSlash (path.drop acpWorkspaceVirtualPath.length))) := by
    have htraversal : hasTraversal path = false := by
      refine Bool.eq_false_iff.2 fun htraversal => ?_
      rw [validateLocalToolPath, if_pos htraversal] at hvalid
      cases hvalid
    have hshape : (d.acpDir.path.contains '/' && !d.acpDir.path.contains '\\') = true := by
      rw [Bool.and_eq_true, contains_iff_mem, Bool.not_eq_true', Bool.eq_false_iff, ne_eq,
        contains_iff_mem]
      exact ⟨mem_cons_self, hdir⟩
    rw [readPath, hvalid, hskills, h]
    show resolveAcpWorkspacePath d.settings path = _
    rw [resolveAcpWorkspacePath, if_neg (by rw [htraversal]; exact Bool.false_ne_true),
      show d.settings.acpHost = some d.acpDir.path from rfl]
    simp only
    by_cases hroot : path = acpWorkspaceVirtualPath
    · rw [if_pos hroot, hroot, drop_length]
      rfl
    · rw [if_neg hroot, if_pos hshape, if_pos hcommon]
  have hhost := findPathMapping_of_apart hapart
    (under_joinPreserving hdir hrelPath (lstrip_head _)).1
  refine agree_of_place hvalid (.inr h) (hostPlace_eq (findPathMapping_acp hskills h) hdots) hread ?_
  rw [hostPlace_of_none hhost, hjoined]
  exact congrArg (fun names => Except.ok (names ++ _)) (resolveParts_path _).symm

/-- For a file in the thread's directories the tools do the same. -/
theorem agree_thread (hvalid : validateLocalToolPath d.settings path true = .ok ())
    (hskills : isSkillsPath d.settings path = false) (hacp : isAcpWorkspacePath path = false)
    (hcustom : isCustomMountPath d.settings path = false) : d.Agree path := by
  have hhanded : lsPath d.settings d.threadData path =
        resolveAndValidateUserDataPath path d.threadData ∧
      searchPath d.settings d.threadData path =
        resolveAndValidateUserDataPath path d.threadData ∧
      readPath d.settings d.threadData path =
        resolveAndValidateUserDataPath path d.threadData := by
    rw [lsPath, searchPath, readPath, hvalid, hskills, hacp, hcustom]
    exact ⟨rfl, rfl, rfl⟩
  obtain ⟨hls, hsearch, hread⟩ := hhanded
  have hplaces : ∀ place ∈ d.places path, place =
      (resolveAndValidateUserDataPath path d.threadData).bind (hostPlace d.pathMappings) := by
    intro place hmem
    simp only [places, hls, hsearch, hread, map_cons, map_nil, mem_cons,
      not_mem_nil, or_false, or_self] at hmem
    exact hmem
  cases hplace : (resolveAndValidateUserDataPath path d.threadData).bind (hostPlace d.pathMappings) with
  | ok names => exact .inr ⟨names, fun place hmem => (hplaces place hmem).trans hplace⟩
  | error e =>
    refine .inl fun place hmem => ((hplaces place hmem).trans hplace).trans ?_
    rw [resolveAndValidateUserDataPath] at hplace
    split at hplace
    · rw [hostPlace_error hplace]
    · exact congrArg _ (Except.error.inj hplace).symm

/-- A file of the thread that is also under a custom mount. -/
theorem agree_mounted (hvalid : validateLocalToolPath d.settings path true = .ok ())
    (hskills : isSkillsPath d.settings path = false) (hacp : isAcpWorkspacePath path = false)
    {name : String} (hname : name ∈ threadNames)
    (h : isAtOrUnder (virtualPathPrefix ++ '/' :: name.toList) path = true) (hpath : '\\' ∉ path)
    (hdir : '\\' ∉ d.userDataDir.path) (hapart : d.Apart d.userDataDir) : d.Agree path := by
  by_cases hcustom : isCustomMountPath d.settings path = false
  · exact agree_thread hvalid hskills hacp hcustom
  rw [Bool.not_eq_false] at hcustom
  have hdots := no_dots_of_valid hvalid
  have hparts := resolveParts_replaceVirtualPath hname hpath hdir h hdots
  have hplace := hostPlace_eq (findPathMapping_thread hname hskills h) (no_dots_of_under h hdots)
  rw [show (d.threadMapping name).localPath = (d.threadDir hname).path from
    (threadDir_path d hname).symm, resolveParts_path, ← hparts] at hplace
  have hroot : (d.threadDir hname).path ∈
      [d.threadData.workspacePath, d.threadData.uploadsPath, d.threadData.outputsPath] := by
    rw [threadDir_path]
    simp only [threadNames, mem_cons, not_mem_nil, or_false] at hname
    rcases hname with rfl | rfl | rfl <;> simp [threadData]
  have hin : isInThreadDirs d.threadData (resolve (replaceVirtualPath path d.threadData)) = true := by
    rw [isInThreadDirs, any_eq_true]
    refine ⟨_, hroot, ?_⟩
    rw [ isPrefixOf_iff_prefix, resolveParts_resolve, resolveParts_path, hparts]
    exact prefix_append _ _
  have hsearch : searchPath d.settings d.threadData path =
      .ok (resolve (replaceVirtualPath path d.threadData)) := by
    rw [searchPath, hvalid, hskills, hacp]
    show resolveAndValidateUserDataPath path d.threadData = _
    rw [resolveAndValidateUserDataPath, if_pos hin]
  have hhost : hostPlace d.pathMappings (resolve (replaceVirtualPath path d.threadData)) =
      .ok (resolveParts (replaceVirtualPath path d.threadData)) := by
    rw [hostPlace_of_none, resolveParts_resolve]
    refine findPathMapping_of_apart hapart ?_
    rw [resolve, hparts, threadDir, Dir.path, append_assoc]
    exact under_ofParts d.userDataDir.ne_nil _
  have hls : lsPath d.settings d.threadData path = .ok path := by
    rw [lsPath, hvalid, hskills, hacp, hcustom]
    rfl
  have hread : readPath d.settings d.threadData path = .ok path := by
    rw [readPath, hvalid, hskills, hacp, hcustom]
    rfl
  refine .inr ⟨resolveParts (replaceVirtualPath path d.threadData), fun place hmem => ?_⟩
  simp only [places, hls, hsearch, hread, map_cons, map_nil, mem_cons,
    not_mem_nil, or_false] at hmem
  rcases hmem with rfl | rfl | rfl | rfl
  · exact hplace
  · exact hhost
  · exact hhost
  · exact hplace

theorem agree_refused {e : ToolError}
    (hvalid : validateLocalToolPath d.settings path true = .error e) : d.Agree path := by
  refine .inl fun place hmem => ?_
  rw [validate_error hvalid] at hvalid
  have hhanded : lsPath d.settings d.threadData path = .error .permission ∧
      searchPath d.settings d.threadData path = .error .permission ∧
      readPath d.settings d.threadData path = .error .permission := by
    rw [lsPath, searchPath, readPath, hvalid]
    exact ⟨rfl, rfl, rfl⟩
  simp only [places, hhanded.1, hhanded.2.1, hhanded.2.2, map_cons, map_nil,
    mem_cons, not_mem_nil, or_false, or_self] at hmem
  exact hmem

end Deployment

/-- **The tools refuse the path or find one place**, for the paths that go one way. -/
theorem places_agree (d : Deployment) {path : List Char} (h : d.OneWay path) : d.Agree path := by
  cases hvalid : validateLocalToolPath d.settings path true with
  | error e => exact Deployment.agree_refused hvalid
  | ok _ =>
    cases h with
    | refused h => exact absurd hvalid h
    | thread hskills hacp hcustom => exact Deployment.agree_thread hvalid hskills hacp hcustom
    | userSkills h hexist hapart => exact Deployment.agree_userSkills hvalid h hexist hapart
    | publicSkills h hexist hpublic hpath hdir hapart =>
      exact Deployment.agree_publicSkills hvalid h hexist hpublic hpath hdir hapart
    | acp hskills h hpath hdir hapart => exact Deployment.agree_acp hvalid hskills h hpath hdir hapart
    | mounted hskills hacp name hname h hpath hdir hapart =>
      exact Deployment.agree_mounted hvalid hskills hacp hname h hpath hdir hapart

/-- No path of a custom mount is among them: where the path does not happen to be one of the
thread's own host directories, `glob` and `grep` refuse it, and `ls` lists it. -/
theorem mounts_disagree (d : Deployment) {path : List Char}
    (hvalid : validateLocalToolPath d.settings path true = .ok ())
    (hskills : isSkillsPath d.settings path = false) (hacp : isAcpWorkspacePath path = false)
    (hcustom : isCustomMountPath d.settings path = true)
    (houtside : isInThreadDirs d.threadData (resolve (replaceVirtualPath path d.threadData)) = false) :
    ¬d.Agree path := by
  have hls : lsPath d.settings d.threadData path = .ok path := by
    rw [lsPath, hvalid, hskills, hacp, hcustom]
    rfl
  have hsearch : searchPath d.settings d.threadData path = .error .permission := by
    rw [searchPath, hvalid, hskills, hacp]
    show resolveAndValidateUserDataPath path d.threadData = _
    rw [resolveAndValidateUserDataPath, houtside]
    rfl
  have hplace : ∃ names, hostPlace d.pathMappings path = .ok names := by
    cases hfind : findPathMapping d.pathMappings path with
    | none => exact ⟨_, hostPlace_of_none hfind⟩
    | some found =>
      obtain ⟨m, rel⟩ := found
      exact ⟨_, hostPlace_eq hfind (Deployment.no_dots_of_find hfind
        (Deployment.no_dots_of_valid hvalid))⟩
  obtain ⟨names, hplace⟩ := hplace
  rintro (hall | ⟨names', hall⟩)
  · have := hall _ (mem_map.2 ⟨_, mem_cons_self, rfl⟩)
    rw [hls] at this
    cases hplace.symm.trans this
  · have := hall _ (mem_map.2 ⟨_, mem_cons_of_mem _ mem_cons_self, rfl⟩)
    rw [hsearch] at this
    cases this

/-! ### A mount -/

/-- A thread of a user, and a mount of `/srv/data` at `/mnt/data`. -/
def demoDeployment : Deployment where
  skillsContainer := "/mnt/skills".toList
  skillsDir := ⟨["app".toList, "skills".toList], by decide +kernel, by decide⟩
  skillsExist := true
  publicExists := true
  legacyMounted := false
  userCustomDir := ⟨["app".toList, "ann".toList], by decide +kernel, by decide⟩
  userDataDir := ⟨["app".toList, "t".toList, "user-data".toList], by decide +kernel, by decide⟩
  acpDir := ⟨["app".toList, "t".toList, "acp-workspace".toList], by decide +kernel, by decide⟩
  mounts := [⟨"/srv/data".toList, "/mnt/data".toList, false⟩]

theorem places_agree_demo : demoDeployment.Agree "/mnt/skills/public/tea/SKILL.md".toList :=
  places_agree demoDeployment (.publicSkills (by decide) rfl rfl (by decide) (by decide)
    (by decide +kernel))

/-- **A custom mount is not searched.** -/
theorem mount_not_searched : ¬∀ (d : Deployment) (path : List Char), d.Agree path :=
  fun h => mounts_disagree demoDeployment (show validateLocalToolPath demoDeployment.settings
    "/mnt/data/a.txt".toList true = .ok () by decide +kernel) (by decide) (by decide) (by decide)
    (by decide +kernel) (h _ _)

end AfterFlow.Sandbox
