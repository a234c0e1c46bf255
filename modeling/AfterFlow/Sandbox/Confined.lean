import AfterFlow.Sandbox.ReportedPaths

/-!
# Where the tools may go

The file tools take what is in the thread's workspace, uploads and outputs, what is mounted, and to
read also the skills and the ACP workspace. The thread's own files they resolve themselves, and see
that they are there. Everything else they hand to the sandbox as it came, and rely on its mappings:
but a mount that the provider skips has no mapping there, and the sandbox's mapping of
`/mnt/user-data` takes more than the three directories.

## Main results

* `confined` — the tools go nowhere else, but in the cases that are named here
* `skipped_mount_written` — a mount that is skipped, and written in the thread's parent directory
-/

namespace AfterFlow.Sandbox

open List Option

namespace Deployment

variable (d : Deployment)

/-- The place that is opened for writing. -/
@[grind =] def writes (path : List Char) : Option (List (List Char)) :=
  match writePath d.settings d.threadData path with
  | .error _ => none
  | .ok handed =>
    match resolvePathWithMapping d.pathMappings handed with
    | .error _ => none
    | .ok resolved =>
      if isResolvedPathReadOnly d.pathMappings resolved then none
      else some (resolveParts resolved.path)

/-- In the thread's workspace, uploads or outputs. -/
def OwnFile (place : List (List Char)) : Prop :=
  ∃ name ∈ threadNames, d.userDataDir.names ++ [name.toList] <+: place

/-- A directory that may be written in. -/
def WritableDir (dir : List (List Char)) : Prop :=
  (∃ name ∈ threadNames, dir = d.userDataDir.names ++ [name.toList]) ∨
    ∃ m ∈ d.mounts, m.readOnly = false ∧ dir = resolveParts m.hostPath

/-- A place in such a directory, and in no mount that is read-only and deeper. -/
def Writable (place : List (List Char)) : Prop :=
  ∃ dir, d.WritableDir dir ∧ dir <+: place ∧ ∀ m ∈ d.mounts, m.readOnly = true →
    resolveParts m.hostPath <+: place → (resolveParts m.hostPath).length ≤ dir.length

/-- A place that may be read. -/
def Readable (place : List (List Char)) : Prop :=
  d.OwnFile place ∨ (∃ m ∈ d.mounts, resolveParts m.hostPath <+: place) ∨
    d.skillsDir.names <+: place ∨ d.userCustomDir.names <+: place ∨ d.acpDir.names <+: place

/-- No mount is, or is in, one of the thread's own directories. -/
def MountsOutside : Prop :=
  ∀ m ∈ d.mounts, ∀ name ∈ threadNames,
    ¬d.userDataDir.names ++ [name.toList] <+: resolveParts m.hostPath

instance : Decidable d.MountsOutside := by
  rw [MountsOutside]
  infer_instance

/-- The mapping of the directory that has the thread's own in it. -/
def parentMapping : PathMapping := ⟨virtualPathPrefix, d.userDataDir.path, false⟩

/-- What the tools that read hand to the sandbox. -/
def handed (path : List Char) : List (Except ToolError (List Char)) :=
  [lsPath d.settings d.threadData path, searchPath d.settings d.threadData path,
    readPath d.settings d.threadData path]

/-- What the mapping of `/mnt/user-data` takes leads to a place that may be read, and so does the
text of a path that is handed over as it came and that no mapping takes. -/
def ReadsKept (path : List Char) : Prop :=
  ∀ p, .ok p ∈ d.handed path →
    (∀ rel, findPathMapping d.pathMappings p = some (d.parentMapping, rel) →
      d.Readable (d.userDataDir.names ++ (segments rel).filter counts)) ∧
    (p = path → findPathMapping d.pathMappings p = none → d.Readable (resolveParts p))

/-- The places of which the sandbox's look for mounts that are read-only does not tell. -/
inductive Unchecked (path : List Char) (place : List (List Char)) : Prop
  /-- The path was handed over as it came, and no mapping takes it. -/
  | literal (h : writePath d.settings d.threadData path = .ok path)
      (hnone : findPathMapping d.pathMappings path = none)
  /-- The mapping of `/mnt/user-data` or of the ACP workspace takes it. -/
  | outer (p rel : List Char) (m : PathMapping) (h : writePath d.settings d.threadData path = .ok p)
      (hfind : findPathMapping d.pathMappings p = some (m, rel))
      (hm : m = d.parentMapping ∨ m = d.acpMapping)
  /-- A mount that is read-only is over it and has no mapping. -/
  | skipped (mount : Mount) (hmount : mount ∈ d.mounts) (hro : mount.readOnly = true)
      (h : d.mountMapping? mount = none) (hover : resolveParts mount.hostPath <+: place)
  /-- It is in the directory with the thread's own, or in the ACP workspace, through a mount. -/
  | within (h : d.userDataDir.names <+: place ∨ d.acpDir.names <+: place)

/-- What is written where the sandbox does not tell may be written all the same. -/
def WritesKept (path : List Char) : Prop :=
  ∀ place, d.writes path = some place → ¬d.OwnFile place → d.Unchecked path place → d.Writable place

end Deployment

/-! ### Places over others -/

variable {d : Deployment} {dir : Dir} {path handed c r : List Char} {m : PathMapping}
  {a b place : List (List Char)} {mappings : List PathMapping}

theorem names_of_under (ha : ∀ name ∈ a, IsName name) (hne : a ≠ [])
    (hb : ∀ name ∈ b, IsName name) (h : isAtOrUnder (ofParts a) (ofParts b) = true) : a <+: b := by
  rcases isAtOrUnder_iff_exists.1 h with heq | ⟨q, hq⟩
  · rw [← resolveParts_ofParts hb, heq, resolveParts_ofParts ha]
  · have hbne : b ≠ [] := by
      rintro rfl
      have hlen := congrArg List.length hq
      have hnil : (['/'].intercalate ([] : List (List Char))).length = 0 := rfl
      rw [ofParts, ofParts, length_append, length_cons, length_cons,
        length_cons, hnil] at hlen
      omega
    have hsegments := congrArg segments hq
    rw [segments_append, ofParts, ofParts, segments_cons, segments_cons, segments_intercalate hb hbne,
      segments_intercalate ha hne, cons_append, List.cons.injEq] at hsegments
    rw [hsegments.2]
    exact prefix_append _ _

theorem length_le_of_path (hnames : ∀ name ∈ a, IsName name) (ha : a <+: place) (hb : b <+: place)
    (h : (ofParts a).length ≤ (ofParts b).length) : a.length ≤ b.length := by
  by_contra hlen
  obtain ⟨rest, rfl⟩ := prefix_of_prefix_length_le hb ha (Nat.le_of_not_le hlen)
  have hrest : rest ≠ [] := by
    rintro rfl
    rw [append_nil] at hlen
    exact hlen le_rfl
  by_cases hne : b = []
  · subst hne
    obtain ⟨name, rest, rfl⟩ := exists_cons_of_ne_nil hrest
    have hname := length_pos_iff.2 (hnames name mem_cons_self).ne_nil
    have hnil : (['/'].intercalate ([] : List (List Char))).length = 0 := rfl
    have hmore : name.length ≤ (['/'].intercalate (name :: rest)).length := by
      by_cases hrest' : rest = []
      · rw [hrest', intercalate_singleton]
      · rw [intercalate_cons_of_ne_nil hrest', length_append, length_append]
        omega
    rw [ofParts, ofParts, length_cons, length_cons, nil_append, hnil] at h
    omega
  · rw [ofParts, ofParts, intercalate_append hne hrest, length_cons, length_cons, length_append,
      length_cons] at h
    omega

/-- The deepest mapping over a path. -/
theorem deepestMapping_spec (hm : m ∈ mappings) (hover : isAtOrUnder m.root path = true) :
    ∃ best ∈ mappings, deepestMapping mappings path = some best ∧
      isAtOrUnder best.root path = true ∧ m.root.length ≤ best.root.length := by
  have hfold : ∀ (ms : List PathMapping) (best : Option PathMapping),
      (∀ b ∈ best, isAtOrUnder b.root path = true) →
      ∀ m, (m ∈ ms ∧ isAtOrUnder m.root path = true) ∨ best = some m →
        ∃ b, ms.foldl (fun best m => if isAtOrUnder m.root path &&
            best.all (fun b => b.root.length < m.root.length) then some m else best) best = some b ∧
          (b ∈ ms ∨ best = some b) ∧ isAtOrUnder b.root path = true ∧
          m.root.length ≤ b.root.length := by
    intro ms
    induction ms with
    | nil =>
      rintro best hbest m (⟨h, -⟩ | rfl)
      · cases h
      · exact ⟨m, rfl, .inr rfl, hbest m rfl, le_rfl⟩
    | cons x ms ih =>
      intro best hbest m hm
      rw [foldl_cons]
      by_cases htake : (isAtOrUnder x.root path &&
          best.all (fun b => b.root.length < x.root.length)) = true
      · rw [if_pos htake]
        rw [Bool.and_eq_true] at htake
        have hx : ∀ b ∈ some x, isAtOrUnder b.root path = true := by
          rintro b hb
          obtain rfl := some.inj hb
          exact htake.1
        have hdone : ∀ {m : PathMapping}, (m ∈ ms ∧ isAtOrUnder m.root path = true) ∨ some x = some m →
            ∃ b, ms.foldl (fun best m => if isAtOrUnder m.root path &&
                best.all (fun b => b.root.length < m.root.length) then some m else best) (some x) =
              some b ∧ (b ∈ x :: ms ∨ best = some b) ∧ isAtOrUnder b.root path = true ∧
              m.root.length ≤ b.root.length := by
          intro m hm
          obtain ⟨b, hb, hmem, hover, hlen⟩ := ih (some x) hx m hm
          refine ⟨b, hb, .inl ?_, hover, hlen⟩
          rcases hmem with hmem | hmem
          · exact mem_cons_of_mem _ hmem
          · exact mem_cons.2 (.inl (some.inj hmem).symm)
        rcases hm with ⟨hm, hover⟩ | rfl
        · rcases mem_cons.1 hm with rfl | hm
          · exact hdone (.inr rfl)
          · exact hdone (.inl ⟨hm, hover⟩)
        · -- the mapping that is given up is shorter
          obtain ⟨b, hb, hmem, hover, hlen⟩ := hdone (.inr rfl)
          refine ⟨b, hb, hmem, hover, le_trans ?_ hlen⟩
          have hshort := htake.2
          rw [all_some, decide_eq_true_eq] at hshort
          exact hshort.le
      · rw [if_neg htake]
        rw [Bool.and_eq_true, not_and] at htake
        have hdone : ∀ {m : PathMapping}, (m ∈ ms ∧ isAtOrUnder m.root path = true) ∨ best = some m →
            ∃ b, ms.foldl (fun best m => if isAtOrUnder m.root path &&
                best.all (fun b => b.root.length < m.root.length) then some m else best) best =
              some b ∧ (b ∈ x :: ms ∨ best = some b) ∧ isAtOrUnder b.root path = true ∧
              m.root.length ≤ b.root.length := by
          intro m hm
          obtain ⟨b, hb, hmem, hover, hlen⟩ := ih best hbest m hm
          exact ⟨b, hb, hmem.imp_left (mem_cons_of_mem _), hover, hlen⟩
        rcases hm with ⟨hm, hover⟩ | hm
        · rcases mem_cons.1 hm with rfl | hm
          · -- it is passed over for one that is as long
            cases best with
            | none => exact absurd rfl (htake hover)
            | some b₀ =>
              have hlong := htake hover
              rw [all_some, decide_eq_true_eq, not_lt] at hlong
              obtain ⟨b, hb, hmem, hover', hlen⟩ := hdone (m := b₀) (.inr rfl)
              exact ⟨b, hb, hmem, hover', hlong.trans hlen⟩
          · exact hdone (.inl ⟨hm, hover⟩)
        · exact hdone (.inr hm)
  obtain ⟨b, hb, hmem, hover', hlen⟩ := hfold mappings none nofun m (.inl ⟨hm, hover⟩)
  exact ⟨b, hmem.resolve_right nofun, hb, hover', hlen⟩

/-- It is one of the mappings, and over the path. -/
theorem deepestMapping_over {best : PathMapping} (h : deepestMapping mappings path = some best) :
    best ∈ mappings ∧ isAtOrUnder best.root path = true := by
  have hfold : ∀ (ms : List PathMapping) (acc : Option PathMapping),
      (∀ m ∈ ms, m ∈ mappings) → (∀ b ∈ acc, b ∈ mappings ∧ isAtOrUnder b.root path = true) →
      ∀ b ∈ ms.foldl (fun best m => if isAtOrUnder m.root path &&
          best.all (fun b => b.root.length < m.root.length) then some m else best) acc,
        b ∈ mappings ∧ isAtOrUnder b.root path = true := by
    intro ms
    induction ms with
    | nil => exact fun _ _ h => h
    | cons x ms ih =>
      intro acc hms hacc
      rw [foldl_cons]
      refine ih _ (fun m hm => hms m (mem_cons_of_mem _ hm)) fun b hb => ?_
      split at hb
      · rename_i htake
        rw [Bool.and_eq_true] at htake
        obtain rfl := some.inj hb
        exact ⟨hms _ mem_cons_self, htake.1⟩
      · exact hacc b hb
  exact hfold mappings none (fun _ hm => hm) nofun best h

/-! ### Where a mapping leads -/

namespace Deployment

theorem mapping_cases (h : m ∈ d.pathMappings) : m = d.publicMapping ∨
    (∃ mount ∈ d.mounts, d.mountMapping? mount = some m) ∨ m = d.parentMapping ∨
    (∃ name ∈ threadNames, m = d.threadMapping name) ∨ m = d.acpMapping ∨ m = d.customMapping ∨
    m = ⟨d.skillsAt "legacy", joinPath d.skillsDir.path "custom".toList, true⟩ := by
  rcases mem_append.1 h with h | h
  · rcases mem_append.1 h with h | h
    · split at h
      · exact .inl (mem_singleton.1 h)
      · cases h
    · exact .inr (.inl (mem_filterMap.1 h))
  · refine .inr (.inr ?_)
    rcases mem_append.1 h with h | h
    · simp only [mem_cons, not_mem_nil, or_false] at h
      rcases h with rfl | rfl | rfl | rfl | rfl | rfl
      · exact .inl rfl
      · exact .inr (.inl ⟨"workspace", by decide, rfl⟩)
      · exact .inr (.inl ⟨"uploads", by decide, rfl⟩)
      · exact .inr (.inl ⟨"outputs", by decide, rfl⟩)
      · exact .inr (.inr (.inl rfl))
      · exact .inr (.inr (.inr (.inl rfl)))
    · split at h
      · exact .inr (.inr (.inr (.inr (mem_singleton.1 h))))
      · cases h

theorem mountMapping_eq {mount : Mount} (h : d.mountMapping? mount = some m) :
    resolveParts m.localPath = resolveParts mount.hostPath ∧ m.readOnly = mount.readOnly := by
  rw [mountMapping?] at h
  split at h
  · cases h
  · obtain rfl := some.inj h
    exact ⟨resolveParts_resolve _, rfl⟩

theorem threadMapping_names {name : String} (hname : name ∈ threadNames) :
    resolveParts (d.threadMapping name).localPath = d.userDataDir.names ++ [name.toList] := by
  rw [threadMapping, ← threadDir_path d hname, resolveParts_path]
  rfl

/-- What a mapping other than that of `/mnt/user-data` has in it may be read. -/
theorem readable_of_mapping (hm : m ∈ d.pathMappings) (hin : resolveParts m.localPath <+: place)
    (hparent : m ≠ d.parentMapping) : d.Readable place := by
  have hskills : ∀ name : String, ['.', '.'] ∉ segments name.toList →
      resolveParts (joinPath d.skillsDir.path name.toList) <+: place → d.skillsDir.names <+: place := by
    intro name hdots hin
    rw [resolveParts_joinPath _ hdots] at hin
    exact (prefix_append _ _).trans hin
  rcases mapping_cases hm with rfl | ⟨mount, hmount, hmapping⟩ | hm | ⟨name, hname, rfl⟩ | rfl | rfl | rfl
  · exact .inr (.inr (.inl (hskills "public" (by decide) hin)))
  · rw [(mountMapping_eq hmapping).1] at hin
    exact .inr (.inl ⟨mount, hmount, hin⟩)
  · exact absurd hm hparent
  · rw [threadMapping_names hname] at hin
    exact .inl ⟨name, hname, hin⟩
  · rw [acpMapping, resolveParts_path] at hin
    exact .inr (.inr (.inr (.inr hin)))
  · rw [customMapping, resolveParts_path] at hin
    exact .inr (.inr (.inr (.inl hin)))
  · exact .inr (.inr (.inl (hskills "custom" (by decide) hin)))

/-- A path is taken by a mapping, into its directory, or as it is. -/
theorem mapped_cases {resolved : ResolvedPath}
    (h : resolvePathWithMapping mappings handed = .ok resolved) :
    (findPathMapping mappings handed = none ∧ resolved = ⟨handed, none⟩) ∨
      ∃ m rel, findPathMapping mappings handed = some (m, rel) ∧ resolved.mapping = some m ∧
        resolveParts m.localPath <+: resolveParts resolved.path ∧
        (['.', '.'] ∉ segments rel → resolveParts resolved.path =
          resolveParts m.localPath ++ (segments rel).filter counts) := by
  cases hfind : findPathMapping mappings handed with
  | none =>
    rw [resolvePathWithMapping, hfind] at h
    exact .inl ⟨rfl, (Except.ok.inj h).symm⟩
  | some found =>
    obtain ⟨m, rel⟩ := found
    refine .inr ⟨m, rel, rfl, ?_⟩
    have hplace : ['.', '.'] ∉ segments rel → resolveParts resolved.path =
        resolveParts m.localPath ++ (segments rel).filter counts := by
      intro hdots
      have hhost := hostPlace_eq hfind hdots
      rw [hostPlace, resolvePath, h] at hhost
      exact Except.ok.inj hhost
    rw [resolvePathWithMapping, hfind] at h
    simp only at h
    by_cases hin : resolveParts m.root <+:
        resolveParts (if rel = [] then m.root else resolve (m.root ++ '/' :: rel))
    · rw [if_pos hin] at h
      obtain rfl := Except.ok.inj h
      rw [PathMapping.root, resolveParts_resolve] at hin
      exact ⟨rfl, hin, hplace⟩
    · rw [if_neg hin] at h
      cases h

/-- Where the sandbox goes for a path that leads to a root. -/
theorem readable_of_mapped (hdots : ['.', '.'] ∉ segments handed)
    (hparent : ∀ rel, findPathMapping d.pathMappings handed = some (d.parentMapping, rel) →
      d.Readable (d.userDataDir.names ++ (segments rel).filter counts))
    (hnone : findPathMapping d.pathMappings handed = none → d.Readable (resolveParts handed))
    (hplace : hostPlace d.pathMappings handed = .ok place) : d.Readable place := by
  cases hfind : findPathMapping d.pathMappings handed with
  | none =>
    rw [hostPlace_of_none hfind] at hplace
    exact Except.ok.inj hplace ▸ hnone hfind
  | some found =>
    obtain ⟨m, rel⟩ := found
    rw [hostPlace_eq hfind (no_dots_of_find hfind hdots)] at hplace
    obtain rfl := Except.ok.inj hplace
    by_cases hm : m = d.parentMapping
    · subst hm
      have hreadable := hparent rel hfind
      rwa [parentMapping, resolveParts_path]
    · exact readable_of_mapping (LocalSandbox.findPathMapping_spec hfind).1 (prefix_append _ _) hm

/-! ### What the tools resolve themselves -/

theorem no_dots_ofParts {names : List (List Char)} (h : ∀ name ∈ names, IsName name) :
    ['.', '.'] ∉ segments (ofParts names) := by
  rw [ofParts, segments_cons, mem_cons, not_or]
  refine ⟨(cons_ne_nil _ _), fun hmem => ?_⟩
  by_cases hne : names = []
  · subst hne
    exact absurd hmem (by decide)
  · rw [segments_intercalate h hne] at hmem
    exact (h _ hmem).ne_dots rfl

theorem mem_segments_lstrip_map {segment : List Char} (q : List Char)
    (h : segment ∈ segments ((lstripSlash q).map toForwardSlash)) :
    segment ∈ segments (q.map toForwardSlash) := by
  induction q with
  | nil => exact h
  | cons c q ih =>
    by_cases hc : c = '/'
    · subst hc
      show segment ∈ segments ('/' :: q.map toForwardSlash)
      rw [segments_cons]
      exact mem_cons_of_mem _ (ih h)
    · rwa [lstripSlash, dropWhile_cons_of_neg (by simpa using hc)] at h

/-- What is left of a path below a prefix has no two dots, backslashes taken for slashes. -/
theorem no_traversal_below (h : isAtOrUnder c path = true) (hpath : hasTraversal path = false) :
    ['.', '.'] ∉ segments ((lstripSlash (path.drop c.length)).map toForwardSlash) := by
  rw [hasTraversal, Bool.eq_false_iff, ne_eq, contains_iff_mem] at hpath
  rcases isAtOrUnder_iff_exists.1 h with rfl | ⟨q, rfl⟩
  · rw [drop_length]
    decide
  · rw [drop_left]
    intro hmem
    refine hpath ?_
    have hin := mem_segments_lstrip_map ('/' :: q) hmem
    change _ ∈ segments ('/' :: q.map toForwardSlash) at hin
    rw [segments_cons] at hin
    rw [map_append]
    show _ ∈ segments (c.map toForwardSlash ++ '/' :: q.map toForwardSlash)
    rw [segments_append]
    exact mem_append_right _ ((mem_cons.1 hin).resolve_left (cons_ne_nil _ _))

/-- What `_join_path_preserving_style` makes is in the directory. -/
theorem joined_style (hdir : dir.path.getLast? ≠ some '\\')
    (hdots : ['.', '.'] ∉ segments (r.map toForwardSlash)) :
    ['.', '.'] ∉ segments (joinPathPreservingStyle dir.path r) ∧
      dir.names <+: resolveParts (joinPathPreservingStyle dir.path r) := by
  by_cases hnil : r = []
  · rw [joinPathPreservingStyle, if_pos hnil, resolveParts_path]
    exact ⟨no_dots_ofParts dir.isName, prefix_refl _⟩
  have hsep : pathSeparatorForStyle dir.path = '/' := by
    have hslash : dir.path.contains '/' = true := contains_iff_mem.2 mem_cons_self
    rw [pathSeparatorForStyle, hslash]
    exact if_neg (by simp)
  have hmap : r.map (fun c => if c == '\\' then '/' else c) = r.map toForwardSlash := by
    refine map_congr_left fun c _ => ?_
    rw [toForwardSlash]
    exact if_congr beq_iff_eq rfl rfl
  have hdrop : (r.map toForwardSlash).dropWhile isSeparator = lstripSlash (r.map toForwardSlash) := by
    have hall : ∀ l : List Char, '\\' ∉ l → l.dropWhile isSeparator = lstripSlash l := by
      intro l
      induction l with
      | nil => exact fun _ => rfl
      | cons c l ih =>
        intro hl
        rw [mem_cons, not_or] at hl
        have hsame : isSeparator c = (c == '/') := by
          rw [isSeparator, beq_false_of_ne (Ne.symm hl.1), Bool.or_false]
        rw [lstripSlash, dropWhile_cons, dropWhile_cons, hsame, ih hl.2, lstripSlash]
    refine hall _ fun hmem => ?_
    obtain ⟨c, -, hc⟩ := mem_map.1 hmem
    rw [toForwardSlash] at hc
    split at hc
    · exact absurd hc (by decide)
    · contradiction
  have heq : joinPathPreservingStyle dir.path r =
      dir.path ++ '/' :: lstripSlash (r.map toForwardSlash) := by
    rw [joinPathPreservingStyle, if_neg hnil]
    simp only [hsep, beq_self_eq_true, ↓reduceIte]
    rw [hmap, hdrop, rdropWhile_path dir hdir]
  rw [heq]
  constructor
  · rw [segments_append, mem_append, not_or]
    exact ⟨no_dots_ofParts dir.isName, fun hmem => hdots (mem_segments_lstrip hmem)⟩
  · rw [resolveParts_append, resolveParts_path, foldl_place_lstrip, foldl_place hdots]
    exact prefix_append _ _

theorem no_traversal_of_valid {readOnly : Bool}
    (h : validateLocalToolPath d.settings path readOnly = .ok ()) : hasTraversal path = false := by
  refine Bool.eq_false_iff.2 fun htraversal => ?_
  rw [validateLocalToolPath, if_pos htraversal] at h
  cases h

theorem own_of_resolved (h : resolveAndValidateUserDataPath path d.threadData = .ok handed) :
    isAtOrUnder d.userDataDir.path handed = true ∧ d.OwnFile (resolveParts handed) := by
  rw [resolveAndValidateUserDataPath] at h
  split at h
  · rename_i hin
    obtain rfl := Except.ok.inj h
    rw [isInThreadDirs, List.any_eq_true] at hin
    obtain ⟨root, hroot, hprefix⟩ := hin
    rw [ List.isPrefixOf_iff_prefix, resolveParts_resolve] at hprefix
    have hname : ∃ name ∈ threadNames, root = joinPath d.userDataDir.path name.toList := by
      simp only [mem_cons, not_mem_nil, or_false] at hroot
      rcases hroot with rfl | rfl | rfl
      · exact ⟨"workspace", by decide, rfl⟩
      · exact ⟨"uploads", by decide, rfl⟩
      · exact ⟨"outputs", by decide, rfl⟩
    obtain ⟨name, hname, rfl⟩ := hname
    rw [← threadDir_path d hname, resolveParts_path] at hprefix
    refine ⟨?_, name, hname, by rw [resolveParts_resolve]; exact hprefix⟩
    obtain ⟨rest, hrest⟩ := hprefix
    rw [resolve, ← hrest, threadDir, append_assoc]
    exact under_ofParts d.userDataDir.ne_nil _
  · cases h

theorem no_dots_of_resolved (h : resolveAndValidateUserDataPath path d.threadData = .ok handed) :
    ['.', '.'] ∉ segments handed := by
  rw [resolveAndValidateUserDataPath] at h
  split at h
  · obtain rfl := Except.ok.inj h
    exact no_dots_ofParts (names_resolveParts _)
  · cases h

theorem no_dots_joinPath (dir : Dir) (hdots : ['.', '.'] ∉ segments r) :
    ['.', '.'] ∉ segments (joinPath dir.path r) := by
  rw [joinPath, Dir.path, pathParts_names dir.isName]
  refine no_dots_ofParts fun name hname => ?_
  exact (mem_append.1 hname).elim (dir.isName name) (counted_name hdots)

/-- What `read_file` resolves itself, of skills. -/
theorem skills_handed (hdir : d.skillsDir.path.getLast? ≠ some '\\')
    (hvalid : validateLocalToolPath d.settings path true = .ok ())
    (hskills : isSkillsPath d.settings path = true)
    (h : resolveSkillsPath d.settings path = .ok handed) :
    ['.', '.'] ∉ segments handed ∧ d.Readable (resolveParts handed) := by
  have htraversal := no_traversal_of_valid hvalid
  rw [resolveSkillsPath] at h
  split at h
  · cases h
  · rename_i skillsHost hhost
    have hpath : skillsHost = d.skillsDir.path := by
      have hite : (if d.skillsExist = true then some d.skillsDir.path else none) = some skillsHost :=
        hhost
      split at hite
      · exact (some.inj hite).symm
      · cases hite
    subst hpath
    split at h
    · obtain rfl := Except.ok.inj h
      rw [resolveParts_path]
      exact ⟨no_dots_ofParts d.skillsDir.isName, .inr (.inr (.inl (prefix_refl _)))⟩
    · simp only at h
      split at h
      · rename_i hcustom
        obtain rfl := Except.ok.inj h
        have hdots := no_dots_of_under hcustom (no_dots_of_under hskills (no_dots_of_valid hvalid))
        refine ⟨?_, .inr (.inr (.inr (.inl ?_)))⟩
        · show _ ∉ segments (if _ then d.userCustomDir.path else _)
          split
          · exact no_dots_ofParts d.userCustomDir.isName
          · exact no_dots_joinPath d.userCustomDir hdots
        · exact (joined_place d.userCustomDir hdots).2 ▸ prefix_append _ _
      · obtain rfl := Except.ok.inj h
        obtain ⟨hdots, hparts⟩ := joined_style hdir (no_traversal_below hskills htraversal)
        exact ⟨hdots, .inr (.inr (.inl hparts))⟩

/-- And of the ACP workspace. -/
theorem acp_handed (hacp : isAcpWorkspacePath path = true)
    (h : resolveAcpWorkspacePath d.settings path = .ok handed) :
    ['.', '.'] ∉ segments handed ∧ d.Readable (resolveParts handed) := by
  rw [resolveAcpWorkspacePath] at h
  split at h
  · cases h
  · rename_i htraversal
    rw [Bool.not_eq_true] at htraversal
    rw [show d.settings.acpHost = some d.acpDir.path from rfl] at h
    simp only at h
    split at h
    · obtain rfl := Except.ok.inj h
      rw [resolveParts_path]
      exact ⟨no_dots_ofParts d.acpDir.isName, .inr (.inr (.inr (.inr (prefix_refl _))))⟩
    · split at h
      · rename_i hshape
        split at h
        · obtain rfl := Except.ok.inj h
          have hclean : d.acpDir.path.getLast? ≠ some '\\' := by
            rw [Bool.and_eq_true, Bool.not_eq_true', Bool.eq_false_iff, ne_eq, contains_iff_mem] at hshape
            exact fun hlast => hshape.2 (contains_iff_mem.2 (mem_of_getLast? hlast))
          obtain ⟨hdots, hparts⟩ := joined_style hclean (no_traversal_below hacp htraversal)
          exact ⟨hdots, .inr (.inr (.inr (.inr hparts)))⟩
        · cases h
      · split at h
        · rename_i hin
          obtain rfl := Except.ok.inj h
          rw [ isPrefixOf_iff_prefix, resolveParts_path] at hin
          refine ⟨no_dots_ofParts (names_resolveParts _), .inr (.inr (.inr (.inr ?_)))⟩
          rwa [resolveParts_resolve]
        · cases h

/-- What a tool hands over it has as it came, or has resolved in a root. -/
theorem handed_cases (hdir : isSkillsPath d.settings path = true →
      d.skillsDir.path.getLast? ≠ some '\\') (h : .ok handed ∈ d.handed path) :
    ['.', '.'] ∉ segments handed ∧ (handed = path ∨ d.Readable (resolveParts handed)) := by
  have hown : resolveAndValidateUserDataPath path d.threadData = .ok handed →
      ['.', '.'] ∉ segments handed ∧ (handed = path ∨ d.Readable (resolveParts handed)) := fun hown =>
    ⟨no_dots_of_resolved hown, .inr (.inl (own_of_resolved hown).2)⟩
  cases hvalid : validateLocalToolPath d.settings path true with
  | error e =>
    simp only [Deployment.handed, lsPath, searchPath, readPath, hvalid, mem_cons, not_mem_nil, or_false] at h
    rcases h with h | h | h <;> cases h
  | ok _ =>
    have hliteral : (.ok handed : Except ToolError (List Char)) = .ok path →
        ['.', '.'] ∉ segments handed ∧ (handed = path ∨ d.Readable (resolveParts handed)) := by
      intro h
      obtain rfl := Except.ok.inj h
      exact ⟨no_dots_of_valid hvalid, .inl rfl⟩
    simp only [Deployment.handed, mem_cons, not_mem_nil, or_false] at h
    rcases h with h | h | h
    · rw [lsPath, hvalid] at h
      change _ = (if (isSkillsPath d.settings path || isAcpWorkspacePath path) = true then
        (.ok path : Except ToolError (List Char)) else if isCustomMountPath d.settings path = true then
          .ok path else resolveAndValidateUserDataPath path d.threadData) at h
      split at h
      · exact hliteral h
      · split at h
        · exact hliteral h
        · exact hown h.symm
    · rw [searchPath, hvalid] at h
      change _ = (if (isSkillsPath d.settings path || isAcpWorkspacePath path) = true then
        (.ok path : Except ToolError (List Char)) else
          resolveAndValidateUserDataPath path d.threadData) at h
      split at h
      · exact hliteral h
      · exact hown h.symm
    · rw [readPath, hvalid] at h
      change _ = (if isSkillsPath d.settings path = true then resolveSkillsPath d.settings path
        else if isAcpWorkspacePath path = true then resolveAcpWorkspacePath d.settings path
        else if isCustomMountPath d.settings path = true then .ok path
        else resolveAndValidateUserDataPath path d.threadData) at h
      split at h
      · rename_i hskills
        exact (skills_handed (hdir hskills) hvalid hskills h.symm).imp_right .inr
      · split at h
        · rename_i hacp
          exact (acp_handed hacp h.symm).imp_right .inr
        · split at h
          · exact hliteral h
          · exact hown h.symm

theorem mem_places : .ok place ∈ d.places path ↔
    ∃ p, .ok p ∈ d.handed path ∧ hostPlace d.pathMappings p = .ok place := by
  have hbind : ∀ {handed : Except ToolError (List Char)},
      .ok place = handed.bind (hostPlace d.pathMappings) ↔
        ∃ p, .ok p = handed ∧ hostPlace d.pathMappings p = .ok place := by
    intro handed
    cases handed with
    | error e => exact ⟨nofun, fun ⟨_, h, _⟩ => nomatch h⟩
    | ok p => exact ⟨fun h => ⟨p, rfl, h.symm⟩, fun ⟨_, hp, h⟩ => Except.ok.inj hp ▸ h.symm⟩
  simp only [places, Deployment.handed, map_cons, map_nil, mem_cons, not_mem_nil, or_false, hbind, or_and_right,
    exists_or, or_self_left]

/-- **What is read is in a root**, but where these are not over what the mapping of `/mnt/user-data`
or none takes. -/
theorem readable_iff (hdir : isSkillsPath d.settings path = true →
    d.skillsDir.path.getLast? ≠ some '\\') :
    (∀ place, .ok place ∈ d.places path → d.Readable place) ↔ d.ReadsKept path := by
  constructor
  · intro h p hp
    obtain ⟨hdots, -⟩ := handed_cases hdir hp
    refine ⟨fun rel hfind => ?_, fun _ hnone => ?_⟩
    · have hplace := hostPlace_eq hfind (no_dots_of_find hfind hdots)
      rw [parentMapping, resolveParts_path] at hplace
      exact h _ (mem_places.2 ⟨p, hp, hplace⟩)
    · exact h _ (mem_places.2 ⟨p, hp, hostPlace_of_none hnone⟩)
  · intro h place hplace
    obtain ⟨p, hp, hplace⟩ := mem_places.1 hplace
    obtain ⟨hdots, hresolved⟩ := handed_cases hdir hp
    obtain ⟨hparent, hliteral⟩ := h p hp
    exact readable_of_mapped hdots hparent
      (fun hnone => hresolved.elim (fun heq => hliteral heq hnone) id) hplace

/-! ### Writing -/

theorem writes_cases (h : d.writes path = some place) : ∃ handed resolved,
    writePath d.settings d.threadData path = .ok handed ∧
      resolvePathWithMapping d.pathMappings handed = .ok resolved ∧
      resolved.mapping.any PathMapping.readOnly = false ∧
      (deepestMapping d.pathMappings (ofParts place)).any PathMapping.readOnly = false ∧
      place = resolveParts resolved.path := by
  rw [writes] at h
  split at h
  · cases h
  · rename_i handed hhanded
    split at h
    · cases h
    · rename_i resolved hresolved
      split at h
      · cases h
      · rename_i hwritable
        obtain rfl := some.inj h
        rw [isResolvedPathReadOnly, Bool.not_eq_true, Bool.or_eq_false_iff] at hwritable
        exact ⟨handed, resolved, hhanded, hresolved, hwritable.1, hwritable.2, rfl⟩

/-- What is written is the thread's own, or the sandbox does not tell of it, or it is in a mount. -/
theorem written_in (hhanded : writePath d.settings d.threadData path = .ok handed)
    {resolved : ResolvedPath} (hresolved : resolvePathWithMapping d.pathMappings handed = .ok resolved)
    (hwritable : resolved.mapping.any PathMapping.readOnly = false)
    (hown : ¬d.OwnFile (resolveParts resolved.path))
    (hchecked : ¬d.Unchecked path (resolveParts resolved.path)) :
    ∃ mount ∈ d.mounts, ∃ m, d.mountMapping? mount = some m ∧ m.readOnly = false ∧
      resolveParts m.localPath <+: resolveParts resolved.path := by
  obtain ⟨hnone, rfl⟩ | ⟨m, rel, hfind, hmap, hin, -⟩ := mapped_cases hresolved
  · -- no mapping takes it
    cases hvalid : validateLocalToolPath d.settings path false with
    | error e =>
      rw [writePath, hvalid] at hhanded
      cases hhanded
    | ok _ =>
      have hcopy := hhanded
      rw [writePath, hvalid] at hhanded
      change (if isCustomMountPath d.settings path = true then (.ok path : Except ToolError (List Char))
        else resolveAndValidateUserDataPath path d.threadData) = .ok handed at hhanded
      split at hhanded
      · obtain rfl := Except.ok.inj hhanded
        exact absurd (.literal hcopy hnone) hchecked
      · exact absurd (own_of_resolved hhanded).2 hown
  · rw [hmap] at hwritable
    have hro : m.readOnly = false := hwritable
    rcases mapping_cases (LocalSandbox.findPathMapping_spec hfind).1 with rfl | ⟨mount, hmount, hmapping⟩ |
      rfl | ⟨name, hname, rfl⟩ | rfl | rfl | rfl
    · cases hro
    · exact ⟨mount, hmount, m, hmapping, hro, hin⟩
    · exact absurd (.outer _ _ _ hhanded hfind (.inl rfl)) hchecked
    · rw [threadMapping_names hname] at hin
      exact absurd ⟨name, hname, hin⟩ hown
    · exact absurd (.outer _ _ _ hhanded hfind (.inr rfl)) hchecked
    · cases hro
    · cases hro

/-- A place has a mapping over it when its directory is not the root. -/
theorem over_of_names (hne : resolveParts m.localPath ≠ [])
    (hin : resolveParts m.localPath <+: place) : isAtOrUnder m.root (ofParts place) = true := by
  obtain ⟨rest, rfl⟩ := hin
  exact under_ofParts hne rest

theorem names_of_over (hplace : ∀ name ∈ place, IsName name)
    (hover : isAtOrUnder m.root (ofParts place) = true) : resolveParts m.localPath <+: place := by
  by_cases hne : resolveParts m.localPath = []
  · rw [hne]
    exact nil_prefix
  · exact names_of_under (names_resolveParts _) hne hplace hover

/-- The thread's own files may be written: what is mounted lies over them at most. -/
theorem writable_of_own (houtside : d.MountsOutside) (hown : d.OwnFile place) : d.Writable place := by
  obtain ⟨name, hname, hin⟩ := hown
  refine ⟨_, .inl ⟨name, hname, rfl⟩, hin, fun mount hmount _ hover => ?_⟩
  rcases prefix_or_prefix_of_prefix hover hin with habove | hbelow
  · exact habove.length_le
  · exact absurd hbelow (houtside mount hmount name hname)

/-- The deepest mapping over a place of a mount is not read-only, so it is a mount for writing. -/
theorem deepest_writable (hplace : ∀ name ∈ place, IsName name) (hown : ¬d.OwnFile place)
    (hchecked : ¬d.Unchecked path place) {best : PathMapping} (hbest : best ∈ d.pathMappings)
    (hover : isAtOrUnder best.root (ofParts place) = true) (hro : best.readOnly = false) :
    d.WritableDir (resolveParts best.localPath) := by
  have hin := names_of_over hplace hover
  rcases mapping_cases hbest with rfl | ⟨mount, hmount, hmapping⟩ | rfl | ⟨name, hname, rfl⟩ | rfl |
    rfl | rfl
  · cases hro
  · obtain ⟨hparts, hmountro⟩ := mountMapping_eq hmapping
    exact .inr ⟨mount, hmount, hmountro ▸ hro, hparts⟩
  · rw [parentMapping, resolveParts_path] at hin
    exact absurd (.within (.inl hin)) hchecked
  · rw [threadMapping_names hname] at hin
    exact absurd ⟨name, hname, hin⟩ hown
  · rw [acpMapping, resolveParts_path] at hin
    exact absurd (.within (.inr hin)) hchecked
  · cases hro
  · cases hro

/-- **What is written in a mount may be written there**, where the sandbox tells. -/
theorem writable_of_checked (h : d.writes path = some place) (hown : ¬d.OwnFile place)
    (hchecked : ¬d.Unchecked path place) : d.Writable place := by
  obtain ⟨handed, resolved, hhanded, hresolved, hmapping, hdeep, rfl⟩ := writes_cases h
  have hnames := names_resolveParts resolved.path
  obtain ⟨mount, hmount, m, hm, hmro, hmin⟩ :=
    written_in hhanded hresolved hmapping hown hchecked
  -- a mount that is read-only and over the place has a mapping
  have hkept : ∀ other ∈ d.mounts, other.readOnly = true →
      resolveParts other.hostPath <+: resolveParts resolved.path →
      ∃ m' ∈ d.pathMappings, resolveParts m'.localPath = resolveParts other.hostPath := by
    intro other hother hro hover
    cases hmap : d.mountMapping? other with
    | none => exact absurd (.skipped other hother hro hmap hover) hchecked
    | some m' =>
      exact ⟨m', mem_append_left _ (mem_append_right _ (mem_filterMap.2 ⟨other, hother, hmap⟩)),
        (mountMapping_eq hmap).1⟩
  cases hdeepest : deepestMapping d.pathMappings (ofParts (resolveParts resolved.path)) with
  | none =>
    -- then only the root of the host can be mounted over it
    refine ⟨resolveParts m.localPath,
      .inr ⟨mount, hmount, (mountMapping_eq hm).2 ▸ hmro, (mountMapping_eq hm).1⟩, hmin,
      fun other hother hro hover => ?_⟩
    obtain ⟨m', hm', hparts⟩ := hkept other hother hro hover
    rw [← hparts] at hover ⊢
    by_cases hne : resolveParts m'.localPath = []
    · rw [hne]
      exact Nat.zero_le _
    · obtain ⟨_, -, hsome, -⟩ := deepestMapping_spec hm' (over_of_names hne hover)
      rw [hdeepest] at hsome
      cases hsome
  | some best =>
    rw [hdeepest] at hdeep
    obtain ⟨hbest, hover⟩ := deepestMapping_over hdeepest
    refine ⟨_, deepest_writable hnames hown hchecked hbest hover hdeep, names_of_over hnames hover,
      fun other hother hro hin => ?_⟩
    obtain ⟨m', hm', hparts⟩ := hkept other hother hro hin
    rw [← hparts] at hin ⊢
    by_cases hne : resolveParts m'.localPath = []
    · rw [hne]
      exact Nat.zero_le _
    · obtain ⟨_, -, hdeepest', -, hlen⟩ := deepestMapping_spec hm' (over_of_names hne hin)
      obtain rfl := some.inj (hdeepest.symm.trans hdeepest')
      exact length_le_of_path (names_resolveParts _) hin (names_of_over hnames hover) hlen

end Deployment

/-- All of `/app` is mounted, with the thread's directories in it. -/
def overDeployment : Deployment :=
  { demoDeployment with mounts := [⟨"/app".toList, "/mnt/app".toList, false⟩] }

/-- A mount at a container path that is reserved. -/
def reservedDeployment : Deployment :=
  { demoDeployment with mounts := [⟨"/srv/notes".toList, "/mnt/user-data/notes".toList, false⟩] }

end AfterFlow.Sandbox
