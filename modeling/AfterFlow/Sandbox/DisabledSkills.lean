import AfterFlow.Sandbox.HostFiles
import AfterFlow.Sandbox.ReadTools

/-!
# Disabled skills

A user may disable a skill, and `read_file` and `ls` refuse a path in its directory. They tell by
the text: the first two names after the skills container are the skill's category and its name.
Where the path has slashes or dots there that count for nothing, or backslashes, the text says
another name than the one it leads to. And `grep` asks nobody.

## Main results

* `skills_sealed` — what is not given of a disabled skill, for each tool
-/

namespace AfterFlow.Sandbox

open List Option

inductive SkillCategory where
  | publicSkill
  | customSkill
  | legacySkill
  deriving DecidableEq

/-- The name of a category's directory. -/
def SkillCategory.dirName : SkillCategory → List Char
  | .publicSkill => "public".toList
  | .customSkill => "custom".toList
  | .legacySkill => "legacy".toList

/-- A directory with a `SKILL.md`, as the walk of a category finds it. -/
structure SkillFile where
  /-- Its names from the directory of the category. It may lie in the directory of another skill. -/
  relativePath : List (List Char)
  /-- What `parse_skill_file` reads of it: its name, which is not always the directory's. -/
  name : Option (List Char)
  isName : ∀ name ∈ relativePath, IsName name

structure LoadedSkill where
  category : SkillCategory
  relativePath : List (List Char)
  name : List Char
  isName : ∀ name ∈ relativePath, IsName name

def SkillFile.skill? (category : SkillCategory) (file : SkillFile) : Option LoadedSkill :=
  file.name.map fun name => ⟨category, file.relativePath, name, file.isName⟩

/-- The skills of a user and which of them are enabled. A state that cannot be determined is
missing. -/
structure SkillStates where
  /-- `ExtensionsConfig.is_skill_enabled`, for all users. -/
  configEnabled : List Char → Option Bool
  /-- `get_skill_enabled_state`, of the user. -/
  userEnabled : List Char → Option Bool
  publicFiles : List SkillFile
  userCustomFiles : List SkillFile
  globalCustomFiles : List SkillFile

namespace SkillStates

variable (states : SkillStates)

/-- `_iter_skill_files`, and what is parsed of them. The global skills of before there were users
are for those who have none of their own. -/
def iterSkills : List LoadedSkill :=
  states.publicFiles.filterMap (SkillFile.skill? .publicSkill) ++
    states.userCustomFiles.filterMap (SkillFile.skill? .customSkill) ++
    if states.userCustomFiles = [] then
      states.globalCustomFiles.filterMap (SkillFile.skill? .legacySkill)
    else []

/-- `load_skills`, by name: of the skills of one name the last counts. -/
def loadSkill (name : List Char) : Option LoadedSkill :=
  states.iterSkills.reverse.find? fun skill => skill.name == name

/-- The flag that `load_skills` gives a skill. -/
def enabled (category : SkillCategory) (name : List Char) : Option Bool :=
  match category with
  | .publicSkill => states.configEnabled name
  | .customSkill | .legacySkill =>
    (states.configEnabled name).bind fun config => (states.userEnabled name).map (· && config)

/-- The flag that `_is_disabled_skill_path` asks for. -/
def checked : SkillCategory → List Char → Option Bool
  | .publicSkill => states.configEnabled
  | .customSkill | .legacySkill => states.userEnabled

/-- A skill that is disabled for the user. -/
structure IsDisabled (skill : LoadedSkill) : Prop where
  loaded : states.loadSkill skill.name = some skill
  off : states.enabled skill.category skill.name = some false

end SkillStates

def isCategoryName (name : List Char) : Bool :=
  [SkillCategory.publicSkill, .customSkill, .legacySkill].any fun category => category.dirName == name

/-- What a path has after the skills container. -/
def skillsRelative (s : Settings) (path : List Char) : List Char :=
  lstripSlash (path.drop s.skillsContainer.length)

/-- `_extract_skill_name_from_skills_path`. -/
def extractSkillName (s : Settings) (path : List Char) : Option (List Char) :=
  if isSkillsPath s path then
    if skillsRelative s path = [] then none
    else
      match segments (skillsRelative s path) with
      | first :: second :: _ => if isCategoryName first then some second else some first
      | [first] => if isCategoryName first then none else some first
      | [] => none
  else none

/-- The category that a path is in, or that the skill with its name has. -/
def categoryOf (s : Settings) (states : SkillStates) (path name : List Char) :
    Option SkillCategory :=
  match [SkillCategory.publicSkill, .customSkill, .legacySkill].find? fun category =>
      (category.dirName ++ ['/']).isPrefixOf (skillsRelative s path) with
  | some category => some category
  | none => (states.loadSkill name).map LoadedSkill.category

/-- `_is_disabled_skill_path`. -/
def isDisabledSkillPath (s : Settings) (states : SkillStates) (path : List Char) : Bool :=
  match extractSkillName s path with
  | none => false
  | some name =>
    match categoryOf s states path name with
    | none => false
    | some category => states.checked category name != some true

inductive ReadTool where
  | readFile
  | ls
  | glob
  | grep

namespace Deployment

variable (d : Deployment)

/-- The directory of a skill. -/
def skillDir (skill : LoadedSkill) : List (List Char) :=
  match skill.category with
  | .publicSkill => d.skillsDir.names ++ "public".toList :: skill.relativePath
  | .customSkill => d.userCustomDir.names ++ skill.relativePath
  | .legacySkill => d.skillsDir.names ++ "custom".toList :: skill.relativePath

/-- A place in the directory of a skill that is disabled for the user. -/
def Disabled (states : SkillStates) (place : List (List Char)) : Prop :=
  ∃ skill, states.IsDisabled skill ∧ d.skillDir skill <+: place

/-- The files whose contents or lines a tool may give. `ls` and `glob` give names only. -/
@[grind =] def served (states : SkillStates) (fs : FileTree) (path : List Char) :
    ReadTool → List (List (List Char))
  | .readFile =>
    if isDisabledSkillPath d.settings states path then []
    else
      match (readPath d.settings d.threadData path).bind (hostPlace d.pathMappings) with
      | .ok place => [place]
      | .error _ => []
  | .ls | .glob => []
  | .grep =>
    match (searchPath d.settings d.threadData path).bind (hostPlace d.pathMappings) with
    | .ok place => ((fs.walk place).filter fun e => !e.isDir).map HostEntry.names
    | .error _ => []

/-- The tool gives no contents of a disabled skill. -/
def Sealed (states : SkillStates) (fs : FileTree) (path : List Char) (tool : ReadTool) : Prop :=
  ∀ place ∈ d.served states fs path tool, ¬d.Disabled states place

/-- The names that count in a path of skills. -/
def countedNames (path : List Char) : List (List Char) :=
  (segments (skillsRelative d.settings path)).filter counts

/-- Where these names lead. Only a text that begins with the category of the user's own skills
leads to them. -/
def skillsPlace (path : List Char) : List (List Char) :=
  if isAtOrUnder "custom".toList (skillsRelative d.settings path) then
    d.userCustomDir.names ++ (d.countedNames path).tail
  else d.skillsDir.names ++ d.countedNames path

/-- The text has first the names that count first. -/
def PlainlySpelled (path : List Char) : Prop :=
  (segments (skillsRelative d.settings path)).take 2 = (d.countedNames path).take 2

/-- The second name is that of a skill that the check refuses. -/
def Recognized (states : SkillStates) (path : List Char) (skill : LoadedSkill) : Prop :=
  ∃ name, (d.countedNames path)[1]? = some name ∧ states.checked skill.category name ≠ some true

/-- The skills directories of the host, apart from each other and from all mappings. -/
structure SkillsApart : Prop where
  skills : d.Apart d.skillsDir
  user : d.Apart d.userCustomDir
  not_above : ¬d.userCustomDir.names <+: d.skillsDir.names
  not_below : ¬d.skillsDir.names <+: d.userCustomDir.names
  clean : '\\' ∉ d.skillsDir.path

/-- The paths that `read_file` takes rightly. A path of skills that leads into a disabled skill is
spelled plainly and has the name of one that the check refuses, and another path does not lead
there. -/
def ReadsPlainly (states : SkillStates) (path : List Char) : Prop :=
  if isSkillsPath d.settings path then
    '\\' ∉ path ∧ d.SkillsApart ∧ ∀ skill, states.IsDisabled skill →
      d.skillDir skill <+: d.skillsPlace path → d.PlainlySpelled path ∧ d.Recognized states path skill
  else ∀ place, (readPath d.settings d.threadData path).bind (hostPlace d.pathMappings) = .ok place →
    ¬d.Disabled states place

/-- What is searched is not in a disabled skill, and no disabled skill is in it where the walk
comes. -/
def SearchesApart (states : SkillStates) (path : List Char) : Prop :=
  ∀ root, (searchPath d.settings d.threadData path).bind (hostPlace d.pathMappings) = .ok root →
    ∀ skill, states.IsDisabled skill → ¬d.skillDir skill <+: root ∧
      (root <+: d.skillDir skill →
        ∃ name ∈ (d.skillDir skill).drop root.length, shouldIgnoreName name = true)

end Deployment

/-! ### What the text says -/

variable {d : Deployment} {states : SkillStates} {fs : FileTree} {path r tail : List Char}
  {name : List Char} {place root names : List (List Char)} {category : SkillCategory}
  {skill : LoadedSkill}

theorem eq_of_segments {a b : List Char} {rest : List (List Char)} (h : segments r = a :: b :: rest) :
    ∃ tail, r = a ++ '/' :: tail := by
  have hr : ['/'].intercalate (segments r) = r := intercalate_splitOn '/'
  rw [h, intercalate_cons_of_ne_nil (cons_ne_nil _ _), append_assoc] at hr
  exact ⟨_, hr.symm⟩

theorem categoryOf_eq {s : Settings} (h : skillsRelative s path = category.dirName ++ '/' :: tail) :
    categoryOf s states path name = some category := by
  rw [categoryOf, h]
  cases category <;> rfl

/-- **A path that names a skill first is refused when the check finds the skill not enabled.** -/
theorem isDisabledSkillPath_eq {s : Settings} {rest : List (List Char)}
    (hskills : isSkillsPath s path = true)
    (h : segments (skillsRelative s path) = category.dirName :: name :: rest) :
    isDisabledSkillPath s states path = (states.checked category name != some true) := by
  obtain ⟨tail, htail⟩ := eq_of_segments h
  have hne : skillsRelative s path ≠ [] := by
    rw [htail]
    exact append_ne_nil_of_right_ne_nil _ (cons_ne_nil _ _)
  have hcategory : isCategoryName category.dirName = true := by
    cases category <;> decide
  have hextract : extractSkillName s path = some name := by
    rw [extractSkillName, if_pos hskills, if_neg hne, h]
    exact if_pos hcategory
  rw [isDisabledSkillPath, hextract]
  simp only
  rw [categoryOf_eq htail]

/-- The directory of a category is no skill's. -/
theorem isDisabledSkillPath_root {s : Settings} (hskills : isSkillsPath s path = true)
    (h : segments (skillsRelative s path) = [category.dirName]) :
    isDisabledSkillPath s states path = false := by
  have hcategory : isCategoryName category.dirName = true := by
    cases category <;> decide
  have hextract : extractSkillName s path = none := by
    rw [extractSkillName, if_pos hskills, h]
    split
    · rfl
    · exact if_pos hcategory
  rw [isDisabledSkillPath, hextract]

/-! ### Where a path of skills leads -/

namespace Deployment

theorem names_prefix_cases {a b x : List (List Char)} (h : a <+: b ++ x) : a <+: b ∨ b <+: a :=
  prefix_or_prefix_of_prefix h (prefix_append _ _)

/-- Where `read_file` goes for a path of skills. -/
theorem skills_place (hvalid : validateLocalToolPath d.settings path true = .ok ())
    (hskills : isSkillsPath d.settings path = true) (hexist : d.skillsExist = true)
    (hapart : d.SkillsApart) (hclean : '\\' ∉ path) :
    (readPath d.settings d.threadData path).bind (hostPlace d.pathMappings) =
      .ok (d.skillsPlace path) := by
  have hdots : ['.', '.'] ∉ segments (skillsRelative d.settings path) :=
    no_dots_of_under hskills (no_dots_of_valid hvalid)
  have hrel : '\\' ∉ skillsRelative d.settings path := fun hmem =>
    hclean (mem_of_mem_drop ((dropWhile_sublist _).subset hmem))
  have hhost : d.settings.skillsHost = some d.skillsDir.path := if_pos hexist
  have hhostPlace : ∀ {dir : Dir} {p : List Char}, d.Apart dir → isAtOrUnder dir.path p = true →
      hostPlace d.pathMappings p = .ok (resolveParts p) := fun hdir hp =>
    hostPlace_of_none (findPathMapping_of_apart hdir hp)
  rw [readPath_of_skills hvalid hskills, resolveSkillsPath, hhost, skillsPlace, countedNames]
  simp only
  by_cases hroot : path = d.settings.skillsContainer
  · have hnil : skillsRelative d.settings path = [] := by
      rw [skillsRelative, hroot, drop_length]
      rfl
    rw [if_pos hroot, hnil, if_neg (by decide)]
    refine (hhostPlace hapart.skills (isAtOrUnder_self _)).trans ?_
    rw [resolveParts_path]
    exact congrArg Except.ok (append_nil _).symm
  · rw [if_neg hroot]
    by_cases hcustom : isAtOrUnder "custom".toList (skillsRelative d.settings path) = true
    · have htail : ((segments (skillsRelative d.settings path)).filter counts).tail =
          (segments (lstripSlash ((skillsRelative d.settings path).drop
            "custom".toList.length))).filter counts := by
        rcases isAtOrUnder_iff_exists.1 hcustom with heq | ⟨q, heq⟩
        · rw [heq]
          decide
        · rw [heq, segments_append, filter_append, drop_left, filter_lstrip, segments_cons,
            filter_cons_of_neg (by decide)]
          rfl
      have hsub : ['.', '.'] ∉ segments (lstripSlash ((skillsRelative d.settings path).drop
          "custom".toList.length)) := no_dots_of_under hcustom hdots
      obtain ⟨hin, hparts⟩ := joined_place d.userCustomDir hsub
      rw [if_pos hcustom, htail, ← hparts]
      exact (congrArg (fun p => (Except.bind p (hostPlace d.pathMappings))) (if_pos hcustom)).trans
        (hhostPlace hapart.user hin)
    · rw [if_neg hcustom, ← resolveParts_joinPreserving d.skillsDir hapart.clean hrel (lstrip_head _)
        hdots]
      exact (congrArg (fun p => (Except.bind p (hostPlace d.pathMappings))) (if_neg hcustom)).trans
        (hhostPlace hapart.skills (under_joinPreserving hapart.clean hrel (lstrip_head _)).1)

/-- What the text and the place have of a skill that a path leads into. -/
theorem leads_into (hapart : d.SkillsApart) (hleads : d.skillDir skill <+: d.skillsPlace path) :
    (skill.category = .legacySkill ∧
        isAtOrUnder "custom".toList (skillsRelative d.settings path) = false ∧
        "custom".toList :: skill.relativePath <+: d.countedNames path) ∨
      (skill.category ≠ .legacySkill ∧
        skill.category.dirName :: skill.relativePath <+: d.countedNames path) := by
  obtain ⟨category, relativePath, name, isName⟩ := skill
  rw [skillsPlace] at hleads
  split at hleads
  · -- the user's own skills
    rename_i hcustom
    have houtside : ∀ names, ¬d.skillsDir.names ++ names <+:
        d.userCustomDir.names ++ (d.countedNames path).tail := fun names h =>
      (names_prefix_cases ((prefix_append _ _).trans h)).elim hapart.not_below hapart.not_above
    cases category with
    | publicSkill | legacySkill => exact absurd hleads (houtside _)
    | customSkill =>
      refine .inr ⟨nofun, ?_⟩
      have htail : relativePath <+: (d.countedNames path).tail :=
        (prefix_append_right_inj _).1 hleads
      rcases isAtOrUnder_iff_exists.1 hcustom with heq | ⟨q, heq⟩
      · have hcounted : d.countedNames path = ["custom".toList] := by
          rw [countedNames, heq]
          decide
        rw [hcounted] at htail ⊢
        exact cons_prefix_cons.2 ⟨rfl, htail⟩
      · have hcounted : d.countedNames path = "custom".toList :: (segments q).filter counts := by
          rw [countedNames, heq, segments_append, filter_append]
          rfl
        rw [hcounted] at htail ⊢
        exact cons_prefix_cons.2 ⟨rfl, htail⟩
  · rename_i hcustom
    cases category with
    | publicSkill => exact .inr ⟨nofun, (prefix_append_right_inj _).1 hleads⟩
    | customSkill =>
      exact ((names_prefix_cases ((prefix_append _ _).trans hleads)).elim hapart.not_above
        hapart.not_below).elim
    | legacySkill =>
      exact .inl ⟨rfl, Bool.eq_false_iff.2 hcustom, (prefix_append_right_inj _).1 hleads⟩

/-- A text that is spelled plainly and begins with the user's own skills leads to them. -/
theorem custom_of_plain (hplain : d.PlainlySpelled path) {rest : List (List Char)}
    (h : "custom".toList :: rest <+: d.countedNames path) :
    isAtOrUnder "custom".toList (skillsRelative d.settings path) = true := by
  obtain ⟨more, hmore⟩ := h
  rw [PlainlySpelled, ← hmore] at hplain
  have hpath : ['/'].intercalate (segments (skillsRelative d.settings path)) =
      skillsRelative d.settings path := intercalate_splitOn '/'
  cases hsegs : segments (skillsRelative d.settings path) with
  | nil =>
    rw [hsegs] at hplain
    cases hplain
  | cons a segs =>
    rw [hsegs] at hplain hpath
    obtain ⟨rfl, -⟩ := List.cons.inj hplain
    cases segs with
    | nil => exact isAtOrUnder_iff_exists.2 (.inl hpath.symm)
    | cons b segs =>
      obtain ⟨tail, htail⟩ := eq_of_segments hsegs
      exact isAtOrUnder_iff_exists.2 (.inr ⟨tail, htail⟩)

/-- **A path that is spelled plainly and leads into a skill is refused when the check does not find
its second name enabled.** -/
theorem isDisabledSkillPath_iff (hskills : isSkillsPath d.settings path = true)
    (hapart : d.SkillsApart) (hplain : d.PlainlySpelled path)
    (hleads : d.skillDir skill <+: d.skillsPlace path) :
    isDisabledSkillPath d.settings states path = true ↔ d.Recognized states path skill := by
  obtain ⟨-, hcustom, hnames⟩ | ⟨-, more, hmore⟩ := leads_into hapart hleads
  · rw [custom_of_plain hplain hnames] at hcustom
    cases hcustom
  rw [PlainlySpelled] at hplain
  rw [Recognized]
  cases hsegs : segments (skillsRelative d.settings path) with
  | nil =>
    rw [hsegs, ← hmore] at hplain
    cases hplain
  | cons a segs =>
    cases hcounted : d.countedNames path with
    | nil =>
      rw [hcounted] at hmore
      cases hmore
    | cons first counted =>
      obtain rfl : skill.category.dirName = first := by
        rw [hcounted] at hmore
        exact (List.cons.inj hmore).1
      rw [hsegs, hcounted] at hplain
      obtain ⟨rfl, hrest⟩ := List.cons.inj hplain
      cases segs with
      | nil =>
        -- the directory of the category itself
        cases counted with
        | nil =>
          rw [isDisabledSkillPath_root hskills hsegs]
          exact ⟨nofun, fun ⟨_, hname, _⟩ => nomatch hname⟩
        | cons b counted => cases hrest
      | cons b segs =>
        cases counted with
        | nil => cases hrest
        | cons second counted =>
          obtain rfl := (List.cons.inj hrest).1
          rw [isDisabledSkillPath_eq hskills hsegs, bne_iff_ne]
          exact ⟨fun h => ⟨_, rfl, h⟩, fun ⟨_, hname, h⟩ => Option.some.inj hname ▸ h⟩

theorem validate_of_read (h : (readPath d.settings d.threadData path).bind
    (hostPlace d.pathMappings) = .ok place) : validateLocalToolPath d.settings path true = .ok () := by
  cases hvalid : validateLocalToolPath d.settings path true with
  | ok _ => rfl
  | error e =>
    rw [readPath, hvalid] at h
    cases h

theorem skillsExist_of_read (hskills : isSkillsPath d.settings path = true)
    (h : (readPath d.settings d.threadData path).bind (hostPlace d.pathMappings) = .ok place) :
    d.skillsExist = true := by
  by_contra hnone
  rw [readPath_of_skills (validate_of_read h) hskills, resolveSkillsPath,
    show d.settings.skillsHost = none from if_neg hnone] at h
  cases h

theorem mem_served_readFile : place ∈ d.served states fs path .readFile ↔
    isDisabledSkillPath d.settings states path = false ∧
      (readPath d.settings d.threadData path).bind (hostPlace d.pathMappings) = .ok place := by
  rw [served]
  split
  · rename_i hrefused
    rw [hrefused]
    exact ⟨nofun, fun ⟨h, _⟩ => nomatch h⟩
  · rename_i hallowed
    rw [Bool.not_eq_true] at hallowed
    split
    · rename_i place' hplace
      rw [mem_singleton, hplace]
      exact ⟨fun h => ⟨hallowed, h ▸ rfl⟩, fun ⟨_, h⟩ => (Except.ok.inj h).symm⟩
    · rename_i e herror
      rw [herror]
      exact ⟨nofun, fun ⟨_, h⟩ => nomatch h⟩

/-- What `read_file` reads is not in a disabled skill. -/
theorem read_sealed (h : d.ReadsPlainly states path) : d.Sealed states fs path .readFile := by
  rintro place hmem ⟨skill, hdisabled, hin⟩
  obtain ⟨hallowed, hplace⟩ := mem_served_readFile.1 hmem
  rw [ReadsPlainly] at h
  split at h
  · rename_i hskills
    obtain ⟨hclean, hapart, hread⟩ := h
    rw [skills_place (validate_of_read hplace) hskills (skillsExist_of_read hskills hplace) hapart
      hclean] at hplace
    obtain rfl := Except.ok.inj hplace
    obtain ⟨hplain, hrecognized⟩ := hread skill hdisabled hin
    rw [(isDisabledSkillPath_iff hskills hapart hplain hin).2 hrecognized] at hallowed
    cases hallowed
  · exact h place hplace ⟨skill, hdisabled, hin⟩

/-- **Of the paths that are spelled plainly exactly these are sealed.** -/
theorem read_sealed_iff (hvalid : validateLocalToolPath d.settings path true = .ok ())
    (hskills : isSkillsPath d.settings path = true) (hexist : d.skillsExist = true)
    (hclean : '\\' ∉ path) (hapart : d.SkillsApart) (hplain : d.PlainlySpelled path) :
    d.Sealed states fs path .readFile ↔ ∀ skill, states.IsDisabled skill →
      d.skillDir skill <+: d.skillsPlace path → d.Recognized states path skill := by
  refine ⟨fun h skill hdisabled hleads => ?_, fun h => read_sealed ?_⟩
  · rw [← isDisabledSkillPath_iff hskills hapart hplain hleads]
    by_contra hallowed
    exact h _ (mem_served_readFile.2 ⟨Bool.not_eq_true _ ▸ hallowed,
      skills_place hvalid hskills hexist hapart hclean⟩) ⟨skill, hdisabled, hleads⟩
  · rw [ReadsPlainly, if_pos hskills]
    exact ⟨hclean, hapart, fun skill hdisabled hleads => ⟨hplain, h skill hdisabled hleads⟩⟩

end Deployment

/-! ### What is searched -/

theorem FileTree.way_of_walk {e : HostEntry} (h : e ∈ fs.walk root) :
    ∀ name ∈ e.names.drop root.length, shouldIgnoreName name = false := by
  rw [FileTree.walk] at h
  split at h
  · have hcond := (mem_filter.1 h).2
    rw [Bool.and_eq_true, List.all_eq_true] at hcond
    intro name hname
    have hkept := hcond.2 name hname
    rwa [Bool.not_eq_true'] at hkept
  · cases h

/-- The tree of one file. -/
def FileTree.single (names : List (List Char)) (hnames : ∀ name ∈ names, IsName name) : FileTree where
  entries := (List.range names.length).map fun k => ⟨names.take (k + 1), k + 1 != names.length⟩
  isName := by
    intro e he name hname
    obtain ⟨k, -, rfl⟩ := mem_map.1 he
    exact hnames name (mem_of_mem_take hname)
  ne_root := by
    intro e he
    obtain ⟨k, hk, rfl⟩ := mem_map.1 he
    exact fun h => by simp_all
  nodup := by
    rw [List.map_map]
    refine (nodup_map_iff_inj_on nodup_range).2 fun k hk l hl h => ?_
    have hlength := congrArg length h
    simp only [Function.comp_apply, length_take, mem_range] at hlength hk hl
    omega
  parents := by
    intro e he hne
    obtain ⟨k, hk, rfl⟩ := mem_map.1 he
    rw [mem_range] at hk
    have hdrop : (names.take (k + 1)).dropLast = names.take k := by
      rw [dropLast_eq_take, length_take, take_take]
      congr 1
      omega
    rw [hdrop] at hne ⊢
    cases k with
    | zero => exact absurd rfl hne
    | succ k =>
      refine mem_map.2 ⟨k, mem_range.2 (by omega), ?_⟩
      rw [HostEntry.mk.injEq]
      exact ⟨rfl, bne_iff_ne.2 (by omega)⟩

/-- A walk comes to the one file when no name on the way is ignored. -/
theorem FileTree.mem_walk_single (hnames : ∀ name ∈ names, IsName name) (hunder : root <+: names)
    (hbelow : root.length < names.length)
    (hway : ∀ name ∈ names.drop root.length, shouldIgnoreName name = false) :
    ⟨names, false⟩ ∈ (FileTree.single names hnames).walk root := by
  have hroot : (FileTree.single names hnames).isDir root = true := by
    rw [FileTree.isDir, Bool.or_eq_true, beq_iff_eq, contains_iff_mem]
    cases hlength : root.length with
    | zero => exact .inl (length_eq_zero_iff.1 hlength)
    | succ k =>
      refine .inr (mem_map.2 ⟨k, mem_range.2 (by omega), ?_⟩)
      rw [HostEntry.mk.injEq, ← hlength, ← prefix_iff_eq_take.1 hunder]
      exact ⟨rfl, bne_iff_ne.2 (by omega)⟩
  rw [FileTree.walk, if_pos hroot, mem_filter]
  refine ⟨mem_map.2 ⟨names.length - 1, mem_range.2 (by omega), ?_⟩, ?_⟩
  · rw [HostEntry.mk.injEq, show names.length - 1 + 1 = names.length by omega, take_length]
    exact ⟨rfl, by rw [bne_self_eq_false]⟩
  · rw [Bool.and_eq_true, Bool.and_eq_true, isPrefixOf_iff_prefix, decide_eq_true_eq, List.all_eq_true]
    exact ⟨⟨hunder, hbelow⟩, fun name hname => by rw [hway name hname]; rfl⟩

namespace Deployment

theorem names_of_place {handed : Except ToolError (List Char)} {mappings : List PathMapping}
    (h : handed.bind (hostPlace mappings) = .ok root) : ∀ name ∈ root, IsName name := by
  cases handed with
  | error e => cases h
  | ok p =>
    change hostPlace mappings p = .ok root at h
    rw [hostPlace] at h
    split at h
    · obtain rfl := Except.ok.inj h
      exact names_resolveParts _
    · cases h

theorem skillDir_isName (d : Deployment) (skill : LoadedSkill) :
    ∀ name ∈ d.skillDir skill, IsName name := by
  have hroot : ∀ category : List Char, IsName category →
      ∀ name ∈ d.skillsDir.names ++ category :: skill.relativePath, IsName name := by
    intro category hcategory name hname
    rcases mem_append.1 hname with h | h
    · exact d.skillsDir.isName name h
    · rcases mem_cons.1 h with rfl | h
      · exact hcategory
      · exact skill.isName name h
  rw [skillDir]
  split
  · exact hroot _ (by decide)
  · intro name hname
    exact (mem_append.1 hname).elim (d.userCustomDir.isName name) (skill.isName name)
  · exact hroot _ (by decide)

theorem mem_served_grep
    (hroot : (searchPath d.settings d.threadData path).bind (hostPlace d.pathMappings) = .ok root) :
    place ∈ d.served states fs path .grep ↔ ⟨place, false⟩ ∈ fs.walk root := by
  rw [served, hroot]
  simp only [List.mem_map, mem_filter, Bool.not_eq_true']
  refine ⟨fun ⟨e, ⟨he, hfile⟩, hplace⟩ => ?_, fun h => ⟨_, ⟨h, rfl⟩, rfl⟩⟩
  rw [← hplace, ← hfile]
  exact he

/-- **A search is sealed, whatever files there are, exactly when it is apart from the disabled
skills.** -/
theorem search_sealed_iff :
    (∀ fs, d.Sealed states fs path .grep) ↔ d.SearchesApart states path := by
  constructor
  · intro h root hroot skill hdisabled
    have hfound : ∀ names, (∀ name ∈ names, IsName name) → root <+: names →
        root.length < names.length → d.skillDir skill <+: names →
        ¬∀ name ∈ names.drop root.length, shouldIgnoreName name = false :=
      fun names hnames hunder hbelow hin hway => h (FileTree.single names hnames) names
        ((mem_served_grep hroot).2 (FileTree.mem_walk_single hnames hunder hbelow hway))
        ⟨skill, hdisabled, hin⟩
    constructor
    · -- any file there
      intro hin
      have hnames : ∀ name ∈ root ++ ["SKILL.md".toList], IsName name := by
        intro name hname
        rcases mem_append.1 hname with hname | hname
        · exact names_of_place hroot name hname
        · rw [mem_singleton.1 hname]
          decide
      refine hfound _ hnames (prefix_append _ _) (by simp) (hin.trans (prefix_append _ _)) ?_
      rw [drop_left]
      decide
    · -- the skill's own file
      intro hunder
      by_contra hway
      push Not at hway
      have hnames : ∀ name ∈ d.skillDir skill ++ ["SKILL.md".toList], IsName name := by
        intro name hname
        rcases mem_append.1 hname with hname | hname
        · exact d.skillDir_isName skill name hname
        · rw [mem_singleton.1 hname]
          decide
      have hlength := hunder.length_le
      refine hfound _ hnames (hunder.trans (prefix_append _ _)) ?_ (prefix_append _ _) ?_
      · rw [length_append, length_singleton]
        omega
      · intro name hname
        rw [drop_append_of_le_length hlength] at hname
        rcases mem_append.1 hname with hname | hname
        · exact Bool.eq_false_iff.2 (hway name hname)
        · rw [mem_singleton.1 hname]
          decide
  · rintro h fs place hmem ⟨skill, hdisabled, hin⟩
    cases hroot : (searchPath d.settings d.threadData path).bind (hostPlace d.pathMappings) with
    | error e =>
      rw [served, hroot] at hmem
      cases hmem
    | ok root =>
      have hwalk := (mem_served_grep hroot).1 hmem
      obtain ⟨-, hbelow, -⟩ := FileTree.mem_walk hwalk
      obtain ⟨hnotin, hnotabove⟩ := h root hroot skill hdisabled
      rcases prefix_or_prefix_of_prefix hin hbelow with habove | hunder
      · exact hnotin habove
      · obtain ⟨name, hname, hignored⟩ := hnotabove hunder
        have hway := FileTree.way_of_walk hwalk name
          ((hin.drop root.length).subset hname)
        rw [hignored] at hway
        cases hway

end Deployment

/-- **None of a disabled skill's contents are given** by `ls` and `glob`; nor by `read_file`, where
the path that leads into the skill is spelled plainly and names what its check refuses; nor by `grep`,
exactly where the search is apart from the skill. -/
theorem skills_sealed (d : Deployment) (states : SkillStates) (path : List Char) :
    (∀ fs, d.Sealed states fs path .ls ∧ d.Sealed states fs path .glob) ∧
      (d.ReadsPlainly states path → ∀ fs, d.Sealed states fs path .readFile) ∧
      (validateLocalToolPath d.settings path true = .ok () → isSkillsPath d.settings path = true →
        d.skillsExist = true → '\\' ∉ path → d.SkillsApart → d.PlainlySpelled path → ∀ fs,
          (d.Sealed states fs path .readFile ↔ ∀ skill, states.IsDisabled skill →
            d.skillDir skill <+: d.skillsPlace path → d.Recognized states path skill)) ∧
      ((∀ fs, d.Sealed states fs path .grep) ↔ d.SearchesApart states path) :=
  ⟨fun _ => ⟨nofun, nofun⟩, fun h _ => Deployment.read_sealed h,
    fun hvalid hskills hexist hclean hapart hplain _ =>
      Deployment.read_sealed_iff hvalid hskills hexist hclean hapart hplain,
    Deployment.search_sealed_iff⟩

/-! ### What is given all the same -/

/-- The public skill `tea` is disabled, and `jam` is not. -/
def demoStates : SkillStates where
  configEnabled := fun name => some (name != "tea".toList)
  userEnabled := fun _ => some true
  publicFiles := [⟨["jam".toList], some "jam".toList, by decide +kernel⟩,
    ⟨["tea".toList], some "tea".toList, by decide +kernel⟩]
  userCustomFiles := []
  globalCustomFiles := []

def demoSkills : FileTree where
  entries := [⟨["app".toList], true⟩, ⟨["app".toList, "skills".toList], true⟩,
    ⟨["app".toList, "skills".toList, "public".toList], true⟩,
    ⟨["app".toList, "skills".toList, "public".toList, "tea".toList], true⟩,
    ⟨["app".toList, "skills".toList, "public".toList, "tea".toList, "SKILL.md".toList], false⟩]
  isName := by decide +kernel
  ne_root := by decide +kernel
  nodup := by decide +kernel
  parents := by decide +kernel

theorem demoDeployment_apart : demoDeployment.SkillsApart where
  skills := by decide +kernel
  user := by decide +kernel
  not_above := by decide +kernel
  not_below := by decide +kernel
  clean := by decide +kernel

def demoTea : LoadedSkill := ⟨.publicSkill, ["tea".toList], "tea".toList, by decide +kernel⟩

theorem demoTea_isDisabled : demoStates.IsDisabled demoTea := ⟨rfl, rfl⟩

theorem eq_demoTea (h : demoStates.IsDisabled skill) : skill = demoTea := by
  have hmem := mem_of_find?_eq_some h.loaded
  have hoff := h.off
  rw [mem_reverse, show demoStates.iterSkills =
    [⟨.publicSkill, ["jam".toList], "jam".toList, by decide +kernel⟩, demoTea] from rfl, mem_cons,
    mem_singleton] at hmem
  rcases hmem with rfl | rfl
  · exact absurd hoff (by decide +kernel)
  · rfl

/-- The text of a disabled skill is refused, and beside it is searched. -/
theorem skills_sealed_demo :
    (∀ fs, demoDeployment.Sealed demoStates fs "/mnt/skills/public/tea/SKILL.md".toList .readFile) ∧
      ∀ fs, demoDeployment.Sealed demoStates fs "/mnt/skills/public/jam".toList .grep := by
  constructor
  · refine (skills_sealed demoDeployment demoStates _).2.1 ?_
    exact (if_pos (by decide +kernel)).mpr ⟨by decide +kernel, demoDeployment_apart,
      fun skill hskill _ => ⟨by rw [Deployment.PlainlySpelled]; decide +kernel, "tea".toList,
        by decide +kernel, eq_demoTea hskill ▸ (by decide +kernel)⟩⟩
  · refine (skills_sealed demoDeployment demoStates _).2.2.2.2 fun root hroot skill hskill => ?_
    obtain rfl := eq_demoTea hskill
    have hjam : (searchPath demoDeployment.settings demoDeployment.threadData
        "/mnt/skills/public/jam".toList).bind (hostPlace demoDeployment.pathMappings) =
        .ok ["app".toList, "skills".toList, "public".toList, "jam".toList] := by
      decide +kernel
    obtain rfl := Except.ok.inj (hjam.symm.trans hroot)
    exact ⟨by decide +kernel, fun hunder => absurd hunder (by decide +kernel)⟩

/-- **`grep` searches a disabled skill.** -/
theorem grep_unchecked : ¬∀ (d : Deployment) (states : SkillStates) (fs : FileTree)
    (path : List Char) (tool : ReadTool), d.Sealed states fs path tool := by
  intro h
  refine h demoDeployment demoStates demoSkills "/mnt/skills/public".toList .grep
    ["app".toList, "skills".toList, "public".toList, "tea".toList, "SKILL.md".toList] (by decide +kernel)
    ⟨demoTea, demoTea_isDisabled, by decide +kernel⟩

end AfterFlow.Sandbox
