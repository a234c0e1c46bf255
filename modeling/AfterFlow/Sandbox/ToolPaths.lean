import AfterFlow.Sandbox.Paths
import Mathlib.Data.List.Sort

/-!
# The paths of the file tools

A sandbox has path mappings. A path of the container is resolved by the mapping with the longest
container path that it is at or under, and must not leave the directory of that mapping. A path of
the host is given back by the mapping with the longest local path.

Each file tool takes a virtual path, refuses it or not, and hands a path to the sandbox: the host
path of a file in the thread's directories, and for custom mounts the path as it came. For skills
and the ACP workspace the tools differ in who makes the host path.
-/

/-! ### The mappings of a sandbox -/

namespace AfterFlow.Sandbox

structure PathMapping where
  containerPath : List Char
  localPath : List Char
  readOnly : Bool
  deriving DecidableEq

/-- `mapping.container_path.rstrip("/") or "/"`. -/
def PathMapping.container (m : PathMapping) : List Char :=
  let container := rstripSlash m.containerPath
  if container = [] then ['/'] else container

/-- `_resolved_local_paths[mapping]`. -/
def PathMapping.root (m : PathMapping) : List Char := resolve m.localPath

/-- The path relative to the mapping's container path, if it is at or under it. -/
def PathMapping.relative? (m : PathMapping) (path : List Char) : Option (List Char) :=
  if m.container = ['/'] then
    if path.head? = some '/' then some (lstripSlash path) else none
  else if isAtOrUnder m.container path then some (lstripSlash (path.drop m.container.length))
  else none

/-- `_mappings_by_container_specificity`. -/
def byContainerSpecificity (mappings : List PathMapping) : List PathMapping :=
  mappings.insertionSort fun m m' => m'.container.length ≤ m.container.length

/-- `_mappings_by_local_specificity`. -/
def byLocalSpecificity (mappings : List PathMapping) : List PathMapping :=
  mappings.insertionSort fun m m' => m'.localPath.length ≤ m.localPath.length

/-- `_find_path_mapping`. -/
def findPathMapping (mappings : List PathMapping) (path : List Char) :
    Option (PathMapping × List Char) :=
  (byContainerSpecificity mappings).findSome? fun m => (m.relative? path).map fun rel => (m, rel)

structure ResolvedPath where
  path : List Char
  mapping : Option PathMapping
  deriving DecidableEq

inductive PathError where
  /-- "Access denied: path escapes mounted directory". -/
  | escapes
  deriving DecidableEq

/-- `_resolve_path_with_mapping`. -/
def resolvePathWithMapping (mappings : List PathMapping) (path : List Char) :
    Except PathError ResolvedPath :=
  match findPathMapping mappings path with
  | none => .ok ⟨path, none⟩
  | some (mapping, relative) =>
    let resolvedPath :=
      if relative = [] then mapping.root else resolve (mapping.root ++ '/' :: relative)
    if resolveParts mapping.root <+: resolveParts resolvedPath then
      .ok ⟨resolvedPath, some mapping⟩
    else .error .escapes

/-- `_resolve_path`. -/
def resolvePath (mappings : List PathMapping) (path : List Char) : Except PathError (List Char) :=
  (resolvePathWithMapping mappings path).map ResolvedPath.path

/-- The most specific of the mappings that the path is under, and the length of its root. -/
def deepestMapping (mappings : List PathMapping) (resolved : List Char) : Option PathMapping :=
  mappings.foldl (fun best m =>
    if isAtOrUnder m.root resolved && best.all (fun b => b.root.length < m.root.length) then some m
    else best) none

/-- `_is_read_only_path`. -/
def isReadOnlyPath (mappings : List PathMapping) (resolvedPath : List Char) : Bool :=
  (deepestMapping mappings (resolve resolvedPath)).any PathMapping.readOnly

/-- `_is_resolved_path_read_only`. -/
def isResolvedPathReadOnly (mappings : List PathMapping) (resolved : ResolvedPath) : Bool :=
  resolved.mapping.any PathMapping.readOnly || isReadOnlyPath mappings resolved.path

/-- The container path that a mapping gives to a path of the host. -/
def PathMapping.reverse? (m : PathMapping) (path : List Char) : Option (List Char) :=
  if isAtOrUnder m.root path then
    let relative := lstripSlash (path.drop m.root.length)
    some (if relative = [] then m.containerPath else m.containerPath ++ '/' :: relative)
  else none

/-- `_reverse_resolve_path`. -/
def reverseResolvePath (mappings : List PathMapping) (path : List Char) : List Char :=
  let path := resolve (path.map fun c => if c = '\\' then '/' else c)
  ((byLocalSpecificity mappings).findSome? fun m => m.reverse? path).getD path

end AfterFlow.Sandbox

/-! ### The tools -/

namespace AfterFlow.Sandbox

structure Mount where
  hostPath : List Char
  containerPath : List Char
  readOnly : Bool
  deriving DecidableEq

/-- The host directories of a thread. -/
structure ThreadData where
  workspacePath : List Char
  uploadsPath : List Char
  outputsPath : List Char
  deriving DecidableEq

/-- What the tools read from the configuration, for the effective user and the thread. -/
structure Settings where
  skillsContainer : List Char
  /-- The skills directory of the host, if there is one. -/
  skillsHost : Option (List Char)
  /-- The user's own directory of custom skills. -/
  userCustomDir : List Char
  /-- The thread's ACP workspace, if there is one. -/
  acpHost : Option (List Char)
  /-- The custom mounts with a host path that exists. -/
  mounts : List Mount

inductive ToolError where
  | permission
  | notFound
  deriving DecidableEq

def virtualPathPrefix : List Char := "/mnt/user-data".toList

def acpWorkspaceVirtualPath : List Char := "/mnt/acp-workspace".toList

/-! ### Kinds of paths -/

/-- `_is_skills_path`. -/
def isSkillsPath (s : Settings) (path : List Char) : Bool := isAtOrUnder s.skillsContainer path

/-- `_is_acp_workspace_path`. -/
def isAcpWorkspacePath (path : List Char) : Bool := isAtOrUnder acpWorkspaceVirtualPath path

/-- `_is_custom_mount_path`. -/
def isCustomMountPath (s : Settings) (path : List Char) : Bool :=
  s.mounts.any fun m => isAtOrUnder m.containerPath path

/-- `_get_custom_mount_for_path`. -/
def customMountForPath (s : Settings) (path : List Char) : Option Mount :=
  s.mounts.foldl (fun best m =>
    if isAtOrUnder m.containerPath path &&
      best.all (fun b => b.containerPath.length < m.containerPath.length) then some m
    else best) none

def toForwardSlash (c : Char) : Char := if c = '\\' then '/' else c

/-- Whether `_reject_path_traversal` raises. -/
def hasTraversal (path : List Char) : Bool :=
  (segments (path.map toForwardSlash)).contains ['.', '.']

/-- `validate_local_tool_path`, with thread data. -/
def validateLocalToolPath (s : Settings) (path : List Char) (readOnly : Bool) :
    Except ToolError Unit :=
  if hasTraversal path then .error .permission
  else if isSkillsPath s path then if readOnly then .ok () else .error .permission
  else if isAcpWorkspacePath path then if readOnly then .ok () else .error .permission
  else if (virtualPathPrefix ++ ['/']).isPrefixOf path then .ok ()
  else if isCustomMountPath s path then
    if (customMountForPath s path).any Mount.readOnly && !readOnly then .error .permission else .ok ()
  else .error .permission

/-! ### Host paths -/

/-- The names of `Path(path)`, which is not resolved. -/
def pathParts (path : List Char) : List (List Char) := (segments path).filter counts

/-- `str(Path(path).parent)`. -/
def parentPath (path : List Char) : List Char := ofParts (pathParts path).dropLast

/-- `_thread_virtual_to_actual_mappings`, sorted by the length of the virtual paths, longest
first. -/
def threadMappings (td : ThreadData) : List (List Char × List Char) :=
  let dirs := [("/workspace", td.workspacePath), ("/uploads", td.uploadsPath),
    ("/outputs", td.outputsPath)].map fun (name, dir) => (virtualPathPrefix ++ name.toList, dir)
  let commonParent := parentPath td.workspacePath
  if parentPath td.uploadsPath = commonParent ∧ parentPath td.outputsPath = commonParent then
    dirs ++ [(virtualPathPrefix, commonParent)]
  else dirs

/-- The host path that one of the mappings gives. -/
def replaceBase (path : List Char) (virtualBase actualBase : List Char) : Option (List Char) :=
  if path = virtualBase then some actualBase
  else if (virtualBase ++ ['/']).isPrefixOf path then
    let rest := lstripSlash (path.drop virtualBase.length)
    let result := joinPathPreservingStyle actualBase rest
    some (if path.getLast? = some '/' ∧ ¬result.getLast?.any isSeparator then
      result ++ [pathSeparatorForStyle actualBase] else result)
  else none

/-- `replace_virtual_path`. -/
def replaceVirtualPath (path : List Char) (td : ThreadData) : List Char :=
  ((threadMappings td).findSome? fun (virtualBase, actualBase) =>
    replaceBase path virtualBase actualBase).getD path

/-- `_validate_resolved_user_data_path`. -/
def isInThreadDirs (td : ThreadData) (resolved : List Char) : Bool :=
  [td.workspacePath, td.uploadsPath, td.outputsPath].any fun root =>
    (resolveParts root).isPrefixOf (resolveParts resolved)

/-- `_resolve_and_validate_user_data_path`. -/
def resolveAndValidateUserDataPath (path : List Char) (td : ThreadData) :
    Except ToolError (List Char) :=
  let resolved := resolve (replaceVirtualPath path td)
  if isInThreadDirs td resolved then .ok resolved else .error .permission

/-- `Path(directory) / relative`, of a relative path. -/
def joinPath (directory relative : List Char) : List Char :=
  ofParts (pathParts directory ++ pathParts relative)

/-- `_resolve_skills_path`. -/
def resolveSkillsPath (s : Settings) (path : List Char) : Except ToolError (List Char) :=
  match s.skillsHost with
  | none => .error .notFound
  | some skillsHost =>
    if path = s.skillsContainer then .ok skillsHost
    else
      let relative := lstripSlash (path.drop s.skillsContainer.length)
      if isAtOrUnder "custom".toList relative then
        let customRelative := lstripSlash (relative.drop "custom".toList.length)
        .ok (if customRelative = [] then s.userCustomDir else joinPath s.userCustomDir customRelative)
      else .ok (joinPathPreservingStyle skillsHost relative)

/-- `posixpath.commonpath([base, candidate]) == base`, of normalised paths. -/
def isCommonPath (base candidate : List Char) : Bool :=
  (pathParts base).isPrefixOf (pathParts candidate) && decide (base = ofParts (pathParts base))

/-- `_resolve_acp_workspace_path`. -/
def resolveAcpWorkspacePath (s : Settings) (path : List Char) : Except ToolError (List Char) :=
  if hasTraversal path then .error .permission
  else
    match s.acpHost with
    | none => .error .notFound
    | some hostPath =>
      if path = acpWorkspaceVirtualPath then .ok hostPath
      else
        let relative := lstripSlash (path.drop acpWorkspaceVirtualPath.length)
        let resolved := joinPathPreservingStyle hostPath relative
        if hostPath.contains '/' && !hostPath.contains '\\' then
          if isCommonPath (normpath hostPath) (normpath resolved) then .ok resolved
          else .error .permission
        else if (resolveParts hostPath).isPrefixOf (resolveParts resolved) then
          .ok (resolve resolved)
        else .error .permission

theorem pathParts_ofParts {parts : List (List Char)} (hparts : ∀ part ∈ parts, '/' ∉ part)
    (hcounts : ∀ part ∈ parts, counts part = true) : pathParts (ofParts parts) = parts := by
  rw [pathParts, ofParts, segments_cons, List.filter_cons_of_neg (by decide)]
  by_cases hne : parts = []
  · subst hne
    rfl
  · rw [segments, List.splitOn_intercalate '/' hparts hne]
    exact List.filter_eq_self.2 hcounts

/-! ### What the tools hand to the sandbox -/

/-- The path of `write_file` and `str_replace`. -/
def writePath (s : Settings) (td : ThreadData) (path : List Char) : Except ToolError (List Char) := do
  validateLocalToolPath s path false
  if isCustomMountPath s path then return path else resolveAndValidateUserDataPath path td

/-- The path of `read_current_file_content`. -/
def readPath (s : Settings) (td : ThreadData) (path : List Char) : Except ToolError (List Char) := do
  validateLocalToolPath s path true
  if isSkillsPath s path then resolveSkillsPath s path
  else if isAcpWorkspacePath path then resolveAcpWorkspacePath s path
  else if isCustomMountPath s path then return path
  else resolveAndValidateUserDataPath path td

/-- The path of `ls`. -/
def lsPath (s : Settings) (td : ThreadData) (path : List Char) : Except ToolError (List Char) := do
  validateLocalToolPath s path true
  if isSkillsPath s path || isAcpWorkspacePath path then return path
  else if isCustomMountPath s path then return path
  else resolveAndValidateUserDataPath path td

/-- `_resolve_local_read_path`, the path of `glob` and `grep`. -/
def searchPath (s : Settings) (td : ThreadData) (path : List Char) :
    Except ToolError (List Char) := do
  validateLocalToolPath s path true
  if isSkillsPath s path || isAcpWorkspacePath path then return path
  else resolveAndValidateUserDataPath path td

/-- The place on the host that the sandbox finds for a path of a tool. -/
def hostPlace (mappings : List PathMapping) (path : List Char) : Except ToolError (List (List Char)) :=
  match resolvePath mappings path with
  | .ok resolved => .ok (resolveParts resolved)
  | .error .escapes => .error .permission

end AfterFlow.Sandbox
