import AfterFlow.PyStr
import AfterFlow.Sandbox.ToolPaths
import AfterFlow.Substitution
import Mathlib.Data.String.Basic

/-!
# Masking host paths

What the sandbox prints may name files by their host paths. `mask_local_paths_in_output` puts the
virtual paths in their place: one substitution after the other, for each host directory in each of
the ways it may be written, the later ones over what the earlier ones left.

A directory that is found takes the path behind it along, up to a character at which paths end. The
slashes between the two become one, or none if nothing follows.
-/

namespace AfterFlow.Sandbox

open Substitution List

/-! ### How directories are written -/

/-- `str(Path(path))`: two slashes at the start stay, three and more do not. -/
def pathText (path : List Char) : List Char :=
  let slashes := path.takeWhile (· == '/')
  let root := if slashes.length = 2 then slashes else slashes.take 1
  let text := root ++ ['/'].intercalate (pathParts path)
  if text = [] then ['.'] else text

def toBackslash (c : Char) : Char := if c = '/' then '\\' else c

/-- `_path_variants`, sorted. -/
def pathVariants (path : List Char) : List (List Char) :=
  [path, path.map toForwardSlash, path.map toBackslash].insertionSort (· ≤ ·)

/-- The characters at which a masked path ends. -/
def isPathEnd (c : Char) : Bool :=
  PyStr.isSpace c || ['"', '\'', ';', '&', '|', '<', '>', '(', ')'].contains c

/-- Whether a character of the escaped root takes a character: a backslash takes either slash. -/
def takesChar (p c : Char) : Bool := if p = '\\' then isSeparator c else p == c

/-! ### Substitutions -/

/-- What a pattern finds at the start of a text, and what comes in its place. -/
def maskMatch (base virtual text : List Char) : Option (ℕ × List Char) :=
  (stripBy takesChar base text).map fun rest =>
    let tail := if rest.head?.any isSeparator then rest.takeWhile fun c => !isPathEnd c else []
    let relative := tail.dropWhile isSeparator
    (base.length + tail.length, if relative = [] then virtual else virtual ++ '/' :: relative)

/-- `pattern.sub(replace_match, result)`. -/
def maskPass (pattern : List Char × List Char) (result : List Char) : List Char :=
  subst (maskMatch pattern.1 pattern.2) result

/-! ### Sources -/

/-- `d[key] = value`, in the order in which keys came first. -/
def withEntry (d : List (List Char × List Char)) (key value : List Char) :
    List (List Char × List Char) :=
  if (d.lookup key).isSome then d.map fun e => if e.1 = key then (key, value) else e
  else d ++ [(key, value)]

/-- `_thread_actual_to_virtual_mappings`. -/
def actualToVirtual (td : ThreadData) : List (List Char × List Char) :=
  (threadMappings td).foldl (fun d mapping => withEntry d mapping.2 mapping.1) []

/-- The host directories with their virtual paths, in the order of the substitutions. The user's own
skills count if their directory is there. -/
def maskSources (s : Settings) (customExists : Bool) (threadData : Option ThreadData) :
    List (List Char × List Char) :=
  let skills := s.skillsHost.toList.map fun host => (host, s.skillsContainer)
  let custom :=
    if customExists then [(s.userCustomDir, s.skillsContainer ++ "/custom".toList)] else []
  let acp := s.acpHost.toList.map fun host => (host, acpWorkspaceVirtualPath)
  let userData := threadData.toList.flatMap fun td =>
    (actualToVirtual td).insertionSort fun a b => b.1.length ≤ a.1.length
  skills ++ custom ++ acp ++ userData

/-- `_compiled_mask_patterns`. Where a directory is on the file system, links followed, is given by
`resolved`. -/
def compiledMaskPatterns (resolved : List Char → List Char)
    (sources : List (List Char × List Char)) : List (List Char × List Char) :=
  sources.flatMap fun (hostBase, virtualBase) =>
    ([pathText hostBase, resolved hostBase].flatMap pathVariants).eraseDups.map fun variant =>
      (variant, virtualBase)

/-- The patterns that are run over an output. -/
def maskPatterns (resolved : List Char → List Char) (s : Settings) (customExists : Bool)
    (threadData : Option ThreadData) : List (List Char × List Char) :=
  compiledMaskPatterns resolved (maskSources s customExists threadData)

/-- `mask_local_paths_in_output`. -/
def maskLocalPathsInOutput (resolved : List Char → List Char) (s : Settings)
    (customExists : Bool) (threadData : Option ThreadData) (output : List Char) : List Char :=
  (maskPatterns resolved s customExists threadData).foldl
    (fun result pattern => maskPass pattern result) output

end AfterFlow.Sandbox
