import Ferrite.Core.Text

/-!
# Where the box may keep its files

The checks `api/src/settings.rs` makes of a path before it reaches the configuration
file, with `nearest_existing` of `core/src/fsinfo.rs`.  Paths are Unix paths; the file
system answers through `Files`.
-/

namespace Ferrite.Api

/-- What the file system says of a path. -/
structure Files where
  pathExists : Text → Bool
  isDir : Text → Bool
  /-- `probe_writable`. -/
  probeWritable : Text → Bool

/-! ## Paths -/

/-- `Path::is_absolute`. -/
def isAbsolute (path : Text) : Bool := path.head? == some '/'

/-- `Path::components`: doubled separators and dots do not count, but for a dot in
front. -/
def components (path : Text) : List Text :=
  let parts := path.splitOn '/'
  let body := parts.filter fun c => c ≠ [] ∧ c ≠ ['.']
  if isAbsolute path then ['/'] :: body
  else if parts.head? = some ['.'] then ['.'] :: body
  else body

/-- Paths are compared by their components. -/
def samePath (a b : Text) : Bool := components a == components b

/-- Drop the separators and dots a path ends in; the path is reversed. -/
def dropTail : Text → Text
  | '/' :: cs => dropTail cs
  | '.' :: '/' :: cs => dropTail cs
  | cs => cs

/-- `Path::parent` of an absolute path; the root has none. -/
def parent (path : Text) : Option Text :=
  let tail := dropTail path.reverse
  if tail = [] then none
  else
    let rest := dropTail (tail.dropWhile (· ≠ '/'))
    some (if rest = [] then ['/'] else rest.reverse)

/-- `nearest_existing`: up from `path` to something that exists.  A path has no more
ancestors than characters. -/
def nearestExisting (files : Files) (path : Text) : Option Text :=
  go (path.length + 1) (some path)
where
  /-- The ancestors from here up, at most `fuel` of them. -/
  go : ℕ → Option Text → Option Text
    | 0, _ => none
    | _, none => none
    | fuel + 1, some p => if files.pathExists p then some p else go fuel (parent p)

/-! ## The checks -/

/-- `absolute_path`. -/
def absolutePath (field path : Text) : Except Text Text :=
  let trimmed := path.trim
  if trimmed = [] then .error (field ++ " must not be empty".toList)
  else if !isAbsolute trimmed then
    .error (field ++ " must be an absolute path, got '".toList ++ trimmed ++ "'".toList)
  else .ok trimmed

/-- `ensure_creatable`: what is refused about creating files in `dir`. -/
def ensureCreatable (files : Files) (dir : Text) : Except Text Unit :=
  match nearestExisting files dir with
  | none => .error ("nothing along '".toList ++ dir ++
      "' exists, so ferrite cannot create files there".toList)
  | some anchor =>
    if files.probeWritable anchor then .ok ()
    else .error ("ferrite cannot write to '".toList ++ anchor ++
      "' — pick a location it owns, or fix the permissions".toList)

/-- `validate_storage_path`. -/
def validateStoragePath (files : Files) (path : Text) : Except Text Text := do
  let path ← absolutePath "storage_path".toList path
  if files.isDir path then
    throw ("storage_path '".toList ++ path ++
      "' is a directory — give the database file's full path, e.g. ".toList ++ path ++
      "/ferrite.db".toList)
  match parent path with
  | none => throw ("storage_path '".toList ++ path ++ "' has no parent".toList)
  | some dir => ensureCreatable files dir
  return path

/-- `validate_blocklist_cache_dir`. -/
def validateBlocklistCacheDir (files : Files) (dir : Text) : Except Text Text := do
  let dir ← absolutePath "blocklist_cache_dir".toList dir
  if files.pathExists dir && !files.isDir dir then
    throw ("blocklist_cache_dir '".toList ++ dir ++ "' is a file — give a directory".toList)
  ensureCreatable files dir
  return dir

end Ferrite.Api
