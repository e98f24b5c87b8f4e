/-!
# Source stores

Where the text of a file is read from and written to. A store may refuse to read or write a file,
and tells why.
-/

namespace ChangeImpact

inductive IoErrorKind where
  | notFound | permissionDenied | alreadyExists | notADirectory | isADirectory | directoryNotEmpty
  | invalidData | invalidInput | invalidFilename
  deriving DecidableEq, Repr

structure IoError where
  kind : IoErrorKind
  message : String
  deriving DecidableEq, Repr

class SourceStore (σ : Type) where
  read : σ → String → Except IoError String
  write : σ → String → String → Except IoError σ
  has : σ → String → Bool

/-- Files in memory, each at its path, with sets of paths that are refused. -/
structure MemoryStore where
  files : List (String × String)
  unreadable : List String := []
  unwritable : List String := []
  deriving DecidableEq, Repr

namespace MemoryStore

def put (path content : String) : List (String × String) → List (String × String)
  | [] => [(path, content)]
  | (other, old) :: rest =>
    if other = path then (path, content) :: rest else (other, old) :: put path content rest

def remove (store : MemoryStore) (path : String) : MemoryStore :=
  { store with files := store.files.filter (·.1 != path) }

def insert (store : MemoryStore) (path content : String) : MemoryStore :=
  { store with files := put path content store.files }

def read (store : MemoryStore) (path : String) : Except IoError String :=
  if store.unreadable.contains path then .error ⟨.permissionDenied, "read refused"⟩
  else
    match store.files.lookup path with
    | some content => .ok content
    | none => .error ⟨.notFound, "no such file"⟩

def write (store : MemoryStore) (path content : String) : Except IoError MemoryStore :=
  if store.unwritable.contains path then .error ⟨.permissionDenied, "write refused"⟩
  else .ok (store.insert path content)

instance : SourceStore MemoryStore where
  read := read
  write := write
  has store path := (store.files.lookup path).isSome

theorem lookup_put (path content other : String) (files : List (String × String)) :
    (put path content files).lookup other =
      if other = path then some content else files.lookup other := by
  induction files with
  | nil =>
    by_cases hit : other = path
    · simp [put, hit]
    · have differs : (other == path) = false := by simpa using hit
      simp [put, List.lookup_cons, hit, differs]
  | cons file rest ih =>
    obtain ⟨name, old⟩ := file
    by_cases same : name = path
    · subst same
      by_cases hit : other = name
      · simp [put, hit]
      · have differs : (other == name) = false := by simpa using hit
        simp [put, List.lookup_cons, hit, differs]
    · by_cases hit : other = name
      · subst hit; simp [put, same]
      · have differs : (other == name) = false := by simpa using hit
        simp [put, same, List.lookup_cons, differs, ih]

end MemoryStore

end ChangeImpact
