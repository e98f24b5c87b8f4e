import ChangeImpact.Store

/-!
# Lawful stores

What the rest of the library relies on of a store: a file that can be read has the text that was
last written to it, a write changes no other file, and a write does not change which writes are
refused. Files in memory are such a store.
-/

namespace ChangeImpact

class LawfulStore (σ : Type) [SourceStore σ] : Prop where
  read_write {store after : σ} {path old content : String} :
    SourceStore.read store path = .ok old → SourceStore.write store path content = .ok after →
      SourceStore.read after path = .ok content
  read_write_of_ne {store after : σ} {path content : String} :
    SourceStore.write store path content = .ok after →
      ∀ other, other ≠ path → SourceStore.read after other = SourceStore.read store other
  refusal_write {store after : σ} {path content : String} :
    SourceStore.write store path content = .ok after → ∀ other text,
      (SourceStore.write after other text).map (fun _ => ()) =
        (SourceStore.write store other text).map fun _ => ()

namespace SourceStore

def AcceptsWrites [SourceStore σ] (store : σ) : Prop :=
  ∀ path content, ∃ after, write store path content = .ok after

theorem AcceptsWrites.write [SourceStore σ] [LawfulStore σ] {store after : σ}
    (accepts : AcceptsWrites store) {path content : String}
    (written : SourceStore.write store path content = .ok after) : AcceptsWrites after := by
  intro other text
  have refusal := LawfulStore.refusal_write written other text
  obtain ⟨next, accepted⟩ := accepts other text
  rw [accepted] at refusal
  cases result : SourceStore.write after other text with
  | ok next => exact ⟨next, rfl⟩
  | error cause => simp [result, Except.map] at refusal

/-- A store after some writes, each a path and a text, one after another. -/
def writeAll [SourceStore σ] (store : σ) : List (String × String) → Except IoError σ
  | [] => .ok store
  | (path, text) :: rest =>
    match write store path text with
    | .ok after => writeAll after rest
    | .error cause => .error cause

/-- Two stores hold the same at a path and refuse the same writes to it. -/
structure AgreeAt [SourceStore σ] (path : String) (first second : σ) : Prop where
  read : SourceStore.read first path = SourceStore.read second path
  refusal : ∀ text, (SourceStore.write first path text).map (fun _ => ()) =
    (SourceStore.write second path text).map fun _ => ()

theorem AgreeAt.refl [SourceStore σ] (path : String) (store : σ) : AgreeAt path store store :=
  ⟨rfl, fun _ => rfl⟩

theorem AgreeAt.write [SourceStore σ] [LawfulStore σ] {path other text : String}
    {first second after : σ} (agree : AgreeAt path first second)
    (written : SourceStore.write first other text = .ok after) (differ : path ≠ other) :
    AgreeAt path after second where
  read := (LawfulStore.read_write_of_ne written path differ).trans agree.read
  refusal more := (LawfulStore.refusal_write written path more).trans (agree.refusal more)

end SourceStore

namespace MemoryStore

theorem read_ok_iff {store : MemoryStore} {path content : String} :
    store.read path = .ok content ↔
      path ∉ store.unreadable ∧ store.files.lookup path = some content := by
  unfold read
  by_cases refused : path ∈ store.unreadable
  · simp [refused]
  · cases found : store.files.lookup path <;> simp [refused]

theorem write_ok_iff {store after : MemoryStore} {path content : String} :
    store.write path content = .ok after ↔
      path ∉ store.unwritable ∧ store.insert path content = after := by
  unfold write
  by_cases refused : path ∈ store.unwritable <;> simp [refused]

theorem read_insert_of_ne (store : MemoryStore) {path other : String} (content : String)
    (differ : other ≠ path) : (store.insert path content).read other = store.read other := by
  simp [read, insert, lookup_put, differ]

instance : LawfulStore MemoryStore where
  read_write readable written := by
    obtain ⟨allowed, -⟩ := read_ok_iff.mp readable
    obtain ⟨-, rfl⟩ := write_ok_iff.mp written
    exact read_ok_iff.mpr ⟨allowed, by simp [insert, lookup_put]⟩
  read_write_of_ne written other differ := by
    obtain ⟨-, rfl⟩ := write_ok_iff.mp written
    exact read_insert_of_ne _ _ differ
  refusal_write written other text := by
    obtain ⟨-, rfl⟩ := write_ok_iff.mp written
    simp only [SourceStore.write, MemoryStore.write, insert]
    split <;> simp_all [Except.map]

theorem acceptsWrites {store : MemoryStore} (h : store.unwritable = []) :
    SourceStore.AcceptsWrites store := by
  intro path content
  exact ⟨_, write_ok_iff.mpr ⟨by simp [h], rfl⟩⟩

end MemoryStore

end ChangeImpact
