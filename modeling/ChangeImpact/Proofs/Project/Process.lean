import ChangeImpact.Command.Run
import ChangeImpact.Proofs.Patch.Mirror
import ChangeImpact.Proofs.Project.State
import Mathlib.Data.List.Infix

/-!
# Processes of a project

A process takes up the saved history of a project, makes changes, and saves its own history. Many
processes, one after another, come to the same as one engine that is never stopped: each call has
the same result, and leaves the same history and the same files, but for the saved state.
-/

namespace ChangeImpact

namespace Project

/-- One process: an engine takes up the saved history, takes calls, and its history is saved. -/
def process (project : Project) (config : ProjectConfig) (now : Nat) (calls : List EngineCall) :
    Except HistoryError (Project × List (CallOutcome Project)) := do
  let saved ← project.loadHistory
  let (engine, project, outcomes) := (PatchEngine.ofHistory config saved).takeAll project calls
  let project ← project.saveHistory now engine.history
  return (project, outcomes)

def processes (project : Project) (config : ProjectConfig) :
    List (Nat × List EngineCall) → Except HistoryError (Project × List (CallOutcome Project))
  | [] => return (project, [])
  | (now, calls) :: rest => do
    let (project, outcomes) ← project.process config now calls
    let (last, later) ← project.processes config rest
    return (last, outcomes ++ later)

/-! ## The commands that are processes -/

theorem taken_of_process {project after : Project} {config : ProjectConfig} {now : Nat}
    {call : EngineCall} {outcome : CallOutcome Project}
    (runs : project.process config now [call] = .ok (after, [outcome])) :
    ∃ saved engine between, project.loadHistory = .ok saved ∧
      (PatchEngine.ofHistory config saved).take project call = (engine, between, outcome.result) ∧
      between.saveHistory now engine.history = .ok after := by
  obtain ⟨saved, loads, runs⟩ := ok_of_bind runs
  rcases taken : (PatchEngine.ofHistory config saved).take project call with
    ⟨engine, between, result⟩
  have takes : (PatchEngine.ofHistory config saved).takeAll project [call] =
      (engine, between, [⟨result, engine.history, between⟩]) := by
    rw [PatchEngine.takeAll, taken]
    rfl
  rw [takes] at runs
  obtain ⟨last, saves, ends⟩ := ok_of_bind runs
  obtain ⟨rfl, outcomes⟩ := Prod.mk.inj (Except.ok.inj ends)
  obtain ⟨rfl, -⟩ := List.cons.inj outcomes
  exact ⟨saved, engine, between, loads, taken, saves⟩

/-- Applying the fixes of a report is a process with one call. -/
theorem applyFixes_of_process {project after : Project} {config : ProjectConfig} {now : Nat}
    {report : ImpactReport} (fixes : report.autoFixes.isEmpty = false)
    {outcome : CallOutcome Project}
    (runs : project.process config now [.apply report.autoFixes] = .ok (after, [outcome])) :
    (project.applyFixes now config report).1 = after ∧
      ((project.applyFixes now config report).2 = none ↔ outcome.result.success = true) := by
  obtain ⟨saved, engine, between, loads, applies, saves⟩ := taken_of_process runs
  rw [PatchEngine.take] at applies
  unfold applyFixes keepHistory
  rw [if_neg (by simp [fixes]), loads]
  dsimp only
  rw [applies]
  simp only [saves]
  exact ⟨trivial, by cases outcome.result.success <;> simp⟩

/-- Rolling patches back is a process with one call, unless no patches are asked for and none are in
the history. -/
theorem rollbackCommand_of_process {project after : Project} {config : ProjectConfig} {now : Nat}
    {ids : List String} (configured : project.config = .ok config) {outcome : CallOutcome Project}
    (runs : project.process config now [.rollback (if ids.isEmpty then none else some ids)] =
      .ok (after, [outcome])) :
    project.rollbackCommand now ids = .printed project "" ∨
    (project.rollbackCommand now ids).project = after ∧
      ((project.rollbackCommand now ids).failure = none ↔ outcome.result.success = true) := by
  obtain ⟨saved, engine, between, loads, rollsBack, saves⟩ := taken_of_process runs
  rw [PatchEngine.take] at rollsBack
  unfold rollbackCommand keepHistory
  rw [configured, loads]
  dsimp only
  split
  · exact .inl rfl
  · rw [rollsBack]
    simp only [saves]
    exact .inr ⟨trivial, by cases outcome.result.success <;> simp⟩

/-! ## Projects that differ in their state only -/

/-- The projects have the same root, and the same files outside of directories of state. -/
structure SameSources (first second : Project) : Prop where
  root : second.root = first.root
  here : second.disk.here = first.disk.here
  tree : Entry.SameBut ".ripple" first.disk.tree second.disk.tree

/-- A path that does not go through a directory of state. -/
def Outside (root path : String) : Prop :=
  ".ripple" ∉ Path.segments (Path.join root path)

instance (root : String) : DecidablePred (Outside root) :=
  fun path => inferInstanceAs (Decidable (".ripple" ∉ Path.segments (Path.join root path)))

/-- A project that processes work on follows one that a single engine works on. -/
structure Follows (root : String) (base : List String) (first second : Project) : Prop where
  same : first.SameSources second
  keeps : first.KeepsState base
  root : first.root = root
  here : ".ripple" ∉ first.disk.here

variable {root : String} {base : List String} {first second : Project}

theorem Follows.withTree (follows : Follows root base first second) {tree : Entry}
    (keeps : (first.withTree tree).KeepsState base)
    (same : Entry.SameBut ".ripple" first.disk.tree tree) :
    Follows root base (first.withTree tree) second :=
  ⟨⟨follows.same.root, follows.same.here, same.symm.trans follows.same.tree⟩, keeps, follows.root,
    follows.here⟩

theorem mirrors_follows (root : String) (base : List String) :
    SourceStore.Mirrors (Outside root) (Follows root base) where
  read := by
    rintro first second path ⟨same, -, rfl, here⟩ outside
    show first.disk.readText _ = second.disk.readText (Path.join second.root path)
    rw [same.root]
    exact Disk.readText_sameBut same.here same.tree here outside
  write := by
    rintro first second path old text ⟨same, keeps, rfl, here⟩ outside read
    obtain ⟨location, data, found, seen⟩ := Disk.located_of_readText read
    have noDir : ¬ first.disk.tree.IsDirAt location.names := by simp [Entry.IsDirAt, seen]
    obtain ⟨parent, name, names, there⟩ := Disk.standing_of_locate found noDir
    -- The file that was read stands under the same names on the other disk.
    rcases Disk.locate_sameBut same.here same.tree here outside with
      ⟨cause, error, -⟩ | ⟨others, apart, found', foundSecond⟩
    · cases found.symm.trans error
    obtain rfl : location = _ := Except.ok.inj (found.symm.trans found')
    simp only at names noDir
    subst names
    have thereSecond := same.tree.isDirAt (fun mem => apart (by simp [mem])) there
    have noDirSecond : ¬ second.disk.tree.IsDirAt (parent ++ [name]) :=
      fun dir => noDir (same.tree.symm.isDirAt apart dir)
    rw [← same.root] at foundSecond
    exact .inr ⟨_, _, write_of_locate found noDir text,
      write_of_locate foundSecond noDirSecond text,
      ⟨⟨same.root, same.here, same.tree.put there thereSecond name _⟩,
        keeps.put_file there noDir apart _, rfl, here⟩⟩

/-! ## One process -/

/-- A process has the results of an engine that goes on with the history it loads, and the next one
loads the history of that engine. -/
theorem process_follows {config : ProjectConfig} {engine : PatchEngine} {saved : List Patch}
    (follows : Follows root base first second) (loads : first.loadHistory = .ok saved)
    (takesUp : PatchEngine.ofHistory config saved = engine)
    (names : PatchEngine.Names (Outside root) engine.history) {calls : List EngineCall}
    (listed : ∀ call ∈ calls, call.Names (Outside root)) {now : Nat}
    (before : now < Timestamp.horizon)
    (range : ∀ patch ∈ (engine.takeAll second calls).1.history, patch.InRange) :
    ∃ after outcomes, first.process config now calls = .ok (after, outcomes) ∧
      Follows root base after (engine.takeAll second calls).2.1 ∧
      List.Forall₂ (CallOutcome.Alike (Follows root base)) outcomes
        (engine.takeAll second calls).2.2 ∧
      after.loadHistory = .ok (engine.takeAll second calls).1.history ∧
      PatchEngine.Names (Outside root) (engine.takeAll second calls).1.history := by
  obtain ⟨engines, stores, outcomes, kept⟩ :=
    PatchEngine.takeAll_alike (mirrors_follows root base) follows names listed
  rw [← engines] at range ⊢
  obtain ⟨tree, saves, keeps, same, loadsAfter⟩ := stores.keeps.saveHistory before range
  refine ⟨(engine.takeAll first calls).2.1.withTree tree, (engine.takeAll first calls).2.2, ?_,
    stores.withTree keeps same, outcomes, loadsAfter, kept⟩
  simp only [process, loads, takesUp, Except.bind, bind]
  rw [saves]
  rfl

/-! ## Processes one after another -/

theorem processes_follow {config : ProjectConfig} {engine : PatchEngine} {saved : List Patch}
    (follows : Follows root base first second) (loads : first.loadHistory = .ok saved)
    (takesUp : PatchEngine.ofHistory config saved = engine)
    (names : PatchEngine.Names (Outside root) engine.history) {runs : List (Nat × List EngineCall)}
    (listed : ∀ run ∈ runs, ∀ call ∈ run.2, call.Names (Outside root))
    (before : ∀ run ∈ runs, run.1 < Timestamp.horizon)
    (range : ∀ calls, calls <+: runs.flatMap (·.2) →
      ∀ patch ∈ (engine.takeAll second calls).1.history, patch.InRange) :
    let (last, final, expected) := engine.takeAll second (runs.flatMap (·.2))
    ∃ after outcomes, first.processes config runs = .ok (after, outcomes) ∧
      List.Forall₂ (CallOutcome.Alike (Follows root base)) outcomes expected ∧
      Follows root base after final ∧ (runs ≠ [] → after.loadHistory = .ok last.history) := by
  induction runs generalizing engine saved first second with
  | nil => exact ⟨first, [], rfl, .nil, follows, fun none => absurd rfl none⟩
  | cons run rest ih =>
    obtain ⟨now, calls⟩ := run
    have within : engine.Within config := takesUp ▸ PatchEngine.within_ofHistory config saved
    obtain ⟨middle, outcomes, runsOnce, followsMiddle, same, loadsMiddle, namesMiddle⟩ :=
      process_follows follows loads takesUp names (listed _ List.mem_cons_self)
        (before _ List.mem_cons_self) (range calls (List.prefix_append _ _))
    -- What was saved is within the limit, so that the next process goes on with the same engine.
    obtain ⟨after, later, runsRest, sameRest, followsAfter, loadsLast⟩ :=
      ih followsMiddle loadsMiddle (within.takeAll second calls).ofHistory_history namesMiddle
        (fun other mem => listed other (List.mem_cons_of_mem _ mem))
        (fun other mem => before other (List.mem_cons_of_mem _ mem))
        (fun front starts => by
          have whole := range (calls ++ front) ((List.prefix_append_right_inj calls).mpr starts)
          rwa [PatchEngine.takeAll_append] at whole)
    simp only [List.flatMap_cons, PatchEngine.takeAll_append]
    refine ⟨after, outcomes ++ later, ?_, List.rel_append same sameRest, followsAfter, fun _ => ?_⟩
    · simp only [processes, runsOnce, runsRest, Except.bind, bind]
      rfl
    · cases rest with
      | nil =>
        obtain rfl : middle = after := congrArg Prod.fst (Except.ok.inj runsRest)
        exact loadsMiddle
      | cons next rest => exact loadsLast (List.cons_ne_nil _ _)

/-- What processes need of a project: its history can be loaded and saved, and neither the saved
patches nor those of the calls are of files in a directory of state. The instants come before the
year 10000, and the lines that are saved fit into 32 bits. -/
structure Admits (project : Project) (config : ProjectConfig) (saved : List Patch)
    (runs : List (Nat × List EngineCall)) : Prop where
  isDir : project.disk.isDir project.root = true
  here : ".ripple" ∉ project.disk.here
  loads : project.loadHistory = .ok saved
  saves : ∃ now after, project.saveHistory now saved = .ok after
  names : PatchEngine.Names (Outside project.root) saved
  listed : ∀ run ∈ runs, ∀ call ∈ run.2, call.Names (Outside project.root)
  before : ∀ run ∈ runs, run.1 < Timestamp.horizon
  range : ∀ calls, calls <+: runs.flatMap (·.2) →
    ∀ patch ∈ ((PatchEngine.ofHistory config saved).takeAll project calls).1.history, patch.InRange

/-- One process a command comes to the same as one engine that takes all calls: on every store with
the history handed over, and in a project with the history saved in a file and loaded again. There
no process fails, each call has the same result and leaves the same history and the same sources,
and the history that was saved last is the one of the engine. -/
theorem processes_eq_engine (config : ProjectConfig) :
    (∀ {σ : Type} [SourceStore σ] (saved : List Patch) (store : σ)
      (processes : List (List EngineCall)),
      let (kept, after, outcomes) := PatchEngine.takeInProcesses config saved store processes
      let (last, final, expected) :=
        (PatchEngine.ofHistory config saved).takeAll store processes.flatten
      after = final ∧ outcomes = expected ∧ (processes ≠ [] → kept = last.history)) ∧
    ∀ {project final : Project} {saved : List Patch} {runs : List (Nat × List EngineCall)}
      {last : PatchEngine} {expected : List (CallOutcome Project)},
      project.Admits config saved runs →
      (PatchEngine.ofHistory config saved).takeAll project (runs.flatMap (·.2)) =
        (last, final, expected) →
      ∃ after outcomes, project.processes config runs = .ok (after, outcomes) ∧
        after.SameSources final ∧ List.Forall₂ (CallOutcome.Alike SameSources) outcomes expected ∧
        (runs ≠ [] → after.loadHistory = .ok last.history) := by
  constructor
  · intro σ _ saved store processes
    have same := PatchEngine.takeInProcesses_eq config saved store processes
    dsimp only at same ⊢
    rw [← same]
    exact ⟨rfl, rfl, PatchEngine.takeInProcesses_history config saved store⟩
  · intro project final saved runs last expected admits single
    obtain ⟨now, saving, saves⟩ := admits.saves
    obtain ⟨base, keeps⟩ := keepsState_of_saveHistory admits.isDir saves
    have follows : Follows project.root base project project :=
      ⟨⟨rfl, rfl, .refl _ _⟩, keeps, rfl, admits.here⟩
    have names : PatchEngine.Names (Outside project.root)
        (PatchEngine.ofHistory config saved).history := by
      intro patch mem
      rcases PatchEngine.mem_history_record mem with none | among
      · exact absurd none List.not_mem_nil
      · exact admits.names patch among
    have all := processes_follow follows admits.loads rfl names admits.listed admits.before
      admits.range
    rw [single] at all
    obtain ⟨after, outcomes, ran, same, followsAfter, loads⟩ := all
    exact ⟨after, outcomes, ran, followsAfter.same,
      same.imp fun _ _ alike => ⟨alike.result, alike.history, alike.store.same⟩, loads⟩

/-- Three processes that keep one patch: the second one forgets the patch of the first, and the
third undoes the one of the second. -/
theorem processes_eq_engine_one_kept :
    let config : ProjectConfig := { ProjectConfig.default with historyLimit := 1 }
    let project : Project := ⟨⟨.dir [("p", .dir [("a.ts", .file "one\ntwo\n".toUTF8)])], []⟩, "/p"⟩
    let runs : List (Nat × List EngineCall) :=
      [(0, [.apply [⟨"p1", "a.ts", 1, "one", "uno", "", true, none, none⟩]]),
        (1000000000, [.apply [⟨"p2", "a.ts", 2, "two", "dos", "", true, none, none⟩]]),
        (2000000000, [.rollback none])]
    project.Admits config [] runs ∧ ∃ final after outcomes expected,
      (final.read "a.ts").toOption = some "uno\ntwo\n" ∧
      expected.map (fun outcome => outcome.history.map (·.id)) = [["p1"], ["p2"], []] ∧
      project.processes config runs = .ok (after, outcomes) ∧ after.SameSources final ∧
      List.Forall₂ (CallOutcome.Alike SameSources) outcomes expected ∧
      after.loadHistory = .ok [] := by
  intro config project runs
  have before : ∀ run ∈ runs, run.1 < Timestamp.horizon := by decide
  have listed : ∀ run ∈ runs, ∀ call ∈ run.2, call.Names (Outside project.root) := by
    decide
  have range : ∀ calls ∈ (runs.flatMap (·.2)).inits,
      ∀ patch ∈ ((PatchEngine.ofHistory config []).takeAll project calls).1.history,
        patch.InRange := by
    decide +kernel
  have saves : ∃ after, project.saveHistory 0 [] = .ok after := by
    have saved : (project.saveHistory 0 []).toOption.isSome = true := by decide
    cases saving : project.saveHistory 0 [] with
    | error cause => rw [saving] at saved; cases saved
    | ok after => exact ⟨after, rfl⟩
  have loads : project.loadHistory = .ok [] := by
    have none : project.disk.has project.historyPath = false := by decide
    rw [loadHistory, none]
    rfl
  have admits : project.Admits config [] runs :=
    ⟨by decide, List.not_mem_nil, loads, ⟨0, saves⟩,
      fun _ mem => absurd mem List.not_mem_nil, listed, before,
      fun calls starts => range calls ((List.mem_inits _ _).mpr starts)⟩
  have facts : let single := (PatchEngine.ofHistory config []).takeAll project (runs.flatMap (·.2))
      single.1.history = [] ∧ (single.2.1.read "a.ts").toOption = some "uno\ntwo\n" ∧
        single.2.2.map (fun outcome => outcome.history.map (·.id)) = [["p1"], ["p2"], []] := by
    decide +kernel
  rcases single : (PatchEngine.ofHistory config []).takeAll project (runs.flatMap (·.2)) with
    ⟨last, final, expected⟩
  rw [single] at facts
  obtain ⟨empty, text, ids⟩ := facts
  obtain ⟨after, outcomes, ran, same, alike, loadsLast⟩ :=
    (processes_eq_engine config).2 admits single
  exact ⟨admits, final, after, outcomes, expected, text, ids, ran, same, alike,
    empty ▸ loadsLast (List.cons_ne_nil _ _)⟩

end Project

end ChangeImpact
