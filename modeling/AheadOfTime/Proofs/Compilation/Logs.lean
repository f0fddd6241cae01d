import AheadOfTime.Proofs.Compilation.Diagnostics
import AheadOfTime.Proofs.Files.Tree
import Mathlib

/-! What has become of the logs when a run is over: each is there, or the results tell that it is
not (`Logged`). The metadata come first and the dependencies after them, so where both paths lead to
one file it is the dependencies that are there. The check of the settings compares paths as they are
written and keeps apart only those that are written alike. -/

namespace AheadOfTime

/-- A log is told of as one that could not be written, or is there. -/
def Logged (failures : List ArtifactFailure) (files : Files.Tree) (p : Files.Path)
    (contents : String) : Prop :=
  (∃ f ∈ failures, f.artifact = p) ∨ files.read? p = some contents

/-- Two paths lead to one file. -/
def Files.Tree.Together (files : Files.Tree) (p q : Files.Path) : Prop :=
  ∃ place, files.locate p = .ok place ∧ files.locate q = .ok place

section Artifacts

variable {path : Option Files.Path} {p q : Files.Path} {contents : Files.Path → String}
  {files : Files.Tree} {place : List String}

theorem writeArtifact_of_locate (h : files.locate p = .ok place) :
    writeArtifact (some p) contents files = (files.put place (contents p), []) := by
  simp only [writeArtifact, Files.Tree.write, h]
  rfl

theorem writeArtifact_of_error {cause : Files.WriteError} (h : files.locate p = .error cause) :
    writeArtifact (some p) contents files = (files, [⟨p, cause⟩]) := by
  simp only [writeArtifact, Files.Tree.write, h]
  rfl

theorem writeArtifact_logged (p : Files.Path) (contents : Files.Path → String)
    (files : Files.Tree) :
    Logged (writeArtifact (some p) contents files).2 (writeArtifact (some p) contents files).1 p
      (contents p) := by
  cases h : files.locate p with
  | error cause =>
    rw [writeArtifact_of_error h]
    exact .inl ⟨_, List.mem_singleton.mpr rfl, rfl⟩
  | ok place =>
    rw [writeArtifact_of_locate h]
    exact .inr (by rw [Files.Tree.read?_put, if_pos h])

/-- A path leads where it did. -/
theorem locate_writeArtifact :
    (writeArtifact path contents files).1.locate q = .ok place ↔ files.locate q = .ok place := by
  cases path with
  | none => rfl
  | some p =>
    cases h : files.locate p with
    | error cause => rw [writeArtifact_of_error h]
    | ok place' => rw [writeArtifact_of_locate h, Files.Tree.locate_put]

/-- Only a path that leads to the file written shows anything new. -/
theorem read?_writeArtifact (path : Option Files.Path) (contents : Files.Path → String)
    (files : Files.Tree) (q : Files.Path) :
    (writeArtifact path contents files).1.read? q = files.read? q ∨
      ∃ p, path = some p ∧ files.Together q p ∧
        (writeArtifact path contents files).1.read? q = some (contents p) := by
  cases path with
  | none => exact .inl rfl
  | some p =>
    cases h : files.locate p with
    | error cause =>
      rw [writeArtifact_of_error h]
      exact .inl rfl
    | ok place =>
      rw [writeArtifact_of_locate h, Files.Tree.read?_put]
      split
      · rename_i hq
        exact .inr ⟨p, rfl, ⟨place, hq, h⟩, rfl⟩
      · exact .inl rfl

end Artifacts

theorem Files.Tree.Together.of_written {path : Option Files.Path} {p q : Files.Path}
    {contents : Files.Path → String} {files : Files.Tree}
    (h : (writeArtifact path contents files).1.Together p q) : files.Together p q := by
  obtain ⟨place, hp, hq⟩ := h
  exact ⟨place, locate_writeArtifact.mp hp, locate_writeArtifact.mp hq⟩

theorem Logged.append_left {failures : List ArtifactFailure} {files : Files.Tree} {p : Files.Path}
    {contents : String} (h : Logged failures files p contents) (earlier : List ArtifactFailure) :
    Logged (earlier ++ failures) files p contents :=
  h.imp_left fun ⟨f, hf, hp⟩ => ⟨f, List.mem_append_right _ hf, hp⟩

/-- Of settings whose backend options can be read the check says that the logs are shared just if
their paths are written alike. -/
theorem Settings.check_eq_sharedLog {s : Settings} {os : List BackendOption} {p : Files.Path}
    (hos : s.backendOptions.mapM BackendOption.parse = .ok os) :
    s.check = .error (.sharedLog p) ↔ s.dependencyLog = some p ∧ s.tracking ≠ .none ∧
      ∃ q, s.metadataLog = some q ∧ p.alike q := by
  cases hp : s.dependencyLog with
  | none => simp [check, hos, hp, bind, Except.bind, pure, Except.pure]
  | some p' =>
    by_cases htracking : s.tracking = .none
    · simp [check, hos, hp, htracking, throw, throwThe, MonadExceptOf.throw, bind, Except.bind]
    · cases hq : s.metadataLog with
      | none => simp [check, hos, hp, hq, htracking, bind, Except.bind, pure, Except.pure]
      | some q =>
        by_cases halike : p'.alike q
        · have hcheck : s.check = .error (.sharedLog p') := by
            simp [check, hos, hp, hq, htracking, halike, throw, throwThe, MonadExceptOf.throw, bind,
              Except.bind]
          rw [hcheck]
          constructor
          · rintro ⟨⟩
            exact ⟨rfl, htracking, q, rfl, halike⟩
          · rintro ⟨⟨⟩, -⟩
            rfl
        · have hcheck : s.check = .ok os := by
            simp [check, hos, hp, hq, htracking, halike, bind, Except.bind, pure, Except.pure]
          rw [hcheck]
          constructor
          · rintro ⟨⟩
          · rintro ⟨⟨⟩, -, q', ⟨⟩, h⟩
            exact absurd h halike

namespace Compilation

variable {β : Type} {c : Compilation β} {x : Session β} {results : Results}

/-- What is left of the logs where both were to be written. -/
theorem writeLogs_logged (c : Compilation β) (metadata : Metadata) (report : Option Report)
    (files : Files.Tree) :
    (∀ p, c.metadataLog = some p →
      Logged (c.writeLogs metadata report files).2 (c.writeLogs metadata report files).1 p
        metadata.text ∨
      ∃ q r, c.dependencyLog = some q ∧ report = some r ∧ files.Together p q ∧
        (c.writeLogs metadata report files).1.read? p = some (r.contentsFor q)) ∧
    ∀ q r, c.dependencyLog = some q → report = some r →
      Logged (c.writeLogs metadata report files).2 (c.writeLogs metadata report files).1 q
        (r.contentsFor q) := by
  cases report with
  | none =>
    refine ⟨fun p hp => .inl ?_, fun q r _ hr => by cases hr⟩
    simp only [writeLogs, hp]
    exact writeArtifact_logged p _ files
  | some r =>
    constructor
    · intro p hp
      simp only [writeLogs, hp]
      -- the metadata are there, unless the second log has come to stand in the same file
      have hfirst := writeArtifact_logged p (fun _ => metadata.text) files
      rcases hfirst with ⟨f, hf, hfp⟩ | hread
      · exact .inl (.inl ⟨f, List.mem_append_left _ hf, hfp⟩)
      rcases read?_writeArtifact c.dependencyLog r.contentsFor
        (writeArtifact (some p) (fun _ => metadata.text) files).1 p with
        hsame | ⟨q, hq, htogether, hnew⟩
      · exact .inl (.inr (hsame.trans hread))
      · exact .inr ⟨q, r, hq, rfl, htogether.of_written, hnew⟩
    · rintro q r' hq ⟨⟩
      simp only [writeLogs, hq]
      exact (writeArtifact_logged q _ _).append_left _

/-- The files that a run leaves and the failures that it tells of come from writing the logs. -/
theorem run_writeLogs (h : (c.run x).1 = .ok results) :
    ((c.run x).2.files, results.failures) =
      c.writeLogs results.metadata results.report x.files := by
  obtain ⟨hgather, hwalk, -⟩ := run_ok h
  rw [run_eq hgather, conclude, hwalk] at h ⊢
  cases h
  rfl

theorem run_report (h : (c.run x).1 = .ok results) :
    results.report = (c.outcome x.store).walk.report (c.outcome x.store).state.name := by
  obtain ⟨hgather, hwalk, -⟩ := run_ok h
  rw [run_eq hgather, conclude, hwalk] at h
  cases h
  rfl

/-- A run that tracks anything reports. -/
theorem exists_report_of_run (htracking : c.tracking ≠ .none) (h : (c.run x).1 = .ok results) :
    ∃ report, results.report = some report := by
  have htracks := c.outcome_together c.tracking x.store
  have hall := c.outcome_together .all x.store
  rw [run_report h]
  exact htracks.walk.exists_report hall.walk htracking _

end Compilation

theorem Settings.apart_of_check {s : Settings} {os : List BackendOption} {p q : Files.Path}
    (h : s.check = .ok os) (hq : s.dependencyLog = some q) (hp : s.metadataLog = some p) :
    q.alike p = false := by
  obtain ⟨hos, htracking⟩ := of_check h
  by_contra halike
  have hshared := (check_eq_sharedLog hos).mpr
    ⟨hq, htracking q hq, p, hp, Bool.eq_true_of_not_eq_false halike⟩
  rw [h] at hshared
  cases hshared

/-- Settings are refused that write both paths alike. With others, after a run that succeeds each
log is there or told of as failed, but that the dependencies stand in the file of the metadata where
the paths are written differently and lead to one file. -/
theorem logs_there_or_told (s : Settings) {β : Type} (world : World) (unit : CompilationUnit)
    (backend : Backend β) :
    (∀ os, s.backendOptions.mapM BackendOption.parse = .ok os → ∀ q,
      s.check = .error (.sharedLog q) ↔ s.dependencyLog = some q ∧ s.tracking ≠ .none ∧
        ∃ p, s.metadataLog = some p ∧ q.components = p.components) ∧
    ∀ c, s.compilation world unit backend = .ok c →
      ∀ x results, (c.run x).1 = .ok results →
        let files := (c.run x).2.files
        (∀ p, s.metadataLog = some p →
          Logged results.failures files p results.metadata.text ∨
          ∃ q r, s.dependencyLog = some q ∧ results.report = some r ∧
            q.components ≠ p.components ∧ x.files.Together p q ∧
            files.read? p = some (r.contentsFor q)) ∧
        ∀ q, s.dependencyLog = some q → ∃ r, results.report = some r ∧
          Logged results.failures files q (r.contentsFor q) := by
  constructor
  · intro os hos q
    simpa only [Files.Path.alike, decide_eq_true_eq] using Settings.check_eq_sharedLog hos
  · intro c hc x results hrun files
    obtain ⟨os, hos, rfl⟩ := Except.map_eq_ok.mp hc
    obtain ⟨hmetadata, hdependency⟩ := Compilation.writeLogs_logged _ results.metadata
      results.report x.files
    rw [← Compilation.run_writeLogs hrun] at hmetadata hdependency
    constructor
    · intro p hp
      refine (hmetadata p hp).imp_right ?_
      rintro ⟨q, r, hq, hr, htogether, hread⟩
      have hapart := Settings.apart_of_check hos hq hp
      exact ⟨q, r, hq, hr, of_decide_eq_false hapart, htogether, hread⟩
    · intro q hq
      obtain ⟨r, hr⟩ := Compilation.exists_report_of_run ((Settings.of_check hos).2 q hq) hrun
      exact ⟨r, hr, hdependency q r hq hr⟩

/-- One symbol as a root, with both logs. -/
def loggingSettings (dependencyLog metadataLog : String) : Settings where
  transcript := .silent
  tracking := .first
  roots := [.explicit [⟨.externSymbol "puts", "call"⟩]]
  optimization := .blended
  debugInfo := false
  backendOptions := []
  dependencyLog := some ⟨dependencyLog⟩
  metadataLog := some ⟨metadataLog⟩
  parallel := false

def logging (dependencyLog metadataLog : String) : Compilation CallLog where
  program := Compilation.oneMethod []
  tracking := .first
  roots := [.explicit [⟨.externSymbol "puts", "call"⟩]]
  metadataLog := some ⟨metadataLog⟩
  dependencyLog := some ⟨dependencyLog⟩
  parallel := false

theorem loggingSettings_compilation {dependencyLog metadataLog : String}
    (h : (loggingSettings dependencyLog metadataLog).check = .ok []) :
    let c := logging dependencyLog metadataLog
    (loggingSettings dependencyLog metadataLog).compilation c.program.world c.program.unit
      c.program.backend = .ok c := by
  intro c
  rw [Settings.compilation, h]
  rfl

/-- One log in a directory that is there, and the other in one that is not. -/
theorem logs_there_or_told_apart :
    let s := loggingSettings "logs/deps.json" "none/metadata"
    let c := logging "logs/deps.json" "none/metadata"
    let x : Session CallLog := ⟨.empty .empty, ⟨[["logs"]], []⟩, .silent⟩
    s.compilation c.program.world c.program.unit c.program.backend = .ok c ∧
    ∃ results, (c.run x).1 = .ok results ∧
      results.failures = [⟨⟨"none/metadata"⟩, .notFound⟩] ∧
      ∃ r, results.report = some r ∧ Logged results.failures (c.run x).2.files ⟨"logs/deps.json"⟩
        (r.contentsFor ⟨"logs/deps.json"⟩) := by
  intro s c x
  have hc : s.compilation c.program.world c.program.unit c.program.backend = .ok c :=
    loggingSettings_compilation (by decide +kernel)
  have hmissing : x.files.locate ⟨"none/metadata"⟩ = .error .notFound := by decide +kernel
  have hthere : x.files.locate ⟨"logs/deps.json"⟩ = .ok ["logs", "deps.json"] := by decide +kernel
  obtain ⟨results, hrun⟩ := Compilation.exists_run_ok (c := c) (x := x) (by cbv) (by cbv)
  obtain ⟨r, hr, hlogged⟩ := ((logs_there_or_told s _ _ _).2 c hc x results hrun).2 _ rfl
  have hwritten := Compilation.run_writeLogs hrun
  have hlogs : c.metadataLog = some ⟨"none/metadata"⟩ ∧ c.dependencyLog = some ⟨"logs/deps.json"⟩ :=
    ⟨rfl, rfl⟩
  simp only [Compilation.writeLogs, hr, hlogs, writeArtifact_of_error hmissing,
    writeArtifact_of_locate hthere] at hwritten
  exact ⟨hc, results, hrun, (Prod.mk.inj hwritten).2, r, hr, hlogged⟩

/-- A leading dot makes another path of the same file, and the metadata are gone. -/
theorem metadata_overwritten :
    let s := loggingSettings "./a.txt" "a.txt"
    let c := logging "./a.txt" "a.txt"
    let x : Session CallLog := ⟨.empty .empty, ⟨[], []⟩, .silent⟩
    s.compilation c.program.world c.program.unit c.program.backend = .ok c ∧
    ∃ results, (c.run x).1 = .ok results ∧
      ¬ Logged results.failures (c.run x).2.files ⟨"a.txt"⟩ results.metadata.text := by
  intro s c x
  have hc : s.compilation c.program.world c.program.unit c.program.backend = .ok c :=
    loggingSettings_compilation (by decide +kernel)
  have hplain : x.files.locate ⟨"a.txt"⟩ = .ok ["a.txt"] := by decide +kernel
  have hdotted : x.files.locate ⟨"./a.txt"⟩ = .ok ["a.txt"] := by decide +kernel
  obtain ⟨results, hrun⟩ := Compilation.exists_run_ok (c := c) (x := x) (by cbv) (by cbv)
  have hreport : results.report = some ⟨.firstMark, [⟨"puts", [⟨none, none, "call"⟩]⟩]⟩ := by
    rw [Compilation.run_report hrun]
    cbv
  have hmetadata : results.metadata.text = "" := by
    rw [(Compilation.run_made hrun).2]
    cbv
  have hwritten := Compilation.run_writeLogs hrun
  have hlogs : c.metadataLog = some ⟨"a.txt"⟩ ∧ c.dependencyLog = some ⟨"./a.txt"⟩ := ⟨rfl, rfl⟩
  simp only [Compilation.writeLogs, hreport, hlogs, writeArtifact_of_locate hplain,
    writeArtifact_of_locate (Files.Tree.locate_put.mpr hdotted)] at hwritten
  obtain ⟨hfiles, hfailures⟩ := Prod.mk.inj hwritten
  refine ⟨hc, results, hrun, ?_⟩
  have hlocated : (x.files.put ["a.txt"] results.metadata.text).locate ⟨"a.txt"⟩ = .ok ["a.txt"] :=
    Files.Tree.locate_put.mpr hplain
  rw [hmetadata, hfailures, hfiles, Logged, Files.Tree.read?_put, if_pos hlocated]
  decide +kernel

end AheadOfTime
