import Mathlib.Data.List.Chain
import MarkupIds.Command.Run
import MarkupIds.Proofs.Document.Ending
import MarkupIds.Proofs.Files.Expand

/-! The course of a run over its files. Each file is attempted on the tree that the attempts before have left; what a
run prints and how it ends is what its attempts tell. Only a failure that no caller expects cuts a run off. Nothing in
a run takes out a file that is found twice, so that a file is attempted once if the pattern leads to it in one way. -/

namespace MarkupIds

/-- The work of a run on one file: the trees before and after it, and what came of it. -/
structure Attempt where
  source : Path
  before : FileTree
  after : FileTree
  events : List Event
  result : Except Job.Problem Path

namespace Attempt

def crash (x : Attempt) : Option Failure := Job.crashOf x.result

def succeeded (x : Attempt) : Bool := x.result.isOk

def report (job : Job) (x : Attempt) : FileReport := job.report x.source x.before x.result

/-- The lines that tell of the file: of one that failed, and in a verbose run of every one. -/
def told (job : Job) (x : Attempt) : List String :=
  if x.crash.isSome then [] else if job.isVerbose || !x.succeeded then [(x.report job).line] else []

theorem isSuccess_report (job : Job) (x : Attempt) : (x.report job).isSuccess = x.succeeded := by
  unfold report Job.report succeeded
  cases x.result <;> rfl

end Attempt

namespace Job

def attempt (job : Job) (t : FileTree) (source : Path) : Attempt :=
  { source
    before := t
    after := (job.process source t).1
    events := (job.process source t).2.1
    result := (job.process source t).2.2 }

/-- The work on files one after the other, up to the first failure that ends the run. -/
def attempts (job : Job) (t : FileTree) : List Path → List Attempt
  | [] => []
  | source :: rest =>
    if (job.attempt t source).crash.isSome then [job.attempt t source]
    else job.attempt t source :: job.attempts (job.attempt t source).after rest

section Attempt

variable {job : Job} {t : FileTree} {source : Path}

/-- An attempt fails at the text, or at the document, or comes to a write. -/
theorem attempt_cases (job : Job) (t : FileTree) (source : Path) :
    (∃ problem, textOf t source = .error problem ∧ (job.attempt t source).result = .error problem ∧
      (job.attempt t source).after = t) ∨
    ∃ text, textOf t source = .ok text ∧
      ((∃ failure, (Document.process (job.formatOf source text) text job.options job.host).result = .error failure ∧
        (job.attempt t source).result = .error (.document failure) ∧ (job.attempt t source).after = t) ∨
      ∃ out t' result, (Document.process (job.formatOf source text) text job.options job.host).result = .ok out ∧
        t.write (targetFor source job.target) out job.token = (t', result) ∧ (job.attempt t source).after = t' ∧
        (job.attempt t source).result = (result.mapError Problem.file).map fun _ => targetFor source job.target) := by
  unfold attempt process
  cases htext : textOf t source with
  | error problem => exact .inl ⟨problem, rfl, rfl, rfl⟩
  | ok text =>
      refine .inr ⟨text, rfl, ?_⟩
      cases hdocument : (Document.process (job.formatOf source text) text job.options job.host).result with
      | error failure =>
          left
          exact ⟨failure, rfl, by simp only [hdocument], by simp only [hdocument]⟩
      | ok out =>
          right
          cases hwrite : t.write (targetFor source job.target) out job.token with
          | mk t' result =>
          refine ⟨out, t', result, rfl, hwrite, ?_⟩
          simp only [hdocument, hwrite]
          cases result <;> exact ⟨rfl, rfl⟩

theorem textOf_ne_document {failure : Failure} : textOf t source ≠ .error (.document failure) := by
  unfold textOf
  split
  next => exact nofun
  next => split <;> exact nofun

/-- An attempt that ends the run has read a text, and there is a reason for its failure in that text or in the
options. -/
theorem untold_of_crash {failure : Failure} (h : (job.attempt t source).crash = some failure) :
    ∃ text, textOf t source = .ok text ∧
      (Document.process (job.formatOf source text) text job.options job.host).result = .error failure ∧
      Document.Untold job.host text job.options (job.formatOf source text) := by
  have hcrash : (job.attempt t source).result = .error (.document failure) ∧ failure.isExpected = false := by
    unfold Attempt.crash crashOf at h
    split at h
    next failure' hfailed =>
      split at h
      next => cases h
      next hexpected =>
        obtain rfl := Option.some.inj h
        exact ⟨hfailed, Bool.eq_false_iff.mpr hexpected⟩
    next => cases h
  obtain ⟨hfailed, hexpected⟩ := hcrash
  obtain ⟨problem, htext, hresult, -⟩ | ⟨text, htext, ⟨failure', hdocument, hresult, -⟩ |
    ⟨out, t', result, -, -, -, hresult⟩⟩ := job.attempt_cases t source
  · obtain rfl := Except.error.inj (hresult.symm.trans hfailed)
    exact absurd htext textOf_ne_document
  · obtain rfl : failure' = failure := by simpa using hresult.symm.trans hfailed
    refine ⟨text, htext, hdocument, ?_⟩
    rw [Document.result_process] at hdocument
    exact Document.untold_of_error hdocument hexpected
  · rw [hfailed] at hresult
    cases result <;> cases hresult

end Attempt

def treeAfter (t : FileTree) (xs : List Attempt) : FileTree := (xs.getLast?.map Attempt.after).getD t

section Attempts

variable {job : Job} {t : FileTree} {files : List Path}

/-- The work on some files is cut off at the last attempt, or else there is one for each file. -/
theorem attempts_cases (job : Job) (t : FileTree) (files : List Path) :
    ((∀ x ∈ job.attempts t files, x.crash = none) ∧ (job.attempts t files).map Attempt.source = files) ∨
    ∃ xs x failure, job.attempts t files = xs ++ [x] ∧ (∀ x ∈ xs, x.crash = none) ∧ x.crash = some failure ∧
      (xs ++ [x]).map Attempt.source <+: files := by
  induction files generalizing t with
  | nil => exact .inl ⟨by simp [attempts], rfl⟩
  | cons source rest ih =>
      rw [attempts]
      split
      next hcrash =>
        obtain ⟨failure, hfailure⟩ := Option.isSome_iff_exists.mp hcrash
        exact .inr ⟨[], _, failure, rfl, by simp, hfailure, ⟨rest, rfl⟩⟩
      next hgoes =>
        rw [Option.not_isSome_iff_eq_none] at hgoes
        obtain ⟨hall, hsources⟩ | ⟨xs, x, failure, hxs, hall, hcrash, hsources⟩ := ih (job.attempt t source).after
        · left
          refine ⟨List.forall_mem_cons.mpr ⟨hgoes, hall⟩, ?_⟩
          rw [List.map_cons, hsources]
          rfl
        · right
          refine ⟨job.attempt t source :: xs, x, failure, ?_, List.forall_mem_cons.mpr ⟨hgoes, hall⟩, hcrash, ?_⟩
          · rw [hxs]
            rfl
          · exact List.prefix_cons_inj _ |>.mpr hsources

/-- Each attempt is the work on one of the files, on the tree that the attempt before has left. -/
theorem isChain_attempts (job : Job) (t : FileTree) (files : List Path) :
    (∀ x ∈ job.attempts t files, x = job.attempt x.before x.source) ∧
      (job.attempts t files).IsChain (fun x y => y.before = x.after) ∧
      ∀ x ∈ (job.attempts t files).head?, x.before = t := by
  induction files generalizing t with
  | nil => simp [attempts]
  | cons source rest ih =>
      obtain ⟨hwork, hchain, hfirst⟩ := ih (job.attempt t source).after
      rw [attempts]
      split
      next => exact ⟨by simp [attempt], .singleton _, by simp [attempt]⟩
      next =>
        refine ⟨List.forall_mem_cons.mpr ⟨rfl, hwork⟩, List.isChain_cons.mpr ⟨hfirst, hchain⟩, ?_⟩
        simp [attempt]

theorem treeAfter_cons (t : FileTree) (x : Attempt) (xs : List Attempt) :
    treeAfter t (x :: xs) = treeAfter x.after xs := by
  rw [treeAfter, treeAfter, List.getLast?_cons]
  cases xs.getLast? <;> rfl

end Attempts

theorem lines_append (xs ys : List String) : Command.lines (xs ++ ys) = Command.lines xs ++ Command.lines ys := by
  rw [Command.lines, List.map_append, String.join_append, Command.lines, Command.lines]

section Run

variable {job : Job} {r : Run} {files : List Path}

def afterAttempt (job : Job) (r : Run) (x : Attempt) : Run :=
  { r.show_ job.isVerbose "append_ids.core" x.events with
    tree := x.after
    output := r.output ++ Command.lines (x.told job) }

theorem processAll_of_crash {source : Path} {rest : List Path} {failure : Failure}
    (h : (job.attempt r.tree source).crash = some failure) :
    job.processAll r (source :: rest) =
      ({ { r with tree := (job.attempt r.tree source).after }.show_ job.isVerbose "append_ids.core"
          (job.attempt r.tree source).events with
        exitCode := 1
        crash := some (.document failure) }, []) := by
  have hcrash : crashOf (job.process source r.tree).2.2 = some failure := h
  simp only [processAll, hcrash]
  rfl

theorem say_eq (line : String) (r : Run) : r.say line = { r with output := r.output ++ Command.lines [line] } := by
  rw [Run.say, String.append_assoc]
  simp [Command.lines]

theorem afterAttempt_eq {x : Attempt} (h : x.crash = none) :
    job.afterAttempt r x =
      if job.isVerbose || !(x.report job).isSuccess then
        ({ r with tree := x.after }.show_ job.isVerbose "append_ids.core" x.events).say (x.report job).line
      else { r with tree := x.after }.show_ job.isVerbose "append_ids.core" x.events := by
  rw [afterAttempt, Attempt.told, h, Option.isSome_none, if_neg Bool.false_ne_true, x.isSuccess_report job]
  split
  next =>
    rw [say_eq]
    rfl
  next => simp [Run.show_, Command.lines]

theorem processAll_of_goes {source : Path} {rest : List Path} (h : (job.attempt r.tree source).crash = none) :
    job.processAll r (source :: rest) =
      ((job.processAll (job.afterAttempt r (job.attempt r.tree source)) rest).1,
        (job.attempt r.tree source).report job ::
          (job.processAll (job.afterAttempt r (job.attempt r.tree source)) rest).2) := by
  have hcrash : crashOf (job.process source r.tree).2.2 = none := h
  rw [afterAttempt_eq h]
  simp only [processAll, hcrash]
  rfl

/-- A run over files keeps to its attempts: they leave the tree, and they tell the output. -/
theorem processAll_eq (job : Job) (r : Run) (files : List Path) :
    (job.processAll r files).1.tree = treeAfter r.tree (job.attempts r.tree files) ∧
      (job.processAll r files).1.output =
        r.output ++ Command.lines ((job.attempts r.tree files).flatMap (Attempt.told job)) := by
  induction files generalizing r with
  | nil => exact ⟨rfl, by simp [processAll, attempts, Command.lines]⟩
  | cons source rest ih =>
      rw [attempts]
      cases hcrash : (job.attempt r.tree source).crash with
      | some failure =>
          rw [processAll_of_crash hcrash, Option.isSome_some, if_pos rfl]
          refine ⟨rfl, ?_⟩
          simp [Run.show_, Attempt.told, hcrash, Command.lines]
      | none =>
          obtain ⟨htree, houtput⟩ := ih (job.afterAttempt r (job.attempt r.tree source))
          rw [processAll_of_goes hcrash, Option.isSome_none, if_neg Bool.false_ne_true, treeAfter_cons, List.flatMap_cons,
            lines_append, ← String.append_assoc]
          exact ⟨htree, houtput⟩

/-- Where no attempt ends the run, there is a report on each. -/
theorem processAll_of_all (hall : ∀ x ∈ job.attempts r.tree files, x.crash = none) :
    (job.processAll r files).2 = (job.attempts r.tree files).map (Attempt.report job) ∧
      (job.processAll r files).1.crash = r.crash := by
  induction files generalizing r with
  | nil => exact ⟨rfl, rfl⟩
  | cons source rest ih =>
      cases hcrash : (job.attempt r.tree source).crash with
      | some failure =>
          rw [attempts, hcrash, Option.isSome_some, if_pos rfl] at hall
          rw [hall _ List.mem_cons_self] at hcrash
          cases hcrash
      | none =>
          rw [attempts, hcrash, Option.isSome_none, if_neg Bool.false_ne_true] at hall ⊢
          obtain ⟨hreports, hnone⟩ := ih (r := job.afterAttempt r (job.attempt r.tree source))
            (List.forall_mem_cons.mp hall).2
          rw [processAll_of_goes hcrash, hreports, hnone]
          exact ⟨rfl, rfl⟩

/-- An attempt that ends the run tells how. -/
theorem processAll_of_cut {x : Attempt} {failure : Failure} (hx : x ∈ job.attempts r.tree files)
    (hcrash : x.crash = some failure) :
    (job.processAll r files).1.crash = some (.document failure) ∧ (job.processAll r files).1.exitCode = 1 := by
  induction files generalizing r with
  | nil => cases hx
  | cons source rest ih =>
      rw [attempts] at hx
      cases hfirst : (job.attempt r.tree source).crash with
      | some failure' =>
          rw [hfirst, Option.isSome_some, if_pos rfl] at hx
          obtain rfl := List.mem_singleton.mp hx
          obtain rfl : failure' = failure := Option.some.inj (hfirst.symm.trans hcrash)
          rw [processAll_of_crash hfirst]
          exact ⟨rfl, rfl⟩
      | none =>
          rw [hfirst, Option.isSome_none, if_neg Bool.false_ne_true] at hx
          obtain rfl | hx := List.mem_cons.mp hx
          · rw [hfirst] at hcrash
            cases hcrash
          · rw [processAll_of_goes hfirst]
            exact ih (r := job.afterAttempt r (job.attempt r.tree source)) hx

end Run

def foundLines (job : Job) (count : Nat) : List String :=
  if job.isVerbose then ["INFO: found " ++ toString count ++ " file(s) to process"] else []

def summaryLine (succeeded failed : Nat) : String :=
  (if failed == 0 then "INFO" else "WARNING") ++ ": processed " ++ toString succeeded ++ " file(s) successfully, " ++
    toString failed ++ " error(s)"

theorem failures_reports (job : Job) (xs : List Attempt) :
    FileReport.failures (xs.map (Attempt.report job)) = xs.countP (!·.succeeded) := by
  simp only [FileReport.failures, List.countP_map, Function.comp_def, Attempt.isSuccess_report]

theorem countP_succeeded_add (xs : List Attempt) :
    xs.countP Attempt.succeeded + xs.countP (!·.succeeded) = xs.length :=
  (List.length_eq_countP_add_countP Attempt.succeeded).symm ▸ by simp

theorem summary_reports (job : Job) (xs : List Attempt) :
    FileReport.summary (xs.map (Attempt.report job)) =
      summaryLine (xs.countP Attempt.succeeded) (xs.countP (!·.succeeded)) := by
  have hcount := countP_succeeded_add xs
  have hsucceeded : xs.length - xs.countP (!·.succeeded) = xs.countP Attempt.succeeded := by omega
  rw [FileReport.summary, failures_reports, List.length_map, hsucceeded]
  rfl

/-- A run that has attempted all files tells how many of them got their ids and how many failed. -/
structure Completed (job : Job) (files : List Path) (xs : List Attempt) (r : Run) : Prop where
  attempted : xs.map Attempt.source = files
  counts : xs.countP Attempt.succeeded + xs.countP (!·.succeeded) = files.length
  output : r.output = Command.lines (job.foundLines files.length ++ xs.flatMap (Attempt.told job) ++
    [summaryLine (xs.countP Attempt.succeeded) (xs.countP (!·.succeeded))])
  exitCode : r.exitCode = if xs.all Attempt.succeeded then 0 else 1
  crash : r.crash = none

/-- A run that is cut off at an attempt tells of the attempts before it. -/
structure CutOff (job : Job) (files : List Path) (xs : List Attempt) (x : Attempt) (failure : Failure) (r : Run) :
    Prop where
  attempted : (xs ++ [x]).map Attempt.source <+: files
  failed : x.crash = some failure
  reason : ∃ text, textOf x.before x.source = .ok text ∧
    Document.Untold job.host text job.options (job.formatOf x.source text)
  output : r.output = Command.lines (job.foundLines files.length ++ xs.flatMap (Attempt.told job))
  exitCode : r.exitCode = 1
  crash : r.crash = some (.document failure)

section Run

variable {job : Job} {r : Run} {pattern : String}

def started (job : Job) (r : Run) (count : Nat) : Run :=
  { r with output := r.output ++ Command.lines (job.foundLines count) }

def finished (job : Job) (work : Run × List FileReport) : Run :=
  if work.1.crash.isSome then work.1
  else
    { (work.1.say (FileReport.summary work.2)).show_ job.isVerbose "append_ids.cli" [finishedEvent work.2] with
      exitCode := if FileReport.failures work.2 == 0 then 0 else 1 }

theorem run_of_found (hfound : r.tree.findFiles pattern ≠ []) :
    job.run pattern r = job.finished
      (job.processAll (job.started r (r.tree.findFiles pattern).length) (r.tree.findFiles pattern)) := by
  have hstarted (files : List Path) : job.started r files.length =
      if job.isVerbose then r.say ("INFO: found " ++ toString files.length ++ " file(s) to process") else r := by
    unfold started foundLines
    split
    next => rw [say_eq]
    next => simp [Command.lines]
  unfold run
  split
  next hnone => exact absurd hnone hfound
  next => simp only [hstarted, finished]

theorem failures_eq_zero {xs : List Attempt} :
    (FileReport.failures (xs.map (Attempt.report job)) == 0) = xs.all Attempt.succeeded := by
  rw [failures_reports, Bool.eq_iff_iff, beq_iff_eq, List.countP_eq_zero, List.all_eq_true]
  simp

/-- A run on files completes them, or is cut off. -/
theorem run_cases (hr : r.output = "" ∧ r.crash = none) (hfound : r.tree.findFiles pattern ≠ []) :
    (job.run pattern r).tree = treeAfter r.tree (job.attempts r.tree (r.tree.findFiles pattern)) ∧
      (job.Completed (r.tree.findFiles pattern) (job.attempts r.tree (r.tree.findFiles pattern)) (job.run pattern r) ∨
      ∃ xs x failure, job.attempts r.tree (r.tree.findFiles pattern) = xs ++ [x] ∧
        job.CutOff (r.tree.findFiles pattern) xs x failure (job.run pattern r)) := by
  rw [run_of_found hfound]
  generalize r.tree.findFiles pattern = files
  obtain ⟨htree, houtput⟩ := job.processAll_eq (job.started r files.length) files
  have hstart : (job.started r files.length).output = Command.lines (job.foundLines files.length) := by
    rw [started, hr.1, String.empty_append]
  rw [hstart, ← lines_append] at houtput
  obtain ⟨hall, hsources⟩ | ⟨xs, x, failure, hxs, hall, hcrash, hsources⟩ := job.attempts_cases r.tree files
  · obtain ⟨hreports, hnone⟩ := processAll_of_all (r := job.started r files.length) hall
    have hgoes : (job.processAll (job.started r files.length) files).1.crash = none := hnone.trans hr.2
    rw [finished, hgoes, Option.isSome_none, if_neg Bool.false_ne_true]
    refine ⟨htree, .inl ⟨hsources, ?_, ?_, ?_, hgoes⟩⟩
    · rw [countP_succeeded_add, ← List.length_map Attempt.source, hsources]
    · rw [say_eq, lines_append, ← summary_reports job, hreports]
      exact congrArg (· ++ _) houtput
    · rw [hreports]
      exact congrArg (if · then 0 else 1) failures_eq_zero
  · have hx : x ∈ job.attempts r.tree files := by
      rw [hxs]
      exact List.mem_concat_self
    obtain ⟨hcut, hcode⟩ := processAll_of_cut (r := job.started r files.length) hx hcrash
    rw [finished, hcut, Option.isSome_some, if_pos rfl]
    have hattempt := (job.isChain_attempts r.tree files).1 x hx
    obtain ⟨text, htext, -, hreason⟩ := untold_of_crash (hattempt ▸ hcrash)
    have hnothing : x.told job = [] := by rw [Attempt.told, hcrash, Option.isSome_some, if_pos rfl]
    refine ⟨htree, .inr ⟨xs, x, failure, hxs, hsources, hcrash, ⟨text, htext, hreason⟩, ?_, hcode, hcut⟩⟩
    rw [houtput, started, hxs, List.flatMap_append, List.flatMap_singleton, hnothing, List.append_nil]

end Run

section Patterns

open FileTree

/-- The files that were attempted are some of the first. -/
theorem sources_attempts (job : Job) (t : FileTree) (files : List Path) :
    (job.attempts t files).map Attempt.source <+: files := by
  obtain ⟨-, hsources⟩ | ⟨xs, x, failure, hxs, -, -, hsources⟩ := job.attempts_cases t files
  · rw [hsources]
  · rwa [hxs]

theorem paths_processAll (job : Job) (r : Run) (files : List Path) :
    (job.processAll r files).2.map FileReport.path <+: files := by
  induction files generalizing r with
  | nil => exact List.prefix_rfl
  | cons source rest ih =>
      cases hcrash : (job.attempt r.tree source).crash with
      | some failure =>
          rw [processAll_of_crash hcrash]
          exact List.nil_prefix
      | none =>
          have hpath : ((job.attempt r.tree source).report job).path = source := by
            unfold Attempt.report report
            split <;> rfl
          rw [processAll_of_goes hcrash, List.map_cons, hpath]
          exact (List.prefix_cons_inj source).mpr (ih _)

/-- The files that match a direct pattern are found once each, so that no run on them attempts a file twice, nor counts
it twice in its reports. -/
theorem attempts_pattern_once {t : FileTree} (hsound : t.Sound) (hlisted : t.Listed) {pattern : String}
    (hfile : t.isFile (Path.ofString pattern) = false) (hdirectory : t.isDirectory (Path.ofString pattern) = false)
    (hdirect : Glob.Direct (Path.ofString pattern).parts) :
    let found := t.findFiles pattern
    (∀ q ∈ found, t.isFile q = true) ∧ (found.map t.find?).Nodup ∧
      ∀ (job : Job) (r : Run), ((job.attempts r.tree found).map fun x => t.find? x.source).Nodup ∧
        ((job.processAll r found).2.map fun report => t.find? report.path).Nodup := by
  intro found
  have hfound : found = t.filesMatching pattern := findFiles_eq_filesMatching hfile hdirectory
  have hnodup : (found.map t.find?).Nodup := by
    rw [hfound]
    exact hsound.nodup_filesMatching hlisted hdirect
  refine ⟨fun q hq => isFile_of_mem_filesMatching (hfound ▸ hq), hnodup, fun job r => ⟨?_, ?_⟩⟩
  · have hattempted := hnodup.sublist ((job.sources_attempts r.tree found).map t.find?).sublist
    rwa [List.map_map] at hattempted
  · have hreported := hnodup.sublist ((job.paths_processAll r found).map t.find?).sublist
    rwa [List.map_map] at hreported

/-- Two parts for any directories, with a hidden directory between them that is nested in one of its name. -/
theorem attempts_pattern_once_hidden :
    let t : FileTree :=
      { files := [([".a", "b.svg"], []), ([".a", "c", "b.svg"], []), (["c", ".a", "b.svg"], []), ([".a", ".a", "b.svg"], [])]
        directories := [[".a"], [".a", "c"], ["c"], ["c", ".a"], [".a", ".a"]] }
    let pattern := "**/.a/**/*.svg"
    let found := t.findFiles pattern
    t.Sound ∧ t.Listed ∧ t.isFile (Path.ofString pattern) = false ∧ t.isDirectory (Path.ofString pattern) = false ∧
      Glob.Direct (Path.ofString pattern).parts ∧
      (∀ q ∈ found, t.isFile q = true) ∧ (found.map t.find?).Nodup ∧
      ∀ (job : Job) (r : Run), ((job.attempts r.tree found).map fun x => t.find? x.source).Nodup ∧
        ((job.processAll r found).2.map fun report => t.find? report.path).Nodup := by
  intro t pattern found
  have hsound : t.Sound := sound_of_forall (by decide +kernel) (by decide +kernel) rfl
  have hlisted : t.Listed := ⟨by decide +kernel, by decide +kernel⟩
  have hfile : t.isFile (Path.ofString pattern) = false := by decide +kernel
  have hdirectory : t.isDirectory (Path.ofString pattern) = false := by decide +kernel
  have hdirect : Glob.Direct (Path.ofString pattern).parts := ⟨by decide +kernel, by decide +kernel⟩
  exact ⟨hsound, hlisted, hfile, hdirectory, hdirect, attempts_pattern_once hsound hlisted hfile hdirectory hdirect⟩

/-- A file is found twice where the parts of the pattern match the way to it in two ways, and where a step upwards
follows a part that matches two directories. -/
theorem findFiles_pattern_twice :
    let t : FileTree := { files := [(["a", "b.svg"], [])], directories := [["a"]] }
    let u : FileTree := { files := [(["x.svg"], []), (["a", "q"], []), (["b", "q"], [])], directories := [["a"], ["b"]] }
    (t.Sound ∧ t.Listed ∧ t.isFile (Path.ofString "**/**/*.svg") = false ∧
      t.isDirectory (Path.ofString "**/**/*.svg") = false ∧
      (t.findFiles "**/**/*.svg").map t.find? = [some ["a", "b.svg"], some ["a", "b.svg"]] ∧
      ¬((t.findFiles "**/**/*.svg").map t.find?).Nodup) ∧
    u.Sound ∧ u.Listed ∧ u.isFile (Path.ofString "*/../x.svg") = false ∧
      u.isDirectory (Path.ofString "*/../x.svg") = false ∧
      (u.findFiles "*/../x.svg").map u.find? = [some ["x.svg"], some ["x.svg"]] ∧
      ¬((u.findFiles "*/../x.svg").map u.find?).Nodup := by
  intro t u
  have ht : (t.findFiles "**/**/*.svg").map t.find? = [some ["a", "b.svg"], some ["a", "b.svg"]] := by
    rw [findFiles_eq_filesMatching (by decide +kernel) (by decide +kernel),
      filesMatching_of_pairwise (by decide +kernel)]
    decide +kernel
  have hu : (u.findFiles "*/../x.svg").map u.find? = [some ["x.svg"], some ["x.svg"]] := by
    rw [findFiles_eq_filesMatching (by decide +kernel) (by decide +kernel),
      filesMatching_of_pairwise (by decide +kernel)]
    decide +kernel
  rw [ht, hu]
  refine ⟨⟨?_, ⟨by decide +kernel, by decide +kernel⟩, by decide +kernel, by decide +kernel, rfl, by decide⟩,
    ?_, ⟨by decide +kernel, by decide +kernel⟩, by decide +kernel, by decide +kernel, rfl, by decide⟩
  · exact sound_of_forall (by decide +kernel) (by decide +kernel) rfl
  · exact sound_of_forall (by decide +kernel) (by decide +kernel) rfl

end Patterns

end Job

namespace Call

def jobOf (c : Command) (a : Arguments) (options : Options) (token : String) (host : Host) : Job :=
  { format := c.format?
    options
    target := (a.value? .output).map Path.ofString
    isVerbose := a.has .verbose
    token
    host }

theorem runCommand_of_load {c : Command} {a : Arguments} {t : FileTree} {options : Options} (path token : String)
    (host : Host) (hload : Options.load (optionsFile t a) (overrides c a) = .ok options) :
    runCommand c a path token t host = (jobOf c a options token host).run path { tree := t } := by
  simp only [runCommand, hload]
  rfl

/-- A run whose options load and which finds files attempts them in their order, each on the tree that the ones before
it have left. It ends with the two counts, which add up to the number of files, and its exit code tells whether one
failed; or it is cut off at a file for which `Document.Untold` has a reason. -/
theorem runCommand_attempts {c : Command} {a : Arguments} {path token : String} {t : FileTree} {options : Options}
    {host : Host} (hload : Options.load (optionsFile t a) (overrides c a) = .ok options) (hfound : t.findFiles path ≠ []) :
    let job := jobOf c a options token host
    let attempts := job.attempts t (t.findFiles path)
    let r := runCommand c a path token t host
    r.tree = Job.treeAfter t attempts ∧
      (job.Completed (t.findFiles path) attempts r ∨
      ∃ xs x failure, attempts = xs ++ [x] ∧ job.CutOff (t.findFiles path) xs x failure r) := by
  intro job attempts r
  have hr : r = job.run path { tree := t } := runCommand_of_load path token host hload
  rw [hr]
  exact Job.run_cases ⟨rfl, rfl⟩ hfound

/-- A run over three files, two of them of one name. The second cannot be read, and the others get their ids. -/
theorem runCommand_attempts_three :
    let t : FileTree :=
      { files := [(["a", "x.xml"], Text.encode "<a/>".toList), (["b", "x.xml"], Text.encode "<b>".toList),
          (["c.xml"], Text.encode "<c/>".toList)]
        directories := [["a"], ["b"]] }
    let a : Arguments := { settings := [(.strategy, "path")] }
    let files : List Path := [{ parts := ["a", "x.xml"] }, { parts := ["b", "x.xml"] }, { parts := ["c.xml"] }]
    let job := jobOf .xml a { strategy := .path } "0" {}
    let attempts := job.attempts t files
    let r := runCommand .xml a "." "0" t
    Options.load (optionsFile t a) (overrides .xml a) = .ok { strategy := .path } ∧ t.findFiles "." = files ∧
      attempts.map (fun x => (x.source, x.succeeded)) = files.zip [true, false, true] ∧
      job.Completed files attempts r ∧ r.exitCode = 1 ∧ r.tree = Job.treeAfter t attempts ∧
      r.tree.fileAt? ["c.xml"] = some (Text.encode "<c data-ast-id=\"el-c-0\"/>".toList) := by
  intro t a files job attempts r
  have hload : Options.load (optionsFile t a) (overrides .xml a) = .ok { strategy := .path } := rfl
  have hfiles : t.findFiles "." = files := by
    rw [FileTree.findFiles_of_pairwise (l := []) (by decide +kernel) rfl rfl (by decide +kernel)]
    decide +kernel
  have hsucceeded : attempts.map (fun x => (x.source, x.succeeded)) = files.zip [true, false, true] := by decide +kernel
  have hgoes : attempts.all (fun x => x.crash.isNone) = true := by decide +kernel
  obtain ⟨htree, hend⟩ := @runCommand_attempts .xml a "." "0" t _ {} hload
    (by rw [hfiles]; exact List.cons_ne_nil _ _)
  rw [hfiles] at htree hend
  have hcompleted : job.Completed files attempts r := by
    refine hend.resolve_right ?_
    rintro ⟨xs, x, failure, hxs, hcut⟩
    have hx : x ∈ attempts := by
      rw [show attempts = xs ++ [x] from hxs]
      exact List.mem_concat_self
    have hnone := List.all_eq_true.mp hgoes x hx
    rw [hcut.failed] at hnone
    cases hnone
  have hcode : attempts.all Attempt.succeeded = false := by decide +kernel
  refine ⟨hload, hfiles, hsucceeded, hcompleted, ?_, htree, ?_⟩
  · rw [hcompleted.exitCode, hcode]
    rfl
  · rw [show r.tree = _ from htree]
    decide +kernel

/-- A document that cannot be read as HTML cuts a run off before the next file. -/
theorem runCommand_cut_off :
    let t : FileTree :=
      { files := [(["a.html"], Text.encode "<![x]>".toList), (["b.html"], Text.encode "<p>x</p>".toList)] }
    let a : Arguments := { settings := [(.strategy, "path")] }
    let job := jobOf .html a { strategy := .path } "0" {}
    let r := runCommand .html a "." "0" t
    Options.load (optionsFile t a) (overrides .html a) = .ok { strategy := .path } ∧
      t.findFiles "." = [{ parts := ["a.html"] }, { parts := ["b.html"] }] ∧
      (job.attempts t (t.findFiles ".")).map Attempt.source = [{ parts := ["a.html"] }] ∧
      r.crash.isSome = true ∧ r.output = "" := by
  intro t a job r
  have hload : Options.load (optionsFile t a) (overrides .html a) = .ok { strategy := .path } := rfl
  have hfound : t.findFiles "." = [{ parts := ["a.html"] }, { parts := ["b.html"] }] := by
    rw [FileTree.findFiles_of_pairwise (l := []) (by decide +kernel) rfl rfl (by decide +kernel)]
    decide +kernel
  have hrun : r = job.run "." { tree := t } := runCommand_of_load "." "0" {} hload
  have hfinished : r = job.finished (job.processAll { tree := t } [{ parts := ["a.html"] }, { parts := ["b.html"] }]) := by
    rw [hrun, Job.run_of_found (by rw [hfound]; exact List.cons_ne_nil _ _), hfound]
    rfl
  rw [hfinished, hfound]
  refine ⟨hload, rfl, ?_, ?_, ?_⟩ <;> decide +kernel

end Call

end MarkupIds
