import MarkupIds.Proofs.Command.Batch
import MarkupIds.Proofs.Files.Write

/-! Where a run with an output directory puts its results: each under the bare name of its file. Files of one name
share a place, where the result for the last of them stays. -/

namespace MarkupIds

namespace Job

open FileTree

section Attempt

variable {job : Job} {t : FileTree} {source d : Path}

theorem plain_targetFor {target : Option Path} (hsource : source.Plain) (htarget : ∀ d ∈ target, d.Plain) :
    (targetFor source target).Plain := by
  cases target with
  | none => exact hsource
  | some d => exact (htarget d rfl).child source.name

/-- What an attempt that succeeds has read and written. -/
theorem attempt_succeeded (h : (job.attempt t source).succeeded = true) :
    ∃ text out, textOf t source = .ok text ∧
      (Document.process (job.formatOf source text) text job.options job.host).result = .ok out ∧
      (job.attempt t source).result = .ok (targetFor source job.target) ∧
      t.write (targetFor source job.target) out job.token = ((job.attempt t source).after, .ok ()) := by
  rw [Attempt.succeeded] at h
  obtain ⟨problem, -, hresult, -⟩ | ⟨text, htext, ⟨failure, -, hresult, -⟩ |
    ⟨out, t', result, hdocument, hwrite, hafter, hresult⟩⟩ := job.attempt_cases t source
  · rw [hresult] at h
    cases h
  · rw [hresult] at h
    cases h
  · cases result with
    | error fault =>
        rw [hresult] at h
        cases h
    | ok _ =>
        rw [hafter]
        exact ⟨text, out, htext, hdocument, hresult, hwrite⟩

/-- An attempt that fails changes no file. -/
theorem fileAt?_attempt_of_failed (h : (job.attempt t source).succeeded = false) (l : Location) :
    (job.attempt t source).after.fileAt? l = t.fileAt? l := by
  rw [Attempt.succeeded] at h
  obtain ⟨problem, -, -, hafter⟩ | ⟨text, -, ⟨failure, -, -, hafter⟩ |
    ⟨out, t', result, -, hwrite, hafter, hresult⟩⟩ := job.attempt_cases t source
  · rw [hafter]
  · rw [hafter]
  · cases result with
    | error fault =>
        rw [hafter]
        exact fileAt?_of_write_error hwrite l
    | ok _ =>
        rw [hresult] at h
        cases h

theorem after_attempt_cases (job : Job) (t : FileTree) (source : Path) :
    (job.attempt t source).after = t ∨
      ∃ out, (job.attempt t source).after = (t.write (targetFor source job.target) out job.token).1 := by
  obtain ⟨problem, -, -, hafter⟩ | ⟨text, -, ⟨failure, -, -, hafter⟩ |
    ⟨out, t', result, -, hwrite, hafter, -⟩⟩ := job.attempt_cases t source
  · exact .inl hafter
  · exact .inl hafter
  · exact .inr ⟨out, hafter.trans (congrArg Prod.fst hwrite).symm⟩

theorem grows_attempt (job : Job) (t : FileTree) (source : Path) : Grows t (job.attempt t source).after := by
  obtain hafter | ⟨out, hafter⟩ := job.after_attempt_cases t source
  · rw [hafter]
    exact Grows.refl t
  · rw [hafter]
    exact t.grows_write ..

theorem sound_attempt (h : t.Sound) (hsource : source.Plain) (htarget : ∀ d ∈ job.target, d.Plain) :
    (job.attempt t source).after.Sound := by
  obtain hafter | ⟨out, hafter⟩ := job.after_attempt_cases t source
  · rw [hafter]
    exact h
  · rw [hafter]
    exact h.write (plain_targetFor hsource htarget)

/-- A file that can be read has a proper name. -/
theorem isName_of_textOf {text : List Char} (h : t.Sound) (hsource : source.Plain) (htext : textOf t source = .ok text) :
    IsName source.name := by
  unfold textOf at htext
  split at htext
  next => cases htext
  next bytes hread =>
    unfold FileTree.read at hread
    cases hplace : t.place source with
    | error fault =>
        rw [hplace] at hread
        cases hread
    | ok l =>
        rw [hplace] at hread
        have hfile : t.isFileAt l = true := by
          cases hbytes : t.fileAt? l with
          | none =>
              simp only [hbytes, bind, Except.bind] at hread
              cases hread
          | some bytes => rw [isFileAt, hbytes, Option.isSome_some]
        have hnot : t.isDirectoryAt l = false := by
          by_contra hdirectory
          rw [Bool.not_eq_false] at hdirectory
          rw [h.apart l hdirectory] at hfile
          cases hfile
        obtain ⟨m, -, -, hname, -⟩ := h.exists_name hplace hnot hsource.not_mem_name
        exact hname

/-- An attempt that succeeds puts its result into the directory, under the name of its file. -/
theorem written_attempt (h : t.Sound) (hsource : source.Plain) (hd : d.Plain) (htarget : job.target = some d)
    (hsucceeded : (job.attempt t source).succeeded = true) :
    ∃ text out directory, textOf t source = .ok text ∧
      (Document.process (job.formatOf source text) text job.options job.host).result = .ok out ∧
      (job.attempt t source).after.place d = .ok directory ∧
      Written t (job.attempt t source).after (targetFor source job.target) (Text.encode out)
        (directory ++ [source.name]) := by
  obtain ⟨text, out, htext, hdocument, -, hwrite⟩ := attempt_succeeded hsucceeded
  have htargets : ∀ d ∈ job.target, d.Plain := by
    rw [htarget]
    simpa using hd
  have hplain := plain_targetFor hsource htargets
  have hname := isName_of_textOf h hsource htext
  have hchild : targetFor source job.target = { d with parts := d.parts ++ [source.name] } := by
    rw [htarget]
    exact d.child_of_isName hname
  obtain ⟨l, hwritten⟩ := written_of_write hwrite
  obtain ⟨directory, hplace, -, -, hl⟩ := (sound_attempt h hsource htargets).exists_name
    hwritten.place hwritten.directory hplain.not_mem_name
  have hparent : (targetFor source job.target).parent = d := by
    rw [hchild, Path.parent, List.dropLast_concat]
  have hlast : (targetFor source job.target).name = source.name := by
    rw [hchild, Path.name, List.getLast?_concat, Option.getD_some]
  rw [hparent] at hplace
  rw [hlast] at hl
  exact ⟨text, out, directory, htext, hdocument, hplace, hl ▸ hwritten⟩

end Attempt

section Attempts

variable {job : Job} {t : FileTree} {files : List Path}

/-- Behind each attempt the work goes on in the tree that it has left. What every attempt keeps holds before it. -/
theorem attempts_split {P : FileTree → Prop} (step : ∀ t, ∀ source ∈ files, P t → P (job.attempt t source).after)
    (h : P t) {xs zs : List Attempt} {x : Attempt} (hsplit : job.attempts t files = xs ++ x :: zs) :
    P x.before ∧ x = job.attempt x.before x.source ∧ x.source ∈ files ∧
      ∃ rest ⊆ files, zs = job.attempts x.after rest := by
  induction files generalizing t xs with
  | nil => cases xs <;> cases hsplit
  | cons source rest ih =>
      rw [attempts] at hsplit
      split at hsplit
      next =>
        cases xs with
        | nil =>
            obtain ⟨rfl, rfl⟩ := List.cons.inj hsplit
            exact ⟨h, rfl, List.mem_cons_self, [], List.nil_subset _, rfl⟩
        | cons y xs => cases xs <;> cases (List.cons.inj hsplit).2
      next =>
        cases xs with
        | nil =>
            obtain ⟨rfl, rfl⟩ := List.cons.inj hsplit
            exact ⟨h, rfl, List.mem_cons_self, rest, List.subset_cons_self _ _, rfl⟩
        | cons y xs =>
            obtain ⟨hbefore, hx, hsource, later, hlater, hzs⟩ :=
              ih (fun t source hsource => step t source (List.mem_cons_of_mem _ hsource))
                (step t source List.mem_cons_self h) (List.cons.inj hsplit).2
            exact ⟨hbefore, hx, List.mem_cons_of_mem _ hsource, later, List.subset_cons_of_subset _ hlater, hzs⟩

theorem grows_treeAfter (job : Job) (t : FileTree) (files : List Path) : Grows t (treeAfter t (job.attempts t files)) := by
  induction files generalizing t with
  | nil => exact Grows.refl t
  | cons source rest ih =>
      rw [attempts]
      split
      next => exact job.grows_attempt t source
      next =>
        rw [treeAfter_cons]
        exact (job.grows_attempt t source).trans (ih _)

/-- The result for a file stands in the output directory under the file's name. It was made of the text that the file
had when its turn came. -/
structure Delivered (job : Job) (d : Path) (t : FileTree) (x : Attempt) (directory : Location) (text out : List Char) :
    Prop where
  inside : t.place d = .ok directory
  target : x.result = .ok (targetFor x.source job.target)
  place : t.place (targetFor x.source job.target) = .ok (directory ++ [x.source.name])
  read : textOf x.before x.source = .ok text
  document : (Document.process (job.formatOf x.source text) text job.options job.host).result = .ok out

theorem treeAfter_append_cons (t : FileTree) (xs : List Attempt) (x : Attempt) (zs : List Attempt) :
    treeAfter t (xs ++ x :: zs) = treeAfter x.after zs := by
  induction xs generalizing t with
  | nil => exact treeAfter_cons t x zs
  | cons y xs ih => rw [List.cons_append, treeAfter_cons, ih]

variable {d : Path} (hd : d.Plain) (htarget : job.target = some d)
include hd htarget

/-- An attempt leaves alone what has another name in the output directory. -/
theorem fileAt?_attempt (h : t.Sound) {source : Path} (hsource : source.Plain) {directory : Location}
    (hplace : t.place d = .ok directory) {n : String}
    (hother : (job.attempt t source).succeeded = true → source.name ≠ n) :
    (job.attempt t source).after.fileAt? (directory ++ [n]) = t.fileAt? (directory ++ [n]) := by
  cases hsucceeded : (job.attempt t source).succeeded with
  | false => exact fileAt?_attempt_of_failed hsucceeded _
  | true =>
      obtain ⟨text, out, directory', -, -, hplace', hwritten⟩ := written_attempt h hsource hd htarget hsucceeded
      have hsame := ((job.grows_attempt t source).place hplace).symm.trans hplace'
      obtain rfl := Except.ok.inj hsame
      rw [hwritten.files, if_neg]
      intro heq
      exact hother hsucceeded (List.singleton_inj.mp (List.append_cancel_left heq)).symm

theorem fileAt?_treeAfter (h : t.Sound) (hfiles : ∀ p ∈ files, p.Plain) {directory : Location}
    (hplace : t.place d = .ok directory) {n : String}
    (hother : ∀ z ∈ job.attempts t files, z.succeeded = true → z.source.name ≠ n) :
    (treeAfter t (job.attempts t files)).fileAt? (directory ++ [n]) = t.fileAt? (directory ++ [n]) := by
  induction files generalizing t with
  | nil => rfl
  | cons source rest ih =>
      obtain ⟨hsource, hrest⟩ := List.forall_mem_cons.mp hfiles
      rw [attempts] at hother ⊢
      split
      next hcrash =>
        rw [if_pos hcrash] at hother
        exact fileAt?_attempt hd htarget h hsource hplace (hother _ List.mem_cons_self)
      next hgoes =>
        rw [if_neg hgoes] at hother
        obtain ⟨hfirst, hlater⟩ := List.forall_mem_cons.mp hother
        have htargets : ∀ d ∈ job.target, d.Plain := by
          rw [htarget]
          simpa using hd
        rw [treeAfter_cons, ih (sound_attempt h hsource htargets) hrest ((job.grows_attempt t source).place hplace) hlater,
          fileAt?_attempt hd htarget h hsource hplace hfirst]

/-- An attempt that succeeds delivers its result, which stays unless a later one of the same name succeeds. -/
theorem exists_delivered (h : t.Sound) (hfiles : ∀ p ∈ files, p.Plain) {xs zs : List Attempt} {x : Attempt}
    (hsplit : job.attempts t files = xs ++ x :: zs) (hsucceeded : x.succeeded = true) :
    ∃ directory text out, job.Delivered d (treeAfter t (job.attempts t files)) x directory text out ∧
      ((∀ z ∈ zs, z.succeeded = true → z.source.name ≠ x.source.name) →
        (treeAfter t (job.attempts t files)).fileAt? (directory ++ [x.source.name]) = some (Text.encode out)) := by
  have htargets : ∀ d ∈ job.target, d.Plain := by
    rw [htarget]
    simpa using hd
  obtain ⟨hbefore, hx, hsource, rest, hrest, rfl⟩ := attempts_split (P := Sound)
    (fun t source hsource h => sound_attempt h (hfiles source hsource) htargets) h hsplit
  have hplain := hfiles x.source hsource
  rw [hx] at hsucceeded
  obtain ⟨text, out, directory, htext, hdocument, hplace, hwritten⟩ :=
    written_attempt hbefore hplain hd htarget hsucceeded
  obtain ⟨-, -, -, -, hresult, -⟩ := attempt_succeeded hsucceeded
  rw [← hx] at hplace hwritten hresult
  have hafter : x.after.Sound := by
    rw [hx]
    exact sound_attempt hbefore hplain htargets
  have hgrows := job.grows_treeAfter x.after rest
  rw [hsplit, treeAfter_append_cons]
  refine ⟨directory, text, out,
    ⟨hgrows.place hplace, hresult, hgrows.place hwritten.place, htext, hdocument⟩, fun hother => ?_⟩
  rw [fileAt?_treeAfter hd htarget hafter (fun p hp => hfiles p (hrest hp)) hplace hother, hwritten.files, if_pos rfl]

end Attempts

end Job

namespace Call

theorem tree_runCommand {c : Command} {a : Arguments} {t : FileTree} {options : Options} (path token : String)
    (host : Host) (hload : Options.load (optionsFile t a) (overrides c a) = .ok options) :
    (runCommand c a path token t host).tree =
      Job.treeAfter t ((jobOf c a options token host).attempts t (t.findFiles path)) := by
  rw [runCommand_of_load path token host hload]
  by_cases hfound : t.findFiles path = []
  · rw [hfound, Job.run]
    simp only [hfound]
    rfl
  · exact (Job.run_cases (r := { tree := t }) ⟨rfl, rfl⟩ hfound).1

/-- With an output directory, each file that gets its ids has its result delivered there under its bare name, so that two
files share a destination exactly if they share their name. The result for the last file of a name is what stands there
after the run. -/
theorem runCommand_delivers {c : Command} {a : Arguments} {path token value : String} {t : FileTree} {options : Options}
    {host : Host} (hsound : t.Sound) (hload : Options.load (optionsFile t a) (overrides c a) = .ok options)
    (houtput : a.value? .output = some value) :
    let job := jobOf c a options token host
    let attempts := job.attempts t (t.findFiles path)
    let r := runCommand c a path token t host
    (∀ xs x zs, attempts = xs ++ x :: zs → x.succeeded = true →
      ∃ directory text out, job.Delivered (Path.ofString value) r.tree x directory text out ∧
        ((∀ z ∈ zs, z.succeeded = true → z.source.name ≠ x.source.name) →
          r.tree.fileAt? (directory ++ [x.source.name]) = some (Text.encode out))) ∧
      ∀ x ∈ attempts, ∀ y ∈ attempts, x.succeeded = true → y.succeeded = true →
        (r.tree.place (Job.targetFor x.source job.target) = r.tree.place (Job.targetFor y.source job.target) ↔
          x.source.name = y.source.name) := by
  intro job attempts r
  have htree : r.tree = Job.treeAfter t attempts := tree_runCommand path token host hload
  have htarget : job.target = some (Path.ofString value) := congrArg (Option.map Path.ofString) houtput
  have hdelivered {xs zs : List Attempt} {x : Attempt} (hsplit : attempts = xs ++ x :: zs)
      (hsucceeded : x.succeeded = true) := Job.exists_delivered (Path.plain_ofString value) htarget hsound
    (fun p hp => hsound.plain_of_mem_findFiles hp) hsplit hsucceeded
  rw [htree]
  refine ⟨fun xs x zs hsplit hsucceeded => hdelivered hsplit hsucceeded, ?_⟩
  intro x hx y hy hxs hys
  obtain ⟨xs, zs, hsplit⟩ := List.append_of_mem hx
  obtain ⟨xs', zs', hsplit'⟩ := List.append_of_mem hy
  obtain ⟨directory, text, out, hdx, -⟩ := hdelivered hsplit hxs
  obtain ⟨directory', text', out', hdy, -⟩ := hdelivered hsplit' hys
  obtain rfl : directory = directory' := Except.ok.inj (hdx.inside.symm.trans hdy.inside)
  rw [hdx.place, hdy.place, Except.ok.injEq, List.append_cancel_left_eq, List.singleton_inj]

/-- A run over four files of which one fails. Two others share a name, and the later of them has its result in place;
the last has a name of its own. -/
theorem runCommand_delivers_four :
    let t : FileTree :=
      { files := [(["a", "x.xml"], Text.encode "<a/>".toList), (["b", "x.xml"], Text.encode "<b/>".toList),
          (["b", "y.xml"], Text.encode "<b>".toList), (["z.xml"], Text.encode "<z/>".toList)]
        directories := [["a"], ["b"]] }
    let a : Arguments := { settings := [(.strategy, "path"), (.output, "out")] }
    let files : List Path :=
      [{ parts := ["a", "x.xml"] }, { parts := ["b", "x.xml"] }, { parts := ["b", "y.xml"] }, { parts := ["z.xml"] }]
    let job := jobOf .xml a { strategy := .path } "0" {}
    let attempts := job.attempts t files
    let r := runCommand .xml a "." "0" t
    t.Sound ∧ Options.load (optionsFile t a) (overrides .xml a) = .ok { strategy := .path } ∧
      a.value? .output = some "out" ∧ t.findFiles "." = files ∧
      attempts.map (fun x => (x.source, x.succeeded)) = files.zip [true, true, false, true] ∧
      (∀ xs x zs, attempts = xs ++ x :: zs → x.succeeded = true →
        ∃ directory text out, job.Delivered (Path.ofString "out") r.tree x directory text out ∧
          ((∀ z ∈ zs, z.succeeded = true → z.source.name ≠ x.source.name) →
            r.tree.fileAt? (directory ++ [x.source.name]) = some (Text.encode out))) ∧
        (∀ x ∈ attempts, ∀ y ∈ attempts, x.succeeded = true → y.succeeded = true →
          (r.tree.place (Job.targetFor x.source job.target) = r.tree.place (Job.targetFor y.source job.target) ↔
            x.source.name = y.source.name)) ∧
        r.tree.fileAt? ["out", "x.xml"] = some (Text.encode "<b data-ast-id=\"el-b-0\"/>".toList) ∧
        r.tree.fileAt? ["out", "z.xml"] = some (Text.encode "<z data-ast-id=\"el-z-0\"/>".toList) := by
  intro t a files job attempts r
  have hsound : t.Sound := FileTree.sound_of_forall (by decide +kernel) (by decide +kernel) rfl
  have hload : Options.load (optionsFile t a) (overrides .xml a) = .ok { strategy := .path } := rfl
  have houtput : a.value? .output = some "out" := rfl
  have hfiles : t.findFiles "." = files := by
    rw [FileTree.findFiles_of_pairwise (l := []) (by decide +kernel) rfl rfl (by decide +kernel)]
    decide +kernel
  have htree : r.tree = Job.treeAfter t attempts := by
    have htree := tree_runCommand "." "0" {} hload
    rwa [hfiles] at htree
  have hdelivers := @runCommand_delivers .xml a "." "0" "out" t _ {} hsound hload houtput
  rw [hfiles] at hdelivers
  refine ⟨hsound, hload, houtput, hfiles, by decide +kernel, hdelivers.1, hdelivers.2, ?_, ?_⟩ <;>
    rw [htree] <;> decide +kernel

/-- Two files of one name get their ids in one run, and the result for the first of them is lost. -/
theorem runCommand_loses :
    let t : FileTree :=
      { files := [(["a", "x.xml"], Text.encode "<a/>".toList), (["b", "x.xml"], Text.encode "<b/>".toList)]
        directories := [["a"], ["b"]] }
    let a : Arguments := { settings := [(.strategy, "path"), (.output, "out")] }
    let job := jobOf .xml a { strategy := .path } "0" {}
    let attempts := job.attempts t (t.findFiles ".")
    let r := runCommand .xml a "." "0" t
    t.Sound ∧ Options.load (optionsFile t a) (overrides .xml a) = .ok { strategy := .path } ∧
      attempts.map (fun x => (x.source, x.result.toOption)) =
        [({ parts := ["a", "x.xml"] }, some { parts := ["out", "x.xml"] }),
          ({ parts := ["b", "x.xml"] }, some { parts := ["out", "x.xml"] })] ∧
      r.tree.fileAt? ["out", "x.xml"] = some (Text.encode "<b data-ast-id=\"el-b-0\"/>".toList) ∧
      r.exitCode = 0 := by
  intro t a job attempts r
  have hsound : t.Sound := FileTree.sound_of_forall (by decide +kernel) (by decide +kernel) rfl
  have hload : Options.load (optionsFile t a) (overrides .xml a) = .ok { strategy := .path } := rfl
  have hfound : t.findFiles "." = [{ parts := ["a", "x.xml"] }, { parts := ["b", "x.xml"] }] := by
    rw [FileTree.findFiles_of_pairwise (l := []) (by decide +kernel) rfl rfl (by decide +kernel)]
    decide +kernel
  have hfinished : r = job.finished
      (job.processAll { tree := t } [{ parts := ["a", "x.xml"] }, { parts := ["b", "x.xml"] }]) := by
    have hrun : r = job.run "." { tree := t } := runCommand_of_load "." "0" {} hload
    rw [hrun, Job.run_of_found (by rw [hfound]; exact List.cons_ne_nil _ _), hfound]
    rfl
  have hattempts : attempts = job.attempts t [{ parts := ["a", "x.xml"] }, { parts := ["b", "x.xml"] }] :=
    congrArg (job.attempts t) hfound
  rw [hfinished, hattempts]
  refine ⟨hsound, hload, ?_, ?_, ?_⟩ <;> decide +kernel

end Call

end MarkupIds
