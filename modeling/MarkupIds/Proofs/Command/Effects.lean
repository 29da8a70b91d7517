import MarkupIds.Proofs.Command.Output

/-! What a run leaves alone. Whatever becomes of a run, the only files that it changes are the destinations of the
attempts that succeed, and each destination holds the result of the last of them that went there. -/

namespace MarkupIds

/-- Where the result of an attempt stands, if it succeeded. -/
def Attempt.destination? (x : Attempt) : Option Location :=
  x.result.toOption.bind fun target => (x.after.place target).toOption

namespace Job

open FileTree

variable {job : Job} {t t' : FileTree} {source : Path} {xs : List Attempt} {x : Attempt}

theorem destination?_of_place {target : Path} {l : Location} (hresult : x.result = .ok target)
    (hplace : x.after.place target = .ok l) : x.destination? = some l := by
  simp [Attempt.destination?, hresult, hplace, Except.toOption]

theorem destination?_of_failed (h : x.succeeded = false) : x.destination? = none := by
  rw [Attempt.succeeded] at h
  cases hresult : x.result with
  | error problem => simp [Attempt.destination?, hresult, Except.toOption]
  | ok target =>
      rw [hresult] at h
      cases h

/-- The result of an attempt was made of the text of its file, and these are its bytes. -/
def MadeOf (job : Job) (x : Attempt) (bytes : List UInt8) : Prop :=
  ∃ text out, textOf x.before x.source = .ok text ∧
    (Document.process (job.formatOf x.source text) text job.options job.host).result = .ok out ∧ bytes = Text.encode out

theorem attempt_touches (job : Job) (t : FileTree) (source : Path) :
    ((job.attempt t source).succeeded = true ∧ ∃ l bytes,
      (job.attempt t source).destination? = some l ∧
      (job.attempt t source).after.place (targetFor source job.target) = .ok l ∧
      job.MadeOf (job.attempt t source) bytes ∧
      ∀ l', (job.attempt t source).after.fileAt? l' = if l' = l then some bytes else t.fileAt? l') ∨
    (job.attempt t source).succeeded = false ∧ (job.attempt t source).destination? = none ∧
      ∀ l', (job.attempt t source).after.fileAt? l' = t.fileAt? l' := by
  cases hsucceeded : (job.attempt t source).succeeded with
  | true =>
      left
      obtain ⟨text, out, htext, hdocument, hresult, hwrite⟩ := attempt_succeeded hsucceeded
      obtain ⟨l, hwritten⟩ := written_of_write hwrite
      refine ⟨rfl, l, Text.encode out, ?_, hwritten.place, ?_, hwritten.files⟩
      · exact destination?_of_place hresult hwritten.place
      · exact ⟨text, out, htext, hdocument, rfl⟩
  | false =>
      right
      exact ⟨rfl, destination?_of_failed hsucceeded, fileAt?_attempt_of_failed hsucceeded⟩

/-- The tree `t'` is what some attempts make of the tree `t`. -/
structure Settled (job : Job) (t : FileTree) (xs : List Attempt) (t' : FileTree) : Prop where
  untouched : ∀ l, (∀ x ∈ xs, x.destination? ≠ some l) → t'.fileAt? l = t.fileAt? l
  placed : ∀ x ∈ xs, x.succeeded = true →
    ∃ l, x.destination? = some l ∧ t'.place (targetFor x.source job.target) = .ok l
  delivered : ∀ ys x zs l, xs = ys ++ x :: zs → x.destination? = some l →
    (∀ z ∈ zs, z.destination? ≠ some l) → ∃ bytes, job.MadeOf x bytes ∧ t'.fileAt? l = some bytes

theorem Settled.cons (hgrows : Grows (job.attempt t source).after t')
    (h : job.Settled (job.attempt t source).after xs t') : job.Settled t (job.attempt t source :: xs) t' := by
  constructor
  · intro l hother
    obtain ⟨hfirst, hlater⟩ := List.forall_mem_cons.mp hother
    rw [h.untouched l hlater]
    rcases job.attempt_touches t source with ⟨-, l', bytes, hplace, -, -, hfiles⟩ | ⟨-, -, hfiles⟩
    · have hne : l ≠ l' := by
        intro heq
        apply hfirst
        rw [hplace, heq]
      rw [hfiles, if_neg hne]
    · exact hfiles l
  · intro x hx hsucceeded
    rcases List.mem_cons.mp hx with rfl | hx
    · rcases job.attempt_touches t source with ⟨-, l, bytes, hdestination, hplace, -⟩ | ⟨hfailed, -⟩
      · exact ⟨l, hdestination, hgrows.place hplace⟩
      · rw [hfailed] at hsucceeded
        cases hsucceeded
    · exact h.placed x hx hsucceeded
  · intro ys x zs l hsplit hdestination hother
    cases ys with
    | cons y ys => exact h.delivered ys x zs l (List.cons.inj hsplit).2 hdestination hother
    | nil =>
        obtain ⟨rfl, rfl⟩ := List.cons.inj hsplit
        rcases job.attempt_touches t source with ⟨-, l', bytes, hplace, -, hmade, hfiles⟩ | ⟨-, hnone, -⟩
        · obtain rfl : l' = l := Option.some.inj (hplace.symm.trans hdestination)
          refine ⟨bytes, hmade, ?_⟩
          rw [h.untouched _ hother, hfiles, if_pos rfl]
        · rw [hnone] at hdestination
          cases hdestination

end Job

namespace Run

end Run

end MarkupIds
