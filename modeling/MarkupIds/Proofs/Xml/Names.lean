import MarkupIds.Proofs.Xml.Elements
import MarkupIds.Proofs.Xml.TagSteps

/-! The names that elements have of their own. The prefix of an element is looked up by its namespace, which may be
bound to several names; where each is bound to one, an element has the name that its tag is written with. -/

namespace MarkupIds.Markup.Tag

def ownName (t : Tag) : String :=
  match t.nsPrefix with
  | none => t.name
  | some owner => if owner.isEmpty then t.name else owner ++ ":" ++ t.name

/-- The names that a tag binds to namespaces. -/
def bindings (t : Tag) : List (List Char × List Char) :=
  (t.attributes.filter fun a => a.uri == some (String.ofList Xml.xmlnsNamespace)).map fun a =>
    ((a.localName.getD "").toList, a.value.toList)

end MarkupIds.Markup.Tag

namespace MarkupIds.Xml

open MarkupIds.Markup (Tag)

/-- Each namespace is bound to one name. -/
def Scope.BindsOnce (all : Scope) : Prop := ∀ b ∈ all, ∀ b' ∈ all, b.2 = b'.2 → b.1 = b'.1

/-- A name that stands for a namespace is the one that is found for it. -/
theorem Scope.nameFor?_eq {all scope : Scope} (hall : all.BindsOnce) (hscope : ∀ b ∈ scope, b ∈ all)
    {name uri : List Char} (h : scope.uri? name = some uri) : scope.nameFor? uri = some name := by
  obtain ⟨found, -⟩ := Option.filter_eq_some_iff.mp h
  obtain ⟨b, hb, rfl⟩ := Option.map_eq_some_iff.mp found
  have hname : b.1 = name := by simpa using List.find?_some hb
  have hmem := List.mem_of_find?_eq_some hb
  cases hother : scope.find? fun b' => b'.2 == b.2 with
  | none => exact absurd (List.find?_eq_none.mp hother b hmem) (by simp)
  | some b' =>
      have huri : b'.2 = b.2 := by simpa using List.find?_some hother
      rw [nameFor?, hother, Option.map_some, hall b' (hscope _ (List.mem_of_find?_eq_some hother)) b (hscope b hmem) huri,
        hname]

theorem mem_bindings_bindingAttribute (b : List Char × List Char) {t : Tag} (h : bindingAttribute b ∈ t.attributes) :
    b ∈ t.bindings := by
  refine List.mem_map.mpr ⟨bindingAttribute b, List.mem_filter.mpr ⟨h, by simp [bindingAttribute]⟩, ?_⟩
  simp [bindingAttribute]

namespace Reading

/-- How an element gets its name and its prefix: from what is written, and from the scope at its tag. -/
structure Named (outer : Scope) (tag : Tag) (e : Open) : Prop where
  written : tag.written = String.ofList e.fullName
  name : tag.name = String.ofList e.name
  owner : e.owner ≠ some []
  uri : tag.uri = (e.scope.uri? (e.owner.getD [])).map String.ofList
  nsPrefix : tag.nsPrefix = ((e.scope.uri? (e.owner.getD [])).bind e.scope.nameFor?).map String.ofList
  bound : ∀ b ∈ e.scope, b ∈ tag.bindings ∨ b ∈ outer

variable {s t : State}

theorem owner_of_qualifiedName {owner : Option (List Char)} {name : List Char}
    (h : qualifiedName s = .ok ((owner, name), t)) : owner ≠ some [] := by
  have hmalformed {k : State} (h : (takeWhile isNameChar >>= fun _ => remaining >>= fun rest =>
      note (.nameMalformed (String.ofList (s.rest.take (s.rest.length - rest.length)))) >>= fun _ =>
        pure (none, s.rest.take (s.rest.length - rest.length))) k = .ok ((owner, name), t)) : owner ≠ some [] := by
    obtain ⟨run, m₁, -, h⟩ := bind_eq_ok.mp h
    rw [bind_remaining_apply, bind_note_apply] at h
    cases (pure_eq_ok.mp h).1
    exact (Option.some_ne_none _).symm
  unfold qualifiedName at h
  rw [bind_remaining_apply] at h
  obtain ⟨first, m, -, h⟩ := bind_eq_ok.mp h
  cases first with
  | nil =>
      simp only [bind_peek_apply, List.isEmpty_nil, Bool.true_and, Bool.not_true, Bool.false_and,
        Bool.false_eq_true, if_false, if_true] at h
      split at h
      next =>
        cases (pure_eq_ok.mp h).1
        exact (Option.some_ne_none _).symm
      next => exact hmalformed h
  | cons d first =>
      simp only [bind_peek_apply, List.isEmpty_cons, Bool.false_and, Bool.not_false, Bool.true_and,
        Bool.false_eq_true, if_false, if_true, bne_iff_ne, ne_eq] at h
      split at h
      next =>
        cases (pure_eq_ok.mp h).1
        exact (Option.some_ne_none _).symm
      next =>
        rw [bind_skip_apply] at h
        obtain ⟨second, k, -, h⟩ := bind_eq_ok.mp h
        rw [bind_peek_apply] at h
        split at h
        next => exact hmalformed h
        next =>
          cases (pure_eq_ok.mp h).1
          exact fun heq => List.cons_ne_nil _ _ (Option.some.inj heq)

theorem named_of_startTag {outer : Scope} {tag : Tag} {e : Open} {closed : Bool}
    (h : startTag outer s = .ok ((tag, e, closed), t)) : Named outer tag e := by
  unfold startTag at h
  rw [bind_get_apply, bind_skip_apply] at h
  obtain ⟨⟨owner, name⟩, m, hname, h⟩ := bind_eq_ok.mp h
  dsimp only at h
  split at h
  next => exact absurd h fail_eq_ok
  next =>
    rw [bind_docType_apply] at h
    obtain ⟨b, m₁, -, h⟩ := bind_eq_ok.mp h
    rw [bind_remaining_apply] at h
    obtain ⟨⟨written, bound⟩, m₂, -, h⟩ := bind_eq_ok.mp h
    obtain ⟨bound, m₃, -, h⟩ := bind_eq_ok.mp h
    obtain ⟨uris, m₄, -, h⟩ := bind_eq_ok.mp h
    obtain ⟨u, m₅, -, h⟩ := bind_eq_ok.mp h
    obtain ⟨u', m₆, -, h⟩ := bind_eq_ok.mp h
    have hclose {k : State} {tag' : Tag} {e' : Open} {cause : Cause} {check : Reading PUnit}
        (hnamed : Named outer tag' e') (h : (do
          check
          let closed ← accept ['/', '>']
          if closed then return (tag', e', closed)
          else
            expect ['>'] cause
            return (tag', e', closed) : Reading (Tag × Open × Bool)) k = .ok ((tag, e, closed), t)) :
        Named outer tag e := by
      obtain ⟨u, k', -, h⟩ := bind_eq_ok.mp h
      obtain ⟨closed', heq, -⟩ := (close_iff (f := fun closed => (tag', e', closed))).mp h
      cases heq
      exact hnamed
    have hnamed {attributes : List Markup.Attribute} (line : Nat) : Named outer
        { name := String.ofList name
          written := String.ofList ({ owner, name, line := m.line, scope := [] } : Open).fullName
          nsPrefix := (((bound ++ outer).uri? (owner.getD [])).bind (bound ++ outer).nameFor?).map String.ofList
          uri := ((bound ++ outer).uri? (owner.getD [])).map String.ofList
          attributes := attributes ++ bound.reverse.map bindingAttribute } ⟨owner, name, line, bound ++ outer⟩ := by
      refine ⟨rfl, rfl, owner_of_qualifiedName hname, rfl, rfl, fun b hb => ?_⟩
      refine (List.mem_append.mp hb).imp_left fun hbound => mem_bindings_bindingAttribute b ?_
      exact List.mem_append_right _ (List.mem_map_of_mem (List.mem_reverse.mpr hbound))
    cases owner with
    | none => exact hclose (hnamed _) h
    | some p =>
        obtain ⟨-, h⟩ | ⟨-, h⟩ := of_ite h
        · exact hclose (hnamed _) h
        · exact hclose (hnamed _) h

/-- The element of a tag has its name from a scope that is part of another. -/
def NamedIn (all : Scope) (tag : Tag) : Prop := ∃ outer e, Named outer tag e ∧ ∀ b ∈ e.scope, b ∈ all

def BindIn (all : Scope) (pieces : List Piece) : Prop := ∀ tag, .opening tag ∈ pieces → ∀ b ∈ tag.bindings, b ∈ all

theorem BindIn.tail {all : Scope} {piece : Piece} {pieces : List Piece} (h : BindIn all (piece :: pieces)) :
    BindIn all pieces := fun tag htag => h tag (List.mem_cons_of_mem _ htag)

theorem Named.scope {outer all : Scope} {tag : Tag} {e : Open} (h : Named outer tag e) (houter : ∀ b ∈ outer, b ∈ all)
    (htag : ∀ b ∈ tag.bindings, b ∈ all) : ∀ b ∈ e.scope, b ∈ all :=
  fun b hb => (h.bound b hb).elim (htag b) (houter b)

/-- The elements in the content have their names from what the tags before them bind. -/
theorem content_named {expand : Scope → List Char → List Char → Reading Unit}
    (hexpand : ∀ scope name text, Keeps (expand scope name text)) {outer all : Scope} {fuel : Nat} {stack : List Open}
    {pieces : List Piece} (h : content expand false outer fuel stack s = .ok (pieces, t))
    (houter : ∀ b ∈ outer, b ∈ all) (hstack : ∀ e ∈ stack, ∀ b ∈ e.scope, b ∈ all) (hall : BindIn all pieces) :
    ∀ tag, .opening tag ∈ pieces → NamedIn all tag := by
  induction fuel generalizing s stack pieces with
  | zero => exact absurd h fail_eq_ok
  | succ fuel ih =>
      have hother {piece : Piece} {more : List Piece} (hopening : piece.isOpening = false)
          (hmore : ∀ tag, .opening tag ∈ more → NamedIn all tag) :
          ∀ tag, .opening tag ∈ piece :: more → NamedIn all tag := by
        intro tag htag
        obtain rfl | htag := List.mem_cons.mp htag
        · cases hopening
        · exact hmore tag htag
      have hmore {x : Reading Piece} (hx : ∀ piece m, x s = .ok (piece, m) → piece.isOpening = false)
          (h : (do
            let piece ← x
            return piece :: (← content expand false outer fuel stack) : Reading (List Piece)) s = .ok (pieces, t)) :
          ∀ tag, .opening tag ∈ pieces → NamedIn all tag := by
        obtain ⟨piece, m, hpiece, h⟩ := bind_eq_ok.mp h
        obtain ⟨more, m', hmore, h⟩ := bind_eq_ok.mp h
        obtain ⟨rfl, rfl⟩ := pure_eq_ok.mp h
        exact hother (hx piece m hpiece) (ih hmore hstack hall.tail)
      unfold content at h
      dsimp only at h
      obtain ⟨hempty, h⟩ | ⟨-, h⟩ := of_ite h
      · obtain ⟨rfl, rfl⟩ := pure_eq_ok.mp h
        exact fun tag htag => by cases htag
      rw [bind_sees_apply] at h
      obtain ⟨hsection, h⟩ | ⟨-, h⟩ := of_ite h
      · refine hmore (fun piece m hpiece => ?_) h
        obtain ⟨-, kind, text, rfl⟩ := characterSection_eq_ok hpiece
        rfl
      rw [bind_sees_apply] at h
      obtain ⟨hcomment, h⟩ | ⟨-, h⟩ := of_ite h
      · refine hmore (fun piece m hpiece => ?_) h
        obtain ⟨-, kind, text, rfl⟩ := comment_eq_ok hpiece
        rfl
      rw [bind_remaining_apply] at h
      generalize hrest : s.rest = rest at h
      split at h
      next =>
        obtain ⟨rfl, rfl⟩ := pure_eq_ok.mp h
        exact fun tag htag => by cases htag
      next => exact absurd h fail_eq_ok
      next r =>
        refine hmore (fun piece m hpiece => ?_) h
        obtain ⟨-, kind, text, rfl⟩ := instruction_eq_ok hpiece
        rfl
      next => exact absurd h fail_eq_ok
      next r e stack =>
        obtain ⟨u, m, hclose, h⟩ := bind_eq_ok.mp h
        obtain ⟨more, m', hrun, h⟩ := bind_eq_ok.mp h
        obtain ⟨rfl, rfl⟩ := pure_eq_ok.mp h
        exact hother rfl (ih hrun (List.forall_mem_cons.mp hstack).2 hall.tail)
      next r _ _ =>
        obtain ⟨⟨tag, e, closed⟩, m, htag, h⟩ := bind_eq_ok.mp h
        have hnamed := named_of_startTag htag
        have hinside (hbind : ∀ b ∈ tag.bindings, b ∈ all) : ∀ b ∈ e.scope, b ∈ all := by
          refine hnamed.scope ?_ hbind
          cases stack with
          | nil => exact houter
          | cons e stack => exact hstack e List.mem_cons_self
        have hopening {more : List Piece} (hbind : BindIn all (.opening tag :: more))
            (hmore : ∀ tag, .opening tag ∈ more → NamedIn all tag) :
            ∀ tag', .opening tag' ∈ Piece.opening tag :: more → NamedIn all tag' := by
          intro tag' htag'
          obtain heq | htag' := List.mem_cons.mp htag'
          · cases heq
            exact ⟨_, e, hnamed, hinside (hbind tag List.mem_cons_self)⟩
          · exact hmore tag' htag'
        cases closed with
        | true =>
            obtain ⟨more, m', hrun, h⟩ := bind_eq_ok.mp h
            obtain ⟨rfl, rfl⟩ := pure_eq_ok.mp h
            exact hopening hall (hother rfl (ih hrun hstack hall.tail.tail))
        | false =>
            obtain ⟨more, m', hrun, h⟩ := bind_eq_ok.mp h
            obtain ⟨rfl, rfl⟩ := pure_eq_ok.mp h
            have hstack := List.forall_mem_cons.mpr ⟨hinside (hall tag List.mem_cons_self), hstack⟩
            exact hopening hall (ih hrun hstack hall.tail)
      next r _ _ =>
        refine hmore (fun piece m hpiece => ?_) h
        exact (reference_eq_ok (hexpand _) hpiece hrest).2.1
      next =>
        rw [bind_remaining_apply] at h
        obtain ⟨text, m, htext, h⟩ := bind_eq_ok.mp h
        obtain ⟨more, m', hrun, h⟩ := bind_eq_ok.mp h
        obtain ⟨rfl, rfl⟩ := pure_eq_ok.mp h
        exact hother rfl (ih hrun hstack hall.tail)

theorem root_named {all : Scope} {pieces : List Piece} (h : root s = .ok (pieces, t))
    (houter : ∀ b ∈ Scope.outermost, b ∈ all) (hall : BindIn all pieces) :
    ∀ tag, .opening tag ∈ pieces → NamedIn all tag := by
  unfold root at h
  obtain ⟨⟨tag, e, closed⟩, m, htag, h⟩ := bind_eq_ok.mp h
  have hnamed := named_of_startTag htag
  have hfirst (hbind : ∀ b ∈ tag.bindings, b ∈ all) : NamedIn all tag := ⟨_, e, hnamed, hnamed.scope houter hbind⟩
  cases closed with
  | true =>
      obtain ⟨rfl, rfl⟩ := pure_eq_ok.mp h
      intro tag' htag'
      obtain heq | htag' := List.mem_cons.mp htag'
      · cases heq
        exact hfirst (hall tag List.mem_cons_self)
      · cases List.mem_singleton.mp htag'
  | false =>
      dsimp only at h
      rw [if_neg Bool.false_ne_true, bind_docType_apply, bind_remaining_apply] at h
      obtain ⟨more, m', hcontent, h⟩ := bind_eq_ok.mp h
      obtain ⟨rfl, rfl⟩ := pure_eq_ok.mp h
      have hbind := hall tag List.mem_cons_self
      have hinside := hnamed.scope houter hbind
      intro tag' htag'
      obtain heq | htag' := List.mem_cons.mp htag'
      · cases heq
        exact hfirst hbind
      · exact content_named (keeps_entityContent _) hcontent houter (List.forall_mem_singleton.mpr hinside) hall.tail
          tag' htag'

/-- Of what stands around the outermost element nothing opens another. -/
theorem body_named {all : Scope} {pieces : List Piece} (h : body s = .ok (pieces, t))
    (houter : ∀ b ∈ Scope.outermost, b ∈ all) (hall : BindIn all pieces) :
    ∀ tag, .opening tag ∈ pieces → NamedIn all tag := by
  have hnone {around : List Piece} {before after : List Char} (h : PassedBy around before after) (tag : Tag) :
      .opening tag ∉ around := fun htag => by
    obtain ⟨kind, content, heq⟩ := h.texts _ htag
    cases heq
  obtain ⟨before, m, lead, k, inner, l, after, hbefore, hlead, -, hroot, hafter, -, rfl⟩ := body_iff.mp h
  intro tag htag
  obtain htag | htag := List.mem_append.mp htag
  · obtain htag | htag := List.mem_append.mp htag
    · obtain htag | htag := List.mem_append.mp htag
      · exact absurd htag (hnone (allAsides_eq_ok hbefore) tag)
      · exact absurd htag (hnone (typed_eq_ok hlead) tag)
    · refine root_named hroot houter (fun tag htag => hall tag ?_) tag htag
      exact List.mem_append_left _ (List.mem_append_right _ htag)
  · exact absurd htag (hnone (allAsides_eq_ok hafter) tag)

end Reading

open Reading (NamedIn)

namespace Contents

/-- The names that a document binds to namespaces. -/
def bindings (c : Contents) : Scope :=
  Scope.outermost ++ c.pieces.flatMap fun
    | .opening tag => tag.bindings
    | _ => []

/-- Each namespace has one name in the document, and a name in two parts is the name of an element in a namespace. -/
structure NamesOnce (c : Contents) : Prop where
  once : c.bindings.BindsOnce
  known : ∀ tag, .opening tag ∈ c.pieces → tag.uri = none → ':' ∉ tag.written.toList

end Contents

theorem namedIn_of_read {source : List Char} {contents : Contents} (h : read source = .ok contents) {tag : Tag}
    (htag : .opening tag ∈ contents.pieces) : NamedIn contents.bindings tag := by
  obtain ⟨s, hdocument, -⟩ := exists_document_of_read h
  obtain ⟨-, m, -, hbody⟩ := Reading.document_iff.mp hdocument
  refine Reading.body_named hbody (fun b hb => List.mem_append_left _ hb) (fun tag htag b hb => ?_) tag htag
  exact List.mem_append_right _ (List.mem_flatMap.mpr ⟨_, htag, hb⟩)

/-- Where each namespace has one name, elements have the names that their tags are written with. -/
theorem ownName_of_read {source : List Char} {contents : Contents} (h : read source = .ok contents)
    (hnames : contents.NamesOnce) {tag : Tag} (htag : .opening tag ∈ contents.pieces) : tag.ownName = tag.written := by
  obtain ⟨outer, e, hnamed, hscope⟩ := namedIn_of_read h htag
  cases huri : e.scope.uri? (e.owner.getD []) with
  | none =>
      have hnone : tag.nsPrefix = none := by rw [hnamed.nsPrefix, huri]; rfl
      have hplain := hnames.known tag htag (by rw [hnamed.uri, huri]; rfl)
      rw [Tag.ownName, hnone, hnamed.name, hnamed.written]
      cases howner : e.owner with
      | none => rw [Open.fullName, howner]
      | some owner =>
          rw [hnamed.written, Open.fullName, howner] at hplain
          simp at hplain
  | some uri =>
      have hfound : tag.nsPrefix = some (String.ofList (e.owner.getD [])) := by
        rw [hnamed.nsPrefix, huri, Option.bind_some, Scope.nameFor?_eq hnames.once hscope huri, Option.map_some]
      rw [Tag.ownName, hfound, hnamed.name, hnamed.written, Open.fullName]
      cases howner : e.owner with
      | none => rfl
      | some owner =>
          have hne : owner ≠ [] := by
            rintro rfl
            exact hnamed.owner howner
          simp [hne, String.ofList_append, String.append_assoc]

/-- A namespace with two names has the one that was bound last. -/
example : (read "<l:a xmlns:l='u' xmlns:k='v' xmlns:m='v'><k:b/></l:a>".toList).toOption.map (fun c =>
    c.pieces.filterMap fun
      | .opening tag => some (tag.written, tag.ownName)
      | _ => none) = some [("l:a", "l:a"), ("k:b", "m:b")] := by decide +kernel

end MarkupIds.Xml
