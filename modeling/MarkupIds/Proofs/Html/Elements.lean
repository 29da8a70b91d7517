import MarkupIds.Html.Assign
import MarkupIds.Proofs.Html.Rewriting
import MarkupIds.Proofs.Html.Written

/-! Start tags in the midst of other text. A tag that is written legibly is located exactly as it stands there, whatever
its values hold, and the edit for its element takes out the attributes of the name and puts in one for the id. Where the
start tags of a document are written plainly, every element is found at its own, the edits are one for each id, and the
run ends well. -/

namespace MarkupIds.Markup

namespace Numbered

mutual

theorem map_tag_ofNode (outer : List Nat) (rank : Nat) : (node : Node) →
    (ofNode outer rank node).map (·.tag) = node.tags
  | .element tag children => by
      rw [ofNode, List.map_cons, map_tag_listFrom, Node.tags]
  | .text .. => rfl

theorem map_tag_listFrom (outer : List Nat) (rank : Nat) : (nodes : List Node) →
    (listFrom outer rank nodes).map (·.tag) = Node.tagsOf nodes
  | [] => rfl
  | node :: rest => by
      rw [listFrom, List.map_append, map_tag_ofNode, map_tag_listFrom, Node.tagsOf]

end

end Numbered

end MarkupIds.Markup

namespace MarkupIds.Html

open MarkupIds.Markup (Node Tag Numbered)
open MarkupIds.Text (Position)

namespace WrittenTag

def kept (o : Options) (t : WrittenTag) : List WrittenAttribute :=
  if o.overwrite then t.items.filter (!·.hasName o.attr) else t.items

theorem text_withId (o : Options) (t : WrittenTag) (id : List Char) :
    (t.withId o.overwrite o.attr id).text =
      '<' :: (t.name ++ ((t.kept o).flatMap WrittenAttribute.text ++ Markup.written o.attr (Markup.escape id)) ++
        (t.blanks ++ closing t.closed)) := by
  have hitems : (t.withId o.overwrite o.attr id).items = t.kept o ++ [.ofId o.attr id] := rfl
  rw [text, parts, hitems, List.flatMap_append, List.flatMap_singleton, WrittenAttribute.text_ofId]
  rfl

theorem Legible.editFor_eq {t : WrittenTag} (ht : t.Legible) (o : Options) (before after : List Char) {starts : List Nat}
    {e : Numbered} (hstart : Text.offsetIn starts e.tag.position = before.length)
    (hname : String.ofList (Text.lower t.name) = e.tag.name) (id : String) :
    editFor o (before ++ (t.text ++ after)) starts e id =
      .ok ⟨before.length, before.length + t.text.length, (t.withId o.overwrite o.attr id.toList).text⟩ := by
  have hsame : (String.ofList (Text.lower t.parts.name) == e.tag.name) = true := beq_iff_eq.mpr hname
  simp only [editFor, hstart, List.drop_left, ht.read?_eq, hsame, if_true, ht.parts_withId]
  rfl

end WrittenTag

/-- A legible start tag is found at its bracket with all its parts, whatever stands before and behind it. Its text with
an id is the old one without the attributes of that name, in whatever case, where they are overwritten, and with one
attribute for the id before the end; this is what the edit for its element puts in the place of the tag. -/
theorem editFor_legible {t : WrittenTag} (ht : t.Legible) (before after : List Char) (o : Options) (id : String) :
    let source := before ++ (t.text ++ after)
    let new := '<' :: (t.name ++ ((t.kept o).flatMap WrittenAttribute.text ++
      Markup.written o.attr (Markup.escape id.toList)) ++ (t.blanks ++ closing t.closed))
    StartTag.read? (source.drop before.length) =
        some ⟨t.name, t.items.flatMap WrittenAttribute.text, t.blanks ++ closing t.closed⟩ ∧
      (t.parts.withId o.overwrite o.attr id.toList).text = new ∧
      ∀ (starts : List Nat) (e : Numbered), Text.offsetIn starts e.tag.position = before.length →
        String.ofList (Text.lower t.name) = e.tag.name →
        editFor o source starts e id = .ok ⟨before.length, before.length + t.text.length, new⟩ := by
  intro source new
  have hnew : (t.withId o.overwrite o.attr id.toList).text = new := t.text_withId o id.toList
  refine ⟨?_, ?_, ?_⟩
  · rw [List.drop_left]
    exact ht.read?_eq after
  · rw [ht.parts_withId]
    exact hnew
  · intro starts e hstart hname
    rw [← hnew]
    exact ht.editFor_eq o before after hstart hname id

/-- A tag with brackets, slashes and lookalikes of attributes in its values. -/
theorem editFor_legible_lookalikes :
    let t : WrittenTag :=
      ⟨"x-1".toList,
        [⟨['\n'], "title".toList, some { quote := some '\'', content := "a/> id=\"2\"".toList }⟩,
          ⟨[' '], "ID".toList, some { before := [' '], behind := ['\t'], quote := some '"', content := "<1>".toList }⟩,
          ⟨[' ', ' '], "hidden".toList, none⟩], [' '], true⟩
    let o : Options := { attr := "id".toList, overwrite := true }
    let source := "<p>".toList ++ (t.text ++ "\"</p>".toList)
    let new := '<' :: (t.name ++ ((t.kept o).flatMap WrittenAttribute.text ++
      Markup.written o.attr (Markup.escape "el-1".toList)) ++ (t.blanks ++ closing t.closed))
    t.Legible ∧ new = "<x-1\ntitle='a/> id=\"2\"'  hidden id=\"el-1\" />".toList ∧
      StartTag.read? (source.drop "<p>".toList.length) =
        some ⟨t.name, t.items.flatMap WrittenAttribute.text, t.blanks ++ closing t.closed⟩ ∧
      (t.parts.withId o.overwrite o.attr "el-1".toList).text = new ∧
      ∀ (starts : List Nat) (e : Numbered), Text.offsetIn starts e.tag.position = "<p>".toList.length →
        String.ofList (Text.lower t.name) = e.tag.name →
        editFor o source starts e "el-1" =
          .ok ⟨"<p>".toList.length, "<p>".toList.length + t.text.length, new⟩ := by
  intro t o source new
  have hvalue {v : WrittenValue} {q : Char} (hbefore : v.before.all Text.isBlank = true)
      (hbehind : v.behind.all Text.isBlank = true) (hquote : v.quote = some q) (hq : q = '"' ∨ q = '\'')
      (hcontent : q ∉ v.content) : v.Plain := by
    refine ⟨hbefore, hbehind, ?_, ?_⟩
    · intro q' hq'
      obtain rfl := Option.some.inj (hquote.symm.trans hq')
      exact ⟨hq, hcontent⟩
    · intro hnone
      rw [hquote] at hnone
      cases hnone
  have hitems : ∀ a ∈ t.items, a.Plain := by
    simp only [t, List.forall_mem_cons]
    refine ⟨⟨by decide, by decide, by decide, by decide, ?_⟩, ⟨by decide, by decide, by decide, by decide, ?_⟩,
      ⟨by decide, by decide, by decide, by decide, nofun⟩, List.forall_mem_nil _⟩
    · intro v hv
      cases hv
      exact hvalue (by decide) (by decide) rfl (.inr rfl) (by decide)
    · intro v hv
      cases hv
      exact hvalue (by decide) (by decide) rfl (.inl rfl) (by decide)
  have ht : t.Legible := ⟨by decide, by decide, hitems, by decide⟩
  exact ⟨ht, by decide +kernel, editFor_legible ht _ _ o _⟩

theorem filterMap_tagAt?_eq_nil {tokens : List (Position × Token)} (h : ∀ t ∈ tokens, t.2.isTag = false) :
    tokens.filterMap (fun t => Builder.tagAt? t.1 t.2) = [] := by
  refine List.filterMap_eq_nil_iff.mpr fun t ht => ?_
  have hno := h t ht
  obtain ⟨p, token⟩ := t
  cases token with
  | opening name attributes closed => cases hno
  | closing name => rfl
  | text content => rfl
  | special kind content => rfl

theorem filterMap_placed (p : Position) {pieces : List Piece} (h : ∀ piece ∈ pieces, piece.Fit) :
    (Construct.placed p (pieces.map Piece.construct)).filterMap (fun t => Builder.tagAt? t.1 t.2) =
      (Piece.tagsFrom p pieces).map fun a => a.2.tagAt a.1 := by
  induction pieces generalizing p with
  | nil => rfl
  | cons piece pieces ih =>
      obtain ⟨hfirst, hrest⟩ := List.forall_mem_cons.mp h
      cases piece with
      | other text tokens =>
          have hnone : (tokens.map (p, ·)).filterMap (fun t => Builder.tagAt? t.1 t.2) = [] := by
            refine filterMap_tagAt?_eq_nil fun t ht => ?_
            obtain ⟨u, hu, rfl⟩ := List.mem_map.mp ht
            exact hfirst u hu
          simp only [List.map_cons, Construct.placed, Piece.construct, List.filterMap_append, hnone,
            List.nil_append, Piece.tagsFrom]
          exact ih (p.advance text) hrest
      | tag t =>
          simp only [List.map_cons, Construct.placed, Piece.construct, List.filterMap_append,
            Piece.tagsFrom]
          rw [ih (p.advance t.text) hrest]
          rfl

namespace MadeOf

variable {s rest : List Char} {pieces : List Piece} {raw : Option String}

/-- The tokens of a document are those of its pieces and those of its rest, which are no start tags. -/
theorem scan_eq (h : MadeOf s pieces raw rest) :
    ∃ fuel, enough false rest ≤ fuel ∧
      scan s = (scanFrom fuel false raw (Position.start.advance (Piece.textOf pieces)) rest).map
        (Construct.placed Position.start (pieces.map Piece.construct) ++ ·) := by
  have hlength := h.pass.length_le isRawState_none
  refine ⟨2 * s.length + 3 - (pieces.map Piece.construct).length, ?_, ?_⟩
  · unfold enough
    simp only [Bool.false_eq_true, if_false]
    omega
  · have hfuel : 2 * s.length + 3 = (pieces.map Piece.construct).length +
        (2 * s.length + 3 - (pieces.map Piece.construct).length) := by omega
    have hscan := h.pass.scanFrom_eq (2 * s.length + 3 - (pieces.map Piece.construct).length) Position.start
    rw [← hfuel, Piece.textOf_map_construct] at hscan
    exact hscan

/-- The elements of the document are its start tags, each at its place. -/
theorem map_tag_list (h : MadeOf s pieces raw rest) {nodes : List Node} (hparse : parse s = .ok nodes) :
    (Numbered.list nodes).map (·.tag) =
      (Piece.tagsFrom Position.start pieces).map fun a => a.2.tagAt a.1 := by
  obtain ⟨tokens, hscan, rfl⟩ := exists_of_map_eq_ok hparse
  obtain ⟨fuel, -, hfuel⟩ := h.scan_eq
  rw [hscan] at hfuel
  obtain ⟨more, hmore, rfl⟩ := exists_of_map_eq_ok hfuel.symm
  rw [Numbered.list, Numbered.map_tag_listFrom, tagsOf_treeOf, List.filterMap_append,
    filterMap_placed _ h.fit, filterMap_tagAt?_eq_nil (tagless_scanFrom h.tagless hmore), List.append_nil]

end MadeOf

theorem editFor_tagAt (o : Options) {t : WrittenTag} (ht : t.Plain) (before rest : List Char) {e : Numbered}
    (htag : e.tag = t.tagAt (Position.start.advance before)) (id : String) :
    editFor o (before ++ (t.text ++ rest)) (Text.lineStarts (before ++ (t.text ++ rest))) e id =
      .ok ⟨before.length, before.length + t.text.length,
        (t.withId o.overwrite o.attr id.toList).text⟩ := by
  have hstart : Text.offsetIn (Text.lineStarts (before ++ (t.text ++ rest))) e.tag.position =
      before.length := by
    rw [htag]
    exact Text.offsetIn_positionAt before _
  have hname : String.ofList (Text.lower t.name) = e.tag.name := by
    rw [htag]
    rfl
  exact ht.legible.editFor_eq o before rest hstart hname id

def idsOf (o : Options) (picked : Picked) (used : List String) (elements : List Numbered) :
    List (Option String) :=
  (Generator.serve o used (elements.map fun e => (e, request o picked e))).map Prod.snd

theorem foldlM_visit_pieces (o : Options) (picked : Picked) {source : List Char} {pieces : List Piece}
    (hfit : ∀ piece ∈ pieces, piece.Fit) {before rest : List Char}
    (hsource : source = before ++ (Piece.textOf pieces ++ rest)) {elements : List Numbered}
    (htags : elements.map (·.tag) =
      (Piece.tagsFrom (Position.start.advance before) pieces).map fun a => a.2.tagAt a.1)
    (q : Progress) :
    ∃ g, elements.foldlM (visit o source (Text.lineStarts source) picked) q =
      .ok ⟨g, (Piece.editsFrom o before.length pieces
        (idsOf o picked q.generator.used elements)).reverse ++ q.edits⟩ := by
  induction pieces generalizing before elements q with
  | nil =>
      obtain rfl := List.map_eq_nil_iff.mp htags
      exact ⟨q.generator, rfl⟩
  | cons piece pieces ih =>
      obtain ⟨hfirst, hrest⟩ := List.forall_mem_cons.mp hfit
      have hnext : source = (before ++ piece.text) ++ (Piece.textOf pieces ++ rest) := by
        rw [hsource, Piece.textOf_cons]
        simp only [List.append_assoc]
      have hadvance : Position.start.advance (before ++ piece.text) =
          (Position.start.advance before).advance piece.text := Position.advance_append ..
      cases piece with
      | other text tokens =>
          have hmore := ih hrest hnext (by rw [hadvance]; exact htags) q
          rw [List.length_append] at hmore
          exact hmore
      | tag t =>
          cases elements with
          | nil => cases htags
          | cons e elements =>
              obtain ⟨htag, htags⟩ := List.cons.inj htags
              have hedit := editFor_tagAt o hfirst.1 before (Piece.textOf pieces ++ rest) htag
              have hsplit : source = before ++ (t.text ++ (Piece.textOf pieces ++ rest)) := by
                rw [hsource, Piece.textOf_cons, List.append_assoc]
                rfl
              rw [← hsplit] at hedit
              rw [List.foldlM_cons, visit_eq]
              cases hask : request o picked e with
              | none =>
                  obtain ⟨g, hg⟩ := ih hrest hnext (by rw [hadvance]; exact htags) q
                  refine ⟨g, ?_⟩
                  rw [List.length_append] at hg
                  simp only [idsOf, List.map_cons, hask, Generator.serve, Piece.editsFrom]
                  exact hg
              | some element =>
                  let id := Generator.firstFree q.generator.used (Generator.candidate element o)
                  let next : Progress :=
                    { generator := { q.generator with used := id :: q.generator.used }
                      edits := ⟨before.length, before.length + t.text.length,
                        (t.withId o.overwrite o.attr id.toList).text⟩ :: q.edits }
                  obtain ⟨g, hg⟩ := ih hrest hnext (by rw [hadvance]; exact htags) next
                  refine ⟨g, ?_⟩
                  rw [List.length_append] at hg
                  simp only [hedit, Except.map, idsOf, List.map_cons, hask, Generator.serve,
                    Piece.editsFrom, List.reverse_cons, List.append_assoc, List.singleton_append]
                  exact hg

/-- A document made of plain start tags gets its ids in place. -/
theorem MadeOf.assign_result {s rest : List Char} {pieces : List Piece} {raw : Option String}
    (h : MadeOf s pieces raw rest) {o : Options} {selector : Option Selector.Choice} {nodes : List Node}
    (hselector : o.readSelector .html = .ok selector) (hparse : parse s = .ok nodes) :
    (assign s o).result = .ok (Piece.textOf (Piece.withIds o pieces
      (idsOf o (pickedIn selector nodes) [] (Numbered.list nodes))) ++ rest) := by
  have hsource : s = [] ++ (Piece.textOf pieces ++ rest) := h.text_eq
  obtain ⟨g, hg⟩ := foldlM_visit_pieces o (pickedIn selector nodes) h.fit hsource
    (h.map_tag_list hparse) {}
  have hprogress : progressFor o s (pickedIn selector nodes) (Numbered.list nodes) =
      .ok ⟨g, (Piece.editsFrom o 0 pieces (idsOf o (pickedIn selector nodes) [] (Numbered.list nodes))).reverse⟩ := by
    rw [progressFor, hg]
    simp
  have hsplice := Piece.spliceFrom_editsFrom o pieces
    (idsOf o (pickedIn selector nodes) [] (Numbered.list nodes)) (Nat.zero_add ([] : List Char).length) rest
  rw [← hsource, List.nil_append, List.length_nil] at hsplice
  unfold assign
  rw [hselector, hparse]
  dsimp only
  rw [show (selector.map fun choice => Selector.ranksIn choice false nodes) = pickedIn selector nodes from rfl,
    Round.ofNodes_eq, hprogress]
  dsimp only
  rw [List.reverse_reverse, Edit.splice, Piece.inOrder_editsFrom, hsplice]

end MarkupIds.Html
