import MarkupIds.Proofs.Common.Html
import MarkupIds.Proofs.Common.XmlTree

/-! A document of the common language gets the same ids where they stand the same, whether it is taken for XML or for
HTML. Both readings agree with what the document itself says of its elements. -/

namespace MarkupIds.Common

open MarkupIds.Markup (Node Numbered)
open MarkupIds.Xml (unified)

section Written

variable {o : Options}

/-- The tag with an id, in place of the attribute of the same name where it is overwritten. -/
def Tag.withId (t : Tag) (overwrite : Bool) (attr id : List Char) : Tag :=
  { t with attributes := (if overwrite then t.attributes.filter fun a => a.name != attr else t.attributes) ++
      [{ lead := [' '], name := attr, value := Markup.escape id }] }

theorem Tag.html_withId {t : Tag} (ht : ∀ a ∈ t.attributes, Text.lower a.name = a.name) {attr : List Char}
    (hattr : Text.lower attr = attr) (closed overwrite : Bool) (id : List Char) :
    (t.html closed).withId overwrite attr id = (t.withId overwrite attr id).html closed := by
  have hfilter : (t.attributes.map Attribute.html).filter (fun a => !a.hasName attr) =
      (t.attributes.filter fun a => a.name != attr).map Attribute.html := by
    rw [List.filter_map]
    refine congrArg (List.map Attribute.html) (List.filter_congr fun a ha => ?_)
    simp only [Function.comp, Html.WrittenAttribute.hasName, Attribute.html, hattr, ht a ha, bne]
  cases overwrite <;> simp [Html.WrittenTag.withId, Tag.html, withId, hfilter, Html.WrittenAttribute.ofId, Attribute.html]

theorem Tag.xml_withId (t : Tag) (closed overwrite : Bool) (attr id : List Char) :
    (t.xml closed).withId overwrite attr id = (t.withId overwrite attr id).xml closed := by
  have hfilter : (t.attributes.map Attribute.xml).filter (fun a => a.name != attr) =
      (t.attributes.filter fun a => a.name != attr).map Attribute.xml := by
    rw [List.filter_map]
    rfl
  cases overwrite <;> simp [Xml.StartTag.withId, Tag.xml, withId, hfilter, Attribute.xml]

/-- A piece and a token are the same part of a document. -/
inductive SamePart : Html.Piece → Xml.Token → Prop where
  | text (s : List Char) (tokens : List Html.Token) : SamePart (.other s tokens) (.other s)
  | closing (s : List Char) (tokens : List Html.Token) : SamePart (.other s tokens) (.closing s)
  | tag {t : Tag} (closed : Bool) : t.Plain → SamePart (.tag (t.html closed)) (.opening (t.xml closed))

theorem samePart_text (s : List Char) : List.Forall₂ SamePart (textPieces s) (textTokens s) := by
  unfold textPieces textTokens
  split
  · exact .nil
  · exact .cons (.text s _) .nil

/-- The pieces and the tokens of a document are the same parts of it. -/
theorem Content.Plain.samePart {c : Content} (hc : c.Plain) : List.Forall₂ SamePart c.pieces c.tokens := by
  induction c with
  | text s => exact samePart_text s
  | pair before tag inside gap after ihInside ihAfter =>
      obtain ⟨-, htag, hinside, -, hafter⟩ := hc
      exact List.rel_append (samePart_text before)
        (.cons (.tag false htag) (List.rel_append (ihInside hinside) (.cons (.closing _ _) (ihAfter hafter))))
  | single before tag after ih =>
      obtain ⟨-, htag, hafter⟩ := hc
      exact List.rel_append (samePart_text before) (.cons (.tag true htag) (ih hafter))

/-- The same ids make the same text. -/
theorem text_withIds (hattr : Text.lower o.attr = o.attr) {pieces : List Html.Piece} {tokens : List Xml.Token}
    (h : List.Forall₂ SamePart pieces tokens) (ids : List (Option String)) :
    Html.Piece.textOf (Html.Piece.withIds o pieces ids) = (Xml.withIds o tokens ids).flatMap Xml.Token.text := by
  induction h generalizing ids with
  | nil => rfl
  | cons hpart _ ih =>
      cases hpart with
      | text s tokens => exact congrArg (s ++ ·) (ih ids)
      | closing s tokens => exact congrArg (s ++ ·) (ih ids)
      | @tag t closed ht =>
          have htext : (t.html closed).text = (t.xml closed).text := by rw [t.text_html, t.text_xml]
          match ids with
          | [] => exact congrArg₂ (· ++ ·) htext (ih [])
          | none :: ids => exact congrArg₂ (· ++ ·) htext (ih ids)
          | some id :: ids =>
              have hid : ((t.html closed).withId o.overwrite o.attr id.toList).text =
                  ((t.xml closed).withId o.overwrite o.attr id.toList).text := by
                rw [Tag.html_withId (fun a ha => (ht.attributes a ha).lowered) hattr, Tag.xml_withId, Tag.text_html,
                  Tag.text_xml]
              exact congrArg₂ (· ++ ·) hid (ih ids)

end Written

section Elements

variable {o : Options}

/-- The value of an attribute of the tag as it is written. -/
def Tag.attribute? (t : Tag) (attr : List Char) : Option (List Char) :=
  (t.attributes.find? fun a => a.name == attr).map (·.value)

/-- What an element asks of the generator, if it may get an id. -/
def Element.request (o : Options) (x : Element) : Option Descriptor :=
  if o.admits (String.ofList x.tag.name) (x.tag.attribute? o.attr) then
    some
      { name := String.ofList x.tag.name
        path := (x.outer ++ [x.rank]).map Int.ofNat
        text := if o.strategy == .slug then some (Node.joinTrimmed x.inside.texts) else none }
  else none

/-- The ids that the elements of a document get. -/
def Content.ids (o : Options) (c : Content) : List (Option String) :=
  (Generator.serve o [] ((c.elements [] 0).map fun x => (x, x.request o))).map Prod.snd

theorem admits_congr {existing existing' : Option (List Char)} (h : existing.isSome = existing'.isSome) (name : String) :
    o.admits name existing = o.admits name existing' := by
  have hnone : existing.isNone = existing'.isNone := by rw [← Option.not_isSome, ← Option.not_isSome, h]
  rw [Options.admits, Options.admits, hnone]

theorem isSome_attribute? (t : Tag) (attr : List Char) :
    (t.attribute? attr).isSome = t.attributes.any fun a => a.name == attr := by
  rw [Tag.attribute?, Option.isSome_map, List.isSome_find?]

theorem isSome_attribute?_tag (t : Markup.Tag) (name : String) :
    ((t.attribute? name).map String.toList).isSome = t.attributes.any fun a => a.name == name := by
  rw [Markup.Tag.attribute?, Option.isSome_map, Option.isSome_map, List.isSome_find?]

theorem ofList_beq (s t : List Char) : (String.ofList s == String.ofList t) = (s == t) := by
  rw [Bool.eq_iff_iff, beq_iff_eq, beq_iff_eq, String.ofList_inj]

theorem any_putAttribute (attributes : List Markup.Attribute) (a : Markup.Attribute) (name : String) :
    ((Markup.Tag.putAttribute attributes a).any fun b => b.name == name) =
      ((attributes.any fun b => b.name == name) || a.name == name) := by
  unfold Markup.Tag.putAttribute
  split
  next hany =>
    have hmap : ((attributes.map fun b => if b.name == a.name then { b with value := a.value } else b).any
        fun b => b.name == name) = attributes.any fun b => b.name == name := by
      rw [List.any_map]
      congr 1
      funext b
      simp only [Function.comp]
      split <;> rfl
    rw [hmap, Bool.eq_iff_iff, Bool.or_eq_true]
    refine ⟨.inl, fun h => h.elim id fun ha => ?_⟩
    rw [← beq_iff_eq.mp ha]
    exact hany
  next => simp [List.any_append]

/-- Attributes have the names that they are read with. -/
theorem any_attributesOf (attributes : List (String × String)) (name : String) :
    ((Html.Builder.attributesOf attributes).any fun b => b.name == name) = attributes.any fun a => a.1 == name := by
  suffices ∀ all, ((attributes.foldl (fun all a => Markup.Tag.putAttribute all ⟨a.1, a.2, none, none⟩) all).any
      fun b => b.name == name) = ((all.any fun b => b.name == name) || attributes.any fun a => a.1 == name) from
    (this []).trans (Bool.false_or _)
  induction attributes with
  | nil => exact fun all => (Bool.or_false _).symm
  | cons a attributes ih =>
      intro all
      rw [List.foldl_cons, ih, any_putAttribute, List.any_cons, Bool.or_assoc]

/-- In the tree of the HTML document an element asks for what it does in the document. -/
theorem request_eq (hattr : Text.lower o.attr = o.attr) {e : Numbered} {x : Element} (hx : x.tag.Plain)
    (h : StandsFor HtmlTag (fun s => Tells s) e x) : Html.request o none e = x.request o := by
  obtain ⟨closed, p, htag⟩ := h.tag
  have hname : e.tag.name = String.ofList x.tag.name := by
    rw [htag]
    exact congrArg String.ofList hx.lower_name
  have hexisting : (Html.existing? o e).isSome = (x.tag.attribute? o.attr).isSome := by
    rw [Html.existing?, isSome_attribute?_tag, isSome_attribute?, htag, Html.WrittenTag.tagAt, any_attributesOf,
      Html.WrittenTag.pairs, Tag.html, List.any_map, List.any_map, Bool.eq_iff_iff, List.any_eq_true, List.any_eq_true]
    refine exists_congr fun a => and_congr_right fun ha => ?_
    have hlowered := (hx.attributes a ha).lowered
    simp only [Function.comp, Html.WrittenAttribute.pair, Attribute.html, hlowered, hattr, ofList_beq]
  have htext : e.ownText = Node.joinTrimmed x.inside.texts := by
    rw [StandsFor.ownText (g := id) h, List.map_id]
  rw [Html.request, Element.request, admits_congr hexisting, hname, Html.descriptor, Numbered.path, hname, htext, h.outer,
    h.rank]
  rfl

theorem candidate_unified (name : String) (path : List Int) (text : List Char) (o : Options) :
    Generator.candidate { name, path, text := some (unified text) } o =
      Generator.candidate { name, path, text := some text } o := by
  have hempty : (unified text).isEmpty = text.isEmpty := by
    rw [Bool.eq_iff_iff, List.isEmpty_iff, List.isEmpty_iff, Xml.unified_eq_nil]
  unfold Generator.candidate
  split
  · simp only [Option.getD_some, Generator.slugCandidate, hempty, Xml.ofText_unified]
  · rfl
  · rfl

/-- In the tree that the tokens spell an element asks for the same, up to the line ends in its text. -/
theorem candidate_requestAt {around : Xml.Surroundings} (hpicked : around.picked = none) {e : Numbered} {x : Element}
    (h : StandsFor XmlTag (fun _ nodes => nodes = []) e x)
    (htext : around.texts.bind (·[x.rank]?) =
      if o.strategy == .slug then some (unified (Node.joinTrimmed x.inside.texts)) else none) :
    (Xml.requestAt o around e).map (Generator.candidate · o) = (x.request o).map (Generator.candidate · o) := by
  obtain ⟨closed, htag⟩ := h.tag
  have hname : e.tag.name = String.ofList x.tag.name := by
    rw [htag]
    rfl
  have hexisting : ((e.tag.attribute? (String.ofList o.attr)).map String.toList).isSome =
      (x.tag.attribute? o.attr).isSome := by
    rw [isSome_attribute?_tag, isSome_attribute?, htag, Xml.StartTag.tag, Tag.xml, List.any_map, List.any_map]
    simp only [Function.comp_def, Attribute.xml, ofList_beq]
  have hasked : e.admitted o o.attr none = o.admits (String.ofList x.tag.name) (x.tag.attribute? o.attr) := by
    rw [← admits_congr hexisting, ← hname]
    rfl
  rw [Xml.requestAt, Element.request, hpicked, hasked, hname, Numbered.path, h.outer, h.rank, htext]
  cases o.admits (String.ofList x.tag.name) (x.tag.attribute? o.attr) with
  | false => rfl
  | true =>
      cases hslug : o.strategy == .slug with
      | false => rfl
      | true => exact congrArg some (candidate_unified _ _ _ o)

theorem map_rank_elements (c : Content) (outer : List Nat) (rank : Nat) :
    (c.elements outer rank).map Element.rank = List.range' rank c.count := by
  induction c generalizing outer rank with
  | text s => rfl
  | pair before tag inside gap after ihInside ihAfter =>
      have hcount : 1 + inside.count + after.count = inside.count + after.count + 1 := by omega
      rw [Content.elements, List.map_cons, List.map_append, ihInside, ihAfter, Content.count, hcount, List.range'_succ,
        List.range'_append_1]
  | single before tag after ih =>
      rw [Content.elements, List.map_cons, ih, Content.count, Nat.add_comm 1 after.count, List.range'_succ]

/-- The rank of an element is its place among all. -/
theorem getElem?_rank {c : Content} {x : Element} (h : x ∈ c.elements [] 0) : (c.elements [] 0)[x.rank]? = some x := by
  obtain ⟨i, hi, rfl⟩ := List.getElem_of_mem h
  have hrank : ((c.elements [] 0).map Element.rank)[i]? = some i := by
    rw [map_rank_elements]
    have hlength := congrArg List.length (map_rank_elements c [] 0)
    rw [List.length_map, List.length_range'] at hlength
    rw [List.getElem?_range' (hlength ▸ hi), Nat.one_mul, Nat.zero_add]
  rw [List.getElem?_map, List.getElem?_eq_getElem hi] at hrank
  rw [Option.some.inj hrank, List.getElem?_eq_getElem hi]

theorem Content.Plain.tag_plain {c : Content} (hc : c.Plain) {outer : List Nat} {rank : Nat} {x : Element}
    (h : x ∈ c.elements outer rank) : x.tag.Plain := by
  induction c generalizing outer rank with
  | text s => cases h
  | pair before tag inside gap after ihInside ihAfter =>
      obtain ⟨-, htag, hinside, -, hafter⟩ := hc
      obtain rfl | h := List.mem_cons.mp h
      · exact htag
      · obtain h | h := List.mem_append.mp h
        · exact ihInside hinside h
        · exact ihAfter hafter h
  | single before tag after ih =>
      obtain ⟨-, htag, hafter⟩ := hc
      obtain rfl | h := List.mem_cons.mp h
      · exact htag
      · exact ih hafter h

end Elements

section Runs

variable {o : Options}

theorem map_eq_of_forall₂ {α β γ : Type} {R : α → β → Prop} {f : α → γ} {g : β → γ} {l : List α} {l' : List β}
    (h : List.Forall₂ R l l') (hmap : ∀ a, ∀ b ∈ l', R a b → f a = g b) : l.map f = l'.map g := by
  induction h with
  | nil => rfl
  | cons hfirst _ ih =>
      obtain ⟨hhead, htail⟩ := forall_and.mp fun a => List.forall_mem_cons.mp (hmap a)
      rw [List.map_cons, List.map_cons, hhead _ hfirst, ih htail]

/-- The HTML document gives its elements the ids. -/
theorem Content.Plain.idsOf_eq {c : Content} (hc : c.Plain) (hattr : Text.lower o.attr = o.attr) {nodes : List Node}
    (hnodes : Stands HtmlTag (fun s => Tells s) c nodes) : Html.idsOf o none [] (Numbered.list nodes) = c.ids o := by
  obtain ⟨helements, -⟩ := hnodes.elements (fun _ _ htells => htells.1) tells_nil [] 0
  refine Generator.map_snd_serve_congr o [] ?_
  rw [List.map_map, List.map_map]
  exact map_eq_of_forall₂ helements fun e x hx h => request_eq hattr (hc.tag_plain hx) h

theorem ofOpenings_serve (used : List String) {entries : List (Xml.Token × Option Descriptor)}
    (h : ∀ token element, (token, some element) ∈ entries → ∃ t, token = .opening t) :
    Xml.ofOpenings (Generator.serve o used entries) =
      (Generator.serve o used ((Xml.ofOpenings entries).map fun asked => ((), asked))).map Prod.snd := by
  induction entries generalizing used with
  | nil => rfl
  | cons entry entries ih =>
      have hrest := fun token element hmem => h token element (List.mem_cons_of_mem _ hmem)
      obtain ⟨token, asked⟩ := entry
      cases asked with
      | none => cases token <;> simpa [Xml.ofOpenings, Generator.serve] using ih used hrest
      | some element =>
          obtain ⟨t, rfl⟩ := h token element List.mem_cons_self
          simpa [Xml.ofOpenings, Generator.serve] using ih _ hrest

/-- The XML document gives its elements the ids. -/
theorem Content.Plain.ofOpenings_served {c : Content} (hc : c.Plain) {around : Xml.Surroundings}
    (hpicked : around.picked = none)
    (htexts : around.texts = if o.strategy == .slug then
      some ((c.elements [] 0).map fun x => unified (Node.joinTrimmed x.inside.texts)) else none) :
    Xml.ofOpenings (Xml.served o around c.tokens) = c.ids o := by
  have hrequests : Xml.ofOpenings (Xml.requests o around 0 [] (c.tokens ++ [])) =
      (Numbered.list c.bones).map (Xml.requestAt o around) ++ [] := hc.spells.requests 0 [] []
  rw [List.append_nil, List.append_nil] at hrequests
  have hempty (s : List Char) (nodes : List Node) (hnodes : nodes = []) : ∀ node ∈ nodes, node.isElement = false := by
    rw [hnodes]
    exact List.forall_mem_nil _
  obtain ⟨helements, -⟩ := c.stands_bones.elements hempty rfl [] 0
  rw [Xml.served, ofOpenings_serve [] fun _ _ => Xml.exists_opening_of_mem_requests, hrequests]
  refine Generator.map_snd_serve_of_candidates o [] ?_
  rw [List.map_map, List.map_map, List.map_map]
  refine map_eq_of_forall₂ helements fun e x hx h => candidate_requestAt hpicked h ?_
  rw [htexts]
  split
  · rw [Option.bind_some, List.getElem?_map, getElem?_rank hx]
    rfl
  · rfl

theorem elements_bare {c : Content} (hdoc : c.IsDocument) : c.bare.elements [] 0 = c.elements [] 0 := by
  cases c with
  | text s => rfl
  | pair before tag inside gap after =>
      cases after with
      | text after => rfl
      | pair => exact hdoc.elim
      | single => exact hdoc.elim
  | single before tag after =>
      cases after with
      | text after => rfl
      | pair => exact hdoc.elim
      | single => exact hdoc.elim

/-- The texts of the elements are told alike, up to their line ends. -/
theorem map_ownText_of_stands {c : Content} (hdoc : c.IsDocument) {nodes : List Node}
    (h : Stands (fun _ _ => True) (fun s => Tells (unified s)) c.bare nodes) :
    (Numbered.list nodes).map Numbered.ownText =
      (c.elements [] 0).map fun x => unified (Node.joinTrimmed x.inside.texts) := by
  obtain ⟨helements, -⟩ := h.elements (fun _ _ htells => htells.1) (by exact tells_nil) [] 0
  rw [elements_bare hdoc] at helements
  refine map_eq_of_forall₂ helements fun e x _ hx => ?_
  rw [hx.ownText, Xml.joinTrimmed_unified]

theorem not_allBlank_written {c : Content} (hc : c.Plain) (hdoc : c.IsDocument) : ¬ Text.allBlank c.written := by
  obtain ⟨before, after, -, -, hwritten, tag, closed, z, -, hfirst⟩ := hc.exists_bare hdoc
  intro hblank
  have hbracket : '<' ∈ c.written := by
    rw [hwritten, hfirst]
    exact List.mem_append_right _ List.mem_cons_self
  exact absurd (List.all_eq_true.mp hblank _ hbracket) (by decide)

/-- A document of the common language that gets ids as XML gets the same ones as HTML, and the same text. -/
theorem assign_eq_assign {c : Content} (hc : c.Plain) (hdoc : c.IsDocument) (hselector : o.selector = none)
    (hattr : Text.lower o.attr = o.attr) {out : List Char} (h : (Xml.assign c.written o).result = .ok out) :
    (Html.assign c.written o).result = .ok out := by
  obtain ⟨nodes, hparse, hnodes⟩ := hc.exists_parse
  have hnone : o.readSelector .html = .ok none := by rw [Options.readSelector, hselector]
  have hhtml := hc.madeOf.assign_result hnone hparse
  have htokens : Xml.Token.list c.written = (c.tokens, []) := by
    have hall := (hc.tokenizes atMarkup_nil .done).list_eq
    rwa [List.append_nil, List.append_nil] at hall
  obtain ⟨selector, contents, hxml, hread, rfl⟩ := Xml.assign_text h (not_allBlank_written hc hdoc)
  obtain rfl : none = selector := by
    rw [Options.readSelector, hselector] at hxml
    exact Except.ok.inj hxml
  have htexts := map_ownText_of_stands hdoc (hc.stands_of_read hdoc hread)
  have hserved : Xml.ofOpenings (Xml.served o (Xml.surroundings o none contents) c.tokens) = c.ids o := by
    refine hc.ofOpenings_served rfl ?_
    rw [Xml.surroundings, htexts]
  have hids : Html.idsOf o (Html.pickedIn none nodes) [] (Numbered.list nodes) = c.ids o := hc.idsOf_eq hattr hnodes
  rw [hhtml, hids, List.append_nil, htokens, Xml.map_rewritten (Xml.givenToOpenings_served o _ _), Xml.map_fst_served,
    hserved, text_withIds hattr hc.samePart]

/-- A document with an id in it, and with a text of two lines. -/
def greeting : Content :=
  .pair [] { name := "doc".toList } (.pair "Hello\r\nWorld".toList
    { name := ['p'], attributes := [{ lead := [' '], name := "id".toList, value := "old".toList }] } (.text ['A']) []
    (.single [] { name := "end".toList, blanks := [' '] } (.text []))) [] (.text ['\n'])

theorem assign_eq_assign_greeting :
    let o : Options := { attr := "id".toList, strategy := .slug, overwrite := true }
    let out := "<doc id=\"el-hello-world\">Hello\r\nWorld<p id=\"el-a\">A</p><end id=\"el-46638cd1\" /></doc>\n".toList
    greeting.written = "<doc>Hello\r\nWorld<p id=\"old\">A</p><end /></doc>\n".toList ∧ greeting.Plain ∧ greeting.IsDocument ∧
      o.selector = none ∧ Text.lower o.attr = o.attr ∧ (Xml.assign greeting.written o).result = .ok out ∧
      (Html.assign greeting.written o).result = .ok out := by
  intro o out
  have hnil : IsText [] ∧ IsSpaces [] := ⟨⟨by decide, by decide⟩, List.forall_mem_nil _⟩
  have hid : Attribute.Plain { lead := [' '], name := "id".toList, value := "old".toList } :=
    ⟨by decide, List.all_eq_true.mp rfl, by decide, by decide +kernel, hnil.2, hnil.2, by decide, by decide⟩
  have hplain : greeting.Plain := by
    refine ⟨hnil.1, ?_, ⟨⟨by decide, by decide⟩, ?_, ⟨by decide, by decide⟩, hnil.2, hnil.1, ?_, hnil.1⟩, hnil.2,
      ⟨by decide, by decide⟩⟩
    · exact ⟨by decide, List.all_eq_true.mp rfl, by decide, by decide, List.forall_mem_nil _, hnil.2⟩
    · exact ⟨by decide, List.all_eq_true.mp rfl, by decide, by decide, List.forall_mem_singleton.mpr hid, hnil.2⟩
    · exact ⟨by decide, List.all_eq_true.mp rfl, by decide, by decide, List.forall_mem_nil _, List.all_eq_true.mp rfl⟩
  have hresult : (Xml.assign greeting.written o).result = .ok out := Outcome.result_eq_ok_iff.mpr (by decide +kernel)
  have hdoc : greeting.IsDocument := ⟨hnil.2, List.all_eq_true.mp rfl⟩
  have hattr : Text.lower o.attr = o.attr := by decide +kernel
  exact ⟨by decide, hplain, hdoc, rfl, hattr, hresult, assign_eq_assign hplain hdoc rfl hattr hresult⟩

end Runs

end MarkupIds.Common
