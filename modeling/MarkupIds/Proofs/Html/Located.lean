import MarkupIds.Proofs.Html.Expression
import MarkupIds.Proofs.Html.Tagless
import MarkupIds.Proofs.Html.Elements
import MarkupIds.Proofs.Text.Lower
import MarkupIds.Proofs.Text.Position

/-! The start tag of an element, as the expression finds it. The name of the element is written where its tag stands
and does not end before a quote; so once the names are compared, the expression matches what is read there. -/

namespace MarkupIds.Html

open MarkupIds.Markup (Node Numbered)
open MarkupIds.Text (Position isBlank lower)
open MarkupIds.Text.Regex
open StartTag (read? without)

namespace Expression

def located? (s : List Char) (name : String) : Option Match :=
  (tag.first s).filter fun m => (m.groups.lookup "name").any fun found => String.ofList (lower found) == name

/-- The name of an element, as it was read where its start tag stands. -/
structure Named (s : List Char) (name : String) : Prop where
  exists_name : ∃ written rest, s = '<' :: (written ++ rest) ∧ name = String.ofList (lower written) ∧
    rest.head?.all (fun c => !isNameChar c) = true

/-- Once the names are compared, the start tag of an element matches as it is read. -/
theorem located?_eq {s : List Char} {name : String} (h : Named s name) : located? s name =
    ((read? s).filter fun t => String.ofList (lower t.name) == name).map fun t => matchOf t (s.drop t.text.length) := by
  unfold located?
  cases hread : read? s with
  | some t =>
      rw [first_tag_of_read? hread, Option.filter_some, Option.filter_some]
      have hname : (matchOf t (s.drop t.text.length)).groups.lookup "name" = some t.name := rfl
      rw [hname, Option.any_some]
      split <;> rfl
  | none =>
      rw [Option.filter_none, Option.map_none, Option.filter_eq_none_iff]
      intro m hm
      obtain ⟨found, quote, rest, others, hs, hquote, hgroups⟩ := quote_of_first_tag hread hm
      obtain ⟨written, behind, hs', rfl, hstop⟩ := h.exists_name
      have hfound : m.groups.lookup "name" = some found := by rw [hgroups]; rfl
      rw [hfound, Option.any_some]
      intro heq
      have hlower : lower found = lower written := String.ofList_inj.mp (beq_iff_eq.mp heq)
      have hnot : ¬ behind = quote :: rest := by
        rintro rfl
        obtain rfl | rfl := hquote <;> cases hstop
      obtain ⟨more, hmore, hbehind⟩ | ⟨more, hmore, hbehind⟩ :=
        List.append_eq_append_iff.mp (List.cons.inj (hs.symm.trans hs')).2
      · have hne : more ≠ [] := by
          rintro rfl
          exact hnot hbehind.symm
        rw [hmore] at hlower
        exact Text.lower_append_ne found hne hlower.symm
      · have hne : more ≠ [] := by
          rintro rfl
          exact hnot hbehind
        rw [hmore] at hlower
        exact Text.lower_append_ne written hne hlower

variable {name : String} {attributes : List (String × String)} {closed : Bool}

theorem exists_of_expanded {written : List (String × List Char)} {make : List (String × String) → List Token}
    {n count : Nat} {tokens : List Token} (h : expanded written make n = .read tokens count) :
    ∃ found, make found = tokens := by
  unfold expanded at h
  split at h
  next => cases h
  next => exact ⟨_, (Reading.read.inj h).1⟩

theorem name_eq_of_readOpening {s : List Char} {tokens : List Token} {count : Nat}
    (h : readOpening s = .read tokens count) (hmem : .opening name attributes closed ∈ tokens) :
    name = String.ofList (lower ((s.drop 1).takeWhile isNameChar)) := by
  unfold readOpening at h
  rw [List.span_eq_takeWhile_dropWhile] at h
  dsimp only at h
  split at h
  next =>
    obtain ⟨found, rfl⟩ := exists_of_expanded h
    cases List.mem_singleton.mp hmem
    rfl
  next =>
    obtain ⟨found, rfl⟩ := exists_of_expanded h
    cases List.mem_singleton.mp hmem
    rfl
  next => cases h
  next =>
    split at h
    next => cases h
    next =>
      obtain ⟨found, rfl⟩ := exists_of_expanded h
      cases List.mem_singleton.mp hmem

theorem named_of_readOpening {s : List Char} (hs : startsTag s = true) {tokens : List Token} {count : Nat}
    (h : readOpening s = .read tokens count) (hmem : .opening name attributes closed ∈ tokens) : Named s name := by
  obtain rfl := name_eq_of_readOpening h hmem
  unfold startsTag at hs
  split at hs
  next c r =>
    refine ⟨(c :: r).takeWhile isNameChar, (c :: r).dropWhile isNameChar, ?_, rfl, ?_⟩
    · rw [List.takeWhile_append_dropWhile]
    · have hstop := List.head?_dropWhile_not isNameChar (c :: r)
      cases hrest : (c :: r).dropWhile isNameChar with
      | nil => rfl
      | cons d t =>
          rw [hrest] at hstop
          simpa using hstop
  next => cases hs

theorem named_of_mem_findingAt {lastPass : Bool} {raw : Option String} {s : List Char}
    (h : .opening name attributes closed ∈ (findingAt lastPass raw s).tokens) : Named s name := by
  have hstart : raw = none ∧ startsTag s = true := by
    by_contra hno
    have hnone : NoTags (findingAt lastPass raw s).tokens := noTags_findingAt fun hraw =>
      Bool.eq_false_iff.mpr fun hs => hno ⟨hraw, hs⟩
    cases hnone _ h
  obtain ⟨rfl, hs⟩ := hstart
  rw [findingAt, inContent_bracket lastPass (head?_of_startsTag hs), atBracket, readMarkup_startTag hs] at h
  split at h
  next hread => exact named_of_readOpening hs hread h
  next => cases h
  next =>
    split at h
    next => cases List.mem_singleton.mp h
    next => cases h

/-- The place of a start tag among the tokens is where the name of its element is written. -/
theorem named_of_mem_scanFrom (front : List Char) {fuel : Nat} {lastPass : Bool} {raw : Option String} {s : List Char}
    {tokens : List (Position × Token)} (h : scanFrom fuel lastPass raw (Position.start.advance front) s = .ok tokens)
    {p : Position} (hmem : (p, .opening name attributes closed) ∈ tokens) :
    ∃ before rest, before ++ rest = front ++ s ∧ p = Position.start.advance before ∧ Named rest name := by
  induction fuel generalizing lastPass raw front s tokens with
  | zero =>
      cases h
      cases hmem
  | succ fuel ih =>
      have hhere {found : List Token} (hfound : (findingAt lastPass raw s).tokens = found)
          (h : (p, .opening name attributes closed) ∈ found.map (Position.start.advance front, ·)) :
          ∃ before rest, before ++ rest = front ++ s ∧ p = Position.start.advance before ∧ Named rest name := by
        obtain ⟨t, ht, heq⟩ := List.mem_map.mp h
        cases heq
        exact ⟨front, s, rfl, rfl, named_of_mem_findingAt (by rw [hfound]; exact ht)⟩
      have hmore {lastPass : Bool} {raw : Option String} {count : Nat} {rest : List (Position × Token)}
          (hrest : scanFrom fuel lastPass raw ((Position.start.advance front).advance (s.take count)) (s.drop count) =
            .ok rest) (h : (p, .opening name attributes closed) ∈ rest) :
          ∃ before rest, before ++ rest = front ++ s ∧ p = Position.start.advance before ∧ Named rest name := by
        rw [← Position.advance_append] at hrest
        obtain ⟨before, behind, hsplit, hp, hnamed⟩ := ih _ hrest h
        rw [List.append_assoc, List.take_append_drop] at hsplit
        exact ⟨before, behind, hsplit, hp, hnamed⟩
      rw [scanFrom] at h
      split at h
      next => cases h
      next found count hgo =>
        obtain ⟨rest, hrest, rfl⟩ := exists_of_map_eq_ok h
        obtain hnow | hlater := List.mem_append.mp hmem
        · exact hhere (by rw [hgo]; rfl) hnow
        · exact hmore hrest hlater
      next found count hstop =>
        dsimp only at h
        split at h
        next =>
          cases h
          obtain hnow | hlater := List.mem_append.mp hmem
          · exact hhere (by rw [hstop]; rfl) hnow
          · split at hlater
            next => cases List.mem_singleton.mp hlater
            next => cases hlater
        next =>
          obtain ⟨rest, hrest, rfl⟩ := exists_of_map_eq_ok h
          obtain hnow | hlater := List.mem_append.mp hmem
          · exact hhere (by rw [hstop]; rfl) hnow
          · exact hmore hrest hlater

variable {source : List Char} {nodes : List Node} {e : Numbered}

/-- The name of an element is written where its start tag stands. -/
theorem named_of_mem (hparse : parse source = .ok nodes) (he : e ∈ Numbered.list nodes) :
    Named (source.drop (Text.offsetIn (Text.lineStarts source) e.tag.position)) e.tag.name := by
  obtain ⟨tokens, hscan, rfl⟩ := exists_of_map_eq_ok hparse
  have htag : e.tag ∈ (Numbered.list (treeOf tokens)).map (·.tag) := List.mem_map_of_mem he
  rw [Numbered.list, Numbered.map_tag_listFrom, tagsOf_treeOf] at htag
  obtain ⟨⟨p, token⟩, hmem, hat⟩ := List.mem_filterMap.mp htag
  cases token with
  | opening name attributes closed =>
      obtain ⟨before, rest, rfl, rfl, hnamed⟩ := named_of_mem_scanFrom [] hscan hmem
      rw [← Option.some.inj hat]
      dsimp only
      rw [Text.offsetIn_positionAt, List.drop_left]
      exact hnamed
  | closing name => cases hat
  | text content => cases hat
  | special kind content => cases hat

def edited (o : Options) (m : Match) (id : String) : List Char :=
  let part (name : String) := (m.groups.lookup name).getD []
  let kept := if o.overwrite then render (lower o.attr) (attr.findAll (part "attrs")) else part "attrs"
  '<' :: (part "name" ++ (kept ++ Markup.written o.attr (Markup.escape id.toList)) ++ part "tail")

/-- The start tag of an element is edited as it matches at the place of the element. -/
theorem editFor_eq (hparse : parse source = .ok nodes) (he : e ∈ Numbered.list nodes) (o : Options) (id : String) :
    let start := Text.offsetIn (Text.lineStarts source) e.tag.position
    editFor o source (Text.lineStarts source) e id =
      match located? (source.drop start) e.tag.name with
      | none => .error (.lostStartTag e.tag.name e.tag.position.line)
      | some m => .ok ⟨start, start + m.text.length, edited o m id⟩ := by
  intro start
  rw [located?_eq (named_of_mem hparse he)]
  unfold editFor
  dsimp only
  cases hread : read? (source.drop start) with
  | none => rfl
  | some t =>
      dsimp only
      rw [Option.filter_some]
      split
      next =>
        have hedited : edited o (matchOf t ((source.drop start).drop t.text.length)) id =
            (t.withId o.overwrite o.attr id.toList).text := by
          have hkept : (if o.overwrite then render (lower o.attr) (attr.findAll t.attributes) else t.attributes) =
              if o.overwrite then without o.attr t.attributes else t.attributes := by rw [without_eq]
          rw [StartTag.withId, StartTag.text, ← hkept]
          rfl
        exact congrArg (fun text => Except.ok (Edit.mk start (start + t.text.length) text)) hedited.symm
      next => rfl

end Expression

end MarkupIds.Html
