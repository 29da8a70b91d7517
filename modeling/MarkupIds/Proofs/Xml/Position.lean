import MarkupIds.Proofs.Ident.Path
import MarkupIds.Proofs.Markup.Position
import MarkupIds.Proofs.Xml.SecondRun

/-! The positions on a pass over the tokens of an XML document are those in the tree that the tokens
spell: at every start tag, the open ranks are the ranks of the elements around it. -/

namespace MarkupIds

namespace Xml

open MarkupIds.Markup (Node Numbered)

/-- The element that a start tag opens, with its attributes as they are written. -/
def StartTag.tag (t : StartTag) : Markup.Tag where
  name := String.ofList t.name
  attributes := t.attributes.map fun a => { name := String.ofList a.name, value := String.ofList a.value }

theorem existing?_eq (o : Options) (t : StartTag) :
    Progress.existing? o t = (t.tag.attribute? (String.ofList o.attr)).map String.toList := by
  simp only [Progress.existing?, findAttribute, Markup.Tag.attribute?, StartTag.tag, List.find?_map,
    Option.map_map, Function.comp_def, String.toList_ofList]
  congr 2
  funext a
  rw [Bool.eq_iff_iff, beq_iff_eq, beq_iff_eq, String.ofList_inj]

/-- The tokens of a tree: an element is a start tag without content, or a start tag and an end tag with
content between them, and any other tokens may stand between the elements. -/
inductive Spells : List Token → List Node → Prop
  | nil : Spells [] []
  | other {tokens nodes} (raw : List Char) : Spells tokens nodes → Spells (.other raw :: tokens) nodes
  | single {tokens nodes} {t : StartTag} : t.isEmptyElement = true → Spells tokens nodes →
      Spells (.opening t :: tokens) (.element t.tag [] :: nodes)
  | pair {inner tokens children nodes} {t : StartTag} (raw : List Char) : t.isEmptyElement = false →
      Spells inner children → Spells tokens nodes →
      Spells (.opening t :: (inner ++ .closing raw :: tokens)) (.element t.tag children :: nodes)

/-- What the start tags among some tokens are told, in their order. -/
def ofOpenings {β : Type} (entries : List (Token × β)) : List β :=
  entries.filterMap fun e => match e.1 with
    | .opening _ => some e.2
    | _ => none

/-- The tokens with ids for their start tags, given one after another. -/
def withIds (o : Options) : List Token → List (Option String) → List Token
  | .opening t :: tokens, given :: ids => rewritten o (.opening t, given) :: withIds o tokens ids
  | token :: tokens, ids => token :: withIds o tokens ids
  | [], _ => []

/-- The elements that the selector of the options picks in a document. -/
def pickedIn (o : Options) (source : List Char) : Picked :=
  match o.readSelector .xml, read source with
  | .ok selector, .ok contents =>
    selector.map fun choice => Selector.ranksIn choice true contents.selectorTree
  | _, _ => none

section

variable {o : Options} {around : Surroundings}

/-- What an element asks of the generator, told by its place in the tree. -/
def requestAt (o : Options) (around : Surroundings) (e : Numbered) : Option Descriptor :=
  if e.admitted o o.attr around.picked then
    some { name := e.tag.name
           path := e.path.map Int.ofNat
           text := around.texts.bind (·[e.rank]?) }
  else none

theorem request_eq_requestAt (rank : Nat) (openRanks : List Nat) (t : StartTag) (children : List Node) :
    request o around rank openRanks t = requestAt o around ⟨t.tag, children, rank, openRanks.reverse⟩ := by
  rw [request, requestAt, existing?_eq, List.reverse_cons]
  rfl

/-- Along tokens that spell some nodes, every start tag asks for what its element in the tree does, and
behind them the same elements are open as before. -/
theorem Spells.requests {tokens : List Token} {nodes : List Node} (h : Spells tokens nodes) (rank : Nat)
    (openRanks : List Nat) (behind : List Token) :
    ofOpenings (requests o around rank openRanks (tokens ++ behind)) =
      (Numbered.listFrom openRanks.reverse rank nodes).map (requestAt o around) ++
        ofOpenings (Xml.requests o around (rank + Node.countElements nodes) openRanks behind) := by
  induction h generalizing rank openRanks behind with
  | nil => rfl
  | other raw _ ih => exact ih rank openRanks behind
  | @single tokens nodes t hempty _ ih =>
      have hopen : openAfter rank openRanks t = openRanks := if_pos hempty
      have hbehind := ih (rank + 1) openRanks behind
      calc ofOpenings (Xml.requests o around rank openRanks (.opening t :: tokens ++ behind))
          = request o around rank openRanks t ::
              ofOpenings (Xml.requests o around (rank + 1) openRanks (tokens ++ behind)) := by
            rw [List.cons_append, Xml.requests, hopen]
            rfl
        _ = _ := by
            rw [hbehind, request_eq_requestAt rank openRanks t []]
            simp only [Node.countElements, Node.elementCount, Numbered.listFrom, Numbered.ofNode,
              List.map_cons, List.cons_append, List.nil_append, Nat.add_assoc, Nat.add_zero]
  | @pair inner tokens children nodes t raw hpair _ _ ihInner ih =>
      have hopen : openAfter rank openRanks t = rank :: openRanks := if_neg (by simp [hpair])
      have hinner := ihInner (rank + 1) (rank :: openRanks) (.closing raw :: (tokens ++ behind))
      have hbehind := ih (rank + 1 + Node.countElements children) openRanks behind
      rw [List.reverse_cons] at hinner
      calc ofOpenings (Xml.requests o around rank openRanks
              (.opening t :: (inner ++ .closing raw :: tokens) ++ behind))
          = request o around rank openRanks t ::
              ofOpenings (Xml.requests o around (rank + 1) (rank :: openRanks)
                (inner ++ .closing raw :: (tokens ++ behind))) := by
            rw [List.cons_append, Xml.requests, hopen, List.append_assoc, List.cons_append]
            rfl
        _ = request o around rank openRanks t ::
              ((Numbered.listFrom (openRanks.reverse ++ [rank]) (rank + 1) children).map
                (requestAt o around) ++
              ofOpenings (Xml.requests o around (rank + 1 + Node.countElements children) openRanks
                (tokens ++ behind))) := by
            rw [hinner]
            rfl
        _ = _ := by
            rw [hbehind, request_eq_requestAt rank openRanks t children]
            simp only [Node.countElements, Node.elementCount, Numbered.listFrom, Numbered.ofNode,
              List.map_cons, List.map_append, List.cons_append, List.append_assoc, Nat.add_assoc]

theorem filterMap_requests (rank : Nat) (openRanks : List Nat) (tokens : List Token) :
    (requests o around rank openRanks tokens).filterMap Prod.snd =
      (ofOpenings (requests o around rank openRanks tokens)).filterMap id := by
  induction tokens generalizing rank openRanks with
  | nil => rfl
  | cons token tokens ih =>
      cases token with
      | opening t =>
          simp only [requests, ofOpenings, List.filterMap_cons] at ih ⊢
          rw [ih]
          rfl
      | closing raw => exact ih _ _
      | other raw => exact ih _ _

theorem map_rewritten {entries : List (Token × Option String)} (h : GivenToOpenings entries) :
    entries.map (rewritten o) = withIds o (entries.map Prod.fst) (ofOpenings entries) := by
  induction entries with
  | nil => rfl
  | cons entry entries ih =>
      obtain ⟨token, given⟩ := entry
      have hrest := ih h.of_cons
      cases token with
      | opening t => exact congrArg (rewritten o (.opening t, given) :: ·) hrest
      | closing raw =>
          cases given with
          | none => exact congrArg (Token.closing raw :: ·) hrest
          | some id =>
              obtain ⟨t, ht⟩ := h _ _ List.mem_cons_self
              cases ht
      | other raw =>
          cases given with
          | none => exact congrArg (Token.other raw :: ·) hrest
          | some id =>
              obtain ⟨t, ht⟩ := h _ _ List.mem_cons_self
              cases ht

theorem ofOpenings_map {β γ : Type} (f : β → γ) (entries : List (Token × β)) :
    ofOpenings (entries.map fun e => (e.1, f e.2)) = (ofOpenings entries).map f := by
  induction entries with
  | nil => rfl
  | cons entry entries ih =>
      obtain ⟨token, b⟩ := entry
      cases token with
      | opening t => exact congrArg (f b :: ·) ih
      | closing raw => exact ih
      | other raw => exact ih

theorem ofOpenings_served (hstrategy : o.strategy = .path) {tokens : List Token} {nodes : List Node}
    (h : Spells tokens nodes) :
    ofOpenings (served o around tokens) =
      (Numbered.list nodes).map (Numbered.pathId? o o.attr around.picked) := by
  have hrequests : ofOpenings (requests o around 0 [] tokens) =
      (Numbered.list nodes).map (requestAt o around) := by
    have hbehind : ofOpenings (requests o around 0 [] (tokens ++ [])) =
        (Numbered.list nodes).map (requestAt o around) ++ [] := h.requests 0 [] []
    rwa [List.append_nil, List.append_nil] at hbehind
  have hapart : ((requests o around 0 [] tokens).filterMap Prod.snd).Pairwise Generator.EndApart := by
    rw [filterMap_requests, hrequests, List.filterMap_map]
    refine Numbered.pairwise_endApart (fun e element h => ?_) nodes
    obtain ⟨-, hsome⟩ := Option.ite_none_right_eq_some.mp h
    exact Option.some.inj hsome ▸ rfl
  rw [served, Generator.serve_of_endApart hstrategy hapart, ofOpenings_map, hrequests, List.map_map]
  refine List.map_congr_left fun e _ => ?_
  simp only [Function.comp, requestAt, Numbered.pathId?]
  split
  · exact congrArg some (Numbered.candidate_eq_pathId hstrategy e rfl rfl)
  · rfl

/-- The text that a run makes of a document: the tokens, with the start tags written anew that get an id. -/
theorem assign_text {source out : List Char} (h : (assign source o).result = .ok out)
    (hblank : ¬ Text.allBlank source) :
    ∃ selector contents, o.readSelector .xml = .ok selector ∧ read source = .ok contents ∧
      out = ((served o (surroundings o selector contents) (Token.list source).1).map (rewritten o)).flatMap Token.text := by
  obtain ⟨hblank', -⟩ | ⟨-, selector, contents, -, hselector, hread, hrest, hsplice, -⟩ := assign_ok h
  · exact absurd hblank' hblank
  · refine ⟨selector, contents, hselector, hread, ?_⟩
    have hsource : source = (served o (surroundings o selector contents)
        (Token.list source).1).flatMap (·.1.text) ++ [] := by
      rw [← List.flatMap_map, map_fst_served, ← hrest]
      exact Token.list_eq source
    have hnew := splice_editsFrom o (served o (surroundings o selector contents) (Token.list source).1) []
    rw [← hsource, hsplice, List.append_nil] at hnew
    rw [List.flatMap_map]
    exact Except.ok.inj hnew

theorem Spells.eq_nil {tokens : List Token} {nodes : List Node} (h : Spells tokens nodes)
    (hplain : ∀ t, .opening t ∉ tokens) : nodes = [] := by
  induction h with
  | nil => rfl
  | other raw _ ih => exact ih fun t ht => hplain t (List.mem_cons_of_mem _ ht)
  | single _ _ _ => exact absurd List.mem_cons_self (hplain _)
  | pair _ _ _ _ => exact absurd List.mem_cons_self (hplain _)

theorem withIds_nil (tokens : List Token) : withIds o tokens [] = tokens := by
  induction tokens with
  | nil => rfl
  | cons token tokens ih => cases token <;> exact congrArg (_ :: ·) ih

/-- A run over a document gives exactly the elements ids that are picked and admitted, each the id
of its position in the tree. -/
theorem assign_positions (hstrategy : o.strategy = .path) {source out : List Char} {nodes : List Node}
    (hnodes : Spells (Token.list source).1 nodes) (h : (assign source o).result = .ok out) :
    out = (withIds o (Token.list source).1
      ((Numbered.list nodes).map (Numbered.pathId? o o.attr (pickedIn o source)))).flatMap Token.text := by
  by_cases hblank : Text.allBlank source
  · have hbracket : '<' ∉ source := fun hmem =>
      absurd (List.all_eq_true.mp hblank _ hmem) (by decide)
    obtain ⟨tokens, htokens⟩ := exists_tokenizes_of_not_mem hbracket
    have hsource := Token.list_eq source
    rw [htokens.list_eq, List.append_nil] at hsource
    have hnone := hnodes.eq_nil fun t ht => hbracket (by
      rw [htokens.list_eq] at ht
      rw [hsource]
      exact List.mem_flatMap_of_mem ht List.mem_cons_self)
    obtain ⟨-, rfl, -⟩ | ⟨hblank', -⟩ := assign_ok h
    · rw [hnone, Numbered.list, Numbered.listFrom, List.map_nil, withIds_nil, htokens.list_eq]
      exact hsource
    · exact absurd hblank hblank'
  · obtain ⟨selector, contents, hselector, hread, rfl⟩ := assign_text h hblank
    have hpicked : pickedIn o source = (surroundings o selector contents).picked := by
      simp only [pickedIn, hselector, hread]
      rfl
    rw [map_rewritten (givenToOpenings_served o _ _), map_fst_served, ofOpenings_served hstrategy hnodes,
      hpicked]

end

end Xml

end MarkupIds
