import MarkupIds.Proofs.Xml.Rewriting
import MarkupIds.Proofs.Xml.SecondRun

/-! Documents whose tokens are found again. A token is read in front of any text that starts as what follows it, but for a
document type whose end is not where its first closing bracket tells. So a document with ids has the new start tags among
its tokens, and the values that the run left or gave. -/

namespace MarkupIds.Xml

open MarkupIds.Text (after?)

namespace Token

/-- A document type is over where the first bracket outside of quotes and square brackets stands, if these end at the
first closing one. -/
def endsType : Stage → List Char → Bool
  | _, [] => false
  | .quoted quote, c :: s => endsType (if c == quote then .outside else .quoted quote) s
  | .bracketed, c :: s => endsType (if c == ']' then .outside else .bracketed) s
  | .outside, c :: s =>
    if c == '>' then s.isEmpty
    else endsType (if c == '"' || c == '\'' then .quoted c else if c == '[' then .bracketed else .outside) s

theorem afterType_of_endsType {stage : Stage} {body : List Char} (h : endsType stage body = true) (rest : List Char) :
    afterType stage (body ++ rest) = some rest := by
  induction body generalizing stage with
  | nil => cases stage <;> cases h
  | cons c body ih =>
      cases stage with
      | quoted quote =>
          rw [endsType] at h
          exact ih h
      | bracketed =>
          rw [endsType] at h
          rw [List.cons_append, afterType]
          split at h
          next hc =>
            have hrest := ih h
            simp only [hc, if_true, hrest, Option.orElse_some]
          next hc =>
            have hrest := ih h
            simp only [hc, Bool.false_eq_true, if_false, hrest]
      | outside =>
          rw [endsType] at h
          rw [List.cons_append, afterType]
          split at h
          next hc =>
            rw [if_pos hc, List.isEmpty_iff.mp h, List.nil_append]
          next hc =>
            have hrest := ih h
            rw [if_neg hc]
            split at hrest
            next hquote => rw [if_pos hquote, hrest]
            next hquote =>
              rw [if_neg hquote]
              split at hrest
              next hbracket => rw [if_pos hbracket, hrest]
              next hbracket => rw [if_neg hbracket, hrest]

/-- The token is no document type, or one that ends at the same place whatever follows. -/
def isClosed : Token → Bool
  | other raw =>
    match after? "<!DOCTYPE".toList raw with
    | some body => endsType .outside body
    | none => true
  | _ => true

/-- The token is read in front of any text that starts as `rest`. -/
structure Firm (token : Token) (rest : List Char) : Prop where
  ne : token.text ≠ []
  again : ∀ t, t.head? = rest.head? → read? (token.text ++ t) = some (token, t)

theorem Found.firm {s rest : List Char} {token : Token} (h : Found s token rest) : Firm token rest where
  ne := h.text_ne_nil
  again _ ht := (h.behind ht).read?_eq

theorem firm_type {body : List Char} (h : endsType .outside body = true) (rest : List Char) :
    Firm (.other ("<!DOCTYPE".toList ++ body)) rest where
  ne := List.cons_ne_nil _ _
  again t _ := by
    have hother : afterOther ("<!DOCTYPE".toList ++ body ++ t) = some t := by
      rw [List.append_assoc, afterOther_type, afterType_of_endsType h]
    have hbefore := before_left ("<!DOCTYPE".toList ++ body) t
    have hcons : "<!DOCTYPE".toList ++ body ++ t = '<' :: ("!DOCTYPE".toList ++ body ++ t) := rfl
    rw [text]
    rw [hcons] at hother hbefore ⊢
    simp only [read?, hother, hbefore]

theorem firm_of_read? {s rest : List Char} {token : Token} (h : read? s = some (token, rest))
    (hclosed : token.isClosed = true) : s = token.text ++ rest ∧ Firm token rest := by
  cases hafter : after? "<!DOCTYPE".toList s with
  | none =>
      have hfound := found_of_read? h hafter
      exact ⟨hfound.text_eq, hfound.firm⟩
  | some body =>
      obtain rfl : s = "<!DOCTYPE".toList ++ body := Text.after?_eq_some_iff.mp hafter
      have hother := afterOther_type body
      have hcons : "<!DOCTYPE".toList ++ body = '<' :: ("!DOCTYPE".toList ++ body) := rfl
      cases hend : afterType .outside body with
      | some rest' =>
          rw [hend] at hother
          obtain ⟨inside, rfl⟩ := suffix_of_afterType hend
          have hbefore := before_left ("<!DOCTYPE".toList ++ inside) rest'
          rw [List.append_assoc] at hbefore
          rw [hcons] at h hother hbefore
          simp only [read?, hother, hbefore] at h
          cases h
          have hends : endsType .outside inside = true := by
            rw [isClosed, Text.after?_eq_some_iff.mpr rfl] at hclosed
            exact hclosed
          exact ⟨(List.append_assoc _ _ _).symm, firm_type hends rest⟩
      | none =>
          -- then the text is no token at all
          rw [hend] at hother
          have hclosing : afterEndTag ("<!DOCTYPE".toList ++ body) = none := rfl
          have htag : StartTag.read? ("<!DOCTYPE".toList ++ body) = none := rfl
          rw [hcons] at h hother hclosing htag
          simp only [read?, hother, hclosing, htag] at h
          cases h

def AllFirm : List Token → Prop
  | [] => True
  | token :: tokens => Firm token (tokens.flatMap text) ∧ AllFirm tokens

namespace AllFirm

variable {tokens : List Token}

theorem list_eq (h : AllFirm tokens) : list (tokens.flatMap text) = (tokens, []) := by
  suffices hfuel : ∀ fuel, (tokens.flatMap text).length ≤ fuel → listFrom fuel (tokens.flatMap text) = (tokens, []) from
    hfuel _ (Nat.le_refl _)
  induction tokens with
  | nil => intro fuel _; cases fuel <;> rfl
  | cons token tokens ih =>
      intro fuel hfuel
      obtain ⟨hfirst, hothers⟩ := h
      have hpos := List.length_pos_iff.mpr hfirst.ne
      rw [List.flatMap_cons, List.length_append] at hfuel
      obtain ⟨fuel, rfl⟩ : ∃ n, fuel = n + 1 := ⟨fuel - 1, by omega⟩
      rw [List.flatMap_cons, listFrom, hfirst.again _ rfl]
      dsimp only
      rw [ih hothers fuel (by omega)]

theorem of_list {s : List Char} (h : list s = (tokens, [])) (hclosed : ∀ token ∈ tokens, token.isClosed = true) :
    AllFirm tokens := by
  unfold list at h
  generalize s.length = fuel at h
  induction fuel generalizing s tokens with
  | zero =>
      cases h
      trivial
  | succ fuel ih =>
      rw [listFrom] at h
      cases hread : read? s with
      | none =>
          rw [hread] at h
          cases h
          trivial
      | some found =>
          obtain ⟨token, rest⟩ := found
          rw [hread] at h
          obtain ⟨rfl, hnil⟩ := Prod.mk.inj h
          obtain ⟨hthis, hothers⟩ := List.forall_mem_cons.mp hclosed
          have hrest := listFrom_eq fuel rest
          rw [hnil, List.append_nil] at hrest
          refine ⟨hrest ▸ (firm_of_read? hread hthis).2, ih hothers (Prod.ext rfl hnil : listFrom fuel rest = (_, []))⟩

/-- They stay firm when start tags are written anew. -/
theorem rewrite (h : AllFirm tokens) {tokens' : List Token} (hnew : List.Forall₂ Tokenizes.Rewrites tokens tokens') :
    AllFirm tokens' ∧ (tokens'.flatMap text).head? = (tokens.flatMap text).head? := by
  induction hnew with
  | nil => exact ⟨trivial, rfl⟩
  | @cons token token' tokens tokens' hfirst _ ih =>
      obtain ⟨hmore, hhead⟩ := ih h.2
      have hkeep {a b : List Char} (ha : a ≠ []) (hb : b ≠ []) (hab : a.head? = b.head?) (r r' : List Char) :
          (a ++ r).head? = (b ++ r').head? := by
        rw [List.head?_append_of_ne_nil _ ha, List.head?_append_of_ne_nil _ hb, hab]
      rw [List.flatMap_cons, List.flatMap_cons]
      obtain rfl | ⟨t, t', rfl, rfl, ht'⟩ := hfirst
      · exact ⟨⟨⟨h.1.ne, fun t ht => h.1.again t (ht.trans hhead)⟩, hmore⟩, hkeep h.1.ne h.1.ne rfl _ _⟩
      · have hfirm := (Found.opening (tokens'.flatMap text) ht').firm
        exact ⟨⟨hfirm, hmore⟩, hkeep hfirm.ne h.1.ne rfl _ _⟩

end AllFirm

def value? (o : Options) : Token → Option (List Char)
  | opening t => Progress.existing? o t
  | _ => none

def values (o : Options) (tokens : List Token) : List (List Char) := tokens.filterMap (value? o)

theorem values_cons (o : Options) (token : Token) (tokens : List Token) :
    values o (token :: tokens) = (value? o token).toList ++ values o tokens := by
  rw [values, List.filterMap_cons]
  cases value? o token <;> rfl

end Token

section Values

variable {o : Options}

/-- A start tag with an id has it for its value, unless it had one that stays. -/
theorem existing?_withId {t : StartTag} (h : o.overwrite = true ∨ Progress.existing? o t = none) (id : List Char) :
    Progress.existing? o (t.withId o.overwrite o.attr id) = some (Markup.escape id) := by
  have hkept : ∀ a ∈ t.kept o, (a.name == o.attr) = false := by
    intro a ha
    unfold StartTag.kept at ha
    split at ha
    next => simpa using (List.mem_filter.mp ha).2
    next hkeep => exact StartTag.name_ne_of_existing?_eq_none (h.resolve_left hkeep) a ha
  have hattributes : (t.withId o.overwrite o.attr id).attributes = t.kept o ++ [StartTag.idAttribute o.attr id] := rfl
  have hnone : ((t.kept o).map fun a => (a.name, a.value)).find? (fun pair => pair.1 == o.attr) = none := by
    rw [List.find?_eq_none]
    intro pair hpair
    obtain ⟨a, ha, rfl⟩ := List.mem_map.mp hpair
    rw [hkept a ha]
    exact Bool.false_ne_true
  rw [Progress.existing?, hattributes, findAttribute, List.map_append, List.find?_append, hnone]
  simp [StartTag.idAttribute]

/-- What stays of the values of a document, and the ids, are the values among its tokens with ids. -/
theorem exists_settles_rewritten {entries : List (Token × Option String)} (hopenings : GivenToOpenings entries)
    (hadmitted : ∀ t id, (.opening t, some id) ∈ entries → o.overwrite = true ∨ Progress.existing? o t = none) :
    ∃ ledger, Entry.Settles Markup.escape (Token.values o (entries.map Prod.fst))
      (Token.values o (entries.map (rewritten o))) ledger ∧
        Entry.givenIds ledger = (Generator.provided entries).map Prod.snd := by
  induction entries with
  | nil => exact ⟨[], ⟨.slnil, rfl⟩, rfl⟩
  | cons entry entries ih =>
      obtain ⟨ledger, hledger, hids⟩ := ih hopenings.of_cons fun t id hmem => hadmitted t id (List.mem_cons_of_mem _ hmem)
      obtain ⟨token, given⟩ := entry
      rw [List.map_cons, List.map_cons, Token.values_cons, Token.values_cons]
      cases given with
      | some id =>
          obtain ⟨t, rfl⟩ := hopenings token id List.mem_cons_self
          have hvalue := existing?_withId (hadmitted t id List.mem_cons_self) id.toList
          refine ⟨⟨Progress.existing? o t, some id⟩ :: ledger, ?_, congrArg (id :: ·) hids⟩
          have hgiven := (Entry.Settles.given Markup.escape (Progress.existing? o t) id).append hledger
          rw [rewritten, Token.value?, Token.value?, hvalue]
          exact hgiven
      | none =>
          have htoken : rewritten o (token, none) = token := by cases token <;> rfl
          refine ⟨⟨Token.value? o token, none⟩ :: ledger, ?_, hids⟩
          rw [htoken]
          exact (Entry.Settles.kept Markup.escape (Token.value? o token)).append hledger

/-- The values among the tokens of a document with ids. All its tokens are found again, if they are closed. -/
theorem exists_settles_served (around : Surroundings) {source : List Char} {tokens : List Token}
    (h : Token.list source = (tokens, [])) (hclosed : ∀ token ∈ tokens, token.isClosed = true) :
    ∃ ledger, Entry.Settles Markup.escape (Token.values o tokens)
      (Token.values o (Token.list ((served o around tokens).flatMap fun e => (rewritten o e).text)).1) ledger ∧
        Entry.givenIds ledger = (Generator.provided (served o around tokens)).map Prod.snd := by
  have hproper (t : StartTag) (ht : .opening t ∈ (served o around tokens).map Prod.fst) : t.Proper := by
    rw [map_fst_served] at ht
    have hread : .opening t ∈ (Token.listFrom source.length source).1 := by
      rw [← Token.list, h]
      exact ht
    exact Token.proper_of_mem_listFrom hread
  have hnew := forall₂_rewritten (o := o) (served o around tokens) hproper
  rw [map_fst_served] at hnew
  have hagain := ((Token.AllFirm.of_list h hclosed).rewrite hnew).1.list_eq
  rw [List.flatMap_map] at hagain
  rw [hagain]
  have hledger := exists_settles_rewritten (givenToOpenings_served o around tokens) fun t id hmem => by
    obtain ⟨element, hrequest, -⟩ := Generator.of_mem_serve hmem
    obtain ⟨rank, openRanks, hasked⟩ := request_of_mem_requests hrequest
    exact Options.overwrite_or_eq_none_of_admits (request_eq_some hasked.symm).1
  rw [map_fst_served] at hledger
  exact hledger

end Values

end MarkupIds.Xml
