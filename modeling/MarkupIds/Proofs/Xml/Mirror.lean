import Mathlib.Data.List.Find
import MarkupIds.Proofs.Xml.TagSteps

/-! The names of the attributes of a tag in which some attributes without a colon in their names are left out and
put in. These are in no namespace and meet no other, so what is found in the names stays the same. -/

namespace MarkupIds.Xml.Reading

variable {α β : Type} {s s' t : State}

/-- The second reading finds on its text what the first one found, and neither passes any of it. -/
def Mirrors (x x' : Reading α) : Prop := ∀ s s' a t, Like s s' → x s = .ok (a, t) →
  ∃ t', x' s' = .ok (a, t') ∧ t'.rest = s'.rest ∧ Like t t'

namespace Mirrors

theorem pure (a : α) : Mirrors (Pure.pure a) (Pure.pure a) := fun s s' b t hlike h => by
  obtain ⟨rfl, rfl⟩ := pure_eq_ok.mp h
  exact ⟨s', rfl, rfl, hlike⟩

theorem fail (cause : Cause) (x : Reading α) : Mirrors (Reading.fail cause) x := fun _ _ _ _ _ h => absurd h fail_eq_ok

theorem note (cause : Cause) : Mirrors (Reading.note cause) (Reading.note cause) := fun s s' u t hlike h => by
  cases h
  exact ⟨_, rfl, rfl, hlike.problem (by simp)⟩

theorem bind {x x' : Reading α} {f f' : α → Reading β} (hx : Mirrors x x') (hf : ∀ a, Mirrors (f a) (f' a)) :
    Mirrors (x >>= f) (x' >>= f') := fun s s' b t hlike h => by
  obtain ⟨a, m, hfirst, hmore⟩ := bind_eq_ok.mp h
  obtain ⟨m', hfirst', hm', hlike'⟩ := hx s s' a m hlike hfirst
  obtain ⟨t', hmore', ht', hlike''⟩ := hf a m m' b t hlike' hmore
  exact ⟨t', bind_eq_ok.mpr ⟨a, m', hfirst', hmore'⟩, ht'.trans hm', hlike''⟩

theorem ite {c : Prop} [Decidable c] {x x' y y' : Reading α} (hx : Mirrors x x') (hy : Mirrors y y') :
    Mirrors (if c then x else y) (if c then x' else y') := by
  split <;> assumption

theorem attributeUri (scope : Scope) (element : List Char) (g : Given) :
    Mirrors (Reading.attributeUri scope element g) (Reading.attributeUri scope element g) := by
  unfold Reading.attributeUri
  split
  · exact .pure _
  split
  · exact .pure _
  · exact (note _).bind fun _ => .pure _

theorem noteOwner (scope : Scope) (owner : Option (List Char)) (name : List Char) :
    Mirrors (Reading.noteOwner scope owner name) (Reading.noteOwner scope owner name) := by
  unfold Reading.noteOwner
  cases owner with
  | none => exact .pure _
  | some p => exact (note _).ite (.pure _)

theorem checkId (g : Given) : Mirrors (Reading.checkId [] g) (Reading.checkId [] g) := by
  unfold Reading.checkId
  have hkeep : Mirrors (modify fun s => { s with ids := g.value :: s.ids })
      (modify fun s => { s with ids := g.value :: s.ids }) := fun s s' u t hlike h => by
    cases h
    exact ⟨_, rfl, rfl, hlike.undeclared, hlike.docType, congrArg (g.value :: ·) hlike.ids, hlike.tone⟩
  have hlast : Mirrors (do
      if (← get).ids.contains g.value then Reading.note (.idRedefined (String.ofList g.value))
      else modify fun s => { s with ids := g.value :: s.ids }) (do
      if (← get).ids.contains g.value then Reading.note (.idRedefined (String.ofList g.value))
      else modify fun s => { s with ids := g.value :: s.ids }) := fun s s' u t hlike h => by
    rw [bind_get_apply] at h ⊢
    rw [hlike.ids]
    exact (note _).ite hkeep s s' u t hlike h
  dsimp only
  refine ite ?_ (.pure _)
  split
  · exact .pure _
  · exact ((note _).bind fun _ => hlast).ite hlast

end Mirrors

/-- What is read for each member of a list is read as well for those that are kept and for further ones, if nothing is
found at the others. -/
theorem Each.mirrored {f : α → Reading β} {l : List α} (h : Each f l s t) (hmirrors : ∀ a, Mirrors (f a) (f a))
    {keep : α → Bool} (hkeep : ∀ a ∈ l, keep a = false → ∀ k, ∃ b, f a k = .ok (b, k)) {more : List α}
    (hmore : ∀ a ∈ more, ∀ k, ∃ b, f a k = .ok (b, k)) (hlike : Like s s') :
    ∃ t', Each f (l.filter keep ++ more) s' t' ∧ t'.rest = s'.rest ∧ Like t t' := by
  induction h generalizing s' with
  | nil s =>
      refine ⟨s', ?_, rfl, hlike⟩
      induction more with
      | nil => exact .nil s'
      | cons a more ih =>
          obtain ⟨ha, hmore⟩ := List.forall_mem_cons.mp hmore
          obtain ⟨b, hb⟩ := ha s'
          exact .cons hb (ih hmore)
  | @cons a b l s m t first rest ih =>
      obtain ⟨ha, hkeep⟩ := List.forall_mem_cons.mp hkeep
      cases hkept : keep a with
      | true =>
          obtain ⟨m', hfirst, hm', hlike'⟩ := hmirrors a s s' b m hlike first
          obtain ⟨t', hrest, ht', hlike''⟩ := ih hkeep hlike'
          rw [List.filter_cons_of_pos hkept]
          exact ⟨t', .cons hfirst hrest, ht'.trans hm', hlike''⟩
      | false =>
          obtain ⟨b', hb'⟩ := ha hkept s
          obtain ⟨-, rfl⟩ := Prod.mk.inj (Except.ok.inj (first.symm.trans hb'))
          rw [List.filter_cons_of_neg (by rw [hkept]; exact Bool.false_ne_true)]
          exact ih hkeep hlike

section Names

variable {keep : List Char → Bool} {seen all more : List (Given × Option (List Char))}

/-- The attribute is one of those that are kept. -/
def isKept (keep : List Char → Bool) (a : Given × Option (List Char)) : Bool := keep a.1.fullName

/-- An attribute without a colon in its name. It is in no namespace. -/
def IsLone (a : Given × Option (List Char)) : Prop := a.1.owner = none ∧ a.2 = none

/-- Attributes that have been seen, and those that are not kept among them. -/
structure Apart (keep : List Char → Bool) (seen : List (Given × Option (List Char))) : Prop where
  owned : ∀ a ∈ seen, a.2 = none → a.1.owner = none
  lone : ∀ a ∈ seen, isKept keep a = false → IsLone a

/-- An attribute that is kept meets one that is kept, or none. -/
theorem Apart.find?_eq (h : Apart keep seen) {g : Given} {uri : Option (List Char)} (hg : keep g.fullName = true)
    (howner : uri = none → g.owner = none) :
    (seen.filter (isKept keep)).find? (fun other => other.1.name == g.name && other.2 == uri) =
      seen.find? (fun other => other.1.name == g.name && other.2 == uri) := by
  rw [List.find?_filter]
  refine List.find?_congr fun other hother => ?_
  rw [Bool.eq_iff_iff, decide_eq_true_iff]
  refine ⟨And.right, fun hmeets => ⟨?_, hmeets⟩⟩
  by_contra hkept
  rw [Bool.not_eq_true] at hkept
  obtain ⟨hnone, huri⟩ := h.lone other hother hkept
  obtain ⟨hname, hsame⟩ : other.1.name = g.name ∧ other.2 = uri := by simpa using hmeets
  have hfull : other.1.fullName = g.fullName := by
    rw [fullName_eq, fullName_eq, hnone, howner (hsame ▸ huri), hname]
  rw [isKept, hfull, hg] at hkept
  cases hkept

theorem Apart.append (h : Apart keep seen) {a : Given × Option (List Char)} (howned : a.2 = none → a.1.owner = none)
    (hlone : isKept keep a = false → IsLone a) : Apart keep (seen ++ [a]) := by
  constructor
  · intro b hb
    obtain hb | hb := List.mem_append.mp hb
    · exact h.owned b hb
    · exact List.mem_singleton.mp hb ▸ howned
  · intro b hb
    obtain hb | hb := List.mem_append.mp hb
    · exact h.lone b hb
    · exact List.mem_singleton.mp hb ▸ hlone

/-- An attribute that is not kept meets none of those that are. -/
theorem Apart.find?_eq_none (h : Apart keep seen) {a : Given × Option (List Char)} (ha : isKept keep a = false)
    (hlone : IsLone a) :
    (seen.filter (isKept keep)).find? (fun other => other.1.name == a.1.name && other.2 == a.2) = none := by
  rw [List.find?_eq_none]
  intro other hother hmeets
  obtain ⟨hmem, hkept⟩ := List.mem_filter.mp hother
  obtain ⟨hname, hsame⟩ : other.1.name = a.1.name ∧ other.2 = a.2 := by simpa using hmeets
  have hfull : other.1.fullName = a.1.fullName := by
    rw [fullName_eq, fullName_eq, h.owned other hmem (hsame.trans hlone.2), hlone.1, hname]
  rw [isKept, hfull] at hkept
  rw [isKept, hkept] at ha
  cases ha

theorem clashes_mirrored {n : Nat} (h : clashes seen all s = .ok (n, t)) (hseen : Apart keep seen)
    (hall : ∀ a ∈ all, isKept keep a = false → IsLone a) (hmore : ∀ a ∈ more, isKept keep a = false ∧ IsLone a)
    (hone : more.length ≤ 1) (hlike : Like s s') :
    ∃ t', clashes (seen.filter (isKept keep)) (all.filter (isKept keep) ++ more) s' = .ok (n, t') ∧
      t'.rest = s'.rest ∧ Like t t' := by
  induction all generalizing seen s s' n with
  | nil =>
      obtain ⟨rfl, rfl⟩ := pure_eq_ok.mp h
      refine ⟨s', ?_, rfl, hlike⟩
      cases more with
      | nil => rfl
      | cons a more =>
          obtain rfl : more = [] := List.eq_nil_of_length_eq_zero (by simpa using hone)
          obtain ⟨hkept, hlone⟩ := hmore a List.mem_cons_self
          have hnone := hseen.find?_eq_none hkept hlone
          obtain ⟨g, uri⟩ := a
          rw [List.filter_nil, List.nil_append, clashes, if_neg (by rw [hlone.1]; exact Bool.false_ne_true), hnone]
          rfl
  | cons a all ih =>
      obtain ⟨g, uri⟩ := a
      obtain ⟨ha, hall⟩ := List.forall_mem_cons.mp hall
      rw [clashes] at h
      obtain ⟨hskip, h⟩ | ⟨hskip, h⟩ := of_ite h
      · have hkept : isKept keep (g, uri) = true := by
          by_contra hkept
          rw [(ha (Bool.not_eq_true _ ▸ hkept)).1] at hskip
          cases hskip
        rw [List.filter_cons_of_pos hkept, List.cons_append, clashes, if_pos hskip]
        exact ih h hseen hall hlike
      · have howner : uri = none → g.owner = none := by
          rintro rfl
          simpa using hskip
        cases hkept : isKept keep (g, uri) with
        | true =>
            have hfind := hseen.find?_eq hkept howner
            rw [List.filter_cons_of_pos hkept, List.cons_append, clashes, if_neg hskip, hfind]
            cases hmeets : seen.find? fun other => other.1.name == g.name && other.2 == uri with
            | some other =>
                rw [hmeets] at h
                dsimp only at h ⊢
                obtain ⟨-, h⟩ | ⟨hsame, h⟩ := of_ite h
                · exact absurd h fail_eq_ok
                · obtain ⟨u, m, hnote, h⟩ := bind_eq_ok.mp h
                  obtain ⟨count, m', hclashes, h⟩ := bind_eq_ok.mp h
                  obtain ⟨rfl, rfl⟩ := pure_eq_ok.mp h
                  obtain ⟨k', hnote', hk', hlike'⟩ := Mirrors.note _ s s' u m hlike hnote
                  obtain ⟨t', hclashes', ht', hlike''⟩ := ih hclashes hseen hall hlike'
                  rw [if_neg hsame]
                  exact ⟨t', bind_eq_ok.mpr ⟨u, k', hnote', bind_eq_ok.mpr ⟨count, t', hclashes', rfl⟩⟩, ht'.trans hk', hlike''⟩
            | none =>
                rw [hmeets] at h
                have hmore := ih h (hseen.append howner ha) hall hlike
                rw [List.filter_append, List.filter_cons_of_pos hkept] at hmore
                exact hmore
        | false =>
            rw [List.filter_cons_of_neg (by rw [hkept]; exact Bool.false_ne_true)]
            cases hmeets : seen.find? fun other => other.1.name == g.name && other.2 == uri with
            | some other =>
                -- what it would meet is written the same, and that ends the reading
                obtain ⟨hnone, huri⟩ := ha hkept
                obtain ⟨-, hsame⟩ : other.1.name = g.name ∧ other.2 = uri := by simpa using List.find?_some hmeets
                have hother := hseen.owned other (List.mem_of_find?_eq_some hmeets) (hsame.trans huri)
                rw [hmeets] at h
                dsimp only at h
                rw [if_pos (by rw [hother, hnone]; rfl)] at h
                exact absurd h fail_eq_ok
            | none =>
                rw [hmeets] at h
                have hmore := ih h (hseen.append howner ha) hall hlike
                rw [List.filter_append, List.filter_cons_of_neg (by rw [hkept]; exact Bool.false_ne_true), List.filter_nil,
                  List.append_nil] at hmore
                exact hmore

theorem owned_mirrored (hall : ∀ a ∈ all, isKept keep a = false → IsLone a) (hmore : ∀ a ∈ more, IsLone a) :
    ((all.filter (isKept keep) ++ more).map (·.1)).filter (fun g => g.owner.isSome) =
      (all.map (·.1)).filter fun g => g.owner.isSome := by
  have hnil : (more.map (·.1)).filter (fun g => g.owner.isSome) = [] := by
    rw [List.filter_eq_nil_iff]
    intro g hg
    obtain ⟨a, ha, rfl⟩ := List.mem_map.mp hg
    rw [(hmore a ha).1]
    exact Bool.false_ne_true
  rw [List.map_append, List.filter_append, hnil, List.append_nil]
  induction all with
  | nil => rfl
  | cons a all ih =>
      obtain ⟨ha, hall⟩ := List.forall_mem_cons.mp hall
      cases hkept : isKept keep a with
      | true =>
          rw [List.filter_cons_of_pos hkept, List.map_cons, List.map_cons, List.filter_cons, List.filter_cons, ih hall]
      | false =>
          rw [List.filter_cons_of_neg (by rw [hkept]; exact Bool.false_ne_true), ih hall, List.map_cons,
            List.filter_cons_of_neg (by rw [(ha hkept).1]; exact Bool.false_ne_true)]

theorem distinct_mirrored (h : distinct all s = .ok ((), t)) (hall : ∀ a ∈ all, isKept keep a = false → IsLone a)
    (hmore : ∀ a ∈ more, isKept keep a = false ∧ IsLone a) (hone : more.length ≤ 1) (hlike : Like s s') :
    ∃ t', distinct (all.filter (isKept keep) ++ more) s' = .ok ((), t') ∧ t'.rest = s'.rest ∧ Like t t' := by
  unfold distinct at h ⊢
  obtain ⟨count, m, hclashes, h⟩ := bind_eq_ok.mp h
  obtain ⟨m', hclashes', hm', hlike'⟩ :=
    clashes_mirrored hclashes ⟨List.forall_mem_nil _, List.forall_mem_nil _⟩ hall hmore hone hlike
  obtain ⟨hmany, h⟩ | ⟨hmany, h⟩ := of_ite h
  · dsimp only at h
    cases hfind : ((all.map (·.1)).filter fun g => g.owner.isSome).find? fun g =>
        1 < ((all.map (·.1)).filter fun g => g.owner.isSome).countP fun other => other.fullName == g.fullName with
    | some g =>
        rw [hfind] at h
        exact absurd h fail_eq_ok
    | none =>
        rw [hfind] at h
        obtain ⟨-, rfl⟩ := pure_eq_ok.mp h
        refine ⟨m', bind_eq_ok.mpr ⟨count, m', hclashes', ?_⟩, hm', hlike'⟩
        rw [if_pos hmany, owned_mirrored hall fun a ha => (hmore a ha).2]
        rw [hfind]
        rfl
  · obtain ⟨-, rfl⟩ := pure_eq_ok.mp h
    refine ⟨m', bind_eq_ok.mpr ⟨count, m', hclashes', ?_⟩, hm', hlike'⟩
    rw [if_neg hmany]
    rfl

end Names

/-- What is found in the names of a tag is found again where attributes without a colon in their names are left out
and one is put in. -/
theorem NamesChecked.mirrored {scope : Scope} {owner : Option (List Char)} {name : List Char} {plain extra : List Given}
    (h : NamesChecked scope owner name plain s t) {keep : List Char → Bool} (hcolon : ∀ n, keep n = false → ':' ∉ n)
    (hplain : ∀ g ∈ plain, keep g.fullName = false → g.owner = none)
    (hextra : ∀ g ∈ extra, keep g.fullName = false ∧ g.owner = none) (hone : extra.length ≤ 1) (hlike : Like s s') :
    ∃ t', NamesChecked scope owner name (plain.filter (fun g => keep g.fullName) ++ extra) s' t' ∧
      t'.rest = s'.rest ∧ Like t t' := by
  obtain ⟨m, m₁, m₂, huris, hdistinct, hnote, hids⟩ := h
  have huri {g : Given} (hg : g.owner = none) (k : State) : ∃ uri, attributeUri scope name g k = .ok (uri, k) := by
    unfold attributeUri
    rw [hg]
    exact ⟨none, rfl⟩
  have hid {g : Given} (hg : keep g.fullName = false) (k : State) : ∃ u, checkId [] g k = .ok (u, k) := by
    have hxml : (g.fullName == "xml:id".toList) = false := by
      rw [beq_eq_false_iff_ne]
      exact fun heq => hcolon _ hg (heq ▸ by decide)
    unfold checkId
    rw [hxml]
    exact ⟨(), rfl⟩
  obtain ⟨k, huris', hk, hlike₁⟩ := huris.mirrored (Mirrors.attributeUri scope name)
    (fun g hg hkept => huri (hplain g hg hkept)) (fun g hg => huri (hextra g hg).2) hlike
  have hlone {g : Given} (hg : g.owner = none) : IsLone (g, g.owner.bind scope.uri?) := ⟨hg, by rw [hg]; rfl⟩
  have hall : ∀ a ∈ named scope plain, isKept keep a = false → IsLone a :=
    List.forall_mem_map.mpr fun g hg hkept => hlone (hplain g hg hkept)
  have hmore : ∀ a ∈ named scope extra, isKept keep a = false ∧ IsLone a :=
    List.forall_mem_map.mpr fun g hg => ⟨(hextra g hg).1, hlone (hextra g hg).2⟩
  obtain ⟨k₁, hdistinct', hk₁, hlike₂⟩ := distinct_mirrored hdistinct hall hmore ((List.length_map _).trans_le hone) hlike₁
  obtain ⟨k₂, hnote', hk₂, hlike₃⟩ := Mirrors.noteOwner scope owner name m₁ k₁ () m₂ hlike₂ hnote
  obtain ⟨t', hids', ht', hlike₄⟩ := hids.mirrored Mirrors.checkId (fun g _ hkept => hid hkept)
    (fun g hg => hid (hextra g hg).1) hlike₃
  refine ⟨t', ⟨k, k₁, k₂, huris', ?_, hnote', hids'⟩, ht'.trans (hk₂.trans (hk₁.trans hk)), hlike₄⟩
  rw [named, named, List.filter_map] at hdistinct'
  rw [named, List.map_append]
  exact hdistinct'

end MarkupIds.Xml.Reading
