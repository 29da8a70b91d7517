/-! Ids as attribute values. -/

namespace MarkupIds.Markup

/-- A character inside a double-quoted attribute of HTML or XML. -/
def escapeChar : Char → List Char
  | '&' => ['&', 'a', 'm', 'p', ';']
  | '<' => ['&', 'l', 't', ';']
  | '>' => ['&', 'g', 't', ';']
  | '"' => ['&', 'q', 'u', 'o', 't', ';']
  | c => [c]

def escape (s : List Char) : List Char := s.flatMap escapeChar

def written (attr value : List Char) : List Char :=
  ' ' :: (attr ++ '=' :: '"' :: (value ++ ['"']))

/-- A value cannot end its own quotes, nor hold the brackets of a tag. -/
theorem not_mem_escape {c : Char} (hc : c = '<' ∨ c = '>' ∨ c = '"') (s : List Char) : c ∉ escape s := by
  intro h
  obtain ⟨d, -, hd⟩ := List.mem_flatMap.mp h
  unfold escapeChar at hd
  split at hd
  -- No reference holds such a character, and one that stands for itself is none of them.
  next => obtain rfl | rfl | rfl := hc <;> exact absurd hd (by decide)
  next => obtain rfl | rfl | rfl := hc <;> exact absurd hd (by decide)
  next => obtain rfl | rfl | rfl := hc <;> exact absurd hd (by decide)
  next => obtain rfl | rfl | rfl := hc <;> exact absurd hd (by decide)
  next hless hgreater hquote =>
    obtain rfl := List.mem_singleton.mp hd
    obtain rfl | rfl | rfl := hc
    · exact hless rfl
    · exact hgreater rfl
    · exact hquote rfl

theorem quote_not_mem_escape (s : List Char) : '"' ∉ escape s := not_mem_escape (.inr (.inr rfl)) s

end MarkupIds.Markup
