import MarkupIds.Proofs.Jsx.Outlined

/-! Programs keep their ids: where a reader takes start tags as they are written, what a run writes can be read again, and
another run leaves it as it is. -/

namespace MarkupIds.Jsx

open Piece

/-- A program that is read as it is written gets its ids, can be read again, and gets no others in another run. -/
theorem assign_stable {read : Reader} {o : Options} {programs : List Piece → List Node → Prop}
    (hconforms : Conforms read o programs) {pieces : List Piece} {nodes : List Node} (hpieces : programs pieces nodes) :
    ∃ ids trees, (assign (textOf pieces) o read).result = .ok (textOf (withIds o pieces ids)) ∧
      programs (withIds o pieces ids) nodes ∧ read (textOf (withIds o pieces ids)) = .ok trees ∧
      (assign (textOf (withIds o pieces ids)) o read).result = .ok (textOf (withIds o pieces ids)) := by
  obtain ⟨ids, hresult, hout, hagain⟩ := hconforms.stable hpieces
  obtain ⟨trees, hread, -⟩ := hconforms.reads hout
  exact ⟨ids, trees, hresult, hout, hread, hagain⟩

theorem assign_stable_spread :
    let o : Options := { strategy := .path, overwrite := true }
    let source := "x = <div className=\"a\" data-ast-id=\"old\" \x7b...p\x7d>hi \x7by\x7d</div>;".toList
    let out := "x = <div className=\"a\" \x7b...p\x7d data-ast-id=\"el-div-0\">hi \x7by\x7d</div>;".toList
    Conforms reader o Outlined ∧ (∃ pieces nodes, source = textOf pieces ∧ Outlined pieces nodes) ∧
      (assign source o).result = .ok out ∧ (∃ trees, reader out = .ok trees) ∧ (assign out o).result = .ok out := by
  intro o source out
  have hconforms : Conforms reader o Outlined := (Outlined.tells (.inl (by decide)) (by decide)).toConforms
  let tag : WrittenTag :=
    ⟨"div".toList, [.valued [' '] "className=\"a\"".toList "className".toList (some ['a']),
      .valued [' '] "data-ast-id=\"old\"".toList "data-ast-id".toList (some "old".toList),
      .spread [' '] "\x7b...p\x7d".toList]⟩
  let pieces : List Piece := "x = ".toList.map .char ++ .tag tag :: ">hi \x7by\x7d</div>;".toList.map .char
  have hsource : source = textOf pieces := by decide
  have hchecked : Piece.isOutlined 300 pieces = true := by decide +kernel
  obtain ⟨nodes, houtlined⟩ := exists_outlined_of_isOutlined hchecked
  have hresult : (assign source o).result = .ok out := Outcome.result_eq_ok_iff.mpr (by decide +kernel)
  obtain ⟨ids, trees, hresult', -, hread, hagain⟩ := assign_stable hconforms houtlined
  have hout : textOf (withIds o pieces ids) = out := Except.ok.inj ((hsource ▸ hresult').symm.trans hresult)
  rw [hout] at hread hagain
  exact ⟨hconforms, ⟨pieces, nodes, hsource, houtlined⟩, hresult, ⟨trees, hread⟩, hagain⟩

/-- The white space before an attribute goes with it, and may be the line end that a comment needs. -/
theorem assign_cuts_line_end :
    let o : Options := { strategy := .path, overwrite := true }
    let source := "x = <div // c\n data-ast-id=\"old\">hi</div>;".toList
    let out := "x = <div data-ast-id=\"el-div-0\" // c>hi</div>;".toList
    (assign source o).result = .ok out ∧ ∃ fault, (assign out o).result = .error (.badSource fault) := by
  intro o source out
  have hnone : Grammar.parse? grammar .program out = none := Option.isNone_iff_eq_none.mp (by decide +kernel)
  refine ⟨Outcome.result_eq_ok_iff.mpr (by decide +kernel), .unplaced "<syntax>", ?_⟩
  rw [assign, reader, hnone]

end MarkupIds.Jsx
