import Clemvion.Js.JsonText

/-!
# JsonLine — a JSON text is one line

What `JSON.stringify` writes has no line break: those of the strings are escaped.
-/

namespace Clemvion.Js.JsonText

theorem lineBreak_notMem_escapeChar (c : Char) : '\n' ∉ escapeChar c := by
  have hhex : ∀ n < 16, Nat.digitChar n ≠ '\n' := by decide
  unfold escapeChar
  split
  case h_1 => decide
  case h_2 => decide
  case h_3 => decide
  case h_4 => decide
  case h_5 => decide
  case h_6 hbreak _ _ =>
    split_ifs with hback hfeed hcontrol
    · decide
    · decide
    · have hhigh := hhex (c.toNat / 16) (by omega)
      have hlow := hhex (c.toNat % 16) (by omega)
      simp only [List.mem_cons, List.not_mem_nil, or_false, not_or]
      exact ⟨by decide, by decide, by decide, by decide, hhigh.symm, hlow.symm⟩
    · intro hmem
      exact hbreak (List.mem_singleton.mp hmem).symm

theorem lineBreak_notMem_writeString (s : String) : '\n' ∉ writeString s := by
  unfold writeString
  rw [List.mem_append, List.mem_cons, List.mem_flatMap]
  rintro ((hquote | ⟨c, -, hc⟩) | hquote)
  · cases hquote
  · exact lineBreak_notMem_escapeChar c hc
  · exact absurd hquote (by decide)

theorem lineBreak_notMem_toDigits (n : Nat) : '\n' ∉ Nat.toDigits 10 n := fun hmem =>
  absurd (isDigit_of_mem_toDigits hmem) (by decide)

theorem lineBreak_notMem_writeNumber (n : Number) : '\n' ∉ writeNumber n := by
  have hscaled : ∀ m places, '\n' ∉ writeScaled m places := by
    intro m places
    unfold writeScaled
    dsimp only
    split_ifs
    · exact lineBreak_notMem_toDigits _
    · rw [List.mem_append, List.mem_cons, List.mem_append]
      rintro (hwhole | hpoint | hzeros | hfraction)
      · exact lineBreak_notMem_toDigits _ hwhole
      · cases hpoint
      · cases List.eq_of_mem_replicate hzeros
      · exact lineBreak_notMem_toDigits _ hfraction
  unfold writeNumber
  split
  · dsimp only
    split_ifs
    · rw [List.mem_cons, not_or]
      exact ⟨by decide, hscaled _ _⟩
    · exact hscaled _ _
  · decide

mutual

theorem lineBreak_notMem_writeValue : ∀ v, '\n' ∉ writeValue v
  | .undefined | .null | .bool true | .bool false => by decide
  | .num n => lineBreak_notMem_writeNumber n
  | .str s => lineBreak_notMem_writeString s
  | .arr items => by
    have hitems := lineBreak_notMem_writeItems items
    rw [writeValue, List.mem_cons, not_or]
    exact ⟨by decide, hitems⟩
  | .obj fields => by
    have hfields := lineBreak_notMem_writeFields true fields
    rw [writeValue, List.mem_cons, not_or]
    exact ⟨by decide, hfields⟩

theorem lineBreak_notMem_writeItems : ∀ items, '\n' ∉ writeItems items
  | [] => by decide
  | item :: items => by
    have hitem := lineBreak_notMem_writeValue item
    have hitems := lineBreak_notMem_writeItems items
    cases items with
    | nil =>
      rw [writeItems, List.mem_append, not_or]
      exact ⟨hitem, by decide⟩
    | cons next items =>
      rw [writeItems, List.mem_append, List.mem_cons, not_or, not_or]
      · exact ⟨hitem, by decide, hitems⟩
      · simp

theorem lineBreak_notMem_writeFields (first : Bool) : ∀ fields, '\n' ∉ writeFields first fields
  | [] => by cases first <;> decide
  | (key, v) :: fields => by
    have hv := lineBreak_notMem_writeValue v
    have hsame := lineBreak_notMem_writeFields first fields
    have hrest := lineBreak_notMem_writeFields false fields
    by_cases hundef : v = .undefined
    · rw [hundef, writeFields]
      exact hsame
    · rw [writeFields_cons first hundef]
      simp only [List.mem_append, List.mem_cons, not_or]
      refine ⟨⟨⟨?_, lineBreak_notMem_writeString key⟩, by decide, hv⟩, hrest⟩
      split_ifs <;> decide

end

theorem lineBreak_notMem_stringify (v : Value) : '\n' ∉ (stringify v).toList := by
  unfold stringify
  rw [String.toList_ofList]
  exact lineBreak_notMem_writeValue v

end Clemvion.Js.JsonText
