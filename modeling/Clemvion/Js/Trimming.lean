import Clemvion.Js.Text
import Clemvion.Library.Trimming

/-!
# Trimming — `trim` on lists of characters
-/

open Clemvion.Library

namespace Clemvion.Js

def trimText (text : List Char) : List Char := (trim (String.ofList text)).toList

variable {text : List Char}

theorem trimText_eq (text : List Char) : trimText text = trimBoth isJsSpace text := by
  unfold trimText trim trimBoth List.rdropWhile
  rw [String.toList_ofList, String.toList_ofList]

theorem trimText_of_solid (h : Solid isJsSpace text) : trimText text = text := by
  rw [trimText_eq, h.trimBoth_self]

/-- What is solid remains when the spaces around it go. -/
theorem trimText_margins (h : Solid isJsSpace text) (before after : List Char)
    (hbefore : ∀ c ∈ before, isJsSpace c = true) (hafter : ∀ c ∈ after, isJsSpace c = true) :
    trimText (before ++ text ++ after) = text := by
  rw [trimText_eq, h.trimBoth before after hbefore hafter]

theorem trimText_blank (h : ∀ c ∈ text, isJsSpace c = true) : trimText text = [] := by
  rw [trimText_eq]
  unfold trimBoth
  rw [List.dropWhile_eq_nil_iff.mpr h]
  rfl

theorem length_trimText_le (text : List Char) : (trimText text).length ≤ text.length := by
  rw [trimText_eq]
  have hstart := (List.dropWhile_sublist isJsSpace (l := text)).length_le
  have hend := (List.rdropWhile_prefix isJsSpace (l := text.dropWhile isJsSpace)).length_le
  unfold trimBoth
  omega

end Clemvion.Js
