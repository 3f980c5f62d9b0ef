import Mathlib
import Markup.Name

/-!
# Names in upper case

Upper case changes nothing in the text of a name (`Name.upper`), so a name is found again by its own
text (`Name.fold_text`).
-/

namespace Markup.Name

/-- Upper case changes nothing in what is in upper case. -/
theorem toUpper_idem (s : String) : s.toUpper.toUpper = s.toUpper := by
  apply String.toList_injective
  simp only [String.toUpper, String.toList_map, List.map_map]
  exact List.map_congr_left fun c _ => c.toUpper_toUpper_eq_toUpper

/-- Upper case changes nothing in the text of a name. -/
theorem upper (n : Name) : n.text.toUpper = n.text := by
  obtain ⟨spelling, hspelling⟩ := n.exists_toUpper
  rw [← hspelling, toUpper_idem]

/-- A name spells itself. -/
@[simp] theorem fold_text (n : Name) : fold n.text = n := Name.ext n.upper

end Markup.Name
