import Markup.Proofs.Reader.Attributes
import Markup.Proofs.Reader.Token
import Markup.Proofs.Rereading.Reads
import Markup.Writer

/-!
# Reading written characters

A character that the writer writes, as it is or as a numeric reference, is read as that character,
in text (`reads_escapeInText`) and in the value of an attribute (`reads_escapeInValue`), and so are
all characters of a text (`reads_escape`).
-/

namespace Markup.Reader

variable {g : Grammar} {d : Document} {c : Char} {cs : List Char} {place : Place}

/-! ## Single characters -/

/-- A character of text that nothing gives another meaning. -/
theorem reads_text (hreference : c = '&' → place.honoursReferences = false) (hmarkup : c ≠ '<')
    (hreturn : c ≠ '\r') :
    Reads g ⟨.text place, d, c :: cs⟩ [] [] ⟨.text place, d.append (String.singleton c), cs⟩ :=
  reads_iff_traverses.2 (traverses_text hreference hmarkup hreturn)

/-- A character of a quoted value that nothing gives another meaning. -/
theorem reads_value {v : Value} {mark : Char} (hmark : v.mark = some mark) (hend : c ≠ mark)
    (hreference : c ≠ '&') (hreturn : c ≠ '\r') (hline : c ≠ '\n') (htab : c ≠ '\t') :
    Reads g ⟨.value v, d, c :: cs⟩ [] []
      ⟨.value { v with text := v.text ++ String.singleton c }, d, cs⟩ := by
  obtain ⟨tag, name, mark?, text⟩ := v
  obtain rfl : mark? = some mark := hmark
  have hquoted : Traverses (.before []) g
      ⟨.value ⟨tag, name, some mark, text⟩, d, (String.singleton c).toList ++ cs⟩ [] []
      ⟨.value ⟨tag, name, some mark, text ++ String.singleton c⟩, d, cs⟩ := by
    refine traverses_quoted fun x hx => ?_
    obtain rfl : x = c := by simpa using hx
    exact ⟨hend, hreference, hreturn, hline, htab⟩
  rw [String.toList_singleton] at hquoted
  exact reads_iff_traverses.2 hquoted

/-! ## Numeric references -/

/-- A decimal reference adds the character of its number, in text and in values. -/
theorem reads_reference (site : Site) (digits : List Char) (hsite : site.HonoursReferences)
    (hdigits : digits.all Char.isDigit = true) (hc : Reference.character? false digits = some c) :
    Reads g ⟨site.mode, d, '&' :: '#' :: (digits ++ ';' :: cs)⟩ [] []
      ⟨site.modeAfter (String.singleton c), site.documentAfter d (String.singleton c), cs⟩ := by
  let n : Numeral := ⟨none, digits, nofun, List.all_eq_true.1 hdigits⟩
  have hcharacter : n.character? = some c := hc
  have hexpansion : n.expansion = String.singleton c := by
    rw [Numeral.expansion, hcharacter]
    rfl
  have hreads : Traverses (.before []) g ⟨site.mode, d, n.text ++ [';'] ++ cs⟩ [] []
      ⟨site.modeAfter n.expansion, site.documentAfter d n.expansion, cs⟩ :=
    n.traverses rfl site hsite true (fun h => absurd h (by decide)) fun h => absurd h (by decide)
  rw [hexpansion, List.append_assoc] at hreads
  exact reads_iff_traverses.2 hreads

/-! ## Written characters -/

/-- A character written in text is read as the character. -/
theorem reads_escapeInText (h : place.honoursReferences = true) :
    Reads g ⟨.text place, d, (Writer.escapeInText c).toList ++ cs⟩ [] []
      ⟨.text place, d.append (String.singleton c), cs⟩ := by
  unfold Writer.escapeInText
  by_cases hreference : c = '&'
  · subst hreference
    exact reads_reference (.text place) ['3', '8'] h rfl (by decide)
  by_cases hmarkup : c = '<'
  · subst hmarkup
    exact reads_reference (.text place) ['6', '0'] h rfl (by decide)
  by_cases hend : c = '>'
  · subst hend
    exact reads_reference (.text place) ['6', '2'] h rfl (by decide)
  by_cases hreturn : c = '\r'
  · subst hreturn
    exact reads_reference (.text place) ['1', '3'] h rfl (by decide)
  · -- any other character means itself
    rw [if_neg hreference, if_neg hmarkup, if_neg hend, if_neg hreturn, String.toList_singleton]
    exact reads_text (fun hc => absurd hc hreference) hmarkup hreturn

/-- A character written in a value is read as the character. -/
theorem reads_escapeInValue {v : Value} (hmark : v.mark = some '"') :
    Reads g ⟨.value v, d, (Writer.escapeInValue c).toList ++ cs⟩ [] []
      ⟨.value { v with text := v.text ++ String.singleton c }, d, cs⟩ := by
  have hsite : Site.HonoursReferences (.value v) := by
    rw [Site.HonoursReferences, hmark]
    decide
  unfold Writer.escapeInValue
  by_cases hreference : c = '&'
  · subst hreference
    exact reads_reference (.value v) ['3', '8'] hsite rfl (by decide)
  by_cases hend : c = '"'
  · subst hend
    exact reads_reference (.value v) ['3', '4'] hsite rfl (by decide)
  by_cases hline : c = '\n'
  · subst hline
    exact reads_reference (.value v) ['1', '0'] hsite rfl (by decide)
  by_cases hreturn : c = '\r'
  · subst hreturn
    exact reads_reference (.value v) ['1', '3'] hsite rfl (by decide)
  by_cases htab : c = '\t'
  · subst htab
    exact reads_reference (.value v) ['9'] hsite rfl (by decide)
  · rw [if_neg hreference, if_neg hend, if_neg hline, if_neg hreturn, if_neg htab,
      String.toList_singleton]
    exact reads_value hmark hend hreference hreturn hline htab

/-- The characters of an escaped text. -/
theorem toList_escape (form : Char → String) (text : String) :
    (Writer.escape form text).toList = text.toList.flatMap fun c => (form c).toList := by
  have hfold (cs : List Char) (out : String) :
      (cs.foldl (fun out c => out ++ form c) out).toList =
        out.toList ++ cs.flatMap fun c => (form c).toList := by
    induction cs generalizing out with
    | nil => simp
    | cons c cs ih => rw [List.foldl_cons, ih, String.toList_append, List.flatMap_cons,
        List.append_assoc]
  exact hfold text.toList ""

/-- Where each written character is read as the character, a written text is read as the text. -/
theorem reads_escape {form : Char → String} (shown : String → List Char → View)
    (h : ∀ text c cs, Reads g (shown text ((form c).toList ++ cs)) [] []
      (shown (text ++ String.singleton c) cs)) (before text : String) (cs : List Char) :
    Reads g (shown before ((Writer.escape form text).toList ++ cs)) [] []
      (shown (before ++ text) cs) := by
  have hall (written : List Char) (before : String) :
      Reads g (shown before (written.flatMap (fun c => (form c).toList) ++ cs)) [] []
        (shown (before ++ String.ofList written) cs) := by
    induction written generalizing before with
    | nil =>
      rw [String.ofList_nil, String.append_empty]
      exact .refl _
    | cons c written ih =>
      rw [List.flatMap_cons, List.append_assoc, String.ofList_cons, ← String.append_assoc]
      exact (h before c _).after (ih _)
  rw [toList_escape]
  have htext := hall text.toList before
  rwa [String.ofList_toList] at htext

end Markup.Reader
