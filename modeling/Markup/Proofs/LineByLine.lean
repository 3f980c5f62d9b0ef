import Markup.Proofs.Lexis.Lines

/-!
# Line by line as in the whole

An editor tokenizes a text line by line and carries nothing from one line to the next but whether a
comment or a literal is open. A character that belongs to no line end has the class that it has in
the whole text (`classAt_tokenizeByLine`), unless a literal stands in the way: in the C family one
on a line before it that begins with an apostrophe and goes on after a line feed, or that a line end
cuts off, in Smalltalk one that `$` begins right before a line end (`classAt_tokenizeByLine_ne`).
-/

namespace Markup.Lexis

open Markup.Text

/-- Tokenizing line by line gives the bytes of a character that belongs to no line end the class
that they have in the whole text, if the literals of the text settle with the character. -/
theorem classAt_tokenizeByLine (language : Language) (text : String) {before after : List Char}
    {c : Char} (htext : text.toList = before ++ c :: after)
    (hc : beginsLineEnd (c :: after) = false)
    (h : ∀ t ∈ tokenize language text, language.SettlesIn text.toList before t) {offset : Nat}
    (hstart : byteLength before ≤ offset) (hstop : offset < byteLength before + c.utf8Size) :
    classAt (tokenizeByLine language text) offset = classAt (tokenize language text) offset := by
  obtain ⟨pieces, s', hrun⟩ := exists_run language .initial text.toList
  obtain ⟨htokens, -⟩ := tokenize_of_run hrun
  have hsettled : Settled language .initial before pieces := by
    refine settled_of_run [] hrun rfl rfl ⟨c :: after, htext.symm⟩ fun t ht => h t ?_
    rw [htokens]
    exact ht
  obtain ⟨more, hlines, hmore, hseen⟩ := exists_pieces_of_lines [] hrun rfl
  rw [byteLength_nil] at hlines
  have hwhole : classAt (tokensAt 0 pieces) offset = seenAt pieces before.length :=
    classAt_tokensAt (hrun.charactersOf.trans htext) (by omega) (by omega)
  have hbyLine : classAt (tokensAt 0 more) offset = seenAt more before.length :=
    classAt_tokensAt (hmore.trans htext) (by omega) (by omega)
  rw [tokenizeByLine, hlines, htokens, hbyLine, hwhole, hseen before c after htext hc hsettled]

/-- A literal in quotation marks that goes on after an escaped line end. -/
theorem classAt_tokenizeByLine_quoted :
    ("\"a\\\nb\";".toList = ['"', 'a', '\\', '\n'] ++ 'b' :: ['"', ';'] ∧
      beginsLineEnd ['b', '"', ';'] = false ∧
      ∀ t ∈ tokenize (.cFamily .java) "\"a\\\nb\";",
        (Language.cFamily .java).SettlesIn "\"a\\\nb\";".toList ['"', 'a', '\\', '\n'] t) ∧
      classAt (tokenizeByLine (.cFamily .java) "\"a\\\nb\";") 4 =
        classAt (tokenize (.cFamily .java) "\"a\\\nb\";") 4 := by
  have htext : "\"a\\\nb\";".toList = ['"', 'a', '\\', '\n'] ++ 'b' :: ['"', ';'] := by
    decide +kernel
  have hwhole : tokenize (.cFamily .java) "\"a\\\nb\";" =
      [⟨.constant, 0, 6⟩, ⟨.token, 6, 7⟩] :=
    (Tokenizer.all_of_allWithin 3 _ _ ⟨.cFamily .java, 7, [], .initial⟩
      (by decide +kernel)).1
  have hsettles : ∀ t ∈ tokenize (.cFamily .java) "\"a\\\nb\";",
      (Language.cFamily .java).SettlesIn "\"a\\\nb\";".toList ['"', 'a', '\\', '\n'] t := by
    rw [hwhole]
    intro t ht
    rcases List.mem_cons.1 ht with rfl | ht
    · intro _ _ _
      exact ⟨fun _ => by decide +kernel, fun _ hhead => absurd hhead (by decide +kernel)⟩
    · rw [List.mem_singleton.1 ht]
      intro hstart
      exact absurd hstart (by decide +kernel)
  exact ⟨⟨htext, rfl, hsettles⟩, classAt_tokenizeByLine _ _ htext rfl hsettles
    (by decide +kernel) (by decide +kernel)⟩

/-- In C the rest of a literal in apostrophes is taken for that of one in quotation marks, so the
semicolon after it belongs to it when the text is tokenized line by line. In Smalltalk a `$` at the
end of a line is no literal when the line end is not there to be its character. -/
theorem classAt_tokenizeByLine_ne :
    ("'\\\nx';".toList = ['\'', '\\', '\n', 'x', '\''] ++ ';' :: [] ∧
      beginsLineEnd [';'] = false ∧ byteLength ['\'', '\\', '\n', 'x', '\''] = 5 ∧
      classAt (tokenize (.cFamily .ansiC) "'\\\nx';") 5 = some .token ∧
      classAt (tokenizeByLine (.cFamily .ansiC) "'\\\nx';") 5 = some .constant) ∧
    ("$\n".toList = [] ++ '$' :: ['\n'] ∧ beginsLineEnd ['$', '\n'] = false ∧
      classAt (tokenize .smalltalk "$\n") 0 = some .constant ∧
      classAt (tokenizeByLine .smalltalk "$\n") 0 = some .token) := by
  refine ⟨⟨by decide +kernel, rfl, rfl, ?_, ?_⟩, by decide +kernel, rfl, ?_, ?_⟩
  · have hwhole : tokenize (.cFamily .ansiC) "'\\\nx';" =
        [⟨.constant, 0, 5⟩, ⟨.token, 5, 6⟩] :=
      (Tokenizer.all_of_allWithin 3 _ _ ⟨.cFamily .ansiC, 6, [], .initial⟩
        (by decide +kernel)).1
    rw [hwhole]
    rfl
  · have hlines : splitLines "'\\\nx';".toList = [['\'', '\\', '\n'], ['x', '\'', ';']] := by
      decide +kernel
    have hfirst := Tokenizer.all_of_allWithin 2 (.ofRange (.cFamily .ansiC) "'\\\nx';" 0 2 .initial)
      [⟨.openConstant, 0, 2⟩] ⟨.cFamily .ansiC, 2, [], ⟨true, false⟩⟩ (by decide +kernel)
    have hsecond := Tokenizer.all_of_allWithin 2
      (.ofRange (.cFamily .ansiC) "'\\\nx';" 3 6 ⟨true, false⟩) [⟨.openConstant, 3, 6⟩]
      ⟨.cFamily .ansiC, 6, [], ⟨true, false⟩⟩ (by decide +kernel)
    have hbyLine : tokenizeByLine (.cFamily .ansiC) "'\\\nx';" =
        [⟨.openConstant, 0, 2⟩, ⟨.openConstant, 3, 6⟩] := by
      rw [tokenizeByLine, hlines]
      show (Tokenizer.ofRange _ _ 0 2 _).all.1 ++ ((Tokenizer.ofRange _ _ 3 6
        (Tokenizer.ofRange _ _ 0 2 _).all.2.state).all.1 ++ []) = _
      rw [hfirst.1, hfirst.2, hsecond.1]
      rfl
    rw [hbyLine]
    rfl
  · have hwhole : tokenize .smalltalk "$\n" = [⟨.constant, 0, 2⟩] :=
      (Tokenizer.all_of_allWithin 2 _ _ ⟨.smalltalk, 2, [], .initial⟩
        (by decide +kernel)).1
    rw [hwhole]
    rfl
  · have hlines : splitLines "$\n".toList = [['$', '\n']] := by decide +kernel
    have hline := Tokenizer.all_of_allWithin 2 (.ofRange .smalltalk "$\n" 0 1 .initial)
      [⟨.token, 0, 1⟩] ⟨.smalltalk, 1, [], .initial⟩ (by decide +kernel)
    have hbyLine : tokenizeByLine .smalltalk "$\n" = [⟨.token, 0, 1⟩] := by
      rw [tokenizeByLine, hlines]
      show (Tokenizer.ofRange _ _ 0 1 _).all.1 ++ [] = _
      rw [hline.1, List.append_nil]
    rw [hbyLine]
    rfl

end Markup.Lexis
