import Wxml.Proofs.Delimiters
import Wxml.Proofs.OutputText

/-!
# Line breaks in texts

A text is rewritten five times: pairs of opening and then of closing braces become one brace,
carriage returns and line feeds go, and runs of spaces are shortened. The order decides what a line
break can do. Spaces are counted when the breaks are gone, so a run of spaces goes on across them.
Braces are counted while the breaks are still there, so a break between two equal braces keeps these
apart, and nowhere else does it make a difference.

**The law** (`normalizeText_lineBreaks`): a text in the output holds no line break and no two spaces
in a row, and line breaks may be put into a text, or taken out, at every place that does not lie
between two opening or two closing braces.

**Not established**: what becomes of other blanks. A tab, for one, is neither a line break nor a
space, and stays as it is.
-/

namespace Wxml

/-! ## What is left of a text -/

/-- Of a run of spaces one is left, so no two are. This is about the last of the five passes, and
nothing comes behind it. -/
theorem not_spaces_infix_squeezeSpaces (cs : List Char) : ¬ [' ', ' '] <:+: squeezeSpaces cs := by
  fun_induction squeezeSpaces cs with
  | case1 => simp
  | case2 x => simp [pair_infix_cons]
  | case3 x y rest both ih => exact ih
  | case4 x y rest other ih =>
    rw [pair_infix_cons, head?_squeezeSpaces, not_or]
    refine ⟨?_, ih⟩
    rintro ⟨hx, hhead⟩
    exact other ⟨hx, Option.some.inj hhead⟩

/-! ## One text in two parts -/

variable {c : Char}

/-- One brace for a pair keeps the last character, as it keeps the first one
(`head?_replacePairs`). -/
theorem getLast?_replacePairs (c : Char) (cs : List Char) :
    (replacePairs c [c] cs).getLast? = cs.getLast? := by
  fun_induction replacePairs c [c] cs with
  | case1 => rfl
  | case2 x => rfl
  | case3 x y rest both ih =>
    rw [both.2, List.singleton_append, List.getLast?_cons, ih, List.getLast?_cons_cons,
      List.getLast?_cons]
  | case4 x y rest other ih =>
    rw [List.getLast?_cons, ih, ← List.getLast?_cons]

/-- Two parts of a text that have no run of the character in common are done one by one, whatever
else stands between them. -/
theorem replacePairs_across {u b v : List Char} (hb : c ∉ b)
    (apart : ¬ (u.getLast? = some c ∧ v.head? = some c)) (image : List Char) :
    replacePairs c image (u ++ b ++ v) =
      replacePairs c image u ++ b ++ replacePairs c image v := by
  have hfirst : ¬ (u.getLast? = some c ∧ b.head? = some c) :=
    fun both => hb (List.mem_of_head? both.2)
  have hsecond : ¬ ((u ++ b).getLast? = some c ∧ v.head? = some c) := by
    rintro ⟨hlast, hhead⟩
    rw [List.getLast?_append] at hlast
    cases hend : b.getLast? with
    | none =>
      rw [hend] at hlast
      exact apart ⟨hlast, hhead⟩
    | some d =>
      rw [hend] at hlast
      exact hb (List.mem_of_getLast? (hend.trans hlast))
  rw [replacePairs_append hsecond, replacePairs_append hfirst, replacePairs_of_not_mem hb]

/-- Some characters with one brace for every pair. -/
def singleBraces (cs : List Char) : List Char := replacePairs '}' ['}'] (replacePairs '{' ['{'] cs)

/-- The first pass changes neither end of a part, so the second meets the parts as they were. -/
theorem singleBraces_across {u b v : List Char} (hb : ∀ d ∈ b, isLineBreak d = true)
    (opening : ¬ (u.getLast? = some '{' ∧ v.head? = some '{'))
    (closing : ¬ (u.getLast? = some '}' ∧ v.head? = some '}')) :
    singleBraces (u ++ b ++ v) = singleBraces u ++ b ++ singleBraces v := by
  have hopening : '{' ∉ b := fun hmem => absurd (hb _ hmem) (by decide)
  have hclosing : '}' ∉ b := fun hmem => absurd (hb _ hmem) (by decide)
  rw [singleBraces, replacePairs_across hopening opening, replacePairs_across hclosing]
  · rfl
  · rwa [getLast?_replacePairs, head?_replacePairs]

/-- Two parts of a text with line breaks between them: the breaks leave no trace. With no breaks at
all the same equation holds, so the two texts are compared through it. -/
theorem normalizeText_across {u b v : String} (hb : ∀ d ∈ b.toList, isLineBreak d = true)
    (opening : ¬ (u.toList.getLast? = some '{' ∧ v.toList.head? = some '{'))
    (closing : ¬ (u.toList.getLast? = some '}' ∧ v.toList.head? = some '}')) :
    normalizeText (u ++ b ++ v) = String.ofList (squeezeSpaces
      ((singleBraces u.toList).filter (!isLineBreak ·) ++
        (singleBraces v.toList).filter (!isLineBreak ·))) := by
  have hbreaks : b.toList.filter (!isLineBreak ·) = [] := by
    rw [List.filter_eq_nil_iff]
    intro d hd
    rw [hb d hd]
    decide
  show String.ofList (squeezeSpaces ((singleBraces (u ++ b ++ v).toList).filter _)) = _
  rw [String.toList_append, String.toList_append, singleBraces_across hb opening closing,
    List.filter_append, List.filter_append, hbreaks, List.append_nil]

/-- **Texts do not depend on their line breaks.** What is left of a text holds no line break and no
two spaces in a row. Line breaks between two parts of a text do not change what is left of it,
unless the one part ends and the other starts with the same brace. -/
theorem normalizeText_lineBreaks :
    (∀ s : String, '\n' ∉ (normalizeText s).toList ∧ '\r' ∉ (normalizeText s).toList ∧
      ¬ [' ', ' '] <:+: (normalizeText s).toList) ∧
    ∀ u b v : String, (∀ d ∈ b.toList, d = '\r' ∨ d = '\n') →
      ¬ (u.toList.getLast? = some '{' ∧ v.toList.head? = some '{') →
      ¬ (u.toList.getLast? = some '}' ∧ v.toList.head? = some '}') →
      normalizeText (u ++ b ++ v) = normalizeText (u ++ v) := by
  constructor
  · intro s
    refine ⟨not_mem_normalizeText rfl s, not_mem_normalizeText rfl s, ?_⟩
    rw [normalizeText, String.toList_ofList]
    exact not_spaces_infix_squeezeSpaces _
  · intro u b v hb opening closing
    have hbreaks : ∀ d ∈ b.toList, isLineBreak d = true := by
      intro d hd
      rcases hb d hd with rfl | rfl <;> rfl
    have hnone : ∀ d ∈ "".toList, isLineBreak d = true := List.forall_mem_nil _
    have hwith := normalizeText_across hbreaks opening closing
    have hwithout := normalizeText_across hnone opening closing
    rw [String.append_empty] at hwithout
    rw [hwith, hwithout]

/-- Breaks with spaces on both sides: the spaces of both parts are one run. -/
theorem normalizeText_lineBreaks_spaces :
    (∀ d ∈ "\r\n\n".toList, d = '\r' ∨ d = '\n') ∧
      normalizeText ("\x7b\x7ba\x7d\x7d " ++ "\r\n\n" ++ " b") =
        normalizeText ("\x7b\x7ba\x7d\x7d " ++ " b") ∧
      normalizeText ("\x7b\x7ba\x7d\x7d " ++ " b") = "\x7ba\x7d b" := by
  have hbreaks : ∀ d ∈ "\r\n\n".toList, d = '\r' ∨ d = '\n' := by
    intro d hd
    have hmem : d ∈ ['\r', '\n', '\n'] := hd
    simpa using hmem
  exact ⟨hbreaks, normalizeText_lineBreaks.2 _ _ _ hbreaks (by decide) (by decide),
    by decide +kernel⟩

/-- Between two braces a break counts: they are no pair. -/
example : normalizeText ("\x7b" ++ "\n" ++ "\x7b") ≠ normalizeText ("\x7b" ++ "\x7b") := by
  decide +kernel

end Wxml
