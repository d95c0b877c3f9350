import Wxml.Code
import Wxml.Proofs.Scan.Attribute

/-!
# Names and texts in the output

Generation changes names and texts: names of elements get capital letters and lose their dashes,
names of attributes are looked up, texts lose braces, line breaks and spaces. What is written has to
be legal again in the same place of a document.

The part that needs an argument is upper case. Its tables list some two hundred runs and a hundred
exceptions, and a name may hold any character of them. **`eq_of_mem_upper`**: no upper case holds a
character that delimits markup, unless it is the character itself.

**Not established**: that the tables of upper case are those of a Unicode version. They are data,
and the facts here are checked on them entry by entry. Nor is it said that different names stay
different: they need not.
-/

namespace Wxml

open Wxml.Text

/-! ## Upper case and delimiters -/

namespace Text

/-- The characters that end a name or start a tag or a comment. -/
def delimiters : Ranges := blanks ++ [(0x21, 0x21), (0x2f, 0x2f), (0x3c, 0x3e)]

/-- Every blank delimits a name, by the way in which `delimiters` is put together. -/
theorem covers_delimiters_of_isBlank {c : Char} (h : isBlank c = true) :
    delimiters.covers c = true := by
  rw [Ranges.covers, delimiters, List.any_append]
  exact Bool.or_eq_true_iff.mpr (.inl h)

/-- The exceptions: no upper case of more than one character is empty or holds a delimiter. Checked
over the whole table. -/
theorem upperLong_avoids : ∀ entry ∈ upperLong,
    entry.2 ≠ [] ∧ ∀ n ∈ entry.2, delimiters.covers (Char.ofNat n) = false := by
  decide +kernel

/-- The image of a run lies on one side of each range of delimiters. This is checked once for the
table, run by run and range by range, and not character by character. -/
theorem upperRuns_avoid : ∀ run ∈ upperRuns, ∀ r ∈ delimiters,
    (run.last + run.shift).toNat < r.1 ∨ r.2 < (run.first + run.shift).toNat := by
  decide +kernel

/-- A character that a run moves does not arrive at a delimiter. If the result is one, then no run
covers the character and it was left alone. -/
theorem covers_mapByRuns {c : Char} (h : delimiters.covers (mapByRuns upperRuns c) = true) :
    mapByRuns upperRuns c = c := by
  rw [mapByRuns] at h ⊢
  split at h
  · next run found =>
    exfalso
    obtain ⟨r, hr, hlow, hhigh⟩ := Ranges.covers_iff.mp h
    have avoids := upperRuns_avoid run (List.mem_of_find?_eq_some found) r hr
    have positive : ∀ r ∈ delimiters, 0 < r.1 := by decide
    have holds := List.find?_some found
    simp only [CaseRun.holds, Bool.and_eq_true, decide_eq_true_eq] at holds
    have hpositive := positive r hr
    -- an image that is no code point becomes the character zero, which is no delimiter either
    have himage : ∀ n, (Char.ofNat n).toNat = n ∨ (Char.ofNat n).toNat = 0 := by
      intro n
      by_cases valid : n.isValidChar
      · left
        rw [Char.ofNat, dif_pos valid]
        rfl
      · right
        rw [Char.ofNat, dif_neg valid]
        rfl
    rcases himage (c.toNat + run.shift).toNat with heq | heq <;> rw [heq] at hlow hhigh <;> omega
  · rfl

/-- Upper case is a look-up in one of two tables, the exceptions before the runs. -/
theorem upper_cases (c : Char) : upper c = [mapByRuns upperRuns c] ∨
    ∃ image, (c.toNat, image) ∈ upperLong ∧ upper c = image.map Char.ofNat := by
  rw [upper]
  split
  · next image found =>
    obtain ⟨before, after, hlist, -⟩ := List.lookup_eq_some_iff.mp found
    exact .inr ⟨image, by simp [hlist], rfl⟩
  · exact .inl rfl

/-- **No upper case holds a delimiter**, unless it is the character itself. So names can be put in
upper case without looking at what delimits them. -/
theorem eq_of_mem_upper {c d : Char} (hmem : d ∈ upper c) (hd : delimiters.covers d = true) :
    d = c := by
  rcases upper_cases c with hsingle | ⟨image, listed, hlong⟩
  · rw [hsingle] at hmem
    obtain rfl := List.mem_singleton.mp hmem
    exact covers_mapByRuns hd
  · rw [hlong] at hmem
    obtain ⟨n, hn, rfl⟩ := List.mem_map.mp hmem
    rw [(upperLong_avoids _ listed).2 n hn] at hd
    cases hd

/-- No character goes away in upper case, so that a name does not become empty. -/
theorem upper_ne_nil (c : Char) : upper c ≠ [] := by
  rcases upper_cases c with hsingle | ⟨image, listed, hlong⟩
  · rw [hsingle]
    exact List.cons_ne_nil _ _
  · rw [hlong]
    simpa using (upperLong_avoids _ listed).1

end Text

/-! ## Names of elements -/

/-- A delimiter in the new name stood in the old one. -/
theorem mem_of_mem_firstUpper {s : String} {d : Char} (hmem : d ∈ (firstUpper s).toList)
    (hd : delimiters.covers d = true) : d ∈ s.toList := by
  rw [firstUpper] at hmem
  split at hmem
  · cases hmem
  · next c cs hs =>
    rw [hs]
    rw [String.toList_ofList, List.mem_append] at hmem
    rcases hmem with hmem | hmem
    · rw [eq_of_mem_upper hmem hd]
      exact List.mem_cons_self
    · exact List.mem_cons_of_mem _ hmem

/-- The same for names that lose their dashes: the parts between them are changed one by one, and
the dash is no delimiter. -/
theorem mem_of_mem_camelCase {s : String} {d : Char} (hmem : d ∈ (camelCase s).toList)
    (hd : delimiters.covers d = true) : d ∈ s.toList := by
  rw [camelCase, String.toList_join, List.mem_flatMap] at hmem
  obtain ⟨word, hword, hmem⟩ := hmem
  obtain ⟨piece, hpiece, rfl⟩ := List.mem_map.mp hword
  obtain ⟨cs, hcs, rfl⟩ := List.mem_map.mp hpiece
  have hinside := mem_of_mem_firstUpper hmem hd
  rw [String.toList_ofList] at hinside
  exact (Text.mem_of_mem_splitOn hcs hinside).1

/-- A text that holds no delimiter but those of a legal name is a legal name. -/
theorem IsTagName.of_delimiters {name other : List Char} (h : IsTagName name)
    (kept : ∀ d ∈ other, delimiters.covers d = true → d ∈ name) : IsTagName other := by
  intro d hd
  refine ⟨?_, ?_, ?_⟩
  · rintro rfl
    exact (h _ (kept _ hd (by decide))).1 rfl
  · rintro rfl
    exact (h _ (kept _ hd (by decide))).2.1 rfl
  · apply Bool.eq_false_iff.mpr
    intro hblank
    have := (h d (kept d hd (covers_delimiters_of_isBlank hblank))).2.2
    rw [hblank] at this
    cases this

/-- What closes a tag in a document can close it in the code. -/
theorem IsTagName.camelCase {name : String} (h : IsTagName name.toList) :
    IsTagName (camelCase name).toList :=
  h.of_delimiters fun _ => mem_of_mem_camelCase

theorem IsTagName.firstUpper {name : String} (h : IsTagName name.toList) :
    IsTagName (firstUpper name).toList :=
  h.of_delimiters fun _ => mem_of_mem_firstUpper

/-- A name that is not empty stays so. `camelCase` does not have this: a name may consist of
dashes. -/
theorem firstUpper_ne_nil {name : String} (h : name.toList ≠ []) :
    (firstUpper name).toList ≠ [] := by
  rw [firstUpper]
  split
  · next hnil => exact absurd hnil h
  · next c cs hcons =>
    rw [String.toList_ofList]
    exact List.append_ne_nil_of_left_ne_nil (upper_ne_nil c) cs

/-- A tag does not turn into a comment: `!` is the upper case of nothing but itself. -/
theorem head?_firstUpper {name : String} (h : name.toList.head? ≠ some '!') :
    (firstUpper name).toList.head? ≠ some '!' := by
  intro hhead
  rw [firstUpper] at hhead
  split at hhead
  · cases hhead
  · next c cs hcons =>
    obtain ⟨d, ds, hupper⟩ := List.exists_cons_of_ne_nil (upper_ne_nil c)
    rw [String.toList_ofList, hupper] at hhead
    obtain rfl : d = '!' := Option.some.inj hhead
    have hc : '!' = c := eq_of_mem_upper (by rw [hupper]; exact List.mem_cons_self) (by decide)
    rw [hcons, ← hc] at h
    exact h rfl

/-! ## Names of attributes -/

/-- A word that passes the test of the attribute reader is free of what ends a name. -/
theorem plain_of_all {word : List Char} (h : word.all isAttributeNameChar = true) :
    ∀ c ∈ word, c ≠ '=' ∧ c ≠ '>' ∧ c ≠ '/' ∧ isBlank c = false := by
  intro c hc
  exact isAttributeNameChar_iff.mp (List.all_eq_true.mp h c hc)

/-- The name of an event's attribute is legal again: `on` in front of what stands behind the mark of
the event, or of the word that replaces it. -/
theorem IsAttributeName.eventProp {name : String} (h : IsAttributeName name.toList) :
    IsAttributeName (eventProp name).toList := by
  refine ⟨by simp [Wxml.eventProp], fun c hc => ?_⟩
  rw [Wxml.eventProp, String.toList_append, List.mem_append] at hc
  rcases hc with hc | hc
  · exact plain_of_all (by decide) c hc
  · rw [eventName] at hc
    split at hc
    · exact plain_of_all (by decide) c hc
    · split at hc
      · exact plain_of_all (by decide) c hc
      · rw [String.toList_ofList] at hc
        exact h.plain c (List.mem_of_mem_drop hc)

/-- Every output name of a legal name is legal, whichever role it has: a key has a name of its own,
an event is renamed, and all others keep theirs. -/
theorem IsAttributeName.outputName {name : String} (h : IsAttributeName name.toList) :
    IsAttributeName ((Role.ofName name).outputName name).toList := by
  cases Role.ofName name with
  | key =>
    show IsAttributeName "key".toList
    exact ⟨by decide, plain_of_all (by decide)⟩
  | event => exact h.eventProp
  | branch b => exact h
  | loop => exact h
  | plain => exact h

/-! ## Texts -/

/-- One brace for a pair adds no character. -/
theorem mem_of_mem_replacePairs {c d : Char} {cs : List Char} (h : d ∈ replacePairs c [c] cs) :
    d ∈ cs := by
  fun_induction replacePairs c [c] cs with
  | case1 => exact h
  | case2 x => exact h
  | case3 x y rest both ih =>
    rcases List.mem_append.mp h with h | h
    · rw [List.mem_singleton.mp h, both.1]
      exact List.mem_cons_self
    · exact List.mem_cons_of_mem _ (List.mem_cons_of_mem _ (ih h))
  | case4 x y rest other ih =>
    rcases List.mem_cons.mp h with rfl | h
    · exact List.mem_cons_self
    · exact List.mem_cons_of_mem _ (ih h)

/-- Nor does it change the first one: a pair at the start leaves its brace there. -/
theorem head?_replacePairs (c : Char) (cs : List Char) :
    (replacePairs c [c] cs).head? = cs.head? := by
  fun_cases replacePairs c [c] cs with
  | case1 => rfl
  | case2 x => rfl
  | case3 x y rest both => rw [both.1]; rfl
  | case4 x y rest other => rfl

theorem mem_of_mem_squeezeSpaces {d : Char} {cs : List Char} (h : d ∈ squeezeSpaces cs) :
    d ∈ cs := by
  fun_induction squeezeSpaces cs with
  | case1 => exact h
  | case2 x => exact h
  | case3 x y rest both ih => exact List.mem_cons_of_mem _ (ih h)
  | case4 x y rest other ih =>
    rcases List.mem_cons.mp h with rfl | h
    · exact List.mem_cons_self
    · exact List.mem_cons_of_mem _ (ih h)

theorem head?_squeezeSpaces (cs : List Char) : (squeezeSpaces cs).head? = cs.head? := by
  fun_induction squeezeSpaces cs with
  | case1 => rfl
  | case2 x => rfl
  | case3 x y rest both ih => rw [ih, both.1, both.2]; rfl
  | case4 x y rest other ih => rfl

/-- A text in the output holds only characters that it held before. In particular no `<` comes into
it. -/
theorem mem_of_mem_normalizeText {s : String} {d : Char} (h : d ∈ (normalizeText s).toList) :
    d ∈ s.toList := by
  rw [normalizeText, String.toList_ofList] at h
  have hsingle := (List.mem_filter.mp (mem_of_mem_squeezeSpaces h)).1
  exact mem_of_mem_replacePairs (mem_of_mem_replacePairs hsingle)

/-- Line breaks go, both kinds of them, wherever they stand in the text. -/
theorem not_mem_normalizeText {d : Char} (isBreak : isLineBreak d = true) (s : String) :
    d ∉ (normalizeText s).toList := by
  intro hmem
  rw [normalizeText, String.toList_ofList] at hmem
  have hkept := (List.mem_filter.mp (mem_of_mem_squeezeSpaces hmem)).2
  rw [isBreak] at hkept
  cases hkept

/-- A text that starts with something dark goes on to do so. Without that, a line break at its start
would go and another character would stand first. -/
theorem head?_normalizeText {s : String} {c : Char} (starts : s.toList.head? = some c)
    (dark : isBlank c = false) : (normalizeText s).toList.head? = some c := by
  have hbreak : isLineBreak c = false := by
    apply Bool.eq_false_iff.mpr
    intro hbreak
    rw [isLineBreak, Bool.or_eq_true, beq_iff_eq, beq_iff_eq] at hbreak
    rcases hbreak with rfl | rfl <;> revert dark <;> decide
  have hsingle : (replacePairs '}' ['}'] (replacePairs '{' ['{'] s.toList)).head? = some c := by
    rw [head?_replacePairs, head?_replacePairs, starts]
  obtain ⟨rest, hcons⟩ := List.head?_eq_some_iff.mp hsingle
  rw [normalizeText, String.toList_ofList, head?_squeezeSpaces, hcons,
    List.filter_cons_of_pos (by rw [hbreak]; rfl)]
  rfl

end Wxml
