import Wxml.Interpolation
import Wxml.Position

/-!
# Line feeds and carriage returns

`withCrlf` writes a carriage return before every line feed of a text. Line and column of a place do
not change by this (`Position.crlf`), as the carriage returns stand at the ends of lines.

Expressions keep their line ends and texts lose them, so the one commutes with `withCrlf` and the
other does not see it: **`stripExpression_withCrlf`** and **`normalizeText_withCrlf`**.

**Not established**: anything about texts with carriage returns of their own. `withCrlf` puts a
second one before a line feed that has one, and leaves those alone that stand elsewhere.
-/

namespace Wxml

/-! ## Texts -/

/-- The characters with a carriage return before every line feed. -/
def crlfs (cs : List Char) : List Char := cs.flatMap fun c => if c = '\n' then ['\r', '\n'] else [c]

/-- The text with a carriage return before every line feed. -/
def withCrlf (s : String) : String := String.ofList (crlfs s.toList)

@[simp] theorem crlfs_nil : crlfs [] = [] := rfl

@[simp] theorem crlfs_lineFeed (cs : List Char) :
    crlfs ('\n' :: cs) = '\r' :: '\n' :: crlfs cs := rfl

theorem crlfs_cons {c : Char} (h : c ≠ '\n') (cs : List Char) :
    crlfs (c :: cs) = c :: crlfs cs := by
  rw [crlfs, List.flatMap_cons, if_neg h]
  rfl

theorem crlfs_append (cs ds : List Char) : crlfs (cs ++ ds) = crlfs cs ++ crlfs ds :=
  List.flatMap_append

/-- A text without line feeds is not changed. -/
theorem crlfs_eq_self {cs : List Char} (h : '\n' ∉ cs) : crlfs cs = cs := by
  induction cs with
  | nil => rfl
  | cons c cs ih =>
    rw [crlfs_cons fun hc => h (hc ▸ List.mem_cons_self),
      ih fun hcs => h (List.mem_cons_of_mem _ hcs)]

theorem crlfs_eq_nil_iff {cs : List Char} : crlfs cs = [] ↔ cs = [] := by
  cases cs with
  | nil => simp
  | cons c cs =>
    by_cases hc : c = '\n'
    · simp [hc]
    · simp [crlfs_cons hc]

theorem ne_of_isLineBreak {d : Char} (inner : isLineBreak d = false) : d ≠ '\r' ∧ d ≠ '\n' := by
  simpa [isLineBreak] using inner

/-- A text still starts with a character that is not the end of a line. Only a text that starts with
a line feed gets another first character. -/
theorem head?_crlfs_eq_some_iff {cs : List Char} {d : Char} (inner : isLineBreak d = false) :
    (crlfs cs).head? = some d ↔ cs.head? = some d := by
  obtain ⟨hreturn, hfeed⟩ := ne_of_isLineBreak inner
  cases cs with
  | nil => simp
  | cons c cs =>
    by_cases hc : c = '\n'
    · subst hc
      simp [Ne.symm hfeed, Ne.symm hreturn]
    · simp [crlfs_cons hc]

/-- A character that is no line break stands at the front of both texts or of neither, with the rest
changed alike. Readers look for single characters in this way. -/
theorem crlfs_eq_cons {cs ds : List Char} {d : Char} (inner : isLineBreak d = false)
    (h : crlfs cs = d :: ds) : ∃ es, cs = d :: es ∧ ds = crlfs es := by
  have hhead : cs.head? = some d := (head?_crlfs_eq_some_iff inner).mp (by rw [h]; rfl)
  obtain ⟨es, rfl⟩ := List.head?_eq_some_iff.mp hhead
  rw [crlfs_cons (ne_of_isLineBreak inner).2] at h
  exact ⟨es, rfl, (List.cons.inj h).2.symm⟩

/-- A test that does not tell the ends of lines apart holds of a whole text as it did. The tests of
all readers are of this kind. -/
theorem forall_crlfs {p : Char → Bool} (alike : p '\r' = p '\n') {cs : List Char}
    (h : ∀ c ∈ cs, p c = true) : ∀ c ∈ crlfs cs, p c = true := by
  induction cs with
  | nil => exact h
  | cons c cs ih =>
    have hfirst := h c List.mem_cons_self
    have hrest := ih fun d hd => h d (List.mem_cons_of_mem _ hd)
    by_cases hc : c = '\n'
    · subst hc
      rw [crlfs_lineFeed]
      simpa [alike, hfirst] using hrest
    · rw [crlfs_cons hc]
      simpa [hfirst] using hrest

@[simp] theorem toList_withCrlf (s : String) : (withCrlf s).toList = crlfs s.toList :=
  String.toList_ofList

@[simp] theorem withCrlf_ofList (cs : List Char) :
    withCrlf (String.ofList cs) = String.ofList (crlfs cs) := by
  rw [withCrlf, String.toList_ofList]

theorem withCrlf_append (s t : String) : withCrlf (s ++ t) = withCrlf s ++ withCrlf t := by
  rw [withCrlf, String.toList_append, crlfs_append, String.ofList_append]
  rfl

theorem withCrlf_eq_self {s : String} (h : '\n' ∉ s.toList) : withCrlf s = s := by
  rw [withCrlf, crlfs_eq_self h, String.ofList_toList]

/-! ## Positions -/

namespace Position

/-- The same line and column. The carriage returns of all lines before are counted in. -/
def crlf (p : Position) : Position := ⟨p.line, p.column, p.offset + (p.line - 1)⟩

/-- Inside a line both positions take the same step. -/
theorem step_crlf_of_ne (p : Position) {c : Char} (h : c ≠ '\n') :
    (p.step c).crlf = p.crlf.step c := by
  simp only [step, crlf, if_neg h]
  congr 1
  omega

/-- At the end of a line the second position takes two steps. The carriage return adds a column,
which the line feed sets back to one, and an offset, which stays. -/
theorem step_crlf_lineFeed (p : Position) :
    (p.step '\n').crlf = (p.crlf.step '\r').step '\n' := by
  simp only [step, crlf, if_true, if_neg (by decide : ¬ '\r' = '\n')]
  congr 1
  omega

/-- The positions behind some characters have the same line and column in both texts. -/
theorem after_crlfs (p : Position) (cs : List Char) :
    (p.after cs).crlf = p.crlf.after (crlfs cs) := by
  induction cs generalizing p with
  | nil => rfl
  | cons c cs ih =>
    by_cases hc : c = '\n'
    · subst hc
      rw [crlfs_lineFeed, after_cons, after_cons, after_cons, ih, step_crlf_lineFeed]
    · rw [crlfs_cons hc, after_cons, after_cons, ih, step_crlf_of_ne p hc]

end Position

/-! ## Interpolation -/

/-- A character that starts no pair is kept, and the pass goes on behind it. -/
theorem replacePairs_cons {c x : Char} {cs : List Char} (h : ¬ (x = c ∧ cs.head? = some c))
    (image : List Char) : replacePairs c image (x :: cs) = x :: replacePairs c image cs := by
  cases cs with
  | nil => rfl
  | cons y cs => rw [replacePairs, if_neg fun both => h ⟨both.1, congrArg some both.2⟩]

/-- A pass over pairs commutes with line ends, if the brace is none. Two braces with a line feed
between them are no pair, with a carriage return as without. -/
theorem replacePairs_crlfs {c : Char} (inner : isLineBreak c = false) {image : List Char}
    (himage : '\n' ∉ image) (cs : List Char) :
    replacePairs c image (crlfs cs) = crlfs (replacePairs c image cs) := by
  obtain ⟨hreturn, hfeed⟩ := ne_of_isLineBreak inner
  -- one character that is no part of a pair, in front of a text for which the claim holds
  have single : ∀ x rest, ¬ (x = c ∧ rest.head? = some c) →
      replacePairs c image (crlfs rest) = crlfs (replacePairs c image rest) →
      replacePairs c image (crlfs (x :: rest)) = crlfs (x :: replacePairs c image rest) := by
    intro x rest other ih
    by_cases hx : x = '\n'
    · subst hx
      rw [crlfs_lineFeed, crlfs_lineFeed, replacePairs_cons fun both => hreturn both.1.symm,
        replacePairs_cons fun both => hfeed both.1.symm, ih]
    · rw [crlfs_cons hx, crlfs_cons hx,
        replacePairs_cons (by rwa [head?_crlfs_eq_some_iff inner]), ih]
  fun_induction replacePairs c image cs with
  | case1 => rfl
  | case2 x => exact single x [] (fun both => by cases both.2) rfl
  | case3 x y rest both ih =>
    obtain ⟨rfl, rfl⟩ := both
    rw [crlfs_cons hfeed, crlfs_cons hfeed, replacePairs, if_pos ⟨rfl, rfl⟩, crlfs_append,
      crlfs_eq_self himage, ih]
  | case4 x y rest other ih =>
    exact single x (y :: rest) (fun both => other ⟨both.1, Option.some.inj both.2⟩) ih

/-- **Expressions keep their line ends.** Stripping delimiters and writing carriage returns commute,
since no delimiter is made or broken by a carriage return. -/
theorem stripExpression_withCrlf (s : String) :
    stripExpression (withCrlf s) = withCrlf (stripExpression s) := by
  rw [stripExpression, stripExpression, withCrlf_ofList, toList_withCrlf,
    replacePairs_crlfs rfl (by decide),
    replacePairs_crlfs rfl (by decide)]

/-- Without line breaks the two texts are one. -/
theorem filter_crlfs (cs : List Char) :
    (crlfs cs).filter (!isLineBreak ·) = cs.filter (!isLineBreak ·) := by
  induction cs with
  | nil => rfl
  | cons c cs ih =>
    by_cases hc : c = '\n'
    · subst hc
      rw [crlfs_lineFeed, List.filter_cons_of_neg (by decide), List.filter_cons_of_neg (by decide),
        List.filter_cons_of_neg (by decide), ih]
    · rw [crlfs_cons hc, List.filter_cons, List.filter_cons, ih]

/-- **Texts lose their line ends**, whatever they are, so that a text in the output does not show
which ones the document had. -/
theorem normalizeText_withCrlf (s : String) : normalizeText (withCrlf s) = normalizeText s := by
  rw [normalizeText, normalizeText, toList_withCrlf,
    replacePairs_crlfs rfl (by decide),
    replacePairs_crlfs rfl (by decide), filter_crlfs]

end Wxml
