import Wxml.Proofs.Scan

/-!
# Reading a text that goes on

A reader sees the text up to its end. Here the same reader stands at the same place of a longer text
(`Cursor.extend`). Its answer stays what it was, unless the old end of the text took part in it:

- an error that stands at the end of the text, where something more was wanted;
- an error at a slash in the last place, which `>` could have followed;
- a text, which goes on up to the next `<`, and a bare attribute, which goes on up to the end of its
  name. Behind them something else has to stand.

`Reading.Final` excludes the first two. **The laws** are one equation for each reader: where its
answer is final, `(c.extend more).read… = c.read….extend more`.

**Not established**: what a longer text gives where the answer is not final. There it may be another
error, none at all, or the same one at another place.
-/

namespace Wxml

open Wxml.Text

/-- A run that ends before the end of the text ends there in every longer text. -/
theorem Stops.append {p : Char → Bool} {cs : List Char} (h : Stops p cs) (inside : cs ≠ [])
    (more : List Char) : Stops p (cs ++ more) := by
  obtain ⟨c, cs, rfl⟩ := List.exists_cons_of_ne_nil inside
  exact stops_cons.mpr (stops_cons.mp h)

namespace Cursor

/-- The same place of a text that goes on. -/
def extend (c : Cursor) (more : List Char) : Cursor := ⟨c.rest ++ more, c.position⟩

@[simp] theorem rest_extend (c : Cursor) (more : List Char) :
    (c.extend more).rest = c.rest ++ more := rfl

/-- What is passed does not depend on what comes behind the second cursor. -/
theorem Passes.extend {c c' : Cursor} {x : List Char} (h : c.Passes x c') (more : List Char) :
    (c.extend more).Passes x (c'.extend more) where
  rest := by rw [rest_extend, h.rest, List.append_assoc, rest_extend]
  position := h.position

/-- A cursor that does not reach the end of the text advances alike in a longer one. -/
theorem advance_extend {c : Cursor} {x rest : List Char} (h : c.rest = x ++ rest)
    (more : List Char) :
    (c.extend more).advance x.length = (c.advance x.length).extend more :=
  ((passes_advance h).extend more).eq_advance.symm

section Runs

variable {c : Cursor} {p : Char → Bool} {more : List Char}

/-- A run ends where it ended, if what follows it there does not go on with it. In the middle of a
text something always ends it; at the old end of the text the new part must. -/
theorem run_extend (stops : Stops p ((c.skip p).rest ++ more)) : (c.extend more).run p = c.run p :=
  ((passes_skip c p).extend more).run_eq (fun _ => of_mem_run) stops

/-- The other half of `run_extend`: the cursor behind the run. -/
theorem skip_extend (stops : Stops p ((c.skip p).rest ++ more)) :
    (c.extend more).skip p = (c.skip p).extend more :=
  ((passes_skip c p).extend more).skip_eq (fun _ => of_mem_run) stops

/-- Where something is left behind a run, it is what ended the run, and goes on to end it. -/
theorem stops_of_inside (inside : (c.skip p).rest ≠ []) : Stops p ((c.skip p).rest ++ more) :=
  (stops_skip c p).append inside more

end Runs

/-- What is left behind a run is left before it, too. -/
theorem rest_ne_nil_of_skip {c : Cursor} {p : Char → Bool} (h : (c.skip p).rest ≠ []) :
    c.rest ≠ [] := by
  intro hnil
  apply h
  rw [rest_skip, hnil]
  rfl

/-- A message shows the next character, which is the same one unless there was none. -/
theorem shown_extend {c : Cursor} (inside : c.rest ≠ []) (more : List Char) :
    (c.extend more).shown = c.shown := by
  obtain ⟨x, xs, hrest⟩ := List.exists_cons_of_ne_nil inside
  simp only [shown, peek?, rest_extend, hrest, List.cons_append, List.getElem?_cons_zero]

end Cursor

namespace Reading

variable {α β : Type}

/-- The answer with its cursor in a text that goes on. -/
def extend (r : Reading α) (more : List Char) : Reading α :=
  match r with
  | done a c => done a (c.extend more)
  | failed e c => failed e (c.extend more)

/-- **An answer that more text does not change**: if it is an error, then it stands neither at the
end of the text nor at a slash that might still be followed by `>`. -/
def Final : Reading α → Prop
  | done _ _ => True
  | failed e c => c.rest ≠ [] ∧ (e.cause = .expected "'>' after '/'" → c.rest ≠ ['/'])

/-- A longer text and a changed value do not meet. -/
theorem extend_map (r : Reading α) (f : α → β) (more : List Char) :
    (r.map f).extend more = (r.extend more).map f := by
  cases r <;> rfl

/-- Whether an answer is final is a question about errors only. -/
theorem final_map {r : Reading α} {f : α → β} : (r.map f).Final ↔ r.Final := by
  cases r <;> exact Iff.rfl

/-- No error at the end of the text is final: what follows might have been wanted there. -/
theorem not_final_endOfInput {c : Cursor} (ended : c.rest = []) {cause : Cause} :
    ¬ (fail cause c : Reading α).Final := fun final => final.1 ended

end Reading

namespace Cursor

/-! ## Attributes -/

/-- One character decides, so that there only has to be one. -/
theorem expect_extend {c : Cursor} (inside : c.rest ≠ []) (char : Char) (what : String)
    (more : List Char) : (c.extend more).expect char what = (c.expect char what).extend more := by
  obtain ⟨x, xs, hrest⟩ := List.exists_cons_of_ne_nil inside
  have hadvance : (c.extend more).advance 1 = (c.advance 1).extend more :=
    advance_extend (x := [x]) hrest more
  unfold expect
  rw [rest_extend, hrest, List.cons_append]
  dsimp only
  by_cases hx : x = char
  · rw [if_pos hx, if_pos hx, hadvance]
    rfl
  · rw [if_neg hx, if_neg hx]
    rfl

/-- A value is the same in a longer text, if something was left where its reader stopped. A missing
quote is looked for up to the end and so is not final. -/
theorem readValue_extend {c : Cursor} {quote : Char} {name : String} {start : Position}
    (inside : (c.readValue quote name start).cursor.rest ≠ []) (more : List Char) :
    (c.extend more).readValue quote name start = (c.readValue quote name start).extend more := by
  have hskip : (c.skip (· != quote)).rest ≠ [] := by
    intro hnil
    apply inside
    rw [readValue, expect, hnil]
    exact hnil
  unfold readValue
  rw [skip_extend (stops_of_inside hskip), run_extend (stops_of_inside hskip),
    expect_extend hskip, Reading.extend_map]

/-- A name is the same in a longer text, if something stands behind it. The three facts are always
used together: the name, the cursor behind it, and what stands there. -/
theorem attributeName_extend {c : Cursor} {x : Char} {xs : List Char}
    (hrest : (c.skip isAttributeNameChar).rest = x :: xs) (more : List Char) :
    (c.extend more).run isAttributeNameChar = c.run isAttributeNameChar ∧
      (c.extend more).skip isAttributeNameChar = (c.skip isAttributeNameChar).extend more ∧
      ((c.extend more).skip isAttributeNameChar).rest = x :: (xs ++ more) := by
  have hskip : (c.skip isAttributeNameChar).rest ≠ [] := by simp [hrest]
  have hstops : Stops isAttributeNameChar ((c.skip isAttributeNameChar).rest ++ more) :=
    stops_of_inside hskip
  have hbehind := skip_extend hstops
  refine ⟨run_extend hstops, hbehind, ?_⟩
  rw [hbehind, rest_extend, hrest, List.cons_append]

/-- An attribute is read in the same way, if something stands behind what was read of it. A bare
attribute at the very end might otherwise go on, and an unfinished one be finished. -/
theorem readAttribute_extend {c : Cursor} (inside : c.readAttribute.cursor.rest ≠ [])
    (more : List Char) : (c.extend more).readAttribute = c.readAttribute.extend more := by
  cases c.attributeShape with
  | unnamed unnamed =>
    rw [readAttribute_unnamed unnamed] at inside ⊢
    have inside : c.rest ≠ [] := inside
    have hskip : (c.skip isAttributeNameChar).rest ≠ [] := by
      rwa [(passes_skip c isAttributeNameChar).rest, unnamed] at inside
    rw [readAttribute_unnamed (by rwa [run_extend (stops_of_inside hskip)]),
      shown_extend inside]
    rfl
  | bare named alone =>
    rw [readAttribute_bare named alone] at inside ⊢
    have inside : (c.skip isAttributeNameChar).rest ≠ [] := inside
    obtain ⟨x, xs, hrest⟩ := List.exists_cons_of_ne_nil inside
    obtain ⟨hrun, hbehind, hrest'⟩ := attributeName_extend hrest more
    have alone' : ((c.extend more).skip isAttributeNameChar).rest.head? ≠ some '=' := by
      rw [hrest']
      rwa [hrest] at alone
    rw [readAttribute_bare (by rwa [hrun]) alone', hrun, hbehind]
    rfl
  | cut named hrest =>
    -- the text ends behind `=`, so this reader has not stopped inside it
    rw [readAttribute_cut named hrest] at inside
    refine absurd ?_ inside
    show (c.skip isAttributeNameChar).rest.drop 1 = []
    rw [hrest]
    rfl
  | @quoted quote rest named hrest isQuote =>
    obtain ⟨hrun, hbehind, hrest'⟩ := attributeName_extend hrest more
    have htwo : ((c.skip isAttributeNameChar).extend more).advance 2 =
        ((c.skip isAttributeNameChar).advance 2).extend more :=
      advance_extend (x := ['=', quote]) hrest more
    rw [readAttribute_assigned named hrest, if_pos isQuote] at inside ⊢
    rw [readAttribute_assigned (by rwa [hrun]) hrest', if_pos isQuote, hrun, hbehind, htwo]
    exact readValue_extend inside more
  | unquoted named hrest notQuote =>
    obtain ⟨hrun, hbehind, hrest'⟩ := attributeName_extend hrest more
    have hone : ((c.skip isAttributeNameChar).extend more).advance 1 =
        ((c.skip isAttributeNameChar).advance 1).extend more :=
      advance_extend (x := ['=']) hrest more
    rw [readAttribute_assigned named hrest, readAttribute_assigned (by rwa [hrun]) hrest',
      if_neg notQuote, if_neg notQuote, hrun, hbehind, hone]
    rfl

/-- The attribute loop goes on with an attribute only where something stands behind it, since at the
end of the text it fails, and not finally. -/
theorem rest_ne_nil_of_final {c : Cursor} (final : c.readAttributes.Final) : c.rest ≠ [] := by
  intro hnil
  rw [readAttributes_nil hnil] at final
  exact Reading.not_final_endOfInput hnil final

/-- The attributes of a tag are the same in a longer text. They end before `>` or `/>`, so an answer
without an error is always final here. -/
theorem readAttributes_extend {c : Cursor} (final : c.readAttributes.Final) (more : List Char) :
    (c.extend more).readAttributes = c.readAttributes.extend more := by
  have hfront : ∀ {c : Cursor} {x : Char} {xs : List Char}, c.rest = x :: xs →
      (c.extend more).rest = x :: (xs ++ more) := by
    intro c x xs hrest
    rw [rest_extend, hrest, List.cons_append]
  fun_induction readAttributes c with
  | case1 c hrest => exact absurd final (Reading.not_final_endOfInput hrest)
  | case2 c xs hrest =>
    rw [readAttributes_of_endsTag (.inl ⟨_, hfront hrest⟩)]
    rfl
  | case3 c xs hhead hrest =>
    obtain ⟨rest, rfl⟩ := List.head?_eq_some_iff.mp hhead
    rw [readAttributes_of_endsTag (.inr ⟨_, hfront hrest⟩)]
    rfl
  | case4 c xs hhead hrest =>
    -- a `/` at the very end could still become `/>`: this is the second part of `Final`
    have hxs : xs ≠ [] := by
      rintro rfl
      exact final.2 rfl hrest
    obtain ⟨y, ys, rfl⟩ := List.exists_cons_of_ne_nil hxs
    rw [readAttributes_cons (hfront hrest), if_neg (by decide), if_pos rfl, List.cons_append,
      List.head?_cons, if_neg (by simpa using hhead)]
    rfl
  | case5 c b xs hrest hgt hslash blank ih =>
    have hadvance : (c.extend more).advance 1 = (c.advance 1).extend more :=
      advance_extend (x := [b]) hrest more
    rw [readAttributes_cons (hfront hrest), if_neg hgt, if_neg hslash, if_pos blank, hadvance]
    exact ih final
  | case6 c x xs hrest hgt hslash hblank e c' hattr =>
    have hread := readAttribute_extend (c := c) (by rw [hattr]; exact final.1) more
    rw [readAttributes_cons (hfront hrest), if_neg hgt, if_neg hslash, if_neg hblank, hread, hattr]
    rfl
  | case7 c x xs hrest hgt hslash hblank t c' hattr ih =>
    have final' := Reading.final_map.mp final
    have hread := readAttribute_extend (c := c)
      (by rw [hattr]; exact rest_ne_nil_of_final final') more
    rw [readAttributes_cons (hfront hrest), if_neg hgt, if_neg hslash, if_neg hblank, hread, hattr,
      Reading.extend_map, ← ih final']
    rfl

/-! ## Tags and comments -/

/-- A closing tag is the same in a longer text, if it has its `>` or something else in the place of
it. -/
theorem readCloseTag_extend {c : Cursor} {start : Position} (final : (c.readCloseTag start).Final)
    (more : List Char) :
    (c.extend more).readCloseTag start = (c.readCloseTag start).extend more := by
  have hgap : ((c.skip isTagNameChar).skip isBlank).rest ≠ [] := by
    intro hnil
    have final' := Reading.final_map.mp final
    rw [expect, hnil] at final'
    exact Reading.not_final_endOfInput hnil final'
  have hname := rest_ne_nil_of_skip hgap
  unfold readCloseTag
  rw [run_extend (stops_of_inside hname), skip_extend (stops_of_inside hname),
    skip_extend (stops_of_inside hgap)]
  simp only
  rw [expect_extend hgap, Reading.extend_map]

/-- The end of a tag is the same in a longer text. Its reader is called only before an end. -/
theorem readTagEnd_extend {c : Cursor} (ends : EndsTag c.rest) (name : String)
    (attributes : List Token) (start : Position) (more : List Char) :
    (c.extend more).readTagEnd name attributes start =
      (c.readTagEnd name attributes start).extend more := by
  rcases ends with ⟨rest, hrest⟩ | ⟨rest, hrest⟩
  · have hclose : c.Passes ['>'] (c.advance 1) := passes_advance (x := ['>']) hrest
    rw [readTagEnd_open _ _ _ hclose, readTagEnd_open _ _ _ (hclose.extend more)]
    rfl
  · have hclose : c.Passes ['/', '>'] (c.advance 2) := passes_advance (x := ['/', '>']) hrest
    rw [readTagEnd_selfClose _ _ _ hclose, readTagEnd_selfClose _ _ _ (hclose.extend more)]
    rfl

/-- An opening tag is the same in a longer text, from its name to its end. -/
theorem readOpenTag_extend {c : Cursor} {start : Position} (final : (c.readOpenTag start).Final)
    (more : List Char) : (c.extend more).readOpenTag start = (c.readOpenTag start).extend more := by
  unfold readOpenTag at final ⊢
  by_cases named : c.run isTagNameChar = []
  · rw [if_pos named] at final ⊢
    have hpasses := passes_skip c isTagNameChar
    have hrest : c.rest ≠ [] := by
      intro hnil
      rw [if_pos hnil] at final
      exact Reading.not_final_endOfInput hnil final
    have hskip : (c.skip isTagNameChar).rest ≠ [] := by
      rwa [hpasses.rest, named] at hrest
    have hrest' : (c.extend more).rest ≠ [] := by simp [hrest]
    rw [run_extend (stops_of_inside hskip), if_pos named, if_neg hrest, if_neg hrest',
      shown_extend hrest]
    rfl
  · rw [if_neg named] at final ⊢
    have final' : (c.skip isTagNameChar).readAttributes.Final := by
      cases hread : (c.skip isTagNameChar).readAttributes with
      | done ts c' => trivial
      | failed e c' =>
        rw [hread] at final
        exact final
    have hskip := rest_ne_nil_of_final final'
    rw [run_extend (stops_of_inside hskip), if_neg named, skip_extend (stops_of_inside hskip),
      readAttributes_extend final']
    cases hread : (c.skip isTagNameChar).readAttributes with
    | done ts c' =>
      obtain ⟨_, -, -, ends⟩ := readAttributes_done hread false Bool.noConfusion
      exact readTagEnd_extend ends _ _ _ more
    | failed e c' => rfl

/-- A `<` in the last place is the start of a tag that the text has no more of. -/
theorem rest_ne_nil_of_readTag {c : Cursor} {rest : List Char} (hrest : c.rest = '<' :: rest)
    (final : c.readTag.Final) : rest ≠ [] := by
  rintro rfl
  have hstart : c.Passes ['<'] (c.advance 1) := passes_advance (x := ['<']) hrest
  have hinside : (c.advance 1).rest = [] := by
    rw [rest_advance, hrest]
    rfl
  rw [readTag_of_passes hstart, hinside, if_neg (by simp), readOpenTag_nil hinside] at final
  exact Reading.not_final_endOfInput hinside final

/-- A tag of any kind is the same in a longer text. The `<` needs something behind it, which tells
the kind of the tag. -/
theorem readTag_extend {c : Cursor} {rest : List Char} (hrest : c.rest = '<' :: rest)
    (final : c.readTag.Final) (more : List Char) :
    (c.extend more).readTag = c.readTag.extend more := by
  obtain ⟨x, xs, rfl⟩ := List.exists_cons_of_ne_nil (rest_ne_nil_of_readTag hrest final)
  have hstart : c.Passes ['<'] (c.advance 1) := passes_advance (x := ['<']) hrest
  have hinside : (c.advance 1).rest = x :: xs := by
    rw [rest_advance, hrest]
    rfl
  have hadvance : ((c.advance 1).extend more).advance 1 =
      ((c.advance 1).advance 1).extend more := advance_extend (x := [x]) hinside more
  rw [readTag_of_passes hstart, hinside] at final ⊢
  rw [readTag_of_passes (hstart.extend more), rest_extend, hinside, List.cons_append,
    List.head?_cons, List.head?_cons, hadvance]
  rw [List.head?_cons] at final
  by_cases hslash : some x = some '/'
  · rw [if_pos hslash] at final ⊢
    rw [if_pos hslash]
    exact readCloseTag_extend final more
  · rw [if_neg hslash] at final ⊢
    rw [if_neg hslash]
    exact readOpenTag_extend final more

/-- A comment is the same in a longer text: its first `-->` stays the first. -/
theorem readComment_extend {c : Cursor} {rest : List Char} (hrest : c.rest = '<' :: '!' :: rest)
    (final : c.readComment.Final) (more : List Char) :
    (c.extend more).readComment = c.readComment.extend more := by
  have hstart : (c.extend more).advance 2 = (c.advance 2).extend more :=
    advance_extend (x := ['<', '!']) hrest more
  unfold readComment at final ⊢
  simp only [hstart] at final ⊢
  cases hbody : commentBody? ((c.advance 2).skip (· == '-')).rest with
  | none =>
    simp only [hbody] at final
    exact absurd final (Reading.not_final_endOfInput List.drop_length)
  | some body =>
    obtain ⟨⟨tail, htail⟩, hclosed⟩ := commentBody?_eq_some hbody
    have hinside : ((c.advance 2).skip (· == '-')).rest ≠ [] := by simp [htail]
    have hbody' : commentBody? (((c.advance 2).skip (· == '-')).rest ++ more) = some body := by
      rw [htail, List.append_assoc]
      exact commentBody?_append hclosed (tail ++ more)
    have hshut : ((c.advance 2).skip (· == '-')).rest = (body ++ ['-', '-', '>']) ++ tail := by
      rw [htail, List.append_assoc]
      rfl
    have hend := advance_extend hshut more
    rw [List.length_append] at hend
    rw [skip_extend (stops_of_inside hinside)]
    simp only [rest_extend, hbody']
    exact congrArg _ hend

/-! ## Tokens -/

/-- **The next token is the same in a longer text**, if it is final and, where it is a text,
something else follows it. -/
theorem readNext_extend {c : Cursor} (final : c.readNext.Final)
    (found : ∀ c', c.readNext ≠ .done none c') {more : List Char}
    (ends : ∀ t c', c.readNext = .done (some t) c' → t.kind = .text →
      Stops (· != '<') (c'.rest ++ more)) :
    (c.extend more).readNext = c.readNext.extend more := by
  have hinside : (c.skip isBlank).rest ≠ [] := by
    intro hnil
    apply found (c.skip isBlank)
    unfold readNext
    simp only [hnil]
  have hskip : (c.extend more).skip isBlank = (c.skip isBlank).extend more :=
    skip_extend (stops_of_inside hinside)
  obtain ⟨x, xs, hrest⟩ := List.exists_cons_of_ne_nil hinside
  by_cases hx : x = '<'
  · subst hx
    by_cases hcomment : xs.head? = some '!'
    · obtain ⟨rest, rfl⟩ := List.head?_eq_some_iff.mp hcomment
      have hrest' : ((c.skip isBlank).extend more).rest = '<' :: '!' :: (rest ++ more) := by
        rw [rest_extend, hrest]
        rfl
      rw [readNext_eq_readComment rfl hrest] at final ⊢
      rw [readNext_eq_readComment hskip hrest', Reading.extend_map,
        readComment_extend hrest (Reading.final_map.mp final)]
    · rw [readNext_eq_readTag rfl hrest hcomment] at final ⊢
      have final' := Reading.final_map.mp final
      have hrest' : ((c.skip isBlank).extend more).rest = '<' :: (xs ++ more) := by
        rw [rest_extend, hrest]
        rfl
      have hxs : (xs ++ more).head? ≠ some '!' := by
        obtain ⟨y, ys, rfl⟩ := List.exists_cons_of_ne_nil (rest_ne_nil_of_readTag hrest final')
        exact hcomment
      rw [readNext_eq_readTag hskip hrest' hxs, Reading.extend_map, readTag_extend hrest final']
  · have hrest' : ((c.skip isBlank).extend more).rest = x :: (xs ++ more) := by
      rw [rest_extend, hrest]
      rfl
    have hread := readNext_eq_readText rfl hrest hx
    have hstops := ends _ _ hread rfl
    rw [hread, readNext_eq_readText hskip hrest' hx, readText, readText, run_extend hstops,
      skip_extend hstops]
    rfl

/-- There is no error where there is no text: nothing but blanks is read as no tokens. -/
theorem rest_ne_nil_of_readAll {c c' : Cursor} {e : CompileError} (h : c.readAll = .failed e c') :
    c.rest ≠ [] := by
  intro hnil
  obtain ⟨c₁, hnext⟩ := readNext_of_gap (c := c) (by rw [hnil]; exact IsGap.nil)
  rw [readAll_none hnext] at h
  cases h

/-- **A final error is the error of every longer text.** Tokens before it are read as before, as
something stands behind each of them. The induction is on the text that is left. -/
theorem readAll_extend {c c' : Cursor} {e : CompileError} (h : c.readAll = .failed e c')
    (final : c.readAll.Final) (more : List Char) :
    (c.extend more).readAll = .failed e (c'.extend more) := by
  fun_induction readAll c with
  | case1 c e₁ c₁ hnext =>
    cases h
    apply readAll_failed
    rw [readNext_extend (by rwa [hnext]) (by simp [hnext]) (by simp [hnext]), hnext]
    rfl
  | case2 => cases h
  | case3 c t c₁ hnext ih =>
    have final' := Reading.final_map.mp final
    cases hall : c₁.readAll with
    | done ts c₂ =>
      rw [hall] at h
      cases h
    | failed e₁ c₂ =>
      rw [hall] at h
      cases h
      have hstops : t.kind = .text → Stops (· != '<') (c₁.rest ++ more) := by
        intro htext
        obtain ⟨_, _, _, _, _, ends⟩ := readNext_done hnext
        exact (ends htext).append (rest_ne_nil_of_readAll hall) more
      have hnext' : (c.extend more).readNext = .done (some t) (c₁.extend more) := by
        rw [readNext_extend (by rw [hnext]; trivial) (by simp [hnext]) ?_, hnext]
        · rfl
        · intro u c₃ hu
          rw [hnext] at hu
          cases hu
          exact hstops
      rw [readAll_some hnext', ih hall final']
      rfl

end Cursor

end Wxml
