import Wxml.Proofs.Scan.Tag

/-!
# Reading finds exactly the layouts

The readers of single tokens are joined to the reader of a text. Behind a text stands a `<` or
nothing, so that the blanks and texts that a `Layout` forbids there cannot be met.

**The law** (`scan_iff_layout`): the tokens of a text are those, up to positions, of which the text
is a layout. Since a text is read in one way only, it is a layout of one token list only.

**Not established**: the positions of the tokens, which `Token.unplaced` removes on both sides, and
which of the errors a text gives that is no layout.
-/

namespace Wxml

open Wxml.Text

/-- Only texts do not start with `<`. Every other token therefore ends a text before it. -/
theorem Token.Spelling.starts {t : Token} {x : List Char} (h : t.Spelling x)
    (other : t.kind ≠ .text) :
    ∃ y, x = '<' :: y := by
  cases h with
  | text => exact absurd rfl other
  | comment => exact ⟨_, rfl⟩
  | closeTag => exact ⟨_, rfl⟩
  | openTag tag =>
    obtain ⟨y, -, rfl⟩ := tag.written
    exact ⟨_, rfl⟩
  | selfCloseTag tag =>
    obtain ⟨y, -, rfl⟩ := tag.written
    exact ⟨_, rfl⟩

theorem stops_text_cons {c : Char} {cs : List Char} : Stops (· != '<') (c :: cs) ↔ c = '<' := by
  rw [stops_cons, bne_eq_false_iff_eq]

/-- A text could go on in front of another one, so a layout cannot have two texts in a row. -/
theorem Token.Spelling.not_stops {t : Token} {x : List Char} (h : t.Spelling x)
    (text : t.kind = .text) (rest : List Char) : ¬ Stops (· != '<') (x ++ rest) := by
  cases h with
  | text starts dark plain =>
    obtain ⟨y, hy⟩ := List.head?_eq_some_iff.mp starts
    rw [hy] at plain ⊢
    intro hstops
    rw [stops_text_cons.mp hstops] at plain
    exact plain List.mem_cons_self
  | _ => cases text

/-- No token starts with a blank, so the blanks before it end where it starts. For a text this is
part of its spelling: its first blanks would belong to the gap. -/
theorem Token.Spelling.stops_blank {t : Token} {x : List Char} (h : t.Spelling x)
    (rest : List Char) :
    Stops isBlank (x ++ rest) := by
  by_cases hkind : t.kind = .text
  · cases h with
    | text starts dark plain =>
      obtain ⟨y, hy⟩ := List.head?_eq_some_iff.mp starts
      rw [hy]
      exact stops_cons.mpr dark
    | _ => cases hkind
  · obtain ⟨y, rfl⟩ := h.starts hkind
    exact stops_cons.mpr (by decide)

/-- A blank that stands before a `<` or at the end stands nowhere. Blanks behind a text belong to
the text, so that a layout has none there. -/
theorem IsGap.eq_nil {gap : List Char} (blank : IsGap gap) (rest : List Char)
    (stops : Stops (· != '<') (gap ++ rest)) : gap = [] := by
  cases gap with
  | nil => rfl
  | cons b gap =>
    have hblank := blank b List.mem_cons_self
    rw [stops_text_cons.mp stops] at hblank
    exact absurd hblank (by decide)

/-- Where a text has ended stands a `<` or nothing: neither a blank nor the start of a text. -/
theorem Token.Spelling.tight {t : Token} {gap x rest : List Char} (h : t.Spelling x)
    (blank : IsGap gap) (stops : Stops (· != '<') (gap ++ x ++ rest)) :
    gap = [] ∧ t.kind ≠ .text := by
  rw [List.append_assoc] at stops
  have hgap := blank.eq_nil _ stops
  rw [hgap, List.nil_append] at stops
  exact ⟨hgap, fun htext => h.not_stops htext rest stops⟩

/-- Behind a text, a layout starts with `<` or is empty. This is what the reader of a text needs to
stop where the layout says. -/
theorem Layout.stops {ts : List Token} {x : List Char} (h : Layout true ts x) :
    Stops (· != '<') x := by
  cases h with
  | nil blank tight =>
    rw [tight rfl]
    exact stops_nil _
  | cons blank tight first others =>
    obtain ⟨hgap, hkind⟩ := tight rfl
    obtain ⟨y, rfl⟩ := first.starts hkind
    rw [hgap]
    exact stops_cons.mpr (by decide)

namespace Cursor

/-- What the token reader answers is spelled behind some blanks. A text ends where something else
starts. -/
theorem readNext_done {c c' : Cursor} {t : Token} (h : c.readNext = .done (some t) c') :
    ∃ gap x, IsGap gap ∧ t.Spelling x ∧ c.Passes (gap ++ x) c' ∧
      (t.kind = .text → Stops (· != '<') c'.rest) := by
  have hgap := passes_skip c isBlank
  have hdark := stops_skip c isBlank
  unfold readNext at h
  simp only at h
  split at h
  · simp at h
  · next rest hrest =>
    obtain ⟨u, hread, hu⟩ := Reading.map_eq_done.mp h
    injection hu with hu
    subst hu
    obtain ⟨hkind, x, spelled, passes⟩ := readComment_done hread hrest
    exact ⟨_, x, isGap_run c, spelled, hgap.trans passes, by simp [hkind]⟩
  · next rest hcomment hrest =>
    obtain ⟨u, hread, hu⟩ := Reading.map_eq_done.mp h
    injection hu with hu
    subst hu
    have notComment : rest.head? ≠ some '!' := by
      intro hbang
      obtain ⟨rest', rfl⟩ := List.head?_eq_some_iff.mp hbang
      exact hcomment rest' rfl
    obtain ⟨hkind, x, spelled, passes⟩ := readTag_done hread hrest notComment
    exact ⟨_, x, isGap_run c, spelled, hgap.trans passes, fun htext => absurd htext hkind⟩
  · next ch rest _ hlt hrest =>
    obtain ⟨u, hread, hu⟩ := Reading.map_eq_done.mp h
    injection hu with hu
    subst hu
    injection hread with hu hc
    subst hu hc
    have hch : (ch != '<') = true := bne_iff_ne.mpr fun heq => hlt heq
    have htext := passes_skip (c.skip isBlank) (· != '<')
    have hhead : ((c.skip isBlank).run (· != '<')).head? = some ch := by
      rw [run, hrest, List.takeWhile_cons_of_pos (p := (· != '<')) hch, List.head?_cons]
    rw [hrest, stops_cons] at hdark
    have plain : '<' ∉ (c.skip isBlank).run (· != '<') := fun hmem => by simpa using of_mem_run hmem
    refine ⟨_, _, isGap_run c, .text (c := ch) ?_ hdark ?_, ?_, fun _ => stops_skip _ _⟩
    · rwa [String.toList_ofList]
    · rwa [String.toList_ofList]
    · rw [String.toList_ofList]
      exact hgap.trans htext

/-- The token reader finds nothing only where nothing but blanks is left. The end of the text is no
error between tokens; it is one inside of them. -/
theorem readNext_none {c c' : Cursor} (h : c.readNext = .done none c') : IsGap c.rest := by
  have hgap := passes_skip c isBlank
  unfold readNext at h
  simp only at h
  split at h
  · next hrest =>
    rw [hgap.rest, hrest, List.append_nil]
    exact isGap_run c
  all_goals
    obtain ⟨u, -, hu⟩ := Reading.map_eq_done.mp h
    cases hu

/-! What stands behind the blanks tells the token reader which reader to call. -/

/-- At the end of the text there is no token. -/
theorem readNext_eq_none {c c₁ : Cursor} (h : c.skip isBlank = c₁) (hrest : c₁.rest = []) :
    c.readNext = .done none c₁ := by
  unfold readNext
  simp only [h, hrest]

/-- Where nothing but blanks is left, there is no token, and this is no error. -/
theorem readNext_of_gap {c : Cursor} (blank : IsGap c.rest) : ∃ c', c.readNext = .done none c' := by
  have hskip : (c.skip isBlank).rest = [] := by
    rw [rest_skip]
    exact List.dropWhile_eq_nil_iff.mpr blank
  exact ⟨_, readNext_eq_none rfl hskip⟩

/-- `<!` starts a comment. Nothing more is looked at, so that a document type is a comment, too. -/
theorem readNext_eq_readComment {c c₁ : Cursor} {rest : List Char} (h : c.skip isBlank = c₁)
    (hrest : c₁.rest = '<' :: '!' :: rest) : c.readNext = c₁.readComment.map some := by
  unfold readNext
  simp only [h, hrest]

/-- Any other `<` starts a tag, also one that turns out to have no name. -/
theorem readNext_eq_readTag {c c₁ : Cursor} {rest : List Char} (h : c.skip isBlank = c₁)
    (hrest : c₁.rest = '<' :: rest) (notComment : rest.head? ≠ some '!') :
    c.readNext = c₁.readTag.map some := by
  unfold readNext
  simp only [h, hrest]
  split
  · next heq => cases heq
  · next heq =>
    injection heq with _ heq
    simp [heq] at notComment
  · rfl
  · next hlt heq =>
    injection heq with hch _
    exact (hlt hch.symm).elim

/-- Everything else starts a text, a closing `>` among it. -/
theorem readNext_eq_readText {c c₁ : Cursor} {ch : Char} {rest : List Char}
    (h : c.skip isBlank = c₁)
    (hrest : c₁.rest = ch :: rest) (dark : ch ≠ '<') : c.readNext = c₁.readText.map some := by
  unfold readNext
  simp only [h, hrest]
  split
  · next heq => cases heq
  · next heq =>
    injection heq with hch _
    exact absurd hch dark
  · next heq =>
    injection heq with hch _
    exact absurd hch dark
  · rfl

/-- The token reader reads any spelling behind any blanks, if a text is followed by something
else. -/
theorem readNext_of_spelling {c c' : Cursor} {t : Token} {gap x : List Char} (blank : IsGap gap)
    (spelled : t.Spelling x) (h : c.Passes (gap ++ x) c')
    (ends : t.kind = .text → Stops (· != '<') c'.rest) :
    ∃ u, c.readNext = .done (some u) c' ∧ u.unplaced = t.unplaced := by
  obtain ⟨c₁, hgap, hx⟩ := h.split
  have hskip : c.skip isBlank = c₁ :=
    hgap.skip_eq blank (by rw [hx.rest]; exact spelled.stops_blank _)
  cases spelled with
  | @text value position ch starts dark plain =>
    obtain ⟨rest, hvalue⟩ := List.head?_eq_some_iff.mp starts
    have all : ∀ ch ∈ value.toList, (ch != '<') = true := by
      intro ch hch
      exact bne_iff_ne.mpr fun heq => plain (heq ▸ hch)
    have hfront : c₁.rest = ch :: (rest ++ c'.rest) := by rw [hx.rest, hvalue]; rfl
    have hch : ch ≠ '<' := by
      rintro rfl
      exact plain (by rw [hvalue]; exact List.mem_cons_self)
    refine ⟨{ kind := .text, value, position := c₁.position }, ?_, rfl⟩
    rw [readNext_eq_readText hskip hfront hch, readText, hx.run_eq all (ends rfl),
      hx.skip_eq all (ends rfl), String.ofList_toList]
    rfl
  | @comment value position dashes nonempty starts closed =>
    have hread := readComment_of_passes starts nonempty closed hx
    refine ⟨{ kind := .comment, value, position := c₁.position }, ?_, rfl⟩
    rw [readNext_eq_readComment hskip hx.rest, hread]
    rfl
  | @closeTag value position gap named blank =>
    have hsplit : c₁.Passes (['<'] ++ (['/'] ++ (value.toList ++ (gap ++ ['>'])))) c' := hx
    obtain ⟨c₂, hstart, hrest⟩ := hsplit.split
    obtain ⟨c₃, hslash, hclose⟩ := hrest.split
    have hread := readCloseTag_of_passes c₁.position named blank hclose
    have hfront : c₂.rest.head? = some '/' := by rw [hrest.rest]; rfl
    have hadvance : c₂.advance 1 = c₃ := hslash.eq_advance.symm
    refine ⟨{ kind := .closeTag, value, position := c₁.position }, ?_, rfl⟩
    rw [readNext_eq_readTag hskip hx.rest (by simp), readTag_of_passes hstart, if_pos hfront,
      hadvance, hread, String.ofList_toList]
    rfl
  | @openTag value position attributes y tag =>
    obtain ⟨c₂, htag, hclose⟩ := hx.split
    obtain ⟨us, hread, hus⟩ := readTag_of_tagSpelling tag htag (.inl ⟨_, hclose.rest⟩)
    obtain ⟨z, rfl, front⟩ := tag.starts
    refine ⟨{ kind := .openTag, value, position := c₁.position, attributes := some us }, ?_, ?_⟩
    · rw [readNext_eq_readTag hskip htag.rest (front _).1, hread, readTagEnd_open _ _ _ hclose]
      rfl
    · rw [Token.unplaced_tag, Token.unplaced_tag, hus]
  | @selfCloseTag value position attributes y tag =>
    obtain ⟨c₂, htag, hclose⟩ := hx.split
    obtain ⟨us, hread, hus⟩ := readTag_of_tagSpelling tag htag (.inr ⟨_, hclose.rest⟩)
    obtain ⟨z, rfl, front⟩ := tag.starts
    refine ⟨{ kind := .selfCloseTag, value, position := c₁.position, attributes := some us },
      ?_, ?_⟩
    · rw [readNext_eq_readTag hskip htag.rest (front _).1, hread, readTagEnd_selfClose _ _ _ hclose]
      rfl
    · rw [Token.unplaced_tag, Token.unplaced_tag, hus]

/-- One round of the loop that finds a token. With the two others below it unfolds `readAll` without
its proof of termination. -/
theorem readAll_some {c c' : Cursor} {t : Token} (h : c.readNext = .done (some t) c') :
    c.readAll = c'.readAll.map (t :: ·) := by
  rw [readAll]
  split
  · next heq => rw [h] at heq; cases heq
  · next heq => rw [h] at heq; cases heq
  · next heq => rw [h] at heq; cases heq; rfl

/-- The first error ends the loop. Tokens that were read before it are dropped. -/
theorem readAll_failed {c c' : Cursor} {e : CompileError} (h : c.readNext = .failed e c') :
    c.readAll = .failed e c' := by
  rw [readAll]
  split
  · next heq => rw [h] at heq; cases heq; rfl
  · next heq => rw [h] at heq; cases heq
  · next heq => rw [h] at heq; cases heq

theorem readAll_none {c c' : Cursor} (h : c.readNext = .done none c') :
    c.readAll = .done [] c' := by
  rw [readAll]
  split
  · next heq => rw [h] at heq; cases heq
  · next heq => rw [h] at heq; cases heq; rfl
  · next heq => rw [h] at heq; cases heq

/-- What the loop over the tokens answers, the rest of the text is a layout of. The flag says
whether a text was read just before, and then something else has to stand here. -/
theorem readAll_done {c c' : Cursor} {ts : List Token} (h : c.readAll = .done ts c')
    {afterText : Bool} (behind : afterText = true → Stops (· != '<') c.rest) :
    Layout afterText ts c.rest := by
  fun_induction readAll c generalizing ts afterText with
  | case1 => cases h
  | case2 c c₁ hnext =>
    cases h
    have blank := readNext_none hnext
    exact .nil blank fun hafter => blank.eq_nil [] (by simpa using behind hafter)
  | case3 c t c₁ hnext ih =>
    obtain ⟨ts', hts, rfl⟩ := Reading.map_eq_done.mp h
    obtain ⟨gap, x, blank, spelled, passes, ends⟩ := readNext_done hnext
    rw [passes.rest]
    refine .cons blank (fun hafter => ?_) spelled (ih hts fun htext => ends (by simpa using htext))
    rw [passes.rest] at behind
    exact spelled.tight blank (behind hafter)

/-- The loop over the tokens reads any layout of the rest of the text. The induction is on the
layout, and each token is read by `readNext_of_spelling`. -/
theorem readAll_of_layout {c : Cursor} {ts : List Token} {afterText : Bool} {x : List Char}
    (layout : Layout afterText ts x) (h : c.rest = x) :
    ∃ us c', c.readAll = .done us c' ∧ us.map Token.unplaced = ts.map Token.unplaced := by
  induction layout generalizing c with
  | nil blank tight =>
    obtain ⟨c', hnext⟩ := readNext_of_gap (h ▸ blank)
    exact ⟨[], c', readAll_none hnext, rfl⟩
  | @cons afterText t ts gap x rest blank tight first others ih =>
    have passes := passes_advance h
    have hrest : (c.advance (gap ++ x).length).rest = rest := List.append_cancel_left
      (passes.rest.symm.trans h)
    have ends : t.kind = .text → Stops (· != '<') (c.advance (gap ++ x).length).rest := by
      intro htext
      rw [hrest]
      rw [htext] at others
      exact others.stops
    obtain ⟨u, hnext, hu⟩ := readNext_of_spelling blank first passes ends
    obtain ⟨us, c', hall, hus⟩ := ih hrest
    refine ⟨u :: us, c', ?_, by rw [List.map_cons, List.map_cons, hu, hus]⟩
    rw [readAll_some hnext, hall]
    rfl

end Cursor

/-- The tokens of a text are what the loop answers from its start, wherever the loop stops. -/
theorem Token.scan_eq_ok_iff {text : String} {ts : List Token} :
    Token.scan text = .ok ts ↔ ∃ c, (Cursor.ofString text).readAll = .done ts c := by
  unfold Token.scan
  cases (Cursor.ofString text).readAll with
  | done us c => simp [Reading.result]
  | failed e c => simp [Reading.result]

/-- A text that is read is a layout of its tokens. What is proved of spellings thereby holds of
every token of every document. -/
theorem Token.layout_of_scan {text : String} {ts : List Token} (h : Token.scan text = .ok ts) :
    Layout false ts text.toList := by
  obtain ⟨c, hall⟩ := Token.scan_eq_ok_iff.mp h
  exact Cursor.readAll_done hall nofun

/-- A layout of some tokens is read as those tokens, up to their positions, which the layout does
not know. -/
theorem Token.scan_of_layout {text : String} {ts : List Token} (h : Layout false ts text.toList) :
    ∃ us, Token.scan text = .ok us ∧ us.map Token.unplaced = ts.map Token.unplaced := by
  obtain ⟨us, c, hall, hus⟩ := Cursor.readAll_of_layout (c := Cursor.ofString text) h rfl
  exact ⟨us, Token.scan_eq_ok_iff.mpr ⟨c, hall⟩, hus⟩

/-- **Reading accepts exactly the layouts.** A text is read as some tokens, up to positions, exactly
when it is a layout of them; and it is a layout of no others. -/
theorem scan_iff_layout (text : String) (ts : List Token) :
    ((∃ us, Token.scan text = .ok us ∧ us.map Token.unplaced = ts.map Token.unplaced) ↔
      Layout false ts text.toList) ∧
    ∀ us, Layout false ts text.toList → Layout false us text.toList →
      us.map Token.unplaced = ts.map Token.unplaced := by
  refine ⟨⟨?_, Token.scan_of_layout⟩, ?_⟩
  · rintro ⟨us, hscan, hus⟩
    exact (Token.layout_of_scan hscan).of_unplaced hus.symm
  · intro us hts hus
    obtain ⟨vs, hscan, hvs⟩ := Token.scan_of_layout hts
    obtain ⟨ws, hscan', hws⟩ := Token.scan_of_layout hus
    rw [hscan] at hscan'
    cases hscan'
    rw [← hws, hvs]

end Wxml
