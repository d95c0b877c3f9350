import Wxml.Proofs.LineEndings.Text

/-!
# Removing interpolation delimiters

An expression loses its delimiters in two passes, one for the opening and one for the closing ones.
Neither pass looks at what the braces stand for. A brace of the expression that touches a delimiter
makes a run of three with it, a pair inside the expression is taken for a delimiter, and the first
pass may bring closing braces together that the second then removes.

Still, the outer delimiters are lost whatever stands between them (`stripExpression_enclosed`): what
an expression keeps is what it keeps when it is stripped alone. So the expressions that survive are
those that stripping does not change, and these are the ones without pairs
(`stripExpression_eq_self_iff`).

**The law** (`stripExpression_delimiters`): an expression survives exactly when it holds no pair,
and a text of literals and expressions without braces loses its delimiters and nothing else.

**Not established**: what is left of an expression that holds a pair. It depends on how its runs of
braces lie, and only that it is not the expression itself is said.
-/

namespace Wxml

/-! ## Pairs -/

variable {c : Char}

/-- A pair stands at the front or further on. The passes below look at texts in this way. -/
theorem pair_infix_cons {x : Char} {cs : List Char} :
    [c, c] <:+: x :: cs ↔ (x = c ∧ cs.head? = some c) ∨ [c, c] <:+: cs := by
  rw [List.infix_cons_iff, List.cons_prefix_cons, List.singleton_prefix_iff_head?_eq_some]
  simp only [eq_comm]

/-- Removing pairs leaves no pair: what stands between two runs of a character keeps them apart, and
of each run one is left or none. -/
theorem not_pair_infix_replacePairs (c : Char) (cs : List Char) :
    ¬ [c, c] <:+: replacePairs c [] cs := by
  fun_induction replacePairs c [] cs with
  | case1 => simp
  | case2 x => simp [pair_infix_cons]
  | case3 x y rest both ih => exact ih
  | case4 x y rest other ih =>
    rw [pair_infix_cons, not_or]
    refine ⟨?_, ih⟩
    rintro ⟨rfl, hhead⟩
    have hy : y ≠ x := fun hy => other ⟨rfl, hy⟩
    rw [replacePairs_cons fun both => hy both.1] at hhead
    exact hy (Option.some.inj hhead)

/-- A text without a pair is left alone by a pass, whatever pairs are replaced by. -/
theorem replacePairs_eq_self {cs : List Char} (h : ¬ [c, c] <:+: cs) (image : List Char) :
    replacePairs c image cs = cs := by
  induction cs with
  | nil => rfl
  | cons x cs ih =>
    rw [pair_infix_cons, not_or] at h
    rw [replacePairs_cons h.1, ih h.2]

theorem replacePairs_of_not_mem {cs : List Char} (h : c ∉ cs) (image : List Char) :
    replacePairs c image cs = cs :=
  replacePairs_eq_self (fun hpair => h (hpair.mem List.mem_cons_self)) image

/-- Removing pairs takes characters away and adds none. What a pass makes shorter therefore never
gets back to its old length. -/
theorem replacePairs_nil_sublist (c : Char) (cs : List Char) :
    (replacePairs c [] cs).Sublist cs := by
  fun_induction replacePairs c [] cs with
  | case1 => exact .slnil
  | case2 x => exact .refl _
  | case3 x y rest both ih => exact (ih.cons y).cons x
  | case4 x y rest other ih => exact ih.cons_cons x

/-- A pair at the front is replaced, also when a third brace follows: runs are read from the
left. -/
theorem replacePairs_pair (c : Char) (image cs : List Char) :
    replacePairs c image (c :: c :: cs) = image ++ replacePairs c image cs := by
  rw [replacePairs, if_pos ⟨rfl, rfl⟩]

/-- Two texts are done one by one unless a run of the character goes on from one into the other.
This is the law by which texts are taken apart, here and for line breaks. -/
theorem replacePairs_append {cs ds : List Char}
    (apart : ¬ (cs.getLast? = some c ∧ ds.head? = some c)) (image : List Char) :
    replacePairs c image (cs ++ ds) = replacePairs c image cs ++ replacePairs c image ds := by
  fun_induction replacePairs c image cs with
  | case1 => rfl
  | case2 x => exact replacePairs_cons (fun both => apart ⟨congrArg some both.1, both.2⟩) image
  | case3 x y rest both ih =>
    obtain ⟨rfl, rfl⟩ := both
    rw [List.cons_append, List.cons_append, replacePairs_pair, ih, List.append_assoc]
    rintro ⟨hlast, hhead⟩
    refine apart ⟨?_, hhead⟩
    rw [List.getLast?_cons_cons, List.getLast?_cons, hlast]
    rfl
  | case4 x y rest other ih =>
    rw [List.getLast?_cons_cons] at apart
    rw [List.cons_append, replacePairs_cons, ih apart, List.cons_append]
    rintro ⟨hx, hhead⟩
    exact other ⟨hx, Option.some.inj hhead⟩

/-- A pair at the end goes, also when one more of the character stands in front of it: then the run
is one longer, and one is left of it as before. -/
theorem replacePairs_append_pair (c : Char) (cs : List Char) :
    replacePairs c [] (cs ++ [c, c]) = replacePairs c [] cs := by
  have hpair : replacePairs c [] [c, c] = [] := replacePairs_pair c [] []
  fun_induction replacePairs c [] cs with
  | case1 => exact hpair
  | case2 x =>
    by_cases hx : x = c
    · subst hx
      exact replacePairs_pair x [] [x]
    · rw [List.singleton_append, replacePairs_cons fun both => hx both.1, hpair]
  | case3 x y rest both ih =>
    obtain ⟨rfl, rfl⟩ := both
    exact (replacePairs_pair _ [] _).trans ih
  | case4 x y rest other ih =>
    rw [List.cons_append, replacePairs_cons, ih]
    rintro ⟨hx, hhead⟩
    exact other ⟨hx, Option.some.inj hhead⟩

/-! ## Two passes -/

/-- What is left of some characters when the delimiters are removed. -/
def stripChars (cs : List Char) : List Char := replacePairs '}' [] (replacePairs '{' [] cs)

theorem toList_stripExpression (s : String) : (stripExpression s).toList = stripChars s.toList :=
  String.toList_ofList

/-- An opening delimiter in front goes and leaves the rest to itself. -/
theorem stripChars_opening (cs : List Char) : stripChars ('{' :: '{' :: cs) = stripChars cs := by
  rw [stripChars, replacePairs_pair]
  rfl

/-- The first pass leaves closing delimiters where they are. They do not interrupt it, either: what
follows them is done as if it stood alone. -/
theorem replacePairs_closing (cs : List Char) :
    replacePairs '{' [] ('}' :: '}' :: cs) = '}' :: '}' :: replacePairs '{' [] cs := by
  rw [replacePairs_cons (by simp), replacePairs_cons (by simp)]

/-- A closing delimiter in front goes as well: the first pass leaves it there for the second. -/
theorem stripChars_closing (cs : List Char) : stripChars ('}' :: '}' :: cs) = stripChars cs := by
  rw [stripChars, replacePairs_closing, replacePairs_pair]
  rfl

/-- A closing delimiter at the end goes, whatever stands before it, by the same two steps. -/
theorem stripChars_append_closing (cs : List Char) :
    stripChars (cs ++ ['}', '}']) = stripChars cs := by
  have hpass : replacePairs '{' [] (cs ++ ['}', '}']) = replacePairs '{' [] cs ++ ['}', '}'] := by
    rw [replacePairs_append (by simp), replacePairs_closing]
    rfl
  rw [stripChars, hpass, replacePairs_append_pair]
  rfl

/-- **Without braces**: neither an opening nor a closing one. -/
structure BraceFree (s : String) : Prop where
  opening : '{' ∉ s.toList
  closing : '}' ∉ s.toList

instance (s : String) : Decidable (BraceFree s) :=
  decidable_of_iff ('{' ∉ s.toList ∧ '}' ∉ s.toList)
    ⟨fun h => ⟨h.1, h.2⟩, fun h => ⟨h.opening, h.closing⟩⟩

/-- Braces in what follows cannot pair with a text that holds none, so that it is kept. -/
theorem BraceFree.stripChars_append {s : String} (h : BraceFree s) (cs : List Char) :
    stripChars (s.toList ++ cs) = s.toList ++ stripChars cs := by
  have hpass (c : Char) (hc : c ∉ s.toList) (ds : List Char) :
      replacePairs c [] (s.toList ++ ds) = s.toList ++ replacePairs c [] ds := by
    rw [replacePairs_append fun both => hc (List.mem_of_getLast? both.1),
      replacePairs_of_not_mem hc]
  rw [stripChars, hpass _ h.opening, hpass _ h.closing]
  rfl

/-! ## Expressions between delimiters -/

/-- An expression between delimiters: two opening braces in front of it, two closing ones behind. -/
def enclosed (expression : String) : String := "\x7b\x7b" ++ expression ++ "\x7d\x7d"

theorem toList_enclosed (e : String) :
    (enclosed e).toList = '{' :: '{' :: (e.toList ++ ['}', '}']) := by
  rw [enclosed, String.toList_append, String.toList_append]
  rfl

/-- Delimiters around an expression go, and nothing else goes because of them. The opening ones are
taken by the first pass, the closing ones by the second. -/
theorem stripExpression_enclosed (e : String) :
    stripExpression (enclosed e) = stripExpression e := by
  apply String.toList_inj.mp
  rw [toList_stripExpression, toList_stripExpression, toList_enclosed, stripChars_opening,
    stripChars_append_closing]

/-- Stripping changes a text exactly when there is a pair in it. A pass that removes something
shortens the text, and the other pass does not make it longer again. -/
theorem stripExpression_eq_self_iff (e : String) :
    stripExpression e = e ↔ ¬ ['{', '{'] <:+: e.toList ∧ ¬ ['}', '}'] <:+: e.toList := by
  rw [← String.toList_inj, toList_stripExpression, stripChars]
  constructor
  · intro hall
    have hopened := replacePairs_nil_sublist '{' e.toList
    have hclosed := replacePairs_nil_sublist '}' (replacePairs '{' [] e.toList)
    have hlength := hclosed.length_le
    rw [hall] at hlength
    have hfirst : replacePairs '{' [] e.toList = e.toList := hopened.eq_of_length_le hlength
    rw [hfirst] at hall
    exact ⟨hfirst ▸ not_pair_infix_replacePairs '{' e.toList,
      hall ▸ not_pair_infix_replacePairs '}' e.toList⟩
  · rintro ⟨hopening, hclosing⟩
    rw [replacePairs_eq_self hopening, replacePairs_eq_self hclosing]

/-- A literal and then expressions between delimiters, each with the literal behind it. -/
def delimited (literal : String) : List (String × String) → String
  | [] => literal
  | (expression, next) :: parts => literal ++ enclosed expression ++ delimited next parts

/-- The same without delimiters. -/
def undelimited (literal : String) : List (String × String) → String
  | [] => literal
  | (expression, next) :: parts => literal ++ expression ++ undelimited next parts

/-- A text with any number of expressions loses their delimiters and nothing else. The induction is
on the expressions, from the left. -/
theorem stripExpression_delimited {literal : String} (hliteral : BraceFree literal)
    {parts : List (String × String)} (hparts : ∀ p ∈ parts, BraceFree p.1 ∧ BraceFree p.2) :
    stripExpression (delimited literal parts) = undelimited literal parts := by
  apply String.toList_inj.mp
  rw [toList_stripExpression]
  induction parts generalizing literal with
  | nil =>
    have hplain := hliteral.stripChars_append []
    rw [List.append_nil] at hplain
    exact hplain.trans (List.append_nil _)
  | cons part parts ih =>
    obtain ⟨expression, next⟩ := part
    rw [List.forall_mem_cons] at hparts
    have hchars : (delimited literal ((expression, next) :: parts)).toList = literal.toList ++
        '{' :: '{' :: (expression.toList ++ '}' :: '}' :: (delimited next parts).toList) := by
      simp [delimited, toList_enclosed]
    rw [hchars, hliteral.stripChars_append, stripChars_opening, hparts.1.1.stripChars_append,
      stripChars_closing, ih hparts.1.2 hparts.2]
    simp [undelimited]

/-- **Which expressions survive.** An expression between delimiters is what stripping leaves exactly
when it holds no pair of braces. A text with any number of expressions, all of it without braces,
loses its delimiters and nothing else. -/
theorem stripExpression_delimiters :
    (∀ e : String, stripExpression (enclosed e) = e ↔
      ¬ ['{', '{'] <:+: e.toList ∧ ¬ ['}', '}'] <:+: e.toList) ∧
    ∀ (literal : String) (parts : List (String × String)), BraceFree literal →
      (∀ p ∈ parts, BraceFree p.1 ∧ BraceFree p.2) →
      stripExpression (delimited literal parts) = undelimited literal parts := by
  refine ⟨fun e => ?_, fun _ _ hliteral hparts => stripExpression_delimited hliteral hparts⟩
  rw [stripExpression_enclosed]
  exact stripExpression_eq_self_iff e

/-- A record in a record ends in a pair and is damaged, a record alone is not. -/
theorem stripExpression_delimiters_records :
    stripExpression (enclosed "\x7ba:\x7bb:1\x7d\x7d") ≠ "\x7ba:\x7bb:1\x7d\x7d" ∧
      stripExpression (enclosed "\x7ba: b\x7d") = "\x7ba: b\x7d" ∧
      (∀ p ∈ [("kind", " "), ("size", "")], BraceFree p.1 ∧ BraceFree p.2) ∧
      stripExpression (delimited "row " [("kind", " "), ("size", "")]) = "row kind size" := by
  obtain ⟨survives, plain⟩ := stripExpression_delimiters
  have hparts : ∀ p ∈ [("kind", " "), ("size", "")], BraceFree p.1 ∧ BraceFree p.2 := by decide
  refine ⟨fun h => ?_, ?_, hparts, plain "row " _ (by decide) hparts⟩
  · exact ((survives _).mp h).2 ⟨"\x7ba:\x7bb:1".toList, [], rfl⟩
  · exact (survives _).mpr ⟨by decide +kernel, by decide +kernel⟩

end Wxml
