/-!
# Texts in lists

A text as the list of its pieces, and texts in ascending order.
-/

namespace Wxml.Text

/-- The pieces of a text between separators. There is always one more piece than there are
separators. -/
def split (sep : Char) (s : String) : List String := (s.toList.splitOn sep).map String.ofList

/-- The characters of a piece are those of the text, without the separator. -/
theorem mem_of_mem_splitOn {sep d : Char} {cs piece : List Char} (hpiece : piece ∈ cs.splitOn sep)
    (hd : d ∈ piece) : d ∈ cs ∧ d ≠ sep := by
  induction cs generalizing piece with
  | nil =>
    rw [List.splitOn_nil, List.mem_singleton] at hpiece
    rw [hpiece] at hd
    cases hd
  | cons c cs ih =>
    rw [List.splitOn_cons_eq_if_modifyHead] at hpiece
    have later : piece ∈ cs.splitOn sep → d ∈ c :: cs ∧ d ≠ sep := by
      intro hlater
      exact ⟨List.mem_cons_of_mem _ (ih hlater hd).1, (ih hlater hd).2⟩
    by_cases hc : c = sep
    · rw [if_pos (beq_iff_eq.mpr hc), List.mem_cons] at hpiece
      rcases hpiece with rfl | hlater
      · cases hd
      · exact later hlater
    · rw [if_neg (mt beq_iff_eq.mp hc)] at hpiece
      cases hsplit : cs.splitOn sep with
      | nil => exact absurd hsplit (List.splitOn_ne_nil _ _)
      | cons first others =>
        rw [hsplit] at ih later hpiece
        rcases List.mem_cons.mp hpiece with rfl | hlater
        · rcases List.mem_cons.mp hd with rfl | hrest
          · exact ⟨List.mem_cons_self, hc⟩
          · have inside := ih List.mem_cons_self hrest
            exact ⟨List.mem_cons_of_mem _ inside.1, inside.2⟩
        · exact later (List.mem_cons_of_mem _ hlater)

/-- Puts a text in its place among texts in ascending order. -/
def insertSorted (s : String) : List String → List String
  | [] => [s]
  | first :: rest => if s ≤ first then s :: first :: rest else first :: insertSorted s rest

/-- Texts in ascending order. They are inserted one by one, so that the order of given texts can be
computed in a proof. -/
def sorted (texts : List String) : List String := texts.foldr insertSorted []

end Wxml.Text
