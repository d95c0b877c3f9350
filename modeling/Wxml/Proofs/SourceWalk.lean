import Wxml.Sources

/-!
# What a walk meets

A walk handles sources one after the other, and lists a folder only when it gets there. What it
meets therefore depends on what was done before. Still, each walk from each state meets some list of
sources (`SourceRules.met`: the walk itself, with every source noted), and it is the loop over this
list, with an error behind it if the walk came too deep (`SourceRules.along`).

**The laws** compare two runs of which one does what the other does, unless it fails (`Cautious`).

- `SourceRules.walk_eq_along_met`: of two ways to handle sources, let one be cautious. Its walk is
  the loop over the sources that the walk of the other meets: it meets the same ones, up to where it
  fails.
- `SourceRules.cautious_walk`: a walk is cautious beside a walk that may get deeper. Where it did
  not come too deep it is the same, so the number of folders decides nothing else.

**What they do not establish.** A walk that comes too deep for every number has no result here: each
number gives the sources that are met up to that depth.
-/

namespace Wxml

/-- The state that a run left. -/
def endState {ε σ α : Type} : EStateM.Result ε σ α → σ
  | .ok _ s => s
  | .error _ s => s

section Sequences

variable {ε σ α β : Type} {x : EStateM ε σ α} {k : α → EStateM ε σ β} {s s' : σ}

/-- Behind a part that succeeds, a run goes on with its result and from the state that it left. The
laws of this module take runs apart with this equation and the next one only. -/
theorem bind_of_ok {a : α} (h : x s = .ok a s') : (x >>= k) s = k a s' := by
  show EStateM.bind x k s = _
  rw [EStateM.bind, h]

/-- A part that fails is the whole run, with the state that it had reached. -/
theorem bind_of_error {e : ε} (h : x s = .error e s') : (x >>= k) s = .error e s' := by
  show EStateM.bind x k s = _
  rw [EStateM.bind, h]

end Sequences

section Loops

variable {ε σ α : Type} {act : α → EStateM ε σ Unit} {s s' : σ}

theorem forM_cons_of_ok {a : α} {u : Unit} (h : act a s = .ok u s') (as : List α) :
    (a :: as).forM act s = as.forM act s' := bind_of_ok h

theorem forM_cons_of_error {a : α} {e : ε} (h : act a s = .error e s') (as : List α) :
    (a :: as).forM act s = .error e s' := bind_of_error h

/-- A loop over two lists goes on with the second where the first one left the state. -/
theorem forM_append_of_ok {as : List α} {u : Unit} (h : as.forM act s = .ok u s') (bs : List α) :
    (as ++ bs).forM act s = bs.forM act s' := by
  have happend : (as ++ bs).forM act = as.forM act >>= fun _ => bs.forM act := List.forM_append
  rw [happend, bind_of_ok h]

/-- A loop that fails in its first list does not come to the second. -/
theorem forM_append_of_error {as : List α} {e : ε} (h : as.forM act s = .error e s')
    (bs : List α) : (as ++ bs).forM act s = .error e s' := by
  have happend : (as ++ bs).forM act = as.forM act >>= fun _ => bs.forM act := List.forM_append
  rw [happend, bind_of_error h]

end Loops

/-! ## Cautious runs -/

/-- **One run does what another does**, unless it fails with an error of some kind. -/
def Cautious {ε σ : Type} (kind : ε → Prop) (x y : EStateM ε σ Unit) : Prop :=
  ∀ s, x s = y s ∨ ∃ e s', kind e ∧ x s = .error e s'

namespace Cautious

variable {ε σ : Type} {kind : ε → Prop} {x y k l : EStateM ε σ Unit}

theorem refl (kind : ε → Prop) (x : EStateM ε σ Unit) : Cautious kind x x := fun _ => .inl rfl

/-- Where the first part of the cautious run fails, the rest of it does not matter. Where it does
not fail, both runs go on from the same state. -/
theorem seq (first : Cautious kind x y) (rest : Cautious kind k l) :
    Cautious kind (x >>= fun _ => k) (y >>= fun _ => l) := by
  intro s
  rcases first s with same | ⟨e, s', hkind, failed⟩
  · cases hy : y s with
    | ok u s₁ =>
      rw [bind_of_ok (same.trans hy), bind_of_ok hy]
      exact rest s₁
    | error e s₁ =>
      rw [bind_of_error (same.trans hy), bind_of_error hy]
      exact .inl rfl
  · exact .inr ⟨e, s', hkind, bind_of_error failed⟩

/-- A loop is cautious if what it does with each element is. -/
theorem all {α : Type} {act act' : α → EStateM ε σ Unit}
    (each : ∀ a, Cautious kind (act a) (act' a)) (as : List α) :
    Cautious kind (as.forM act) (as.forM act') := by
  induction as with
  | nil => exact refl kind _
  | cons a as ih => exact (each a).seq ih

end Cautious

namespace SourceRules

variable {ε σ : Type}

/-- Links to folders are not entered. A tree with a link to a folder above would have no end
otherwise. -/
theorem enter_of_link {r : SourceRules} {view : σ → Entry} {into : Location → EStateM ε σ Unit}
    {folder : Location} {s : σ} (link : r.isLink (view s) folder = true) :
    r.enter view into folder s = .ok () s := by
  refine (bind_of_ok rfl).trans ?_
  rw [if_pos link]
  rfl

/-- Any other folder is, whatever it is now: the question is asked when the walk gets there. -/
theorem enter_of_not_link {r : SourceRules} {view : σ → Entry} {into : Location → EStateM ε σ Unit}
    {folder : Location} {s : σ} (link : ¬ r.isLink (view s) folder = true) :
    r.enter view into folder s = into folder s := by
  refine (bind_of_ok rfl).trans ?_
  rw [if_neg link]

/-- **More room changes nothing** unless it was needed: a walk that does not end with the error of
one that comes too deep is the walk that may be inside of more folders. -/
theorem cautious_walk (r : SourceRules) (view : σ → Entry) (act : Location → EStateM ε σ Unit)
    (deep : ε) {depth depth' : Nat} (h : depth ≤ depth') (rel : Location) :
    Cautious (· = deep) (r.walk view act deep depth rel) (r.walk view act deep depth' rel) := by
  induction depth generalizing depth' rel with
  | zero =>
    intro s
    exact .inr ⟨deep, s, rfl, rfl⟩
  | succ depth ih =>
    obtain ⟨depth', rfl⟩ := Nat.exists_eq_add_of_lt h
    have folder : ∀ folder, Cautious (· = deep)
        (r.enter view (r.walk view act deep depth) folder)
        (r.enter view (r.walk view act deep (depth + depth')) folder) := by
      intro folder s
      by_cases link : r.isLink (view s) folder = true
      · rw [enter_of_link link, enter_of_link link]
        exact .inl rfl
      · rw [enter_of_not_link link, enter_of_not_link link]
        exact ih (Nat.le_add_right _ _) folder s
    intro s
    exact (Cautious.refl _ ((r.filesIn (view s) rel).forM act)).seq
      (Cautious.all folder (r.foldersIn (view s) rel)) s

/-! ## The sources on the way -/

/-- Handles a source and notes it, also when that fails. -/
def noted (act : Location → EStateM ε σ Unit) (rel : Location) :
    EStateM ε (List Location × σ) Unit := fun s =>
  match act rel s.2 with
  | .ok u s' => .ok u (s.1 ++ [rel], s')
  | .error e s' => .error e (s.1 ++ [rel], s')

/-- The sources that a walk meets, in order. -/
def met (r : SourceRules) (view : σ → Entry) (act : Location → EStateM ε σ Unit) (deep : ε)
    (depth : Nat) (rel : Location) (s : σ) : List Location :=
  (endState (r.walk (fun s => view s.2) (noted act) deep depth rel ([], s))).1

/-- Ends a run, with an error if there is one. -/
def finish : Option ε → EStateM ε σ Unit
  | none => pure ()
  | some e => throw e

/-- Handles some sources one after the other, and ends there. -/
def along (act : Location → EStateM ε σ Unit) (rels : List Location) (ends : Option ε) :
    EStateM ε σ Unit := do
  rels.forM act
  finish ends

/-- A result with a list of noted sources. -/
def noting (rels : List Location) :
    EStateM.Result ε σ Unit → EStateM.Result ε (List Location × σ) Unit
  | .ok u s => .ok u (rels, s)
  | .error e s => .error e (rels, s)

/-- What was noted and what came of it can be told apart. -/
theorem noting_inj {rels rels' : List Location} {a b : EStateM.Result ε σ Unit}
    (h : noting rels a = noting rels' b) : rels = rels' ∧ a = b := by
  cases a <;> cases b <;> cases h <;> exact ⟨rfl, rfl⟩

section Along

variable {act : Location → EStateM ε σ Unit} {rels : List Location} {ends : Option ε} {s s' : σ}

/-- Behind sources that were all handled a run ends as it is said to. -/
theorem along_of_ok {u : Unit} (h : rels.forM act s = .ok u s') :
    along act rels ends s = finish ends s' := bind_of_ok h

theorem along_of_error {e : ε} (h : rels.forM act s = .error e s') :
    along act rels ends s = .error e s' := bind_of_error h

/-- Only a loop without an error behind it succeeds, and then it is the loop alone. -/
theorem forM_of_along {u : Unit} (h : along act rels ends s = .ok u s') :
    rels.forM act s = .ok u s' := by
  cases hloop : rels.forM act s with
  | error e s₁ =>
    rw [along_of_error hloop] at h
    cases h
  | ok u s₁ =>
    rw [along_of_ok hloop] at h
    cases ends with
    | none => exact h
    | some e => cases h

/-- How a loop ends does not change the state that it leaves. What was written is there, whether the
walk came too deep behind it or not. -/
theorem endState_along (ends : Option ε) :
    endState (along act rels ends s) = endState (rels.forM act s) := by
  cases hloop : rels.forM act s with
  | error e s₁ => rw [along_of_error hloop]
  | ok u s₁ =>
    rw [along_of_ok hloop]
    cases ends <;> rfl

/-- Two ways to handle sources that make the same loop make the same run. -/
theorem along_congr {act' : Location → EStateM ε σ Unit}
    (h : rels.forM act s = rels.forM act' s) : along act rels ends s = along act' rels ends s := by
  cases hloop : rels.forM act' s with
  | error e s₁ => rw [along_of_error hloop, along_of_error (h.trans hloop)]
  | ok u s₁ => rw [along_of_ok hloop, along_of_ok (h.trans hloop)]

/-- Behind sources that were all handled a run goes on with the others. -/
theorem along_append_of_ok {u : Unit} (h : rels.forM act s = .ok u s') (more : List Location) :
    along act (rels ++ more) ends s = along act more ends s' := by
  have happend := forM_append_of_ok h more
  cases hmore : more.forM act s' with
  | ok u s₁ => rw [along_of_ok (happend.trans hmore), along_of_ok hmore]
  | error e s₁ => rw [along_of_error (happend.trans hmore), along_of_error hmore]

theorem along_append_of_error {e : ε} (h : rels.forM act s = .error e s') (more : List Location) :
    along act (rels ++ more) ends s = .error e s' :=
  along_of_error (forM_append_of_error h more)

end Along

section Follows

variable {fast slow : Location → EStateM ε σ Unit}

/-- **Two runs along the same sources.** From a state, the second notes some sources and is the loop
over them, with or without an error behind it; and the first is this loop too. -/
def Follows (fast slow : Location → EStateM ε σ Unit) (x : EStateM ε σ Unit)
    (y : EStateM ε (List Location × σ) Unit) (s : σ) : Prop :=
  ∃ rels ends, (∀ done, y (done, s) = noting (done ++ rels) (along slow rels ends s)) ∧
    x s = along fast rels ends s

/-- A run that only ends meets nothing, and ends alike whichever way sources are handled. -/
theorem Follows.finish (ends : Option ε) (s : σ) :
    Follows fast slow (SourceRules.finish ends) (SourceRules.finish ends) s := by
  refine ⟨[], ends, ?_, rfl⟩
  intro done
  rw [List.append_nil]
  cases ends <;> rfl

/-- One source is met and noted, also where handling it fails. -/
theorem Follows.one (rel : Location) (s : σ) : Follows fast slow (fast rel) (noted slow rel) s := by
  refine ⟨[rel], none, ?_, ?_⟩
  · intro done
    unfold noted
    cases hslow : slow rel s with
    | ok u s' =>
      rw [along_of_ok (forM_cons_of_ok hslow [])]
      rfl
    | error e s' =>
      rw [along_of_error (forM_cons_of_error hslow [])]
      rfl
  · cases hfast : fast rel s with
    | ok u s' =>
      rw [along_of_ok (forM_cons_of_ok hfast [])]
      rfl
    | error e s' => rw [along_of_error (forM_cons_of_error hfast [])]

variable {kind : ε → Prop} (cautious : ∀ rel, Cautious kind (fast rel) (slow rel))
include cautious

/-- Where the second run fails, so does the first. Where only the first one fails, what follows does
not matter to it. -/
theorem Follows.seq {x k : EStateM ε σ Unit} {y l : EStateM ε (List Location × σ) Unit} {s : σ}
    (first : Follows fast slow x y s) (rest : ∀ s', Follows fast slow k l s') :
    Follows fast slow (x >>= fun _ => k) (y >>= fun _ => l) s := by
  obtain ⟨rels, ends, hy, hx⟩ := first
  cases hslow : along slow rels ends s with
  | ok u s₁ =>
    have hloop := forM_of_along hslow
    obtain ⟨more, ends', hl, hk⟩ := rest s₁
    refine ⟨rels ++ more, ends', ?_, ?_⟩
    · intro done
      have hdone := hy done
      rw [hslow] at hdone
      rw [bind_of_ok hdone, along_append_of_ok hloop, ← List.append_assoc]
      exact hl (done ++ rels)
    · -- the fast action may fail earlier than the slow one, and then nothing of `k` is run
      rcases (Cautious.all cautious rels) s with same | ⟨e, s', -, failed⟩
      · have hfast : along fast rels ends s = .ok u s₁ := by
          rw [along_of_ok (same.trans hloop), ← along_of_ok hloop, hslow]
        rw [bind_of_ok (hx.trans hfast), along_append_of_ok (same.trans hloop)]
        exact hk
      · rw [bind_of_error (hx.trans (along_of_error failed)), along_append_of_error failed]
  | error e s₁ =>
    refine ⟨rels, ends, ?_, ?_⟩
    · intro done
      have hdone := hy done
      rw [hslow] at hdone
      rw [bind_of_error hdone, hslow]
      rfl
    · have both : Cautious kind (along fast rels ends) (along slow rels ends) :=
        (Cautious.all cautious rels).seq (.refl kind _)
      have failed : ∃ e' s', along fast rels ends s = .error e' s' := by
        rcases both s with same | ⟨e', s', -, failed⟩
        · exact ⟨e, s₁, same.trans hslow⟩
        · exact ⟨e', s', failed⟩
      obtain ⟨e', s', failed⟩ := failed
      rw [bind_of_error (hx.trans failed), failed]

/-- A loop over folders, each of which is walked along. The induction is on the folders, with
`Follows.seq` for the step. -/
theorem Follows.all {α : Type} {act : α → EStateM ε σ Unit}
    {act' : α → EStateM ε (List Location × σ) Unit}
    (each : ∀ a s, Follows fast slow (act a) (act' a) s) (as : List α) (s : σ) :
    Follows fast slow (as.forM act) (as.forM act') s := by
  induction as generalizing s with
  | nil => exact .finish none s
  | cons a as ih => exact Follows.seq cautious (each a s) ih

omit cautious in
/-- Only what the runs do from the state matters. Entering a folder is compared in this way, once it
is known whether the folder is a link. -/
theorem Follows.of_eq {x x' : EStateM ε σ Unit} {y y' : EStateM ε (List Location × σ) Unit} {s : σ}
    (h : Follows fast slow x' y' s) (hx : x s = x' s) (hy : ∀ done, y (done, s) = y' (done, s)) :
    Follows fast slow x y s := by
  obtain ⟨rels, ends, hrels, hloop⟩ := h
  exact ⟨rels, ends, fun done => (hy done).trans (hrels done), hx.trans hloop⟩

/-- A walk goes along the sources that it notes. The induction is on how deep it may get; in each
folder its files come first, and then the walks of its folders, from whatever state they find. -/
theorem walk_follows (r : SourceRules) (view : σ → Entry) (deep : ε) (depth : Nat) (rel : Location)
    (s : σ) : Follows fast slow (r.walk view fast deep depth rel)
      (r.walk (fun s => view s.2) (noted slow) deep depth rel) s := by
  induction depth generalizing rel s with
  | zero => exact .finish (some deep) s
  | succ depth ih =>
    have files : Follows fast slow ((r.filesIn (view s) rel).forM fast)
        ((r.filesIn (view s) rel).forM (noted slow)) s := Follows.all cautious .one _ s
    have folder : ∀ folder s, Follows fast slow
        (r.enter view (r.walk view fast deep depth) folder)
        (r.enter (fun s => view s.2) (r.walk (fun s => view s.2) (noted slow) deep depth) folder)
        s := by
      intro folder s
      by_cases link : r.isLink (view s) folder = true
      · refine (Follows.finish none s).of_eq (enter_of_link link) ?_
        intro done
        exact enter_of_link link
      · refine (ih folder s).of_eq (enter_of_not_link link) ?_
        intro done
        exact enter_of_not_link link
    -- the folders are those that the listing at the start shows
    have folders := Follows.all cautious folder (r.foldersIn (view s) rel)
    exact (Follows.seq cautious files folders).of_eq rfl fun done => rfl

/-- **A walk is the loop over what it meets**, also when it handles sources in a way that fails
where the other does not. Both loops end alike. -/
theorem walk_eq_along_met (r : SourceRules) (view : σ → Entry) (deep : ε) (depth : Nat)
    (rel : Location) (s : σ) : ∃ ends,
      r.walk view slow deep depth rel s = along slow (r.met view slow deep depth rel s) ends s ∧
      r.walk view fast deep depth rel s = along fast (r.met view slow deep depth rel s) ends s := by
  obtain ⟨rels, ends, hnoted, hfast⟩ := walk_follows cautious r view deep depth rel s
  obtain ⟨rels', ends', hnoted', hslow⟩ :=
    walk_follows (fun rel => .refl kind (slow rel)) r view deep depth rel s
  -- both times the sources are noted by the same run
  obtain ⟨rfl, hends⟩ := noting_inj ((hnoted []).symm.trans (hnoted' []))
  have hmet : r.met view slow deep depth rel s = rels := by
    rw [met, hnoted []]
    cases along slow rels ends s <;> rfl
  rw [hmet]
  exact ⟨ends, hslow.trans hends.symm, hfast⟩

end Follows

end SourceRules

end Wxml
