import Wxml.FileTree

/-!
# Trees without links

In a tree without links a location and the path to it are the same thing. What is read there is the
entry at the location (`Entry.get?`), and what writing does is to set one (`Entry.put`). So the file
operations are two laws away from a table: `get?` answers for a location behind a `put` with the new
entry, or as before, by how the two locations lie to each other.

- `get?_put_self`, `get?_put_of_apart` and `get?_put_append` say this for the location itself, for
  one that lies apart, and for one on the way.
- `put_append` turns an entry set far below into one set nearer to the root.
- `LinkFree.entry?_ofLocation` and `LinkFree.resolve_eq` take the paths away.
- A file can be written where only folders stand on the way, and none at its end (`Free`).

**Not established**: anything about trees with links, where a path and a location differ, and about
names that a disk refuses although they are possible here, such as those that are too long.
-/

namespace Wxml

/-- No part leads upwards. -/
def Location.Descends (l : Location) : Prop := ∀ name ∈ l, name ≠ ".."

theorem Location.descends_cons {name : String} {l : Location} :
    Location.Descends (name :: l) ↔ name ≠ ".." ∧ l.Descends :=
  List.forall_mem_cons

theorem Location.descends_append {l m : Location} :
    Location.Descends (l ++ m) ↔ l.Descends ∧ m.Descends :=
  List.forall_mem_append

/-- Names that all lead down are gone along one by one. -/
theorem Location.along_of_descends {l here : Location} (h : l.Descends) :
    here.along l = here ++ l := by
  unfold along
  induction l generalizing here with
  | nil => exact (List.append_nil here).symm
  | cons part rest ih =>
    obtain ⟨hpart, hrest⟩ := descends_cons.mp h
    rw [List.foldl_cons, if_neg hpart, ih hrest, List.append_assoc, List.singleton_append]

namespace Entry

/-! ## The entries of a folder -/

section Named

variable (es : List (String × Entry)) (name : String) (e : Entry)

theorem lookup_cons_of_ne {n : String} (h : n ≠ name) :
    ((name, e) :: es).lookup n = es.lookup n := by
  rw [List.lookup_cons, beq_false_of_ne h]

/-- Setting an entry changes what is found under its name and nothing else. -/
theorem lookup_setNamed (n : String) :
    (setNamed es name e).lookup n = if n = name then some e else es.lookup n := by
  induction es with
  | nil =>
    rw [setNamed]
    by_cases h : n = name
    · rw [h, List.lookup_cons_self, if_pos rfl]
    · rw [lookup_cons_of_ne _ _ _ h, if_neg h]
  | cons entry rest ih =>
    obtain ⟨first, old⟩ := entry
    rw [setNamed]
    by_cases hfirst : first = name
    · subst hfirst
      rw [if_pos rfl]
      by_cases h : n = first
      · rw [h, List.lookup_cons_self, if_pos rfl]
      · rw [if_neg h, lookup_cons_of_ne _ _ _ h, lookup_cons_of_ne _ _ _ h]
    · rw [if_neg hfirst]
      by_cases h : n = first
      · rw [h, List.lookup_cons_self, if_neg hfirst, List.lookup_cons_self]
      · rw [lookup_cons_of_ne _ _ _ h, lookup_cons_of_ne _ _ _ h, ih]

theorem setNamed_setNamed (e' : Entry) :
    setNamed (setNamed es name e) name e' = setNamed es name e' := by
  induction es with
  | nil => simp [setNamed]
  | cons entry rest ih =>
    obtain ⟨first, old⟩ := entry
    by_cases hfirst : first = name
    · simp [setNamed, hfirst]
    · simp [setNamed, hfirst, ih]

/-- A name that was missing comes last, and one that was there keeps its place. -/
theorem map_fst_setNamed :
    (setNamed es name e).map Prod.fst =
      if (es.lookup name).isSome then es.map Prod.fst else es.map Prod.fst ++ [name] := by
  induction es with
  | nil => rfl
  | cons entry rest ih =>
    obtain ⟨first, old⟩ := entry
    rw [setNamed]
    by_cases hfirst : first = name
    · simp [hfirst]
    · rw [if_neg hfirst, List.map_cons, ih, lookup_cons_of_ne _ _ _ (Ne.symm hfirst)]
      by_cases hsome : (rest.lookup name).isSome <;> simp [hsome]

/-- The names of a folder are those under which something is found. -/
theorem mem_names_iff (n : String) : n ∈ es.map Prod.fst ↔ (es.lookup n).isSome := by
  induction es with
  | nil => simp
  | cons entry rest ih =>
    obtain ⟨first, old⟩ := entry
    rw [List.map_cons, List.mem_cons, ih]
    by_cases h : n = first
    · simp [h]
    · rw [lookup_cons_of_ne _ _ _ h]
      exact or_iff_right h

end Named

/-! ## Locations -/

variable {tree e : Entry} {l m k : Location}

/-- What lies below a location is found from there. All laws about locations with several parts are
reduced to this one. -/
theorem get?_append (tree : Entry) (l m : Location) :
    tree.get? (l ++ m) = (tree.get? l).bind (·.get? m) := by
  induction l generalizing tree with
  | nil => rfl
  | cons name rest ih =>
    cases tree with
    | file bytes => rfl
    | link target => rfl
    | folder es =>
      show (es.lookup name).bind (get? · (rest ++ m)) =
        ((es.lookup name).bind (get? · rest)).bind (get? · m)
      cases es.lookup name with
      | none => rfl
      | some e => exact ih e

/-- What has something below it is a folder. Files and links have nothing below them in a tree. -/
theorem folder_of_get?_cons {name : String} (h : tree.get? (name :: l) = some e) :
    ∃ es, tree = folder es := by
  cases tree with
  | folder es => exact ⟨es, rfl⟩
  | file bytes => cases h
  | link target => cases h

theorem get?_of_get?_append (h : tree.get? (l ++ m) = some e) :
    ∃ e', tree.get? l = some e' ∧ e'.get? m = some e := by
  rw [get?_append] at h
  exact Option.bind_eq_some_iff.mp h

theorem folder_of_get?_append {name : String} (h : tree.get? (l ++ name :: m) = some e) :
    ∃ es, tree.get? l = some (folder es) := by
  obtain ⟨e', hl, hm⟩ := get?_of_get?_append h
  obtain ⟨es, rfl⟩ := folder_of_get?_cons hm
  exact ⟨es, hl⟩

theorem get?_snoc {es : List (String × Entry)} (h : tree.get? l = some (folder es))
    (name : String) : tree.get? (l ++ [name]) = es.lookup name := by
  rw [get?_append, h]
  show (es.lookup name).bind (get? · []) = _
  cases es.lookup name <;> rfl

theorem height_le_heightAll {es : List (String × Entry)} {name : String}
    (h : es.lookup name = some e) : e.height ≤ heightAll es := by
  induction es with
  | nil => cases h
  | cons entry es ih =>
    obtain ⟨first, old⟩ := entry
    rw [heightAll]
    by_cases heq : name = first
    · subst heq
      rw [List.lookup_cons_self] at h
      cases h
      exact Nat.le_max_left _ _
    · rw [lookup_cons_of_ne _ _ _ heq] at h
      exact Nat.le_trans (ih h) (Nat.le_max_right _ _)

/-- No place lies deeper than folders do, so a walk that goes down one folder after the other comes
to an end. -/
theorem length_le_height (h : tree.get? l = some e) : l.length ≤ tree.height := by
  induction l generalizing tree with
  | nil => exact Nat.zero_le _
  | cons name rest ih =>
    obtain ⟨es, rfl⟩ := folder_of_get?_cons h
    obtain ⟨e', he', hrest⟩ := Option.bind_eq_some_iff.mp h
    rw [height, List.length_cons]
    exact Nat.succ_le_succ (Nat.le_trans (ih hrest) (height_le_heightAll he'))

/-- Whatever stands on the way to a location is a folder. -/
def Admits : Entry → Location → Prop
  | _, [] => True
  | folder es, name :: rest => ∀ e, es.lookup name = some e → e.Admits rest
  | _, _ :: _ => False

/-- A way is open in two parts: to a location, and on from what is found there. Where nothing is
found, the second part is open by itself. -/
theorem admits_append (tree : Entry) (l m : Location) :
    tree.Admits (l ++ m) ↔ tree.Admits l ∧ ∀ e, tree.get? l = some e → e.Admits m := by
  induction l generalizing tree with
  | nil => simp [Admits, get?]
  | cons name rest ih =>
    cases tree with
    | file bytes => simp [Admits]
    | link target => simp [Admits]
    | folder es =>
      simp only [List.cons_append, Admits, ih, get?]
      cases es.lookup name with
      | none => simp
      | some e => simp

theorem admits_of_get? (h : tree.get? l = some e) : tree.Admits l := by
  induction l generalizing tree with
  | nil => trivial
  | cons name rest ih =>
    obtain ⟨es, rfl⟩ := folder_of_get?_cons h
    intro e' he'
    rw [get?, he'] at h
    exact ih h

/-- The way on from a folder is open for one more name. -/
theorem admits_of_folder {es : List (String × Entry)} (h : tree.get? l = some (folder es))
    (name : String) : tree.Admits (l ++ [name]) := by
  refine (admits_append tree l [name]).mpr ⟨admits_of_get? h, ?_⟩
  intro e he
  rw [h] at he
  cases he
  exact fun _ _ => trivial

/-- On the way to where nothing is, there are only folders. A file there would be in the way. -/
theorem folder_of_admits (way : tree.Admits (l ++ m)) (fresh : tree.get? (l ++ m) = none)
    (h : tree.get? l = some e) : ∃ es, e = folder es := by
  have hbelow := ((admits_append tree l m).mp way).2 e h
  cases m with
  | nil =>
    rw [List.append_nil, h] at fresh
    cases fresh
  | cons name rest =>
    cases e with
    | folder es => exact ⟨es, rfl⟩
    | file bytes => exact hbelow.elim
    | link target => exact hbelow.elim

/-- A location is admitted if whatever is found on the way to it is a folder. -/
theorem admits_of_folders (h : ∀ m k, l = m ++ k → k ≠ [] → ∀ e, tree.get? m = some e →
    ∃ es, e = folder es) : tree.Admits l := by
  induction l generalizing tree with
  | nil => trivial
  | cons name rest ih =>
    obtain ⟨es, rfl⟩ := h [] (name :: rest) rfl (List.cons_ne_nil _ _) tree rfl
    intro e he
    refine ih ?_
    intro m k hrest hk e' he'
    refine h (name :: m) k (congrArg (name :: ·) hrest) hk e' ?_
    rw [get?, he]
    exact he'

theorem admits_folder_nil (l : Location) : (folder []).Admits l := by
  cases l with
  | nil => trivial
  | cons name rest =>
    intro e he
    cases he

/-! ## Setting an entry -/

/-- An entry set below a location is one set there. A tree with outputs is by this the first tree
with one folder set. -/
theorem put_append (tree : Entry) (l m : Location) (e : Entry) :
    tree.put (l ++ m) e = tree.put l (((tree.get? l).getD (folder [])).put m e) := by
  induction l generalizing tree with
  | nil => rfl
  | cons name rest ih =>
    cases tree with
    | file bytes => rfl
    | link target => rfl
    | folder es =>
      simp only [List.cons_append, put, get?, ih]
      cases es.lookup name with
      | some e' => rfl
      | none =>
        cases rest with
        | nil => rfl
        | cons name' rest => rfl

/-- The later of two entries at one location counts, and the earlier one leaves no trace. -/
theorem put_put (tree : Entry) (l : Location) (e e' : Entry) :
    (tree.put l e).put l e' = tree.put l e' := by
  induction l generalizing tree with
  | nil => rfl
  | cons name rest ih =>
    cases tree with
    | file bytes => rfl
    | link target => rfl
    | folder es =>
      simp only [put, lookup_setNamed, if_true, Option.getD_some, ih, setNamed_setNamed]

/-- An entry that was set is found, if nothing is in the way. On a way through a file nothing is
set. -/
theorem get?_put_self (way : tree.Admits l) (e : Entry) : (tree.put l e).get? l = some e := by
  induction l generalizing tree with
  | nil => rfl
  | cons name rest ih =>
    cases tree with
    | file bytes => exact way.elim
    | link target => exact way.elim
    | folder es =>
      simp only [put, get?, lookup_setNamed, if_true, Option.bind_some]
      cases hname : es.lookup name with
      | none => exact ih (admits_folder_nil rest)
      | some e' => exact ih (way e' hname)

/-- A location on the way to where an entry is set holds what it held, with the entry set further
below, or a new folder with nothing else in it. -/
theorem get?_put_append (way : tree.Admits (l ++ m)) (e : Entry) :
    (tree.put (l ++ m) e).get? l = some (((tree.get? l).getD (folder [])).put m e) := by
  rw [put_append]
  exact get?_put_self ((admits_append tree l m).mp way).1 _

/-- A location apart from where an entry is set is as it was, whether the entry could be set or
not. -/
theorem get?_put_of_apart (h : ¬ l <+: m) (h' : ¬ m <+: l) (tree e : Entry) :
    (tree.put l e).get? m = tree.get? m := by
  induction l generalizing tree m with
  | nil => exact absurd (List.nil_prefix) h
  | cons name rest ih =>
    cases m with
    | nil => exact absurd (List.nil_prefix) h'
    | cons n ns =>
      cases tree with
      | file bytes => rfl
      | link target => rfl
      | folder es =>
        simp only [put, get?, lookup_setNamed]
        by_cases hname : n = name
        · subst hname
          rw [List.cons_prefix_cons] at h h'
          have hbelow := ih (fun hp => h ⟨rfl, hp⟩) (fun hp => h' ⟨rfl, hp⟩)
            ((es.lookup n).getD (folder []))
          rw [if_pos rfl, Option.bind_some, hbelow]
          cases es.lookup n with
          | some e' => rfl
          | none =>
            -- something must be left to go, or the location would be on the way
            cases ns with
            | nil => exact absurd ⟨rfl, List.nil_prefix⟩ h'
            | cons n' ns => rfl
        · rw [if_neg hname]

/-! ## Links -/

/-- No location holds a link. -/
def LinkFree (tree : Entry) : Prop := ∀ l target, tree.get? l ≠ some (link target)

theorem linkFree_folder {es : List (String × Entry)} :
    (folder es).LinkFree ↔ ∀ name e, es.lookup name = some e → e.LinkFree := by
  constructor
  · intro h name e he l target hl
    refine h (name :: l) target ?_
    rw [get?, he]
    exact hl
  · intro h l target hl
    cases l with
    | nil => cases hl
    | cons name rest =>
      obtain ⟨e, he, hrest⟩ := Option.bind_eq_some_iff.mp hl
      exact h name e he rest target hrest

theorem linkFree_file (bytes : List UInt8) : (file bytes).LinkFree := by
  intro l target h
  cases l <;> cases h

theorem linkFree_folder_nil : (folder []).LinkFree := by
  refine linkFree_folder.mpr ?_
  intro name e he
  cases he

theorem LinkFree.put (linkFree : tree.LinkFree) (he : e.LinkFree) (l : Location) :
    (tree.put l e).LinkFree := by
  induction l generalizing tree with
  | nil => exact he
  | cons name rest ih =>
    cases tree with
    | file bytes => exact linkFree
    | link target => exact linkFree
    | folder es =>
      have below := linkFree_folder.mp linkFree
      refine linkFree_folder.mpr ?_
      intro n e' he'
      rw [lookup_setNamed] at he'
      by_cases hn : n = name
      · rw [if_pos hn] at he'
        cases he'
        cases hname : es.lookup name with
        | none => exact ih linkFree_folder_nil
        | some old => exact ih (below name old hname)
      · rw [if_neg hn] at he'
        exact below n e' he'

/-- In a tree without links each part leads down, or up if it is two dots. -/
theorem LinkFree.untilLink_eq (linkFree : tree.LinkFree) (here : Location) (parts : List String) :
    tree.untilLink here parts = (here.along parts, []) := by
  induction parts generalizing here with
  | nil => rfl
  | cons part rest ih =>
    rw [untilLink]
    by_cases hpart : part = ".."
    · rw [if_pos hpart, ih, hpart]
      rfl
    · have halong : here.along (part :: rest) = (here ++ [part]).along rest := by
        rw [Location.along, List.foldl_cons, if_neg hpart]
        rfl
      rw [if_neg hpart, halong, ← ih]
      cases he : tree.get? (here ++ [part]) with
      | none => rfl
      | some e =>
        cases e with
        | file bytes => rfl
        | folder es => rfl
        | link target => exact absurd he (linkFree _ target)

/-- Without links a path stands for the location that its parts lead to. -/
theorem LinkFree.resolve_eq (linkFree : tree.LinkFree) (here : Location) (p : Path) :
    tree.resolve here p = Location.along (if p.isAbsolute then [] else here) p.parts := by
  rw [resolve, resolveParts, linkFree.untilLink_eq]

theorem LinkFree.resolve_ofLocation (linkFree : tree.LinkFree) (hl : l.Descends) :
    tree.resolve [] (.ofLocation l) = l :=
  (linkFree.resolve_eq [] _).trans (Location.along_of_descends hl)

/-! ## Paths to locations -/

/-- Nothing lies below a link, as seen by locations. Following it is another matter. -/
theorem isLink_of_get? (h : tree.get? l = some e) (he : e.isLink = false) :
    tree.isLink = false := by
  cases tree with
  | file bytes => rfl
  | folder es => rfl
  | link target =>
    cases l with
    | nil =>
      cases h
      exact he
    | cons name rest => cases h

/-- Folders on the way can be gone down first, if they are there and are no links. -/
theorem descend_append {parts : List String} (here : Location) (down : Location.Descends parts)
    (h : tree.get? (here ++ parts) = some e) (he : e.isLink = false) (rest : List String) :
    tree.descend here (parts ++ rest) = tree.descend (here ++ parts) rest := by
  induction parts generalizing here with
  | nil => rw [List.append_nil, List.nil_append]
  | cons part parts ih =>
    obtain ⟨es, hhere⟩ := folder_of_get?_append h
    rw [List.append_cons] at h ⊢
    obtain ⟨e', hpart, hparts⟩ := get?_of_get?_append h
    obtain ⟨hdown, hdowns⟩ := Location.descends_cons.mp down
    have hrest := ih (here ++ [part]) hdowns h
    have hlink := isLink_of_get? hparts he
    rw [List.cons_append, descend, hhere]
    dsimp only
    rw [if_neg hdown, hpart]
    cases e' with
    | file bytes => exact hrest
    | folder es => exact hrest
    | link target => cases hlink

/-- Going down to something that is no link ends there. -/
theorem descend_of_get? {parts : List String} (here : Location) (down : Location.Descends parts)
    (h : tree.get? (here ++ parts) = some e) (he : e.isLink = false) :
    tree.descend here parts = .ok (.ends (.found (here ++ parts) e)) := by
  have hend := descend_append here down h he []
  rwa [List.append_nil, descend, h] at hend

/-- Nothing that is found in a tree without links is one. -/
theorem LinkFree.isLink_eq_false (linkFree : tree.LinkFree) (h : tree.get? l = some e) :
    e.isLink = false := by
  cases e with
  | file bytes => rfl
  | folder es => rfl
  | link target => exact absurd h (linkFree l target)

section Descend

variable {parts : List String} (linkFree : tree.LinkFree) (here : Location)
include linkFree

/-- Nothing is found where nothing is. If only folders stand on the way, that is also why. -/
theorem LinkFree.descend_of_none (down : Location.Descends parts)
    (h : tree.get? (here ++ parts) = none) :
    (∃ e, tree.descend here parts = .error e ∧ (tree.Admits (here ++ parts) → e = .notFound)) ∨
      ∃ l, tree.descend here parts = .ok (.ends (.vacant l)) := by
  induction parts generalizing here with
  | nil =>
    rw [List.append_nil] at h
    rw [descend, h]
    exact .inl ⟨_, rfl, fun _ => rfl⟩
  | cons part rest ih =>
    obtain ⟨hdown, hdowns⟩ := Location.descends_cons.mp down
    rw [List.append_cons] at h
    have hrest := ih (here ++ [part]) hdowns h
    rw [← List.append_cons] at hrest
    rw [descend]
    cases hhere : tree.get? here with
    | none => exact .inl ⟨_, rfl, fun _ => rfl⟩
    | some there =>
      cases there with
      | file bytes =>
        -- a file is in the way, so nothing is asked of the error
        exact .inl ⟨_, rfl, fun way => (((admits_append _ _ _).mp way).2 _ hhere).elim⟩
      | link target => exact absurd hhere (linkFree _ target)
      | folder es =>
        dsimp only
        rw [if_neg hdown]
        cases hpart : tree.get? (here ++ [part]) with
        | none =>
          by_cases hlast : rest = []
          · exact .inr ⟨_, if_pos hlast⟩
          · exact .inl ⟨_, if_neg hlast, fun _ => rfl⟩
        | some e' =>
          cases e' with
          | file bytes => exact hrest
          | folder es => exact hrest
          | link target => exact absurd hpart (linkFree _ target)

/-- The end of a path may be free, if the folder that it would be in is there. -/
theorem LinkFree.descend_of_vacant {last : String} (down : Location.Descends (parts ++ [last]))
    {es : List (String × Entry)} (hfolder : tree.get? (here ++ parts) = some (folder es))
    (h : tree.get? (here ++ parts ++ [last]) = none) :
    tree.descend here (parts ++ [last]) = .ok (.ends (.vacant (here ++ parts ++ [last]))) := by
  induction parts generalizing here with
  | nil =>
    have hdown : last ≠ ".." := down last List.mem_cons_self
    rw [List.append_nil] at hfolder h ⊢
    rw [List.nil_append, descend, hfolder]
    dsimp only
    rw [if_neg hdown, h]
    rfl
  | cons part rest ih =>
    obtain ⟨hdown, hdowns⟩ := Location.descends_cons.mp down
    obtain ⟨es', hhere⟩ := folder_of_get?_append hfolder
    rw [List.append_cons here part rest] at hfolder h ⊢
    obtain ⟨e', hpart, -⟩ := get?_of_get?_append hfolder
    have hrest := ih (here ++ [part]) hdowns hfolder h
    rw [List.cons_append, descend, hhere]
    dsimp only
    rw [if_neg hdown, hpart]
    cases e' with
    | file bytes => exact hrest
    | folder es => exact hrest
    | link target => exact absurd hpart (linkFree _ target)

end Descend

theorem LinkFree.find_of_get? (linkFree : tree.LinkFree) (hl : l.Descends)
    (h : tree.get? l = some e) : tree.find [] (.ofLocation l) = .ok (.found l e) := by
  have hdescend : tree.descend [] l = .ok (.ends (.found l e)) :=
    descend_of_get? [] hl h (linkFree.isLink_eq_false h)
  show tree.follow linkLimit [] l = _
  rw [follow, hdescend]

/-- The path to a free place in a folder ends there. The operations that create something start from
it. -/
theorem LinkFree.find_of_vacant (linkFree : tree.LinkFree) {name : String}
    (hl : (l ++ [name]).Descends) {es : List (String × Entry)}
    (hfolder : tree.get? l = some (folder es)) (h : tree.get? (l ++ [name]) = none) :
    tree.find [] (.ofLocation (l ++ [name])) = .ok (.vacant (l ++ [name])) := by
  have hdescend : tree.descend [] (l ++ [name]) = .ok (.ends (.vacant (l ++ [name]))) :=
    linkFree.descend_of_vacant [] hl hfolder h
  show tree.follow linkLimit [] (l ++ [name]) = _
  rw [follow, hdescend]

/-- The path to nothing ends nowhere, or at a free place. If only folders are on the way, it is
because something is not there, and not because something else is. -/
theorem LinkFree.find_of_none (linkFree : tree.LinkFree) (hl : l.Descends)
    (h : tree.get? l = none) :
    (∃ e, tree.find [] (.ofLocation l) = .error e ∧ (tree.Admits l → e = .notFound)) ∨
      ∃ place, tree.find [] (.ofLocation l) = .ok (.vacant place) := by
  have hfind : tree.find [] (.ofLocation l) = tree.follow linkLimit [] l := rfl
  rw [hfind, follow]
  rcases linkFree.descend_of_none [] hl h with ⟨e, he, why⟩ | ⟨place, hplace⟩
  · exact .inl ⟨e, by rw [he], why⟩
  · exact .inr ⟨place, by rw [hplace]⟩

/-- **A path to a location leads to what is there.** -/
theorem LinkFree.entry?_ofLocation (linkFree : tree.LinkFree) (hl : l.Descends) :
    tree.entry? [] (.ofLocation l) = tree.get? l := by
  unfold entry?
  cases h : tree.get? l with
  | some e => rw [linkFree.find_of_get? hl h]
  | none =>
    rcases linkFree.find_of_none hl h with ⟨e, he, -⟩ | ⟨place, hplace⟩
    · rw [he]
    · rw [hplace]

/-- A path leads to a folder when one is there. -/
theorem LinkFree.hasFolder_ofLocation (linkFree : tree.LinkFree) (hl : l.Descends) :
    tree.hasFolder [] (.ofLocation l) = true ↔ ∃ es, tree.get? l = some (folder es) := by
  unfold hasFolder
  rw [linkFree.entry?_ofLocation hl]
  cases tree.get? l with
  | none => simp
  | some e => cases e <;> simp

/-- Reading a file gives its bytes, if its name is possible. -/
theorem LinkFree.read_of_file (linkFree : tree.LinkFree) (hl : l.Descends)
    (hnul : (Path.ofLocation l).hasNul = false) {bytes : List UInt8}
    (h : tree.get? l = some (file bytes)) : tree.read [] (.ofLocation l) = .ok bytes := by
  rw [read, hnul, linkFree.find_of_get? hl h]
  rfl

/-! ## Writing -/

/-- The tree with an empty folder at a location where nothing is. -/
def withFolder (tree : Entry) (l : Location) : Entry :=
  if (tree.get? l).isSome then tree else tree.put l (folder [])

theorem withFolder_of_none (h : tree.get? l = none) :
    tree.withFolder l = tree.put l (folder []) := by
  rw [withFolder, h]
  rfl

section Write

variable {folders : Location} {name : String}

theorem get?_withFolder (way : tree.Admits (folders ++ [name])) :
    ∃ es, (tree.withFolder folders).get? folders = some (folder es) := by
  obtain ⟨hfolders, hlast⟩ := (admits_append tree folders [name]).mp way
  unfold withFolder
  cases h : tree.get? folders with
  | none => exact ⟨[], get?_put_self hfolders _⟩
  | some e =>
    cases e with
    | folder es => exact ⟨es, h⟩
    | file bytes => exact (hlast _ h).elim
    | link target => exact (hlast _ h).elim

/-- A new folder is empty, so that what was not there before it was made is not there behind it. -/
theorem get?_withFolder_append (way : tree.Admits (folders ++ [name])) :
    (tree.withFolder folders).get? (folders ++ [name]) = tree.get? (folders ++ [name]) := by
  unfold withFolder
  cases h : tree.get? folders with
  | some e => rfl
  | none =>
    have hself := get?_put_self ((admits_append tree folders [name]).mp way).1 (folder [])
    show (tree.put folders (folder [])).get? (folders ++ [name]) = _
    rw [get?_append, get?_append, hself, h]
    rfl

/-- What is set in a new folder would have made the folder, so the two steps of writing a file are
one. -/
theorem put_withFolder (way : tree.Admits (folders ++ [name])) (e : Entry) :
    (tree.withFolder folders).put (folders ++ [name]) e = tree.put (folders ++ [name]) e := by
  unfold withFolder
  cases h : tree.get? folders with
  | some e => rfl
  | none =>
    have hself := get?_put_self ((admits_append tree folders [name]).mp way).1 (folder [])
    show (tree.put folders (folder [])).put (folders ++ [name]) e = _
    rw [put_append, put_append, hself, h, put_put]
    rfl

theorem LinkFree.withFolder (linkFree : tree.LinkFree) (l : Location) :
    (tree.withFolder l).LinkFree := by
  unfold Entry.withFolder
  cases (tree.get? l).isSome with
  | true => exact linkFree
  | false => exact linkFree.put linkFree_folder_nil l

section MakeFolder

variable (linkFree : tree.LinkFree) (down : (folders ++ [name]).Descends)
include linkFree down

/-- In a folder, another one can be made where nothing or a folder is. In the second case the tree
stays as it is. A file in its place is an error, and the only one. -/
theorem LinkFree.makeFolder_of_folder {es : List (String × Entry)}
    (hfolder : tree.get? folders = some (folder es)) :
    ((∀ e, tree.get? (folders ++ [name]) = some e → ∃ es, e = folder es) ∧
      tree.makeFolder [] folders name = .ok (tree.withFolder (folders ++ [name]))) ∨
    ((∃ bytes, tree.get? (folders ++ [name]) = some (file bytes)) ∧
      tree.makeFolder [] folders name = .error .alreadyExists) := by
  have hfind : tree.find [] ⟨"", folders⟩ = .ok (.found folders (folder es)) :=
    linkFree.find_of_get? (Location.descends_append.mp down).1 hfolder
  have hhas : tree.hasFolder [] ⟨"", folders ++ [name]⟩ = true ↔ _ :=
    linkFree.hasFolder_ofLocation down
  rw [makeFolder, hfind]
  dsimp only
  rw [← get?_snoc hfolder name, Entry.withFolder]
  cases h : tree.get? (folders ++ [name]) with
  | none =>
    left
    exact ⟨fun e he => absurd he (by simp), rfl⟩
  | some e =>
    rw [h] at hhas
    cases e with
    | folder es' =>
      left
      rw [if_neg (by simp), if_pos (hhas.mpr ⟨es', rfl⟩)]
      exact ⟨fun e he => ⟨es', (Option.some.inj he).symm⟩, rfl⟩
    | file bytes =>
      right
      have hnot : ¬ tree.hasFolder [] ⟨"", folders ++ [name]⟩ = true := by simp [hhas]
      rw [if_neg (by simp), if_neg hnot]
      exact ⟨⟨bytes, rfl⟩, rfl⟩
    | link target => exact absurd h (linkFree _ target)

/-- A folder that has just been made is empty, so the next one can be made in it. -/
theorem LinkFree.makeFolder_withFolder (way : tree.Admits (folders ++ [name]))
    (h : tree.get? (folders ++ [name]) = none) :
    (tree.withFolder folders).makeFolder [] folders name =
      .ok (tree.withFolder (folders ++ [name])) := by
  obtain ⟨es, hfolder⟩ := get?_withFolder way
  have hnone : (tree.withFolder folders).get? (folders ++ [name]) = none :=
    (get?_withFolder_append way).trans h
  rcases (linkFree.withFolder folders).makeFolder_of_folder down hfolder with
    ⟨-, made⟩ | ⟨⟨bytes, hfile⟩, -⟩
  · rw [made, withFolder_of_none hnone, withFolder_of_none h, put_withFolder way]
  · cases hnone.symm.trans hfile

end MakeFolder

/-- Without the folder to make it in, a folder is not made. If no file is on the way, the error is
the one behind which the folders above are made. -/
theorem LinkFree.makeFolder_of_none (linkFree : tree.LinkFree) (down : folders.Descends)
    (h : tree.get? folders = none) (name : String) :
    ∃ e, tree.makeFolder [] folders name = .error e ∧ (tree.Admits folders → e = .notFound) := by
  have hfind : tree.find [] ⟨"", folders⟩ = tree.find [] (.ofLocation folders) := rfl
  rw [makeFolder, hfind]
  rcases linkFree.find_of_none down h with ⟨e, he, why⟩ | ⟨place, hplace⟩
  · exact ⟨e, by rw [he], why⟩
  · exact ⟨.notFound, by rw [hplace], fun _ => rfl⟩

/-- Where a folder is missing for it, a folder is made behind the folders above it. This is the only
error that is not final. -/
theorem makeFoldersUp_of_notFound {here : Location} {above : List String}
    (h : tree.makeFolder here above.reverse name = .error .notFound) :
    tree.makeFoldersUp here (name :: above) =
      (tree.makeFoldersUp here above).bind (·.makeFolder here above.reverse name) := by
  rw [makeFoldersUp, h]

/-- Where the last folder can be made at once, no other one is. -/
theorem makeFoldersUp_of_ok {here : Location} {above : List String} {made : Entry}
    (h : tree.makeFolder here above.reverse name = .ok made) :
    tree.makeFoldersUp here (name :: above) = .ok made := by
  rw [makeFoldersUp, h]

/-- Any other error ends it, and nothing is made. Folders above are not even looked at. -/
theorem makeFoldersUp_of_error {here : Location} {above : List String} {e : FileError}
    (h : tree.makeFolder here above.reverse name = .error e) (he : e ≠ .notFound) :
    tree.makeFoldersUp here (name :: above) = .error e := by
  rw [makeFoldersUp, h]
  cases e with
  | notFound => exact absurd rfl he
  | _ => rfl

section AboveOne

variable (linkFree : tree.LinkFree) {above : List String} (last : String) (made : Entry)

include linkFree

/-- Where the folder above is missing, it is made first, and this folder in it. The folder above is
empty then, so nothing can be in the way in it. -/
theorem LinkFree.makeFoldersUp_of_missing (down : Location.Descends (above.reverse ++ [name]))
    (h : tree.get? above.reverse = none)
    (first : ∀ made, tree.makeFoldersUp [] above = .ok made ↔
      tree.Admits (above.reverse ++ [name]) ∧ made = tree.withFolder above.reverse) :
    tree.makeFoldersUp [] (name :: above) = .ok made ↔
      tree.Admits (above.reverse ++ [name] ++ [last]) ∧
        made = tree.withFolder (above.reverse ++ [name]) := by
  have hnone : tree.get? (above.reverse ++ [name]) = none := by
    rw [get?_append, h]
    rfl
  have ways : tree.Admits (above.reverse ++ [name] ++ [last]) ↔
      tree.Admits (above.reverse ++ [name]) := by
    rw [admits_append tree (above.reverse ++ [name]), hnone]
    simp
  obtain ⟨e, hmake, why⟩ :=
    linkFree.makeFolder_of_none (Location.descends_append.mp down).1 h name
  rw [ways]
  by_cases hwhy : e = .notFound
  · rw [makeFoldersUp_of_notFound (hwhy ▸ hmake)]
    cases hup : tree.makeFoldersUp [] above with
    | error e' =>
      constructor
      · intro heq
        cases heq
      · rintro ⟨way, -⟩
        cases hup.symm.trans ((first _).mpr ⟨way, rfl⟩)
    | ok folders =>
      obtain ⟨way, rfl⟩ := (first _).mp hup
      have hbind : (Except.ok (tree.withFolder above.reverse)).bind
          (·.makeFolder [] above.reverse name) = .ok (tree.withFolder (above.reverse ++ [name])) :=
        linkFree.makeFolder_withFolder down way hnone
      rw [hbind, Except.ok.injEq, eq_comm]
      exact ⟨fun heq => ⟨way, heq⟩, fun both => both.2⟩
  · -- some other error: then something else than folders is on the way
    rw [makeFoldersUp_of_error hmake hwhy]
    constructor
    · intro heq
      cases heq
    · rintro ⟨way, -⟩
      exact absurd (why ((admits_append _ _ _).mp way).1) hwhy

/-- Where a file stands above, no folder is made, and none is admitted. -/
theorem LinkFree.makeFoldersUp_of_file (down : Location.Descends above.reverse)
    {bytes : List UInt8} (h : tree.get? above.reverse = some (file bytes)) :
    tree.makeFoldersUp [] (name :: above) = .error .notFolder ∧
      ¬ tree.Admits (above.reverse ++ [name]) := by
  have hfind : tree.find [] ⟨"", above.reverse⟩ = .ok (.found above.reverse (file bytes)) :=
    linkFree.find_of_get? down h
  have hmake : tree.makeFolder [] above.reverse name = .error .notFolder := by
    rw [makeFolder, hfind]
  refine ⟨makeFoldersUp_of_error hmake FileError.noConfusion, ?_⟩
  intro way
  exact ((admits_append _ _ _).mp way).2 _ h

/-- Where the folder above is there, it is not touched. A file in the place of the new folder is in
the way; nothing and another folder are not. -/
theorem LinkFree.makeFoldersUp_of_folder (down : Location.Descends (above.reverse ++ [name]))
    {es : List (String × Entry)} (h : tree.get? above.reverse = some (folder es)) :
    tree.makeFoldersUp [] (name :: above) = .ok made ↔
      tree.Admits (above.reverse ++ [name] ++ [last]) ∧
        made = tree.withFolder (above.reverse ++ [name]) := by
  have way := admits_of_folder h name
  rw [admits_append tree (above.reverse ++ [name])]
  rcases linkFree.makeFolder_of_folder down h with ⟨inside, hmake⟩ | ⟨⟨bytes, hfile⟩, hmake⟩
  · rw [makeFoldersUp_of_ok hmake, Except.ok.injEq, eq_comm]
    refine ⟨fun heq => ⟨⟨way, ?_⟩, heq⟩, fun heq => heq.2⟩
    intro e he
    obtain ⟨es', rfl⟩ := inside e he
    exact fun _ _ => trivial
  · rw [makeFoldersUp_of_error hmake FileError.noConfusion]
    constructor
    · intro heq
      cases heq
    · rintro ⟨⟨-, below⟩, -⟩
      exact (below _ hfile).elim

end AboveOne

/-- **Folders are made** if folders or nothing stand on the way to them. The induction is on the
names from the last one up, and each of them is told by what stands above it: nothing, a file or a
folder. -/
theorem LinkFree.makeFoldersUp_eq_ok_iff (linkFree : tree.LinkFree) {es : List (String × Entry)}
    (root : tree = folder es) {up : List String} (down : Location.Descends up.reverse)
    (last : String) (made : Entry) :
    tree.makeFoldersUp [] up = .ok made ↔
      tree.Admits (up.reverse ++ [last]) ∧ made = tree.withFolder up.reverse := by
  induction up generalizing last made with
  | nil =>
    have way : tree.Admits [last] := by
      rw [root]
      exact fun _ _ => trivial
    rw [makeFoldersUp, List.reverse_nil, List.nil_append, Except.ok.injEq, eq_comm]
    exact ⟨fun h => ⟨way, h⟩, fun h => h.2⟩
  | cons name above ih =>
    rw [List.reverse_cons] at down ⊢
    have hdown := (Location.descends_append.mp down).1
    cases h : tree.get? above.reverse with
    | none => exact linkFree.makeFoldersUp_of_missing last made down h (ih hdown name)
    | some e =>
      cases e with
      | link target => exact absurd h (linkFree _ target)
      | file bytes =>
        obtain ⟨hfail, blocked⟩ := linkFree.makeFoldersUp_of_file hdown h
        rw [hfail]
        constructor
        · intro heq
          cases heq
        · rintro ⟨way, -⟩
          exact absurd ((admits_append _ _ _).mp way).1 blocked
      | folder es' => exact linkFree.makeFoldersUp_of_folder last made down h

/-- The same with the names from the first one down. The name that the folders are made for is only
there to say that the last of them is a folder. -/
theorem LinkFree.makeFolders_eq_ok_iff (linkFree : tree.LinkFree) {es : List (String × Entry)}
    (root : tree = folder es) (down : folders.Descends) (name : String) (made : Entry) :
    tree.makeFolders [] folders = .ok made ↔
      tree.Admits (folders ++ [name]) ∧ made = tree.withFolder folders := by
  rw [← List.reverse_reverse folders] at down
  have hmade := linkFree.makeFoldersUp_eq_ok_iff root down name made
  rwa [List.reverse_reverse] at hmade

/-- A file is written into a folder that is there or has just been made, unless a folder stands at
its own place. -/
theorem LinkFree.write_withFolder (linkFree : tree.LinkFree)
    (hl : (folders ++ [name]).Descends)
    (hnul : (Path.ofLocation (folders ++ [name])).hasNul = false)
    (way : tree.Admits (folders ++ [name])) (bytes : List UInt8) :
    (tree.withFolder folders).write [] (.ofLocation (folders ++ [name])) bytes =
      match tree.get? (folders ++ [name]) with
      | some (folder _) => .error .isFolder
      | _ => .ok (tree.put (folders ++ [name]) (file bytes)) := by
  have hfree := linkFree.withFolder folders
  have hget := get?_withFolder_append way
  have hput := put_withFolder way (file bytes)
  obtain ⟨es, hfolder⟩ := get?_withFolder way
  rw [write, hnul]
  cases h : tree.get? (folders ++ [name]) with
  | none =>
    rw [h] at hget
    rw [hfree.find_of_vacant hl hfolder hget, ← hput]
    rfl
  | some e =>
    rw [h] at hget
    rw [hfree.find_of_get? hl hget, ← hput]
    cases e with
    | folder es => rfl
    | file bytes => rfl
    | link target => exact absurd h (linkFree _ target)

end Write

/-- **Where a file can be written:** whatever stands on the way is a folder, and what stands at the
end is none. -/
structure Free (tree : Entry) (target : Location) : Prop where
  way : tree.Admits target
  notFolder : ∀ es, tree.get? target ≠ some (folder es)

/-- **Writing a file, its folders first.** This works where the place is free and the name possible,
and sets the file. -/
theorem LinkFree.writes_iff (linkFree : tree.LinkFree) {es : List (String × Entry)}
    (root : tree = folder es) {target : Location} (hne : target ≠ []) (down : target.Descends)
    {bytes : List UInt8} {tree' : Entry} :
    (∃ made, tree.makeFolders [] target.dropLast = .ok made ∧
        made.write [] (.ofLocation target) bytes = .ok tree') ↔
      (Path.ofLocation target).hasNul = false ∧ tree.Free target ∧
        tree' = tree.put target (file bytes) := by
  obtain ⟨folders, name, rfl⟩ : ∃ folders name, target = folders ++ [name] :=
    ⟨_, _, (List.dropLast_concat_getLast hne).symm⟩
  rw [List.dropLast_concat]
  have folders_iff := linkFree.makeFolders_eq_ok_iff root (Location.descends_append.mp down).1 name
  constructor
  · rintro ⟨made, hmade, wrote⟩
    obtain ⟨way, rfl⟩ := (folders_iff made).mp hmade
    cases hnul : (Path.ofLocation (folders ++ [name])).hasNul with
    | true =>
      rw [write, hnul] at wrote
      cases wrote
    | false =>
      rw [linkFree.write_withFolder down hnul way] at wrote
      have free : tree.Free (folders ++ [name]) := by
        refine ⟨way, ?_⟩
        intro es' hes'
        rw [hes'] at wrote
        cases wrote
      refine ⟨rfl, free, ?_⟩
      cases h : tree.get? (folders ++ [name]) with
      | none =>
        rw [h] at wrote
        cases wrote
        rfl
      | some e =>
        rw [h] at wrote
        cases e with
        | folder es' => exact absurd h (free.notFolder es')
        | link target => exact absurd h (linkFree _ target)
        | file old =>
          cases wrote
          rfl
  · rintro ⟨hnul, free, rfl⟩
    refine ⟨_, (folders_iff _).mpr ⟨free.way, rfl⟩, ?_⟩
    rw [linkFree.write_withFolder down hnul free.way]
    cases h : tree.get? (folders ++ [name]) with
    | none => rfl
    | some e =>
      cases e with
      | folder es' => exact absurd h (free.notFolder es')
      | file old => rfl
      | link target => rfl

/-- A file that is written leaves the others alone, since it is not on the way to them and they are
not on the way to it. -/
theorem Free.get?_put_of_file (free : tree.Free l) (hne : m ≠ l) {old : List UInt8}
    (h : tree.get? m = some (file old)) (e : Entry) : (tree.put l e).get? m = some (file old) := by
  rw [get?_put_of_apart ?_ ?_ tree e, h]
  · rintro ⟨k, rfl⟩
    cases k with
    | nil => exact hne (List.append_nil l)
    | cons name k =>
      obtain ⟨es, hes⟩ := folder_of_get?_append h
      exact free.notFolder es hes
  · rintro ⟨k, rfl⟩
    cases k with
    | nil => exact hne (List.append_nil m).symm
    | cons name k => exact ((admits_append tree m _).mp free.way).2 _ h

/-- Where a file was, a file is: the one that was, or the one that was written in its place. -/
theorem Free.put_file (free : tree.Free l) (bytes : List UInt8) :
    ∀ m, (∃ old, tree.get? m = some (file old)) →
      ∃ new, (tree.put l (file bytes)).get? m = some (file new) := by
  rintro m ⟨old, h⟩
  by_cases hm : m = l
  · subst hm
    exact ⟨bytes, get?_put_self free.way _⟩
  · exact ⟨old, free.get?_put_of_file hm h _⟩

/-- Behind a file that is written, what is found was there, is the file, or is on the way to it. -/
theorem Free.get?_put_cases (free : tree.Free l) {bytes : List UInt8}
    (h : (tree.put l (file bytes)).get? m = some e) :
    tree.get? m = some e ∨ (m = l ∧ e = file bytes) ∨
      (m <+: l ∧ m ≠ l ∧ ∃ es, e = folder es) := by
  by_cases below : l <+: m
  · obtain ⟨k, rfl⟩ := below
    rw [get?_append, get?_put_self free.way] at h
    cases k with
    | nil =>
      cases h
      exact .inr (.inl ⟨List.append_nil l, rfl⟩)
    | cons name k => cases h
  · by_cases above : m <+: l
    · obtain ⟨k, rfl⟩ := above
      cases k with
      | nil => exact absurd ⟨[], (List.append_nil _).trans (List.append_nil m)⟩ below
      | cons name k =>
        rw [get?_put_append free.way] at h
        cases h
        refine .inr (.inr ⟨List.prefix_append _ _, ?_, ?_⟩)
        · intro heq
          exact below (heq ▸ List.prefix_rfl)
        · cases hm : tree.get? m with
          | none => exact ⟨_, rfl⟩
          | some e =>
            have hway := ((admits_append tree m _).mp free.way).2 e hm
            cases e with
            | folder es => exact ⟨_, rfl⟩
            | file old => exact hway.elim
            | link target => exact hway.elim
    · rw [get?_put_of_apart below above] at h
      exact .inl h

/-! ## Plain trees -/

/-- Whether a text can name a file or a folder. -/
def isFileName (name : String) : Bool :=
  name != "" && name != "." && name != ".." && !name.toList.contains '/' &&
    !name.toList.contains '\x00'

mutual

/-- Whether a tree has no links, and a possible name for everything. -/
def isPlain : Entry → Bool
  | file _ => true
  | link _ => false
  | folder es => arePlain es

/-- Whether some entries of a folder are plain. -/
def arePlain : List (String × Entry) → Bool
  | [] => true
  | (name, e) :: es => isFileName name && e.isPlain && arePlain es

end

/-- The entries of a plain folder have possible names and are plain. -/
theorem plain_of_lookup {es : List (String × Entry)} {name : String} (plain : arePlain es = true)
    (h : es.lookup name = some e) : isFileName name = true ∧ e.isPlain = true := by
  induction es with
  | nil => cases h
  | cons entry es ih =>
    obtain ⟨first, old⟩ := entry
    rw [arePlain, Bool.and_eq_true, Bool.and_eq_true] at plain
    by_cases hname : name = first
    · subst hname
      rw [List.lookup_cons_self] at h
      cases h
      exact plain.1
    · rw [lookup_cons_of_ne _ _ _ hname] at h
      exact ih plain.2 h

/-- What a folder passes on to its entries, together with possible names for them, is passed on to
whatever is found below. -/
theorem inherited_of_get? {P : Entry → Prop}
    (inherits : ∀ es name e, P (folder es) → es.lookup name = some e →
      isFileName name = true ∧ P e)
    (hP : P tree) (h : tree.get? l = some e) : (∀ name ∈ l, isFileName name = true) ∧ P e := by
  induction l generalizing tree with
  | nil =>
    cases h
    exact ⟨fun _ hname => absurd hname List.not_mem_nil, hP⟩
  | cons name rest ih =>
    obtain ⟨es, rfl⟩ := folder_of_get?_cons h
    obtain ⟨e', he', hrest⟩ := Option.bind_eq_some_iff.mp h
    obtain ⟨hname, hP'⟩ := inherits es name e' hP he'
    obtain ⟨hnames, he⟩ := ih hP' hrest
    exact ⟨List.forall_mem_cons.mpr ⟨hname, hnames⟩, he⟩

theorem plain_of_get? (plain : tree.isPlain = true) (h : tree.get? l = some e) :
    (∀ name ∈ l, isFileName name = true) ∧ e.isPlain = true := by
  refine inherited_of_get? (P := fun e => e.isPlain = true) ?_ plain h
  intro es name e' hes he'
  rw [isPlain] at hes
  exact plain_of_lookup hes he'

theorem linkFree_of_isPlain (plain : tree.isPlain = true) : tree.LinkFree := by
  intro l target h
  have := (plain_of_get? plain h).2
  rw [isPlain] at this
  cases this

end Entry

end Wxml
