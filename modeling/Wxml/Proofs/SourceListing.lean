import Mathlib.Data.List.Sort
import Wxml.Proofs.PlainTrees
import Wxml.Proofs.SourceWalk

/-!
# The sources of a tree

The sources of a tree as one list: those of a folder by name, then those of its folders
(`SourceRules.listed`). Collecting them gives this list (`sources_eq_listed`), and so does any walk
that changes the tree only where it does not look.

**The law** (`walk_loops_listed`) says what that means. Let every tree on the way show the walk the
same files as the first one, and the same folders, and perhaps more folders that the first does not
have (`Shows`). Then the walk is the loop over the sources of the first tree, if no folder that it
can reach lies too deep.

**Not established**: anything about a walk that changes what it will see. For such walks there is
`SourceRules.met`, which is not known beforehand.
-/

namespace Wxml

/-! ## Names in order -/

namespace Text

/-- Texts are put in order by insertion. The library's sort is the same function, and its laws are
used from here on. -/
theorem sorted_eq_insertionSort (texts : List String) :
    sorted texts = texts.insertionSort (· ≤ ·) := by
  have hinsert : ∀ s l, insertSorted s l = l.orderedInsert (· ≤ ·) s := by
    intro s l
    induction l with
    | nil => rfl
    | cons first rest ih => rw [insertSorted, List.orderedInsert_cons, ih]
  rw [sorted, List.insertionSort, funext fun s => funext (hinsert s)]

/-- Putting texts in order neither adds nor loses one. -/
theorem sorted_perm (texts : List String) : (sorted texts).Perm texts := by
  rw [sorted_eq_insertionSort]
  exact List.perm_insertionSort _ texts

theorem pairwise_sorted (texts : List String) : (sorted texts).Pairwise (· ≤ ·) := by
  rw [sorted_eq_insertionSort]
  exact List.pairwise_insertionSort _ texts

/-- Leaving out texts does not change the order of the others. A folder with more names in it
therefore lists the old ones as before. -/
theorem filter_sorted (p : String → Bool) (texts : List String) :
    (sorted texts).filter p = sorted (texts.filter p) := by
  refine List.Perm.eq_of_pairwise (fun _ _ _ _ => String.le_antisymm)
    ((pairwise_sorted texts).filter p) (pairwise_sorted _) ?_
  exact ((sorted_perm texts).filter p).trans (sorted_perm _).symm

end Text

namespace SourceRules

/-! ## Loops -/

variable {ε σ : Type}

/-- **A run that is a loop** from every state with some property, which it keeps unless it fails. -/
def Loops (Inv : σ → Prop) (act : Location → EStateM ε σ Unit) (x : EStateM ε σ Unit)
    (rels : List Location) : Prop :=
  ∀ s, Inv s → x s = rels.forM act s ∧ ∀ s', x s = .ok () s' → Inv s'

section Loops

variable {Inv : σ → Prop} {act : Location → EStateM ε σ Unit}

theorem Loops.nothing : Loops Inv act (pure ()) [] := by
  intro s hs
  refine ⟨rfl, ?_⟩
  intro s' h
  cases h
  exact hs

/-- Only what a run does from the states with the property matters. -/
theorem Loops.of_eq {x x' : EStateM ε σ Unit} {rels : List Location} (h : Loops Inv act x' rels)
    (heq : ∀ s, Inv s → x s = x' s) : Loops Inv act x rels := by
  intro s hs
  rw [heq s hs]
  exact h s hs

/-- Loops in a row are a loop over both lists. -/
theorem Loops.seq {x k : EStateM ε σ Unit} {rels more : List Location}
    (first : Loops Inv act x rels) (rest : Loops Inv act k more) :
    Loops Inv act (x >>= fun _ => k) (rels ++ more) := by
  intro s hs
  obtain ⟨hx, hkeeps⟩ := first s hs
  cases hrun : rels.forM act s with
  | ok u s' =>
    rw [bind_of_ok (hx.trans hrun), forM_append_of_ok hrun]
    exact rest s' (hkeeps s' (hx.trans hrun))
  | error e s' =>
    rw [bind_of_error (hx.trans hrun), forM_append_of_error hrun]
    refine ⟨rfl, ?_⟩
    intro s'' h
    cases h

/-- Loops for each element of a list are a loop over all their lists. -/
theorem Loops.all {α : Type} {body : α → EStateM ε σ Unit} {rels : α → List Location} {as : List α}
    (each : ∀ a ∈ as, Loops Inv act (body a) (rels a)) :
    Loops Inv act (as.forM body) (as.flatMap rels) := by
  induction as with
  | nil => exact .nothing
  | cons a as ih =>
    rw [List.forall_mem_cons] at each
    exact each.1.seq (ih each.2)

theorem Loops.one {rel : Location} (keeps : ∀ s s', Inv s → act rel s = .ok () s' → Inv s') :
    Loops Inv act (act rel) [rel] := by
  intro s hs
  refine ⟨?_, fun s' => keeps s s' hs⟩
  cases hact : act rel s with
  | ok u s' =>
    rw [forM_cons_of_ok hact]
    rfl
  | error e s' => rw [forM_cons_of_error hact]

/-- Handling some sources keeps the property, if handling each of them does. -/
theorem Loops.forM {rels : List Location}
    (keeps : ∀ rel ∈ rels, ∀ s s', Inv s → act rel s = .ok () s' → Inv s') :
    Loops Inv act (rels.forM act) rels := by
  have hone : ∀ rel ∈ rels, Loops Inv act (act rel) [rel] := fun rel hrel => .one (keeps rel hrel)
  have hall := Loops.all hone
  rwa [List.flatMap_singleton'] at hall

end Loops

/-! ## Listings -/

/-- The sources below a folder of a tree that does not change. -/
def listed (r : SourceRules) (tree : Entry) : Nat → Location → List Location
  | 0, _ => []
  | depth + 1, rel =>
    r.filesIn tree rel ++ (r.foldersIn tree rel).flatMap fun folder =>
      if r.isLink tree folder then [] else r.listed tree depth folder

variable {r : SourceRules} {tree : Entry} {rel : Location}

/-- The files of a folder that are taken: they lead to no folder, and the rules take them. -/
theorem mem_filesIn {file : Location} :
    file ∈ r.filesIn tree rel ↔ ∃ name ∈ r.names tree rel, file = rel ++ [name] ∧
      r.leadsToFolder tree (rel ++ [name]) = false ∧ r.takesFile (rel ++ [name]) = true := by
  unfold filesIn
  simp only [List.mem_filter, List.mem_map, (Text.sorted_perm _).mem_iff, Bool.not_eq_true']
  constructor
  · rintro ⟨⟨name, ⟨hname, hfile⟩, rfl⟩, htakes⟩
    exact ⟨name, hname, rfl, hfile, htakes⟩
  · rintro ⟨name, hname, rfl, hfile, htakes⟩
    exact ⟨⟨name, ⟨hname, hfile⟩, rfl⟩, htakes⟩

/-- The folders of a folder that are taken. A link to a folder is among them and is only left out
when it comes to entering it. -/
theorem mem_foldersIn {folder : Location} :
    folder ∈ r.foldersIn tree rel ↔ ∃ name ∈ r.names tree rel, folder = rel ++ [name] ∧
      r.leadsToFolder tree (rel ++ [name]) = true ∧ r.takesFolder tree (rel ++ [name]) = true := by
  unfold foldersIn
  simp only [List.mem_filter, List.mem_map, (Text.sorted_perm _).mem_iff]
  constructor
  · rintro ⟨⟨name, ⟨hname, hfolder⟩, rfl⟩, htakes⟩
    exact ⟨name, hname, rfl, hfolder, htakes⟩
  · rintro ⟨name, hname, rfl, hfolder, htakes⟩
    exact ⟨⟨name, ⟨hname, hfolder⟩, rfl⟩, htakes⟩

/-- The names in a folder are those that lead somewhere, by a step down from it without following
links. -/
theorem mem_names {name : String} :
    name ∈ r.names tree rel ↔ (tree.get? (r.src ++ rel ++ [name])).isSome := by
  rw [Entry.get?_append tree (r.src ++ rel) [name], names]
  cases tree.get? (r.src ++ rel) with
  | none => simp
  | some e =>
    cases e with
    | file bytes => simp [Entry.get?]
    | link target => simp [Entry.get?]
    | folder es =>
      have hname : (Entry.folder es).get? [name] = es.lookup name :=
        Entry.get?_snoc (l := []) rfl name
      rw [Option.bind_some, hname]
      exact Entry.mem_names_iff es name

/-- Nothing is listed where nothing is. -/
theorem names_of_none (h : tree.get? (r.src ++ rel) = none) : r.names tree rel = [] := by
  rw [names, h]

theorem listed_of_none (h : tree.get? (r.src ++ rel) = none) (depth : Nat) :
    r.listed tree depth rel = [] := by
  cases depth with
  | zero => rfl
  | succ depth =>
    rw [listed, filesIn, foldersIn, names_of_none h]
    rfl

/-- A source is a file of the folder that it is in, at whatever depth that lies. -/
theorem mem_filesIn_of_mem_listed {depth : Nat} {file : Location}
    (h : file ∈ r.listed tree depth rel) : ∃ folder, file ∈ r.filesIn tree folder := by
  induction depth generalizing rel with
  | zero => exact absurd h List.not_mem_nil
  | succ depth ih =>
    rw [listed, List.mem_append, List.mem_flatMap] at h
    rcases h with hhere | ⟨folder, -, hbelow⟩
    · exact ⟨rel, hhere⟩
    · cases hlink : r.isLink tree folder with
      | true =>
        rw [hlink, if_pos rfl] at hbelow
        exact absurd hbelow List.not_mem_nil
      | false =>
        rw [hlink, if_neg Bool.false_ne_true] at hbelow
        exact ih hbelow

/-! ## Trees that show the same -/

/-- Whether a tree has something at a path below the source folder. -/
def holds (r : SourceRules) (tree : Entry) (rel : Location) : Bool :=
  (tree.get? (r.src ++ rel)).isSome

/-- **What a walk sees of a tree** where it can get: the files of another one, the folders of that
one, and folders that that one does not have. -/
structure Shows (r : SourceRules) (Reach : Location → Prop) (tree now : Entry) : Prop where
  files : ∀ rel, Reach rel → r.filesIn now rel = r.filesIn tree rel
  folders : ∀ rel, Reach rel → (r.foldersIn now rel).filter (r.holds tree) = r.foldersIn tree rel
  links : ∀ rel, r.isLink now rel = r.isLink tree rel
  reach : ∀ rel, Reach rel → ∀ folder ∈ r.foldersIn now rel, Reach folder

/-- What is found in a tree lies no deeper than the tree is high. So a walk that may get as deep as
that never comes too deep. -/
theorem length_le_height_of_mem {folder : Location} (h : folder ∈ r.foldersIn tree rel) :
    folder.length ≤ tree.height := by
  obtain ⟨name, hname, rfl, -⟩ := mem_foldersIn.mp h
  obtain ⟨e, he⟩ := Option.isSome_iff_exists.mp (mem_names.mp hname)
  have hheight := Entry.length_le_height he
  rw [List.append_assoc, List.length_append] at hheight
  exact Nat.le_trans (Nat.le_add_left _ _) hheight

/-- A tree shows what it shows. What can be reached lies no deeper than the tree is high. -/
theorem shows_self (r : SourceRules) (tree : Entry) :
    r.Shows (fun rel => rel.length ≤ tree.height) tree tree where
  files _ _ := rfl
  folders rel _ := by
    refine List.filter_eq_self.mpr ?_
    intro folder hfolder
    obtain ⟨name, hname, rfl, -⟩ := mem_foldersIn.mp hfolder
    rw [holds, ← List.append_assoc]
    exact mem_names.mp hname
  links _ := rfl
  reach _ _ _ := length_le_height_of_mem

/-- Elements that give nothing can be left out. New folders on the way to the outputs are such
elements. -/
theorem flatMap_filter {α β : Type} {p : α → Bool} {f : α → List β} {as : List α}
    (h : ∀ a ∈ as, p a = false → f a = []) : (as.filter p).flatMap f = as.flatMap f := by
  induction as with
  | nil => rfl
  | cons a as ih =>
    rw [List.forall_mem_cons] at h
    rw [List.flatMap_cons, ← ih h.2]
    cases hp : p a with
    | true => rw [List.filter_cons_of_pos hp, List.flatMap_cons]
    | false => rw [List.filter_cons_of_neg (Bool.eq_false_iff.mp hp), h.1 hp, List.nil_append]

/-- **A walk beside which the sources stay the same** is the loop over them, where it does not come
too deep. The induction is on how deep it may get. -/
theorem walk_loops_listed {view : σ → Entry} {act : Location → EStateM ε σ Unit} {deep : ε}
    {Inv : σ → Prop} {Reach : Location → Prop} (shows : ∀ s, Inv s → r.Shows Reach tree (view s))
    (keeps : ∀ rel, Reach rel → ∀ file ∈ r.filesIn tree rel,
      ∀ s s', Inv s → act file s = .ok () s' → Inv s')
    {limit : Nat} (near : ∀ rel, Reach rel → rel.length < limit)
    {depth : Nat} (enough : limit ≤ rel.length + depth) (hrel : Reach rel) :
    Loops Inv act (r.walk view act deep depth rel) (r.listed tree depth rel) := by
  induction depth generalizing rel with
  | zero => exact absurd (near rel hrel) (Nat.not_lt.mpr enough)
  | succ depth ih =>
    intro s hs
    have hshows := shows s hs
    have files : Loops Inv act ((r.filesIn (view s) rel).forM act) (r.filesIn tree rel) := by
      rw [hshows.files rel hrel]
      exact .forM (keeps rel hrel)
    have folder : ∀ folder ∈ r.foldersIn (view s) rel, Loops Inv act
        (r.enter view (r.walk view act deep depth) folder)
        (if r.isLink tree folder then [] else r.listed tree depth folder) := by
      intro folder hfolder
      by_cases link : r.isLink tree folder = true
      · rw [if_pos link]
        refine Loops.nothing.of_eq ?_
        intro s' hs'
        exact enter_of_link (by rwa [(shows s' hs').links])
      · have hbelow : limit ≤ folder.length + depth := by
          obtain ⟨name, -, rfl, -⟩ := mem_foldersIn.mp hfolder
          rw [List.length_append, List.length_singleton]
          omega
        rw [if_neg link]
        refine (ih hbelow (hshows.reach rel hrel folder hfolder)).of_eq ?_
        intro s' hs'
        exact enter_of_not_link (by rwa [(shows s' hs').links])
    have folders := Loops.all folder
    -- folders that the first tree does not have are walked for nothing
    rw [← flatMap_filter (p := r.holds tree) ?new, hshows.folders rel hrel] at folders
    · exact files.seq folders s hs
    · intro folder _ hnew
      have hnone : tree.get? (r.src ++ folder) = none :=
        Option.not_isSome_iff_eq_none.mp (Bool.eq_false_iff.mp hnew)
      cases r.isLink tree folder with
      | true => rfl
      | false => exact listed_of_none hnone depth

/-- **Collecting sources** gives the list of them. The search never comes too deep, as no folder of
the tree lies that deep. -/
theorem sources_eq_listed (r : SourceRules) (tree : Entry) :
    r.sources tree = r.listed tree (depthLimit tree r.out) [] := by
  have hwalk : Loops (fun _ => True) collect
      (r.walk (fun _ => tree) collect () (depthLimit tree r.out) [])
      (r.listed tree (depthLimit tree r.out) []) := by
    refine walk_loops_listed (fun _ _ => r.shows_self tree) (fun _ _ _ _ _ _ _ _ => trivial)
      (fun rel => Nat.lt_succ_of_le) ?_ (Nat.zero_le _)
    rw [depthLimit, List.length_nil]
    omega
  have hcollect : ∀ rels found : List Location,
      rels.forM collect found = .ok () (found ++ rels) := by
    intro rels
    induction rels with
    | nil =>
      intro found
      rw [List.append_nil]
      rfl
    | cons rel rels ih =>
      intro found
      have hone : collect rel found = .ok () (found ++ [rel]) := rfl
      rw [forM_cons_of_ok hone, ih, List.append_assoc, List.singleton_append]
  rw [sources, (hwalk [] trivial).1, hcollect]
  rfl

end SourceRules

end Wxml
