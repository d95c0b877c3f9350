import Wxml.Build
import Wxml.Proofs.LinkedTrees
import Wxml.Proofs.SourceListing

/-!
# The selection of sources

Which files of a tree are its sources, and in which order they come, said without the search.

A source is what a path goes down to (`SourceRules.Selects`). It is no folder, its suffix is one of
those of the rules, it is not left out, and every folder on the way may be entered: that folder is
no link, is not the output folder, and is not left out (`SourceRules.Enters`). The order
(`Location.Before`) looks at the names alone.

The search sees one folder at a time. `mem_listed` takes its steps apart by what is found below a
folder, and `pairwise_listed` puts them in order. Both together fix the list, since no two lists
with the same elements are in this order (`Location.eq_of_before`). So it stays the same in a tree
with other listings, and so it can be had by leaving files out of a longer one.

**Not established**: how patterns are read as a predicate, which has its own module and no law here.
Trees are those that a disk can hold; in one with a name twice in a folder, the second entry is
never found.
-/

namespace Wxml

/-! ## The order of sources -/

/-- **The order of files below a folder:** first its own files by name, then what is in its folders,
folder after folder by name, each in the same order. -/
inductive Location.Before : Location → Location → Prop
  | files {x y : String} (h : x < y) : Before [x] [y]
  | fileFirst {x y : String} {rest : Location} (below : rest ≠ []) : Before [x] (y :: rest)
  | folders {x y : String} {rest rest' : Location} (h : x < y) (below : rest ≠ [])
      (below' : rest' ≠ []) : Before (x :: rest) (y :: rest')
  | inside (folder : String) {rest rest' : Location} (h : Before rest rest') :
      Before (folder :: rest) (folder :: rest')

namespace Location

variable {l m : Location}

theorem Before.ne_nil (h : l.Before m) : l ≠ [] ∧ m ≠ [] := by
  cases h <;> exact ⟨List.cons_ne_nil _ _, List.cons_ne_nil _ _⟩

/-- Of two files one comes first at most. -/
theorem Before.asymm (h : l.Before m) : ¬ m.Before l := by
  induction h with
  | files h =>
    intro h'
    cases h' with
    | files h' => exact String.lt_asymm h h'
    | fileFirst below => exact below rfl
    | folders h' below below' => exact below rfl
    | inside folder h' => exact h'.ne_nil.1 rfl
  | fileFirst below =>
    intro h'
    cases h' with
    | files h' => exact below rfl
    | fileFirst below' => exact below' rfl
    | folders h' below below' => exact below' rfl
    | inside folder h' => exact h'.ne_nil.2 rfl
  | folders h below below' =>
    intro h'
    cases h' with
    | files h' => exact below rfl
    | fileFirst below'' => exact below' rfl
    | folders h' _ _ => exact String.lt_asymm h h'
    | inside folder h' => exact String.lt_irrefl _ h
  | inside folder h ih =>
    intro h'
    cases h' with
    | files h' => exact String.lt_irrefl _ h'
    | fileFirst below => exact h.ne_nil.2 rfl
    | folders h' below below' => exact String.lt_irrefl _ h'
    | inside folder h' => exact ih h'

theorem Before.ne (h : l.Before m) : l ≠ m := by
  rintro rfl
  exact h.asymm h

/-- Files further down are compared by what is below the folder that they share. -/
theorem Before.append (h : l.Before m) (way : Location) : (way ++ l).Before (way ++ m) := by
  induction way with
  | nil => exact h
  | cons folder way ih => exact .inside folder ih

/-- So no file comes twice in a list in this order. -/
theorem nodup_of_before {ls : List Location} (h : ls.Pairwise Before) : ls.Nodup :=
  h.imp fun h => h.ne

/-- Two lists in order with the same elements are one. So a list of sources is known when its
elements are, and no list has to be computed to compare two. -/
theorem eq_of_before {ls ls' : List Location} (h : ls.Pairwise Before) (h' : ls'.Pairwise Before)
    (same : ∀ l, l ∈ ls ↔ l ∈ ls') : ls = ls' := by
  have hperm : ls.Perm ls' :=
    (List.perm_ext_iff_of_nodup (nodup_of_before h) (nodup_of_before h')).mpr same
  exact hperm.eq_of_pairwise (fun l m _ _ hl hm => absurd hm hl.asymm) h h'

end Location

namespace SourceRules

variable {r : SourceRules} {tree other : Entry} {rel p q : Location} {name : String}

/-! ## What is selected -/

/-- **A folder that may be entered.** -/
structure Enters (r : SourceRules) (tree : Entry) (folder : Location) : Prop where
  /-- The folder itself is there, not a link to one. -/
  notLink : ∀ target, tree.named? r.src folder ≠ some (.link target)
  /-- Its path does not stand for the output folder. -/
  notOutput : tree.resolve r.src (.below folder) ≠ r.out
  /-- It is not left out. -/
  included : r.excluded (folder.relativeText ++ "/") = false

/-- **A source of a tree.** -/
structure Selects (r : SourceRules) (tree : Entry) (p : Location) : Prop where
  /-- A path below the source folder goes down to it. -/
  reached : tree.Reaches r.src p
  /-- It is no folder, and no link to one. -/
  notFolder : tree.hasFolder r.src (.below p) = false
  /-- Its suffix counts, in any case of its letters. -/
  suffix : Text.lower (suffixOf (p.getLastD "")) ∈ r.suffixes
  /-- It is not left out. -/
  included : r.excluded p.relativeText = false
  /-- Every folder between the source folder and it may be entered. -/
  way : ∀ folder rest, p = folder ++ rest → folder ≠ [] → rest ≠ [] → r.Enters tree folder

/-- What a search finds below a folder: a file that is taken, behind folders that are. -/
structure Finds (r : SourceRules) (tree : Entry) (rel q : Location) : Prop where
  ne_nil : q ≠ []
  there : (tree.get? (r.src ++ (rel ++ q))).isSome
  notFolder : r.leadsToFolder tree (rel ++ q) = false
  taken : r.takesFile (rel ++ q) = true
  way : ∀ folder rest, q = folder ++ rest → folder ≠ [] → rest ≠ [] →
    r.takesFolder tree (rel ++ folder) = true

/-- The files of a folder are what is found right below it. -/
theorem finds_singleton : r.Finds tree rel [name] ↔ rel ++ [name] ∈ r.filesIn tree rel := by
  rw [mem_filesIn]
  constructor
  · intro h
    refine ⟨name, ?_, rfl, h.notFolder, h.taken⟩
    rw [mem_names, List.append_assoc]
    exact h.there
  · rintro ⟨name', hname, heq, hfile, htaken⟩
    obtain rfl : name = name' := List.singleton_inj.mp (List.append_cancel_left heq)
    rw [mem_names, List.append_assoc] at hname
    refine ⟨List.cons_ne_nil _ _, hname, hfile, htaken, ?_⟩
    intro folder rest heq hfolder hrest
    -- one name leaves no room for a folder and something in it
    obtain ⟨hnil, -⟩ | ⟨-, hnil⟩ := List.append_eq_singleton_iff.mp heq.symm
    · exact absurd hnil hfolder
    · exact absurd hnil hrest

/-- A real folder is a folder for the search. A name that leads to one may also be a link. -/
theorem leadsToFolder_of_get? (fileTree : tree.isFileTree = true)
    {es : List (String × Entry)} (h : tree.get? (r.src ++ rel) = some (.folder es)) :
    r.leadsToFolder tree rel = true := by
  have hentry : tree.entry? [] (.below (r.src ++ rel)) = some (.folder es) :=
    Entry.entry?_below_of_get? (Entry.descends_of_get? fileTree h) h rfl
  show tree.hasFolder [] (.below (r.src ++ rel)) = true
  rw [Entry.hasFolder, hentry]

/-- **One step down:** what is found in a folder of a folder. -/
theorem finds_cons (fileTree : tree.isFileTree = true) (hq : q ≠ []) :
    r.Finds tree rel (name :: q) ↔ rel ++ [name] ∈ r.foldersIn tree rel ∧
      r.isLink tree (rel ++ [name]) = false ∧ r.Finds tree (rel ++ [name]) q := by
  rw [mem_foldersIn]
  constructor
  · rintro ⟨-, there, notFolder, taken, way⟩
    rw [List.append_cons] at there notFolder taken
    obtain ⟨e, he⟩ := Option.isSome_iff_exists.mp there
    rw [← List.append_assoc] at he
    obtain ⟨es, hes⟩ := Entry.folder_above hq he
    refine ⟨⟨name, ?_, rfl, leadsToFolder_of_get? fileTree hes, ?_⟩, ?_, hq, there, notFolder,
      taken, ?_⟩
    · rw [mem_names, List.append_assoc, hes]
      rfl
    · exact way [name] _ rfl (List.cons_ne_nil _ _) hq
    · rw [isLink, hes]
      rfl
    · intro folder rest heq hfolder hrest
      rw [← List.append_cons]
      exact way (name :: folder) rest (congrArg (name :: ·) heq) (List.cons_ne_nil _ _) hrest
  · rintro ⟨⟨name', -, heq, -, htaken⟩, -, -, there, notFolder, taken, way⟩
    obtain rfl : name = name' := List.singleton_inj.mp (List.append_cancel_left heq)
    rw [← List.append_cons] at there notFolder taken
    refine ⟨List.cons_ne_nil _ _, there, notFolder, taken, ?_⟩
    intro folder rest heq hfolder hrest
    cases folder with
    | nil => exact absurd rfl hfolder
    | cons first folder =>
      injection heq with hfirst hrest'
      subst hfirst
      cases folder with
      | nil => exact htaken
      | cons second folder =>
        rw [List.append_cons]
        exact way _ rest hrest' (List.cons_ne_nil _ _) hrest

theorem mem_below {folder : Location} {depth : Nat} :
    (p ∈ if r.isLink tree folder then [] else r.listed tree depth folder) ↔
      r.isLink tree folder = false ∧ p ∈ r.listed tree depth folder := by
  cases r.isLink tree folder <;> simp

/-- **The listing below a folder** holds what is found there, down to some depth. -/
theorem mem_listed (fileTree : tree.isFileTree = true) {depth : Nat} :
    p ∈ r.listed tree depth rel ↔ ∃ q, p = rel ++ q ∧ q.length ≤ depth ∧ r.Finds tree rel q := by
  induction depth generalizing rel p with
  | zero =>
    constructor
    · intro h
      exact absurd h List.not_mem_nil
    · rintro ⟨q, -, hlength, hfinds⟩
      exact absurd (List.length_eq_zero_iff.mp (Nat.le_zero.mp hlength)) hfinds.ne_nil
  | succ depth ih =>
    rw [listed, List.mem_append, List.mem_flatMap]
    constructor
    · rintro (hfile | ⟨folder, hfolder, hbelow⟩)
      · obtain ⟨name, -, rfl, -⟩ := mem_filesIn.mp hfile
        exact ⟨[name], rfl, Nat.succ_le_succ (Nat.zero_le _), finds_singleton.mpr hfile⟩
      · obtain ⟨name, -, rfl, -⟩ := mem_foldersIn.mp hfolder
        obtain ⟨hlink, hlisted⟩ := mem_below.mp hbelow
        obtain ⟨q, rfl, hlength, hfinds⟩ := ih.mp hlisted
        refine ⟨name :: q, (List.append_cons _ _ _).symm, Nat.succ_le_succ hlength, ?_⟩
        exact (finds_cons fileTree hfinds.ne_nil).mpr ⟨hfolder, hlink, hfinds⟩
    · rintro ⟨q, rfl, hlength, hfinds⟩
      obtain ⟨name, q, rfl⟩ := List.exists_cons_of_ne_nil hfinds.ne_nil
      by_cases hq : q = []
      · subst hq
        exact .inl (finds_singleton.mp hfinds)
      · obtain ⟨hfolder, hlink, hbelow⟩ := (finds_cons fileTree hq).mp hfinds
        refine .inr ⟨rel ++ [name], hfolder, mem_below.mpr ⟨hlink, ?_⟩⟩
        exact ih.mpr ⟨q, List.append_cons _ _ _, Nat.le_of_succ_le_succ hlength, hbelow⟩

/-! ## In order -/

theorem nodup_names (fileTree : tree.isFileTree = true) (rel : Location) :
    (r.names tree rel).Nodup := by
  unfold names
  cases h : tree.get? (r.src ++ rel) with
  | none => exact .nil
  | some e =>
    cases e with
    | file bytes => exact .nil
    | link target => exact .nil
    | folder es =>
      have hes := (Entry.fileTree_of_get? fileTree h).2
      rw [Entry.isFileTree, Entry.areFileTrees_iff] at hes
      exact hes.1

/-- Names that differ come in strictly ascending order. In a folder that a disk can hold, all names
differ. -/
theorem pairwise_lt_sorted {names : List String} (h : names.Nodup) :
    (Text.sorted names).Pairwise (· < ·) := by
  have hnodup : (Text.sorted names).Nodup := (Text.sorted_perm names).nodup_iff.mpr h
  refine ((Text.pairwise_sorted names).and hnodup).imp ?_
  rintro x y ⟨hle, hne⟩
  exact String.not_le.mp fun hge => hne (String.le_antisymm hle hge)

/-- The files of a folder come by name, as they are put in order and leaving some out keeps it. -/
theorem pairwise_filesIn (fileTree : tree.isFileTree = true) (rel : Location) :
    (r.filesIn tree rel).Pairwise Location.Before := by
  refine List.Pairwise.filter _ (List.pairwise_map.mpr ?_)
  refine (pairwise_lt_sorted ((nodup_names fileTree rel).filter _)).imp ?_
  intro x y h
  exact (Location.Before.files h).append rel

theorem pairwise_foldersIn (fileTree : tree.isFileTree = true) (rel : Location) :
    (r.foldersIn tree rel).Pairwise fun folder folder' =>
      ∃ x y, x < y ∧ folder = rel ++ [x] ∧ folder' = rel ++ [y] := by
  refine List.Pairwise.filter _ (List.pairwise_map.mpr ?_)
  refine (pairwise_lt_sorted ((nodup_names fileTree rel).filter _)).imp ?_
  intro x y h
  exact ⟨x, y, h, rfl, rfl⟩

/-- What is listed below a folder lies inside it, and is not the folder itself. -/
theorem exists_of_mem_below (fileTree : tree.isFileTree = true) {depth : Nat}
    (h : p ∈ if r.isLink tree (rel ++ [name]) then [] else r.listed tree depth (rel ++ [name])) :
    ∃ q, q ≠ [] ∧ p = rel ++ (name :: q) := by
  obtain ⟨q, rfl, -, hfinds⟩ := (mem_listed fileTree).mp (mem_below.mp h).2
  exact ⟨q, hfinds.ne_nil, (List.append_cons _ _ _).symm⟩

/-- **The listing below a folder** is in order. The induction is on the depth: files before folders,
folders by name, and inside each folder the order of its own listing. -/
theorem pairwise_listed (fileTree : tree.isFileTree = true) (depth : Nat) (rel : Location) :
    (r.listed tree depth rel).Pairwise Location.Before := by
  induction depth generalizing rel with
  | zero => exact .nil
  | succ depth ih =>
    rw [listed, List.pairwise_append, List.pairwise_flatMap]
    refine ⟨pairwise_filesIn fileTree rel, ⟨?inside, ?across⟩, ?filesFirst⟩
    case inside =>
      intro folder _
      cases r.isLink tree folder with
      | true => exact .nil
      | false => exact ih folder
    case across =>
      refine (pairwise_foldersIn fileTree rel).imp ?_
      rintro _ _ ⟨x, y, hlt, rfl, rfl⟩ p hp p' hp'
      obtain ⟨q, hq, rfl⟩ := exists_of_mem_below fileTree hp
      obtain ⟨q', hq', rfl⟩ := exists_of_mem_below fileTree hp'
      exact (Location.Before.folders hlt hq hq').append rel
    case filesFirst =>
      intro file hfile p hp
      obtain ⟨folder, hfolder, hbelow⟩ := List.mem_flatMap.mp hp
      obtain ⟨x, -, rfl, -⟩ := mem_filesIn.mp hfile
      obtain ⟨y, -, rfl, -⟩ := mem_foldersIn.mp hfolder
      obtain ⟨q, hq, rfl⟩ := exists_of_mem_below fileTree hbelow
      exact (Location.Before.fileFirst hq).append rel

/-! ## The sources of a tree -/

section Real

variable (fileTree : tree.isFileTree = true) {es : List (String × Entry)}
  (hsrc : tree.get? r.src = some (.folder es))
include fileTree hsrc

/-- Seen from the source folder, the search asks about paths below. -/
theorem leadsToFolder_eq (rel : Location) :
    r.leadsToFolder tree rel = tree.hasFolder r.src (.below rel) := by
  have hentry : tree.entry? [] (.below (r.src ++ rel)) = tree.entry? r.src (.below rel) :=
    Entry.entry?_below_append (Entry.descends_of_get? fileTree hsrc) hsrc rfl rel
  show tree.hasFolder [] (.below (r.src ++ rel)) = _
  unfold Entry.hasFolder
  rw [hentry]

/-- A folder is taken when its path does not stand for the output folder and it is not left out.
Links on the way are followed for the first question only. -/
theorem takesFolder_iff (rel : Location) :
    r.takesFolder tree rel = true ↔
      tree.resolve r.src (.below rel) ≠ r.out ∧ r.excluded (rel.relativeText ++ "/") = false := by
  have hresolve : tree.resolve [] (.below (r.src ++ rel)) = tree.resolve r.src (.below rel) :=
    Entry.resolve_below_append (Entry.descends_of_get? fileTree hsrc) hsrc rfl rel
  have hplace : tree.resolve [] (.ofLocation (r.src ++ rel)) = tree.resolve r.src (.below rel) :=
    hresolve
  rw [takesFolder, hplace]
  simp

end Real

/-- A file is taken by its suffix, in any case of its letters, unless it is left out. -/
theorem takesFile_iff : r.takesFile p = true ↔
    Text.lower (suffixOf (p.getLastD "")) ∈ r.suffixes ∧ r.excluded p.relativeText = false := by
  simp [takesFile]

/-- No link is on the way to a source, so the search comes by it. The folders on the way are entered
one after the other. -/
theorem Selects.finds (fileTree : tree.isFileTree = true) (h : r.Selects tree p) :
    r.Finds tree [] p := by
  obtain ⟨hne, down, hnamed⟩ := h.reached
  obtain ⟨e, he⟩ := Option.isSome_iff_exists.mp hnamed
  have there : tree.get? (r.src ++ p) = some e := by
    refine Entry.get?_of_named? down hne ?_ he
    intro folder rest heq hfolder hrest
    exact (h.way folder rest heq hfolder hrest).notLink
  obtain ⟨es, hsrc⟩ := Entry.folder_above hne there
  refine ⟨hne, Option.isSome_of_mem there, ?_, takesFile_iff.mpr ⟨h.suffix, h.included⟩, ?_⟩
  · rw [List.nil_append, leadsToFolder_eq fileTree hsrc, h.notFolder]
  · intro folder rest heq hfolder hrest
    have enters := h.way folder rest heq hfolder hrest
    exact (takesFolder_iff fileTree hsrc folder).mpr ⟨enters.notOutput, enters.included⟩

/-- What the search comes by has folders on the way, which are no links. Paths and locations are
therefore the same there. -/
theorem Finds.selects (fileTree : tree.isFileTree = true) (h : r.Finds tree [] p) :
    r.Selects tree p := by
  obtain ⟨hne, hsome, notFolder, taken, way⟩ := h
  rw [List.nil_append] at hsome notFolder taken
  obtain ⟨e, there⟩ := Option.isSome_iff_exists.mp hsome
  obtain ⟨suffix, included⟩ := takesFile_iff.mp taken
  have down := (Location.descends_append.mp (Entry.descends_of_get? fileTree there)).2
  obtain ⟨es, hsrc⟩ := Entry.folder_above hne there
  rw [leadsToFolder_eq fileTree hsrc] at notFolder
  refine ⟨⟨hne, down, ?_⟩, notFolder, suffix, included, ?_⟩
  · rw [Entry.named?_of_get? down hne there]
    rfl
  · intro folder rest heq hfolder hrest
    obtain ⟨notOutput, hincluded⟩ :=
      (takesFolder_iff fileTree hsrc folder).mp (way folder rest heq hfolder hrest)
    refine ⟨?_, notOutput, hincluded⟩
    intro target hlink
    subst heq
    rw [← List.append_assoc] at there
    obtain ⟨es', hes'⟩ := Entry.folder_above hrest there
    have hdown := (Location.descends_append.mp down).1
    rw [Entry.named?_of_get? hdown hfolder hes'] at hlink
    cases hlink

/-- **The sources of a tree** are those that the rules select. -/
theorem mem_sources (fileTree : tree.isFileTree = true) :
    p ∈ r.sources tree ↔ r.Selects tree p := by
  rw [sources_eq_listed, mem_listed fileTree]
  constructor
  · rintro ⟨q, rfl, -, hfinds⟩
    exact hfinds.selects fileTree
  · intro selects
    have hfinds := selects.finds fileTree
    refine ⟨p, rfl, ?_, hfinds⟩
    obtain ⟨e, he⟩ := Option.isSome_iff_exists.mp hfinds.there
    have hheight := Entry.length_le_height he
    rw [List.nil_append, List.length_append] at hheight
    rw [depthLimit]
    omega

/-- The sources of a tree are in order, the files of every folder before those of its folders. -/
theorem pairwise_sources (fileTree : tree.isFileTree = true) :
    (r.sources tree).Pairwise Location.Before := by
  rw [sources_eq_listed]
  exact pairwise_listed fileTree _ _

/-- What is found depends on what is where, and not on the order of listings. -/
theorem Finds.of_sameShape (same : tree.SameShape other) (h : r.Finds tree rel q) :
    r.Finds other rel q where
  ne_nil := h.ne_nil
  there := by
    rw [← same.isSome_get?]
    exact h.there
  notFolder := by
    rw [leadsToFolder, ← same.hasFolder_eq]
    exact h.notFolder
  taken := h.taken
  way folder rest heq hfolder hrest := by
    rw [takesFolder, ← same.resolve_eq]
    exact h.way folder rest heq hfolder hrest

/-- **The order of listings does not matter.** The sources of both trees are in order and are the
same ones, so they are the same list. -/
theorem sources_of_relisted (fileTree : tree.isFileTree = true) (relisted : tree.Relisted other) :
    r.sources other = r.sources tree := by
  have fileTree' := relisted.isFileTree fileTree
  have same := relisted.sameShape
  refine Location.eq_of_before (pairwise_sources fileTree') (pairwise_sources fileTree) ?_
  intro p
  rw [mem_sources fileTree', mem_sources fileTree]
  constructor
  · intro h
    exact ((h.finds fileTree').of_sameShape same.symm).selects fileTree
  · intro h
    exact ((h.finds fileTree).of_sameShape same).selects fileTree'

end SourceRules

/-! ## The sources of a build -/

namespace Settings

/-- A predicate that leaves out whatever is in a folder that it leaves out. -/
def Prunes (s : Settings) (tree : Entry) (excluded : String → Bool) : Prop :=
  ∀ folder rest : Location, folder ≠ [] → rest ≠ [] → tree.Reaches s.src (folder ++ rest) →
    excluded (folder.relativeText ++ "/") = true →
    excluded (Location.relativeText (folder ++ rest)) = true

variable {s : Settings} {tree : Entry} {m : String → Bool} {p : Location}

/-- Where a predicate leaves out the insides of folders, it can be asked in the end. -/
theorem selects_iff_of_prunes (prunes : s.Prunes tree m) :
    (s.rulesExcluding m).Selects tree p ↔
      (s.rulesExcluding fun _ => false).Selects tree p ∧ m p.relativeText = false := by
  constructor
  · rintro ⟨reached, notFolder, suffix, included, way⟩
    refine ⟨⟨reached, notFolder, suffix, rfl, ?_⟩, included⟩
    intro folder rest heq hfolder hrest
    have enters := way folder rest heq hfolder hrest
    exact ⟨enters.notLink, enters.notOutput, rfl⟩
  · rintro ⟨⟨reached, notFolder, suffix, -, way⟩, included⟩
    refine ⟨reached, notFolder, suffix, included, ?_⟩
    intro folder rest heq hfolder hrest
    have enters := way folder rest heq hfolder hrest
    refine ⟨enters.notLink, enters.notOutput, Bool.eq_false_iff.mpr ?_⟩
    intro hpruned
    subst heq
    have hout := prunes folder rest hfolder hrest reached hpruned
    exact Bool.false_ne_true (included.symm.trans hout)

/-- Leaving out folders on the way or files in the end gives the same list, if the predicate treats
them alike. -/
theorem sources_of_prunes (fileTree : tree.isFileTree = true) (prunes : s.Prunes tree m) :
    (s.rulesExcluding m).sources tree =
      ((s.rulesExcluding fun _ => false).sources tree).filter fun p => !m p.relativeText := by
  refine Location.eq_of_before (SourceRules.pairwise_sources fileTree)
    ((SourceRules.pairwise_sources fileTree).filter _) ?_
  intro p
  rw [List.mem_filter, SourceRules.mem_sources fileTree, SourceRules.mem_sources fileTree,
    selects_iff_of_prunes prunes, Bool.not_eq_true']

end Settings

/-- **The sources of a build**, for any predicate that says what is left out. They are exactly what
the rules select, each once, the files of a folder by name and then those of its folders. No listing
changes them, and a predicate that leaves out what is in its folders can be asked in the end. A
build has these sources if its patterns are read as the predicate. -/
theorem sources_selected_in_order (s : Settings) (m : String → Bool) {tree : Entry}
    (fileTree : tree.isFileTree = true) :
    (∀ p, p ∈ (s.rulesExcluding m).sources tree ↔ (s.rulesExcluding m).Selects tree p) ∧
    ((s.rulesExcluding m).sources tree).Nodup ∧
    ((s.rulesExcluding m).sources tree).Pairwise Location.Before ∧
    (∀ other, tree.Relisted other →
      (s.rulesExcluding m).sources other = (s.rulesExcluding m).sources tree) ∧
    (s.Prunes tree m → (s.rulesExcluding m).sources tree =
      ((s.rulesExcluding fun _ => false).sources tree).filter fun p => !m p.relativeText) ∧
    ∀ matcher : Matcher, matcher s.exclude = .ok m →
      sourcesOf s tree matcher = .ok ((s.rulesExcluding m).sources tree) := by
  have inOrder := SourceRules.pairwise_sources (r := s.rulesExcluding m) fileTree
  refine ⟨fun p => SourceRules.mem_sources fileTree, Location.nodup_of_before inOrder, inOrder,
    fun other => SourceRules.sources_of_relisted fileTree, Settings.sources_of_prunes fileTree, ?_⟩
  intro matcher hmatcher
  rw [sourcesOf, Settings.sourceRules, hmatcher]
  rfl

/-- A folder with sources to be found, and with some that lie where none is looked for. -/
def shopFolder : List (String × Entry) :=
  [("pages", .folder [("index.wxml", .file []), ("Detail.WXML", .file [])]),
    ("dist", .folder [("index.wxml", .file [])]), ("notes.txt", .file []),
    ("vendor", .folder [("kit.wxml", .file [])]), ("alias", .link "pages"),
    ("b.wxml", .file []), ("app.wxml", .link "nowhere")]

/-- A predicate that leaves out one folder. -/
def inVendor (path : String) : Bool := "vendor/".toList.isPrefixOf path.toList

/-- A predicate on the start of a path leaves out what is in the folders that it leaves out. -/
theorem prunes_inVendor (s : Settings) (tree : Entry) : s.Prunes tree inVendor := by
  intro folder rest hfolder hrest _ hpruned
  rw [inVendor, List.isPrefixOf_iff_prefix] at hpruned ⊢
  rw [Location.relativeText, String.intercalate_append_of_ne_nil hfolder hrest,
    String.toList_append]
  exact hpruned.trans (List.prefix_append _ _)

/-- Links to a folder and to nothing, several suffixes, the output folder and one that the predicate
leaves out: four sources are left, whichever way the folder is listed. -/
theorem sources_selected_in_order_shop :
    let s : Settings := ⟨["shop"], ["shop", "dist"], [".Wxml"], ".jsx", [], false⟩
    let tree := Entry.folder [("shop", .folder shopFolder)]
    let other := Entry.folder [("shop", .folder shopFolder.reverse)]
    let r := s.rulesExcluding inVendor
    tree.isFileTree = true ∧ tree.Relisted other ∧
    r.sources other = [["app.wxml"], ["b.wxml"], ["pages", "Detail.WXML"],
      ["pages", "index.wxml"]] ∧
    r.Selects tree ["app.wxml"] ∧ ¬ r.Selects tree ["alias", "index.wxml"] ∧
    r.sources tree = ((s.rulesExcluding fun _ => false).sources tree).filter
      (fun p => !inVendor p.relativeText) := by
  intro s tree other r
  have fileTree : tree.isFileTree = true := by decide +kernel
  have relisted : tree.Relisted other := by
    refine .folder (.refl _) ?_
    intro name e e' he he'
    cases List.mem_singleton.mp (Entry.mem_of_lookup he)
    cases List.mem_singleton.mp (Entry.mem_of_lookup he')
    exact Entry.relisted_of_perm (by decide) (List.reverse_perm _).symm
  have found : r.sources tree = [["app.wxml"], ["b.wxml"], ["pages", "Detail.WXML"],
      ["pages", "index.wxml"]] := by decide +kernel
  obtain ⟨hmem, -, -, hrelisted, hprunes, -⟩ := sources_selected_in_order s inVendor fileTree
  refine ⟨fileTree, relisted, (hrelisted other relisted).trans found, ?_, ?_,
    hprunes (prunes_inVendor s tree)⟩
  · rw [← hmem, found]
    decide
  · rw [← hmem, found]
    decide

end Wxml
