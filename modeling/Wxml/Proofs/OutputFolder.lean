import Wxml.Proofs.SourceListing

/-!
# Sources beside an output folder

A build writes below one folder, which was not there before. While it does, the tree is the first
one with a folder set at one location (`Entry.Grown`), whatever that folder holds: a file written
below it keeps this form (`Grown.put`). A walk never enters the folder, and the folders made on the
way to it hold nothing else. So the walk sees what it saw at the start (`Grown.shows`).

**Not established**: anything about a tree with links or one that has something at the place of the
outputs. There a walk can come by its own outputs, and sources can appear or go away on the way.
-/

namespace Wxml

namespace Entry

/-- A folder is at a location. -/
def FolderAt (tree : Entry) (l : Location) : Prop := ∃ es, tree.get? l = some (folder es)

/-- **A tree while outputs are written:** as it was, or with a folder where nothing was. -/
inductive Grown (tree : Entry) (out : Location) : Entry → Prop
  | start : Grown tree out tree
  | outputs {es : List (String × Entry)} (way : tree.Admits out)
      (linkFree : (folder es).LinkFree) : Grown tree out (tree.put out (folder es))

namespace Grown

variable {tree now : Entry} {out loc : Location}

theorem linkFree (grown : tree.Grown out now) (h : tree.LinkFree) : now.LinkFree := by
  cases grown with
  | start => exact h
  | outputs way inside => exact h.put inside out

/-- A file written below the output folder keeps the form of the tree, whether it is the first one
or not. What the folder holds is open, so the two writes are one of another folder. -/
theorem put (grown : tree.Grown out now) (fresh : tree.get? out = none) {below : Location}
    (hbelow : below ≠ []) (way : now.Admits (out ++ below)) (bytes : List UInt8) :
    tree.Grown out (now.put (out ++ below) (file bytes)) := by
  obtain ⟨name, rest, rfl⟩ := List.exists_cons_of_ne_nil hbelow
  have hfile := linkFree_file bytes
  cases grown with
  | start =>
    rw [put_append, fresh]
    exact .outputs ((admits_append _ _ _).mp way).1 (linkFree_folder_nil.put hfile (name :: rest))
  | outputs hway inside =>
    rw [put_append, get?_put_self hway, put_put]
    exact .outputs hway (inside.put hfile (name :: rest))

/-- Where there are outputs, there was a way to them in the tree before the first one. -/
theorem way_of_get? (grown : tree.Grown out now) (fresh : tree.get? out = none) {below : Location}
    {e : Entry} (h : now.get? (out ++ below) = some e) : tree.Admits out := by
  cases grown with
  | start =>
    rw [get?_append, fresh] at h
    cases h
  | outputs way _ => exact way

/-- The way to the outputs stays open. -/
theorem admits (grown : tree.Grown out now) (way : tree.Admits out) : now.Admits out := by
  cases grown with
  | start => exact way
  | outputs _ _ => exact admits_of_get? (get?_put_self way _)

/-- A folder set where nothing was has only folders on its way, those that were there and those that
were made. -/
theorem folderAt_put {l m : Location} (way : tree.Admits (l ++ m))
    (fresh : tree.get? (l ++ m) = none) (es : List (String × Entry)) :
    (tree.put (l ++ m) (folder es)).FolderAt l := by
  have hget := get?_put_append way (folder es)
  have hput : ∀ es', ∃ es'', (folder es').put m (folder es) = folder es'' := by
    intro es'
    cases m with
    | nil => exact ⟨es, rfl⟩
    | cons name rest => exact ⟨_, rfl⟩
  cases he : tree.get? l with
  | none =>
    rw [he, Option.getD_none] at hget
    obtain ⟨es'', hes''⟩ := hput []
    exact ⟨es'', hes'' ▸ hget⟩
  | some e =>
    obtain ⟨es', rfl⟩ := folder_of_admits way fresh he
    rw [he, Option.getD_some] at hget
    obtain ⟨es'', hes''⟩ := hput es'
    exact ⟨es'', hes'' ▸ hget⟩

end Grown

end Entry

/-! ## What a walk sees -/

namespace SourceRules

variable {r : SourceRules} {tree now : Entry} {rel : Location}

/-- **What a folder lists in a growing tree:** what it did, and some folders that were missing on
the way to the outputs. Everything else is a folder where it was one. -/
structure Lists (r : SourceRules) (tree now : Entry) (rel : Location) (new : List String) :
    Prop where
  names : r.names now rel = r.names tree rel ++ new
  folders : ∀ name ∈ new, r.src ++ rel ++ [name] <+: r.out ∧ name ∉ r.names tree rel ∧
    now.FolderAt (r.src ++ rel ++ [name])
  kept : ∀ name ∉ new, now.FolderAt (r.src ++ rel ++ [name]) ↔
    tree.FolderAt (r.src ++ rel ++ [name])

/-- A folder that is as it was lists what it did. -/
theorem Lists.of_eq (h : now.get? (r.src ++ rel) = tree.get? (r.src ++ rel)) :
    r.Lists tree now rel [] where
  names := by rw [SourceRules.names, h, List.append_nil, SourceRules.names]
  folders name hname := absurd hname List.not_mem_nil
  kept name _ := by
    unfold Entry.FolderAt
    rw [Entry.get?_append now (r.src ++ rel), h, ← Entry.get?_append]

/-- The entries of a folder on the way to the outputs, before there are any. -/
theorem entries_of_admits {name : String} {rest : Location}
    (way : tree.Admits (r.src ++ rel ++ name :: rest)) :
    ∃ es, (tree.get? (r.src ++ rel)).getD (.folder []) = .folder es ∧
      r.names tree rel = es.map Prod.fst ∧
      ∀ n, tree.get? (r.src ++ rel ++ [n]) = es.lookup n := by
  have hway := ((Entry.admits_append _ _ _).mp way).2
  cases h : tree.get? (r.src ++ rel) with
  | none =>
    refine ⟨[], rfl, names_of_none h, ?_⟩
    intro n
    rw [Entry.get?_append tree (r.src ++ rel), h]
    rfl
  | some e =>
    cases e with
    | file bytes => exact (hway _ h).elim
    | link target => exact (hway _ h).elim
    | folder es => exact ⟨es, rfl, by rw [names, h], Entry.get?_snoc h⟩

/-- A folder in which one entry is set, which is a folder now and was one if it was there. Its name
is new, or nothing about the listing has changed. -/
theorem lists_of_setNamed {es inside : List (String × Entry)} {name : String}
    (hnames : r.names tree rel = es.map Prod.fst)
    (hlookup : ∀ n, tree.get? (r.src ++ rel ++ [n]) = es.lookup n)
    (hnow : now.get? (r.src ++ rel) = some (.folder (Entry.setNamed es name (.folder inside))))
    (hold : ∀ e, es.lookup name = some e → ∃ es, e = .folder es)
    (hout : r.src ++ rel ++ [name] <+: r.out) : ∃ new, r.Lists tree now rel new := by
  have hget : ∀ n, now.get? (r.src ++ rel ++ [n]) =
      if n = name then some (.folder inside) else es.lookup n := fun n =>
    (Entry.get?_snoc hnow n).trans (Entry.lookup_setNamed es name (.folder inside) n)
  have hself : now.FolderAt (r.src ++ rel ++ [name]) := ⟨inside, (hget name).trans (if_pos rfl)⟩
  have hother : ∀ n, n ≠ name →
      (now.FolderAt (r.src ++ rel ++ [n]) ↔ tree.FolderAt (r.src ++ rel ++ [n])) := by
    intro n hn
    unfold Entry.FolderAt
    rw [hget, if_neg hn, hlookup]
  have hlist : r.names now rel =
      if (es.lookup name).isSome then es.map Prod.fst else es.map Prod.fst ++ [name] := by
    rw [names, hnow]
    exact Entry.map_fst_setNamed es name _
  -- a name that was there is replaced where it stands, and a new one comes last
  cases hname : es.lookup name with
  | some e =>
    rw [hname, if_pos Option.isSome_some] at hlist
    refine ⟨[], ?_, fun n hn => absurd hn List.not_mem_nil, ?_⟩
    · rw [hlist, hnames, List.append_nil]
    · intro n _
      by_cases hn : n = name
      · subst hn
        obtain ⟨es', rfl⟩ := hold e hname
        exact ⟨fun _ => ⟨es', (hlookup n).trans hname⟩, fun _ => hself⟩
      · exact hother n hn
  | none =>
    have hnew : ¬ (es.lookup name).isSome = true := by
      rw [hname]
      exact Bool.false_ne_true
    rw [if_neg hnew] at hlist
    refine ⟨[name], ?_, ?_, ?_⟩
    · rw [hlist, hnames]
    · intro n hn
      rw [List.mem_singleton] at hn
      subst hn
      refine ⟨hout, ?_, hself⟩
      rw [mem_names, hlookup]
      exact hnew
    · intro n hn
      exact hother n (fun h => hn (List.mem_singleton.mpr h))

/-- A folder on the way to the outputs lists what it did and the next folder on the way, if that was
not there. -/
theorem lists_of_way {name : String} {rest : Location} (hout : r.out = r.src ++ rel ++ name :: rest)
    (way : tree.Admits r.out) (fresh : tree.get? r.out = none) (inside : List (String × Entry)) :
    ∃ new, r.Lists tree (tree.put r.out (.folder inside)) rel new := by
  have hprefix : r.src ++ rel ++ [name] <+: r.out := by
    rw [hout, List.append_cons (r.src ++ rel) name rest]
    exact List.prefix_append _ _
  rw [hout] at way fresh ⊢
  obtain ⟨es, hes, hnames, hlookup⟩ := entries_of_admits way
  have hnow := Entry.get?_put_append way (.folder inside)
  rw [hes, Entry.put] at hnow
  -- the next folder on the way is one now, and was one if it was there
  rw [List.append_cons] at way fresh
  obtain ⟨es', hnext⟩ := Entry.Grown.folderAt_put way fresh inside
  rw [← List.append_cons, Entry.get?_snoc hnow, Entry.lookup_setNamed, if_pos rfl] at hnext
  rw [Option.some.inj hnext] at hnow
  refine lists_of_setNamed hnames hlookup hnow ?_ hprefix
  intro e he
  exact Entry.folder_of_admits way fresh ((hlookup name).trans he)

/-- **Every folder that a walk can reach lists what it did**, and perhaps one more folder. By how
the folder lies to the output folder it is apart from it or on the way. -/
theorem exists_lists (grown : tree.Grown r.out now) (fresh : tree.get? r.out = none)
    (hrel : ¬ r.out <+: r.src ++ rel) : ∃ new, r.Lists tree now rel new := by
  cases grown with
  | start => exact ⟨[], .of_eq rfl⟩
  | @outputs inside way _ =>
    by_cases hway : r.src ++ rel <+: r.out
    · obtain ⟨rest, hout⟩ := hway
      cases rest with
      | nil =>
        rw [List.append_nil] at hout
        exact absurd (hout ▸ List.prefix_rfl) hrel
      | cons name rest => exact lists_of_way hout.symm way fresh inside
    · exact ⟨[], .of_eq (Entry.get?_put_of_apart hrel hway _ _)⟩

/-- Where a walk can get: outside the output folder, and not deeper than the folders of the first
tree or those on the way to the outputs lie. -/
structure Reach (r : SourceRules) (tree : Entry) (rel : Location) : Prop where
  outside : ¬ r.out <+: r.src ++ rel
  down : (r.src ++ rel).Descends
  near : rel.length ≤ r.out.length + tree.height

theorem isLink_of_linkFree (linkFree : tree.LinkFree) (r : SourceRules) (rel : Location) :
    r.isLink tree rel = false := by
  unfold isLink
  cases h : tree.get? (r.src ++ rel) with
  | none => rfl
  | some e =>
    cases e with
    | file bytes => rfl
    | folder es => rfl
    | link target => exact absurd h (linkFree _ target)

/-- Without links a path leads to a folder when one is there. -/
theorem leadsToFolder_iff (linkFree : tree.LinkFree) (hrel : (r.src ++ rel).Descends) :
    r.leadsToFolder tree rel = true ↔ tree.FolderAt (r.src ++ rel) :=
  linkFree.hasFolder_ofLocation hrel

/-- Without links a folder is the output folder when its location is. -/
theorem takesFolder_eq (linkFree : tree.LinkFree) (hrel : (r.src ++ rel).Descends) :
    r.takesFolder tree rel = (r.src ++ rel != r.out && !r.excluded (rel.relativeText ++ "/")) := by
  rw [takesFolder, linkFree.resolve_ofLocation hrel]

/-- Locations that a plain tree holds have possible names only. -/
theorem descends_of_mem_names (plain : tree.isPlain = true) {name : String}
    (hname : name ∈ r.names tree rel) : (r.src ++ (rel ++ [name])).Descends := by
  obtain ⟨e, he⟩ := Option.isSome_iff_exists.mp (mem_names.mp hname)
  rw [List.append_assoc] at he
  rintro part hpart rfl
  cases (Entry.plain_of_get? plain he).1 ".." hpart

namespace Lists

variable {new : List String}

theorem not_mem_new (lists : r.Lists tree now rel new) {name : String}
    (hname : name ∈ r.names tree rel) : name ∉ new :=
  fun hnew => (lists.folders name hnew).2.1 hname

/-- A name is one of the first tree, or it is on the way to the outputs. -/
theorem near (lists : r.Lists tree now rel new) {name : String} (hname : name ∈ r.names now rel) :
    (rel ++ [name]).length ≤ r.out.length + tree.height := by
  have hshort : (r.src ++ rel ++ [name]).length ≤ r.out.length + tree.height := by
    rw [lists.names, List.mem_append] at hname
    rcases hname with hold | hnew
    · obtain ⟨e, he⟩ := Option.isSome_iff_exists.mp (mem_names.mp hold)
      exact Nat.le_trans (Entry.length_le_height he) (Nat.le_add_left _ _)
    · exact Nat.le_trans (lists.folders name hnew).1.length_le (Nat.le_add_right _ _)
  rw [List.append_assoc, List.length_append] at hshort
  exact Nat.le_trans (Nat.le_add_left _ _) hshort

/-- Every name in a reachable folder leads down, those on the way to the outputs included. -/
theorem descends (lists : r.Lists tree now rel new) (plain : tree.isPlain = true)
    (hout : r.out.Descends) (hrel : r.Reach tree rel) {name : String}
    (hname : name ∈ r.names now rel) :
    (r.src ++ (rel ++ [name])).Descends := by
  rw [lists.names, List.mem_append] at hname
  rcases hname with hold | hnew
  · exact descends_of_mem_names plain hold
  · intro part hpart
    rw [← List.append_assoc, List.mem_append, List.mem_singleton] at hpart
    rcases hpart with hpart | rfl
    · exact hrel.down part hpart
    · exact hout part ((lists.folders part hnew).1.subset (by simp))

variable (lists : r.Lists tree now rel new) (plain : tree.isPlain = true) (links : now.LinkFree)
include lists plain links

/-- A name that was there leads to a folder when it did. -/
theorem leadsToFolder_of_mem {name : String} (hname : name ∈ r.names tree rel) :
    r.leadsToFolder now (rel ++ [name]) = r.leadsToFolder tree (rel ++ [name]) := by
  have hdown := descends_of_mem_names plain hname
  rw [Bool.eq_iff_iff, leadsToFolder_iff links hdown,
    leadsToFolder_iff (Entry.linkFree_of_isPlain plain) hdown, ← List.append_assoc]
  exact lists.kept name (lists.not_mem_new hname)

variable (hout : r.out.Descends) (hrel : r.Reach tree rel)
include hout hrel

theorem leadsToFolder_of_new {name : String} (hname : name ∈ new) :
    r.leadsToFolder now (rel ++ [name]) = true := by
  have hmem : name ∈ r.names now rel := by
    rw [lists.names]
    exact List.mem_append_right _ hname
  rw [leadsToFolder_iff links (lists.descends plain hout hrel hmem), ← List.append_assoc]
  exact (lists.folders name hname).2.2

theorem filter_files :
    (r.names now rel).filter (fun n => !r.leadsToFolder now (rel ++ [n])) =
      (r.names tree rel).filter fun n => !r.leadsToFolder tree (rel ++ [n]) := by
  have hnew : new.filter (fun n => !r.leadsToFolder now (rel ++ [n])) = [] := by
    refine List.filter_eq_nil_iff.mpr ?_
    intro name hname
    rw [lists.leadsToFolder_of_new plain links hout hrel hname]
    exact Bool.false_ne_true
  rw [lists.names, List.filter_append, hnew, List.append_nil]
  refine List.filter_congr ?_
  intro name hname
  rw [lists.leadsToFolder_of_mem plain links hname]

theorem filter_folders :
    (r.names now rel).filter (fun n => r.leadsToFolder now (rel ++ [n])) =
      (r.names tree rel).filter (fun n => r.leadsToFolder tree (rel ++ [n])) ++ new := by
  have hnew : new.filter (fun n => r.leadsToFolder now (rel ++ [n])) = new := by
    refine List.filter_eq_self.mpr ?_
    intro name hname
    exact lists.leadsToFolder_of_new plain links hout hrel hname
  rw [lists.names, List.filter_append, hnew]
  congr 1
  refine List.filter_congr ?_
  intro name hname
  rw [lists.leadsToFolder_of_mem plain links hname]

omit plain links hout hrel in
/-- The new names do not lead anywhere in the first tree, the others do. -/
theorem filter_holds (p : String → Bool) :
    ((r.names tree rel).filter p ++ new).filter (fun n => r.holds tree (rel ++ [n])) =
      (r.names tree rel).filter p := by
  have hholds : ∀ name, r.holds tree (rel ++ [name]) = true ↔ name ∈ r.names tree rel := by
    intro name
    rw [mem_names, holds, List.append_assoc]
  have hnone : new.filter (fun n => r.holds tree (rel ++ [n])) = [] := by
    refine List.filter_eq_nil_iff.mpr ?_
    intro name hname
    rw [hholds]
    exact (lists.folders name hname).2.1
  rw [List.filter_append, hnone, List.append_nil]
  refine List.filter_eq_self.mpr ?_
  intro name hname
  rw [hholds]
  exact (List.mem_filter.mp hname).1

/-- The walk takes the same files: no name on the way to the outputs is a file, and no other name is
new. -/
theorem filesIn_eq : r.filesIn now rel = r.filesIn tree rel := by
  rw [filesIn, lists.filter_files plain links hout hrel, filesIn]

/-- The walk takes the same folders, apart from those that were not there. -/
theorem foldersIn_eq : (r.foldersIn now rel).filter (r.holds tree) = r.foldersIn tree rel := by
  have hswap : ∀ rels : List Location, (rels.filter (r.takesFolder now)).filter (r.holds tree) =
      (rels.filter (r.holds tree)).filter (r.takesFolder now) := by
    intro rels
    simp only [List.filter_filter, Bool.and_comm]
  have hsorted := Text.filter_sorted (fun n => r.holds tree (rel ++ [n]))
    ((r.names tree rel).filter (fun n => r.leadsToFolder tree (rel ++ [n])) ++ new)
  rw [lists.filter_holds] at hsorted
  rw [foldersIn, lists.filter_folders plain links hout hrel, hswap, List.filter_map, foldersIn]
  show List.filter _ (List.map _ (List.filter (fun n => r.holds tree (rel ++ [n])) _)) = _
  rw [hsorted]
  refine List.filter_congr ?_
  intro folder hfolder
  obtain ⟨name, hname, rfl⟩ := List.mem_map.mp hfolder
  have hdown := descends_of_mem_names plain
    (List.mem_filter.mp ((Text.sorted_perm _).mem_iff.mp hname)).1
  rw [takesFolder_eq links hdown, takesFolder_eq (Entry.linkFree_of_isPlain plain) hdown]

/-- A folder that the walk takes can be reached: it is not the output folder and lies near
enough. -/
theorem reach_of_mem {folder : Location} (hfolder : folder ∈ r.foldersIn now rel) :
    r.Reach tree folder := by
  obtain ⟨name, hname, rfl, -, htakes⟩ := mem_foldersIn.mp hfolder
  have hdown := lists.descends plain hout hrel hname
  refine ⟨?_, hdown, lists.near hname⟩
  rw [takesFolder_eq links hdown, Bool.and_eq_true, bne_iff_ne] at htakes
  rw [← List.append_assoc] at htakes ⊢
  rw [List.prefix_concat_iff]
  rintro (heq | hbelow)
  · exact htakes.1 heq.symm
  · exact hrel.outside hbelow

end Lists

/-- **A walk does not see the outputs.** In every folder that it can reach it takes the files that
it took in the first tree, and folders beyond those of the first tree lie on the way to the
outputs. -/
theorem shows_of_grown (plain : tree.isPlain = true) (hout : r.out.Descends)
    (fresh : tree.get? r.out = none) (grown : tree.Grown r.out now) :
    r.Shows (r.Reach tree) tree now := by
  have hlinks := Entry.linkFree_of_isPlain plain
  have links := grown.linkFree hlinks
  have lists := fun rel (hrel : r.Reach tree rel) => exists_lists grown fresh hrel.outside
  refine ⟨?_, ?_, ?_, ?_⟩
  · intro rel hrel
    obtain ⟨new, lists⟩ := lists rel hrel
    exact lists.filesIn_eq plain links hout hrel
  · intro rel hrel
    obtain ⟨new, lists⟩ := lists rel hrel
    exact lists.foldersIn_eq plain links hout hrel
  · intro rel
    rw [isLink_of_linkFree links, isLink_of_linkFree hlinks]
  · intro rel hrel folder hfolder
    obtain ⟨new, lists⟩ := lists rel hrel
    exact lists.reach_of_mem plain links hout hrel hfolder

end SourceRules

end Wxml
