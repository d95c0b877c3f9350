import Mathlib.Data.List.Nodup
import Wxml.Proofs.PlainTrees

/-!
# Trees with links

A tree as a disk holds it (`isFileTree`): the names in a folder are possible and differ from one
another, and links may lead anywhere.

- Folders that are no links can be gone down before a path is followed (`find_below_append`,
  `resolve_below_append`).
- `named?` is the entry that a path names. Links on the way are followed, the entry itself may be a
  link. Where no link is on the way, it is the entry at the location (`named?_of_get?`,
  `get?_of_named?`).
- A tree whose folders list their entries in another order (`Relisted`) has the same things at the
  same places (`Relisted.sameShape`), so paths lead to the same places in both
  (`SameShape.hasFolder_eq`, `SameShape.resolve_eq`).

**Not established**: where a path leads that goes through more than `linkLimit` links. Such a path
is an error where it is followed, and `Entry.resolve` takes the parts behind as they are.
-/

namespace Wxml

/-- The path to a location below the place where one stands. -/
def Path.below (l : Location) : Path := ⟨"", l⟩

namespace Entry

variable {tree other e : Entry} {here l : Location}

/-! ## File trees -/

mutual

/-- Whether a disk can hold a tree: every name is possible, and none stands twice in a folder. -/
def isFileTree : Entry → Bool
  | file _ => true
  | link _ => true
  | folder es => areFileTrees es

/-- Whether a disk can hold a folder with some entries. -/
def areFileTrees : List (String × Entry) → Bool
  | [] => true
  | (name, e) :: es =>
    isFileName name && (es.lookup name).isNone && e.isFileTree && areFileTrees es

end

/-- What the test says about a folder: no name twice, all names possible, and the same for what is
in it. -/
theorem areFileTrees_iff {es : List (String × Entry)} :
    areFileTrees es = true ↔ (es.map Prod.fst).Nodup ∧
      ∀ name e, es.lookup name = some e → isFileName name = true ∧ e.isFileTree = true := by
  induction es with
  | nil =>
    refine iff_of_true rfl ⟨.nil, ?_⟩
    intro name e h
    cases h
  | cons entry es ih =>
    obtain ⟨first, old⟩ := entry
    have hfresh : (es.lookup first).isNone = true ↔ first ∉ es.map Prod.fst := by
      rw [mem_names_iff, Option.not_isSome_iff_eq_none, Option.isNone_iff_eq_none]
    rw [areFileTrees, Bool.and_eq_true, Bool.and_eq_true, Bool.and_eq_true, ih, hfresh,
      List.map_cons, List.nodup_cons]
    constructor
    · rintro ⟨⟨⟨hname, hfirst⟩, hold⟩, hnodup, hrest⟩
      refine ⟨⟨hfirst, hnodup⟩, ?_⟩
      intro name e h
      by_cases heq : name = first
      · subst heq
        rw [List.lookup_cons_self] at h
        cases h
        exact ⟨hname, hold⟩
      · rw [lookup_cons_of_ne _ _ _ heq] at h
        exact hrest name e h
    · rintro ⟨⟨hfirst, hnodup⟩, hall⟩
      obtain ⟨hname, hold⟩ := hall first old List.lookup_cons_self
      refine ⟨⟨⟨hname, hfirst⟩, hold⟩, hnodup, ?_⟩
      intro name e h
      refine hall name e ?_
      rw [lookup_cons_of_ne]
      · exact h
      · rintro rfl
        refine hfirst ((mem_names_iff es name).mpr ?_)
        rw [h]
        rfl

/-- What is found in a tree that a disk can hold is such a tree, under possible names. -/
theorem fileTree_of_get? (fileTree : tree.isFileTree = true) (h : tree.get? l = some e) :
    (∀ name ∈ l, isFileName name = true) ∧ e.isFileTree = true := by
  refine inherited_of_get? (P := fun e => e.isFileTree = true) ?_ fileTree h
  intro es name e' hes he'
  rw [isFileTree] at hes
  exact (areFileTrees_iff.mp hes).2 name e' he'

/-- In particular no name on the way to it leads up. -/
theorem descends_of_get? (fileTree : tree.isFileTree = true) (h : tree.get? l = some e) :
    l.Descends := by
  rintro name hname rfl
  cases (fileTree_of_get? fileTree h).1 ".." hname

/-- What has something below it is a folder, at every location on the way. -/
theorem folder_above {m : Location} (hm : m ≠ []) (h : tree.get? (l ++ m) = some e) :
    ∃ es, tree.get? l = some (folder es) := by
  obtain ⟨name, m, rfl⟩ := List.exists_cons_of_ne_nil hm
  exact folder_of_get?_append h

/-! ## Folders on the way -/

theorem find_below (tree : Entry) (here l : Location) :
    tree.find here (.below l) = tree.follow linkLimit here l := rfl

section Below

variable (down : l.Descends) (h : tree.get? (here ++ l) = some e) (he : e.isLink = false)
include down h he

/-- Folders that are no links are passed without following anything. -/
theorem untilLink_append (rest : List String) :
    tree.untilLink here (l ++ rest) = tree.untilLink (here ++ l) rest := by
  induction l generalizing here with
  | nil => rw [List.append_nil, List.nil_append]
  | cons part parts ih =>
    rw [List.append_cons] at h ⊢
    obtain ⟨e', hpart, hparts⟩ := get?_of_get?_append h
    obtain ⟨hdown, hdowns⟩ := Location.descends_cons.mp down
    have hrest := ih hdowns h
    have hlink := isLink_of_get? hparts he
    rw [List.cons_append, untilLink, if_neg hdown, hpart]
    cases e' with
    | file bytes => exact hrest
    | folder es => exact hrest
    | link target => cases hlink

/-- A path through folders that are no links is the path from behind them. The number of links that
may still be followed does not change on the way. -/
theorem find_below_append (m : Location) :
    tree.find here (.below (l ++ m)) = tree.find (here ++ l) (.below m) := by
  rw [find_below, find_below]
  unfold follow
  rw [descend_append here down h he m]

theorem entry?_below_append (m : Location) :
    tree.entry? here (.below (l ++ m)) = tree.entry? (here ++ l) (.below m) := by
  unfold entry?
  rw [find_below_append down h he m]

theorem resolve_below_append (m : Location) :
    tree.resolve here (.below (l ++ m)) = tree.resolve (here ++ l) (.below m) := by
  show tree.resolveParts linkLimit here (l ++ m) = tree.resolveParts linkLimit (here ++ l) m
  unfold resolveParts
  rw [untilLink_append down h he m]

end Below

theorem entry?_below_nil (tree : Entry) (here : Location) :
    tree.entry? here (.below []) = tree.get? here := by
  unfold entry?
  rw [find_below, follow, descend]
  cases tree.get? here <;> rfl

/-- A path to something that is no link, down through folders, leads to it. -/
theorem entry?_below_of_get? (down : l.Descends) (h : tree.get? (here ++ l) = some e)
    (he : e.isLink = false) : tree.entry? here (.below l) = some e := by
  have hend := entry?_below_append down h he []
  rwa [List.append_nil, entry?_below_nil, h] at hend

/-- A path that leads somewhere starts with something that is there. It may be a link. -/
theorem get?_of_entry?_cons {name : String} (hname : name ≠ "..")
    (h : tree.entry? here (.below (name :: l)) = some e) :
    ∃ e', tree.get? (here ++ [name]) = some e' := by
  cases hfirst : tree.get? (here ++ [name]) with
  | some e' => exact ⟨e', rfl⟩
  | none =>
    have hnone : tree.entry? here (.below (name :: l)) = none := by
      unfold entry?
      rw [find_below, follow, descend]
      cases hhere : tree.get? here with
      | none => rfl
      | some there =>
        cases there with
        | file bytes => rfl
        | link target => rfl
        | folder es =>
          dsimp only
          rw [if_neg hname, hfirst]
          by_cases hlast : l = []
          · rw [if_pos hlast]
          · rw [if_neg hlast]
    rw [hnone] at h
    cases h

/-- A path that leads to a folder without going through a link leads to the location. -/
theorem get?_of_entry? {es : List (String × Entry)} (down : l.Descends)
    (noLink : ∀ d rest, l = d ++ rest → d ≠ [] → ∀ target,
      tree.get? (here ++ d) ≠ some (link target))
    (h : tree.entry? here (.below l) = some (folder es)) :
    tree.get? (here ++ l) = some (folder es) := by
  induction l generalizing here with
  | nil => rwa [entry?_below_nil, ← List.append_nil here] at h
  | cons name rest ih =>
    obtain ⟨hname, hrest⟩ := Location.descends_cons.mp down
    have hone : Location.Descends [name] := fun n hn => List.mem_singleton.mp hn ▸ hname
    obtain ⟨e', he'⟩ := get?_of_entry?_cons hname h
    have hlink : e'.isLink = false := by
      cases e' with
      | file bytes => rfl
      | folder es => rfl
      | link target => exact absurd he' (noLink [name] rest rfl (List.cons_ne_nil _ _) target)
    rw [List.append_cons]
    refine ih hrest ?_ ?_
    · intro d rest' heq _ target
      rw [List.append_assoc]
      exact noLink (name :: d) rest' (congrArg (name :: ·) heq) (List.cons_ne_nil _ _) target
    · rw [← h]
      exact (entry?_below_append hone he' hlink rest).symm

/-! ## Named entries -/

/-- The entry that a path names. Links on the way are followed, one at the end is not. -/
def named? (tree : Entry) (here l : Location) : Option Entry :=
  match tree.entry? here (.below l.dropLast) with
  | some (folder es) => es.lookup (l.getLastD "")
  | _ => none

/-- Whether a path goes down to something from a location, through folders and links to folders. -/
def Reaches (tree : Entry) (here l : Location) : Prop :=
  l ≠ [] ∧ l.Descends ∧ (tree.named? here l).isSome

/-- What a path names is an entry of the folder that the path without its last part leads to. -/
theorem named?_eq_some_iff {name : String} :
    tree.named? here (l ++ [name]) = some e ↔
      ∃ es, tree.entry? here (.below l) = some (folder es) ∧ es.lookup name = some e := by
  rw [named?, List.dropLast_concat, List.getLastD_concat]
  cases tree.entry? here (.below l) with
  | none => simp
  | some there => cases there <;> simp

/-- What is at a location is named by the path to it. The entry itself may be a link. -/
theorem named?_of_get? (down : l.Descends) (hne : l ≠ []) (h : tree.get? (here ++ l) = some e) :
    tree.named? here l = some e := by
  obtain ⟨way, name, rfl⟩ : ∃ way name, l = way ++ [name] :=
    ⟨_, _, (List.dropLast_concat_getLast hne).symm⟩
  rw [← List.append_assoc] at h
  obtain ⟨es, hway⟩ := folder_of_get?_append h
  rw [get?_snoc hway] at h
  have hdown := (Location.descends_append.mp down).1
  exact named?_eq_some_iff.mpr ⟨es, entry?_below_of_get? hdown hway rfl, h⟩

/-- Conversely, what is named without a link on the way is at the location. This is where a search,
which enters no links, and a description by paths meet. -/
theorem get?_of_named? (down : l.Descends) (hne : l ≠ [])
    (noLink : ∀ d rest, l = d ++ rest → d ≠ [] → rest ≠ [] → ∀ target,
      tree.named? here d ≠ some (link target))
    (h : tree.named? here l = some e) : tree.get? (here ++ l) = some e := by
  obtain ⟨way, name, rfl⟩ : ∃ way name, l = way ++ [name] :=
    ⟨_, _, (List.dropLast_concat_getLast hne).symm⟩
  have hdown := (Location.descends_append.mp down).1
  obtain ⟨es, hway, hname⟩ := named?_eq_some_iff.mp h
  have hfolder : tree.get? (here ++ way) = some (folder es) := by
    refine get?_of_entry? hdown ?_ hway
    rintro d rest rfl hd target hlink
    refine noLink d (rest ++ [name]) (List.append_assoc _ _ _) hd ?_ target
      (named?_of_get? (Location.descends_append.mp hdown).1 hd hlink)
    exact List.append_ne_nil_of_right_ne_nil _ (List.cons_ne_nil _ _)
  rw [← List.append_assoc, get?_snoc hfolder, hname]

/-! ## Listings in another order -/

/-- **The same tree, listed in another order:** the folders have the same names, each for the same
thing, in any order. -/
inductive Relisted : Entry → Entry → Prop
  | file (bytes : List UInt8) : Relisted (file bytes) (file bytes)
  | link (target : String) : Relisted (link target) (link target)
  | folder {es es' : List (String × Entry)} (names : (es.map Prod.fst).Perm (es'.map Prod.fst))
      (entries : ∀ name e e', es.lookup name = some e → es'.lookup name = some e' →
        Relisted e e') : Relisted (folder es) (folder es')

/-- Folders with the same names hold something under the same names. -/
theorem isSome_lookup_of_perm {es es' : List (String × Entry)}
    (names : (es.map Prod.fst).Perm (es'.map Prod.fst)) (name : String) :
    (es.lookup name).isSome ↔ (es'.lookup name).isSome := by
  rw [← mem_names_iff, ← mem_names_iff]
  exact names.mem_iff

/-- A disk that can hold a tree can hold it in any order. -/
theorem Relisted.isFileTree (h : tree.Relisted other) (fileTree : tree.isFileTree = true) :
    other.isFileTree = true := by
  induction h with
  | file bytes => rfl
  | link target => rfl
  | @folder es es' names entries ih =>
    rw [Entry.isFileTree, areFileTrees_iff] at fileTree ⊢
    refine ⟨names.nodup_iff.mp fileTree.1, ?_⟩
    intro name e' he'
    have hsome := (isSome_lookup_of_perm names name).mpr (Option.isSome_of_mem he')
    obtain ⟨e, he⟩ := Option.isSome_iff_exists.mp hsome
    obtain ⟨hname, hentry⟩ := fileTree.2 name e he
    exact ⟨hname, ih name e e' he he' hentry⟩

mutual

theorem Relisted.refl : (e : Entry) → e.Relisted e
  | .file bytes => .file bytes
  | .link target => .link target
  | .folder es => .folder (.refl _) fun name e e' h h' => by
    cases h.symm.trans h'
    exact relisted_of_lookup es name e h

theorem relisted_of_lookup : (es : List (String × Entry)) → (name : String) → (e : Entry) →
    es.lookup name = some e → e.Relisted e
  | [], _, _, h => by cases h
  | (first, old) :: es, name, e, h => by
    by_cases heq : name = first
    · rw [heq, List.lookup_cons_self] at h
      cases h
      exact Relisted.refl old
    · rw [lookup_cons_of_ne _ _ _ heq] at h
      exact relisted_of_lookup es name e h

end

theorem mem_of_lookup {es : List (String × Entry)} {name : String}
    (h : es.lookup name = some e) : (name, e) ∈ es := by
  obtain ⟨before, after, rfl, -⟩ := List.lookup_eq_some_iff.mp h
  exact List.mem_append_right _ List.mem_cons_self

/-- The entries of one folder can be put in any order, if no name comes twice. The first of two
entries with one name would be another one. -/
theorem relisted_of_perm {es es' : List (String × Entry)} (nodup : (es.map Prod.fst).Nodup)
    (perm : es.Perm es') : (folder es).Relisted (folder es') := by
  refine .folder (perm.map Prod.fst) ?_
  intro name e e' he he'
  have hmem : (name, e) ∈ es := mem_of_lookup he
  have hmem' : (name, e') ∈ es := perm.mem_iff.mpr (mem_of_lookup he')
  obtain rfl : e = e' := congrArg Prod.snd (List.inj_on_of_nodup_map nodup hmem hmem' rfl)
  exact Relisted.refl e

/-- An entry without what is in it. -/
def shell : Entry → Entry
  | folder _ => folder []
  | file bytes => file bytes
  | link target => link target

/-- The end of a path without what is in it. -/
def Place.shell : Place → Place
  | .found l e => .found l e.shell
  | .vacant l => .vacant l

/-- The end of a path without what is in it, or a link on the way. -/
def Stop.shell : Stop → Stop
  | .ends place => .ends place.shell
  | .link here target rest => .link here target rest

/-- Two trees with the same files, folders and links at the same places. -/
def SameShape (tree other : Entry) : Prop :=
  ∀ l, (tree.get? l).map shell = (other.get? l).map shell

/-- The same tree in another order has the same things at the same places. The induction is on how
one is listed like the other. -/
theorem Relisted.sameShape (h : tree.Relisted other) : tree.SameShape other := by
  intro l
  induction l generalizing tree other with
  | nil => cases h <;> rfl
  | cons name rest ih =>
    cases h with
    | file bytes => rfl
    | link target => rfl
    | @folder es es' names entries =>
      have hsome := isSome_lookup_of_perm names name
      rw [get?, get?]
      cases he : es.lookup name with
      | none =>
        rw [he] at hsome
        rw [Option.not_isSome_iff_eq_none.mp fun h => Bool.false_ne_true (hsome.mpr h)]
      | some e =>
        rw [he] at hsome
        obtain ⟨e', he'⟩ := Option.isSome_iff_exists.mp (hsome.mp rfl)
        rw [he']
        exact ih (entries name e e' he he')

theorem SameShape.symm (same : tree.SameShape other) : other.SameShape tree :=
  fun l => (same l).symm

/-- Whether a path leads to a folder can be seen without looking into the folder. -/
theorem hasFolder_iff {p : Path} : tree.hasFolder here p = true ↔
    ∃ l, (tree.find here p).map Place.shell = .ok (.found l (folder [])) := by
  unfold hasFolder entry?
  cases tree.find here p with
  | error e => simp [Except.map]
  | ok place =>
    cases place with
    | vacant l => simp [Except.map, Place.shell]
    | found l e => cases e <;> simp [Except.map, Place.shell, shell]

namespace SameShape

variable (same : tree.SameShape other)
include same

theorem isSome_get? (l : Location) : (tree.get? l).isSome = (other.get? l).isSome := by
  rw [← Option.isSome_map, same l, Option.isSome_map]

/-- At every place there is nothing in both trees, the same file or link, or a folder. -/
theorem get?_cases (l : Location) :
    (tree.get? l = none ∧ other.get? l = none) ∨
    (∃ bytes, tree.get? l = some (file bytes) ∧ other.get? l = some (file bytes)) ∨
    (∃ target, tree.get? l = some (link target) ∧ other.get? l = some (link target)) ∨
    ∃ es es', tree.get? l = some (folder es) ∧ other.get? l = some (folder es') := by
  have hshell := same l
  cases h : tree.get? l with
  | none =>
    rw [h] at hshell
    exact .inl ⟨rfl, Option.map_eq_none_iff.mp hshell.symm⟩
  | some e =>
    rw [h] at hshell
    obtain ⟨e', he', hshell⟩ := Option.map_eq_some_iff.mp hshell.symm
    rw [he']
    cases e <;> cases e' <;> simp_all [shell]

/-- A path comes to the same link, or to none. -/
theorem untilLink_eq (here : Location) (parts : List String) :
    tree.untilLink here parts = other.untilLink here parts := by
  induction parts generalizing here with
  | nil => rfl
  | cons part rest ih =>
    rw [untilLink, untilLink, ih, ih]
    rcases same.get?_cases (here ++ [part]) with
      ⟨h, h'⟩ | ⟨bytes, h, h'⟩ | ⟨target, h, h'⟩ | ⟨es, es', h, h'⟩ <;> rw [h, h']

/-- A path with links on the way stands for the same location: the links are the same, and so are
their targets. The induction is on the number of links that may be followed. -/
theorem resolveParts_eq (links : Nat) (here : Location) (parts : List String) :
    tree.resolveParts links here parts = other.resolveParts links here parts := by
  induction links generalizing here parts with
  | zero =>
    unfold resolveParts
    rw [same.untilLink_eq]
  | succ links ih =>
    unfold resolveParts
    rw [same.untilLink_eq]
    obtain ⟨place, rest⟩ := other.untilLink here parts
    cases rest with
    | nil => rfl
    | cons part rest =>
      dsimp only
      rcases same.get?_cases (place ++ [part]) with
        ⟨h, h'⟩ | ⟨bytes, h, h'⟩ | ⟨target, h, h'⟩ | ⟨es, es', h, h'⟩ <;> rw [h, h']
      exact ih _ _

/-- **A path stands for the same location** in both trees. -/
theorem resolve_eq (here : Location) (p : Path) : tree.resolve here p = other.resolve here p :=
  same.resolveParts_eq linkLimit _ _

/-- Going down without following links ends in the same way in both trees. -/
theorem map_shell_descend (here : Location) (parts : List String) :
    (tree.descend here parts).map Stop.shell = (other.descend here parts).map Stop.shell := by
  induction parts generalizing here with
  | nil =>
    rw [descend, descend]
    rcases same.get?_cases here with
      ⟨h, h'⟩ | ⟨bytes, h, h'⟩ | ⟨target, h, h'⟩ | ⟨es, es', h, h'⟩ <;> rw [h, h']
    rfl
  | cons part rest ih =>
    rw [descend, descend]
    rcases same.get?_cases here with
      ⟨h, h'⟩ | ⟨bytes, h, h'⟩ | ⟨target, h, h'⟩ | ⟨es, es', h, h'⟩ <;> rw [h, h']
    dsimp only
    by_cases hpart : part = ".."
    · rw [if_pos hpart, if_pos hpart]
      exact ih _
    · rw [if_neg hpart, if_neg hpart]
      rcases same.get?_cases (here ++ [part]) with
        ⟨h, h'⟩ | ⟨bytes, h, h'⟩ | ⟨target, h, h'⟩ | ⟨es, es', h, h'⟩ <;> rw [h, h']
      · exact ih _
      · exact ih _

/-- A path fails in both trees, ends at the same place, or comes to the same link. -/
theorem descend_cases (here : Location) (parts : List String) :
    (∃ e, tree.descend here parts = .error e ∧ other.descend here parts = .error e) ∨
    (∃ place place', tree.descend here parts = .ok (.ends place) ∧
      other.descend here parts = .ok (.ends place') ∧ place.shell = place'.shell) ∨
    ∃ stop target rest, tree.descend here parts = .ok (.link stop target rest) ∧
      other.descend here parts = .ok (.link stop target rest) := by
  have hshell := same.map_shell_descend here parts
  cases h : tree.descend here parts with
  | error e =>
    cases h' : other.descend here parts with
    | error e' =>
      rw [h, h'] at hshell
      exact .inl ⟨e, rfl, hshell.symm⟩
    | ok stop' =>
      rw [h, h'] at hshell
      cases hshell
  | ok stop =>
    cases h' : other.descend here parts with
    | error e' =>
      rw [h, h'] at hshell
      cases hshell
    | ok stop' =>
      rw [h, h'] at hshell
      have hstop : stop.shell = stop'.shell := Except.ok.inj hshell
      cases stop with
      | ends place =>
        cases stop' with
        | ends place' => exact .inr (.inl ⟨place, place', rfl, rfl, Stop.ends.inj hstop⟩)
        | link here' target rest => cases hstop
      | link here' target rest =>
        cases stop' with
        | ends place' => cases hstop
        | link _ _ _ =>
          cases hstop
          exact .inr (.inr ⟨here', target, rest, rfl, rfl⟩)

/-- Following links, a path ends in the same way in both trees. -/
theorem map_shell_follow (links : Nat) (here : Location) (parts : List String) :
    (tree.follow links here parts).map Place.shell =
      (other.follow links here parts).map Place.shell := by
  induction links generalizing here parts with
  | zero =>
    unfold follow
    rcases same.descend_cases here parts with
      ⟨e, h, h'⟩ | ⟨place, place', h, h', hplace⟩ | ⟨stop, target, rest, h, h'⟩ <;> rw [h, h']
    exact congrArg Except.ok hplace
  | succ links ih =>
    unfold follow
    rcases same.descend_cases here parts with
      ⟨e, h, h'⟩ | ⟨place, place', h, h', hplace⟩ | ⟨stop, target, rest, h, h'⟩ <;> rw [h, h']
    · exact congrArg Except.ok hplace
    · exact ih _ _

/-- **A path leads to a folder** in both trees or in none. -/
theorem hasFolder_eq (here : Location) (p : Path) :
    tree.hasFolder here p = other.hasFolder here p := by
  rw [Bool.eq_iff_iff, hasFolder_iff, hasFolder_iff]
  unfold find
  rw [same.map_shell_follow]

end SameShape

end Entry

end Wxml
