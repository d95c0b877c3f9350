import Wxml.Proofs.SettledPaths

/-!
# Loading settings again

Loading settings brings them into a normal form. Folders become locations whose names all lead down,
extensions get their dot, and what was left out gets its default. Settings in this form can be
written down as a mapping (`Settings.fields`), and loading that mapping changes nothing any more.

The step that needs an argument is the one for folders. A location is written as a text, read as a
path and resolved. Names without separators survive the text (`Path.ofString_text`), an absolute
path does not depend on where it is taken from, and a path that only leads down resolves to itself.

**The law** (`settings_reload`): accepted settings are in normal form, and they load as themselves,
whatever the base.

**Not established**: trees with links, where a folder is stored as the location that it led to and
may lead elsewhere in another tree, and fields that settings do not have, which are refused.
-/

namespace Wxml

/-! ## Names in a path -/

/-- **A name**: what can stand between two separators and leads one step down. -/
structure IsName (name : String) : Prop where
  nonempty : name ≠ ""
  not_here : name ≠ "."
  not_up : name ≠ ".."
  slashless : '/' ∉ name.toList

/-- **A location in normal form** is made of names. -/
def Location.Normal (l : Location) : Prop := ∀ name ∈ l, IsName name

theorem Location.Normal.descends {l : Location} (h : l.Normal) : l.Descends :=
  fun name hname => (h name hname).not_up

namespace Path

/-- The parts of a path that was read are no empty names and no single dots, and hold no
separator. -/
theorem part_of_ofString {s part : String} (h : part ∈ (ofString s).parts) :
    part ≠ "" ∧ part ≠ "." ∧ '/' ∉ part.toList := by
  obtain ⟨hsplit, hpart⟩ := List.mem_filter.mp h
  obtain ⟨piece, hpiece, rfl⟩ := List.mem_map.mp hsplit
  rw [isPart, Bool.and_eq_true, bne_iff_ne, bne_iff_ne] at hpart
  refine ⟨hpart.1, hpart.2, ?_⟩
  rw [String.toList_ofList]
  exact fun hslash => (Text.mem_of_mem_splitOn hpiece hslash).2 rfl

/-- A text with one separator in front starts at the root. With two it would be another root. -/
theorem rootOf_eq_slash {s : String} {cs : List Char} (h : s.toList = '/' :: cs)
    (single : cs.head? ≠ some '/') : rootOf s = "/" := by
  have hrun : s.toList.takeWhile (· == '/') = ['/'] := by
    rw [h, List.takeWhile_cons_of_pos (by simp)]
    cases cs with
    | nil => rfl
    | cons c cs =>
      rw [List.takeWhile_cons_of_neg]
      intro hc
      exact single (congrArg some (beq_iff_eq.mp hc))
  rw [rootOf, hrun]
  rfl

theorem filter_isPart {l : Location} (h : l.Normal) : l.filter isPart = l := by
  rw [List.filter_eq_self]
  intro name hname
  rw [isPart, Bool.and_eq_true, bne_iff_ne, bne_iff_ne]
  exact ⟨(h name hname).nonempty, (h name hname).not_here⟩

/-- The text of a location starts with one separator only. -/
theorem head?_intercalate_ne {name : String} (h : IsName name) (rest : List String) :
    (['/'].intercalate ((name :: rest).map String.toList)).head? ≠ some '/' := by
  obtain ⟨c, cs, hname⟩ :=
    List.exists_cons_of_ne_nil fun hnil => h.nonempty (String.toList_eq_nil_iff.mp hnil)
  have hc : c ≠ '/' := by
    rintro rfl
    exact h.slashless (hname ▸ List.mem_cons_self)
  cases rest <;> simpa [hname] using hc

/-- A location is written as its names, each behind a separator. -/
theorem toList_text (l : Location) :
    l.text.toList = '/' :: ['/'].intercalate (l.map String.toList) := by
  rw [Location.text, String.toList_append, String.toList_intercalate]
  rfl

/-- The pieces of a location's text are its names, behind the empty piece in front of the root. -/
theorem split_text {name : String} {rest : Location} (h : Location.Normal (name :: rest)) :
    Text.split '/' (Location.text (name :: rest)) = "" :: name :: rest := by
  have hslashless : ∀ cs ∈ (name :: rest).map String.toList, '/' ∉ cs := by
    rw [List.forall_mem_map]
    exact fun n hn => (h n hn).slashless
  rw [Text.split, toList_text, List.splitOn_cons_eq_if_modifyHead, if_pos (beq_self_eq_true '/'),
    List.splitOn_intercalate '/' hslashless (by simp)]
  simp

/-- **A location survives its text.** Written with separators and read as a path, it is the path to
itself, from the root. -/
theorem ofString_text {l : Location} (h : l.Normal) : ofString l.text = .ofLocation l := by
  cases l with
  | nil => rfl
  | cons name rest =>
    have hroot : rootOf (Location.text (name :: rest)) = "/" :=
      rootOf_eq_slash (toList_text _) (head?_intercalate_ne (h name List.mem_cons_self) rest)
    rw [ofString, hroot, split_text h, List.filter_cons_of_neg (by decide), filter_isPart h]
    rfl

end Path

/-- A location in normal form is an absolute path, and nothing between its separators is empty or
made of dots that lead nowhere or up. -/
theorem Location.Normal.absolute {l : Location} (h : l.Normal) :
    (Path.ofString l.text).isAbsolute = true ∧ (l = [] ∨ Text.split '/' l.text = "" :: l) ∧
      ∀ name ∈ l, name ≠ "" ∧ name ≠ "." ∧ name ≠ ".." := by
  refine ⟨by rw [Path.ofString_text h]; rfl, ?_, fun name hname => ?_⟩
  · cases l with
    | nil => exact .inl rfl
    | cons name rest => exact .inr (Path.split_text h)
  · exact ⟨(h name hname).nonempty, (h name hname).not_here, (h name hname).not_up⟩

/-! ## Folders of accepted settings -/

/-- Going along a path that was read, from a location in normal form, ends at one. -/
theorem Location.Normal.along {here : Location} (h : here.Normal) (s : String) :
    (here.along (Path.ofString s).parts).Normal := by
  intro name hname
  rcases Location.mem_along hname with hold | ⟨hpart, hup⟩
  · exact h name hold
  · obtain ⟨hempty, hdot, hslash⟩ := Path.part_of_ofString hpart
    exact ⟨hempty, hdot, hup, hslash⟩

namespace Settings

variable {tree : Entry}

/-- A folder that is accepted has a location in normal form. -/
theorem normal_of_locate (links : tree.LinkFree) {here l : Location} (h : here.Normal) {s : String}
    (hl : locate tree here (.ofString s) = .ok l) : l.Normal := by
  obtain ⟨-, rfl⟩ := (locate_eq_ok_iff links).mp hl
  cases (Path.ofString s).isAbsolute with
  | true => exact Location.Normal.along (fun _ hname => absurd hname List.not_mem_nil) s
  | false => exact h.along s

/-- The text of a location in normal form leads there from everywhere, since it starts at the root
and nothing in it leads up. -/
theorem locate_text (links : tree.LinkFree) {l : Location} (normal : l.Normal)
    (settled : l.Settled) (here : Location) : locate tree here (.ofString l.text) = .ok l := by
  rw [Path.ofString_text normal]
  exact (locate_eq_ok_iff links).mpr ⟨settled.hasNul, Location.along_of_descends normal.descends⟩

/-! ## The mapping of settings -/

/-- Settings as a mapping, with folders as texts. -/
def fields (s : Settings) : List (Value × Value) :=
  [(.text "src", .text s.src.text), (.text "out", .text s.out.text),
    (.text "extensions", .list (s.extensions.map .text)), (.text "suffix", .text s.suffix),
    (.text "exclude", .list (s.exclude.map .text)), (.text "fail_fast", .bool s.failFast)]

/-- The converse of `accepts_of_ofMapping`: a mapping whose fields are all right is accepted. The
order of the questions does not matter where none is refused. -/
theorem ofMapping_of_accepts {raw : List (Value × Value)} {base : Path} {s : Settings}
    (h : Accepts tree raw base s) : ofMapping tree raw base = .ok s := by
  obtain ⟨here, src, out, hhere, hsrc, hsrcPlace, hout, houtPlace⟩ := h.folders
  obtain ⟨extensions, hextensions, hdotted⟩ := h.extensions
  unfold ofMapping
  rw [h.keys, hhere, hsrc, hout, h.suffix, hextensions, h.exclude, h.failFast]
  show (locate tree here (.ofString src) >>= fun src =>
    locate tree here (.ofString out) >>= fun out => _) = _
  rw [hsrcPlace, houtPlace]
  show Except.ok (Settings.mk s.src s.out (extensions.map dotted) s.suffix s.exclude s.failFast) = _
  rw [← hdotted]

theorem texts?_list (texts : List String) : (Value.list (texts.map .text)).texts? = some texts := by
  show (texts.map Value.text).mapM Value.text? = some texts
  induction texts with
  | nil => rfl
  | cons t texts ih =>
    rw [List.map_cons, List.mapM_cons, ih]
    rfl

/-- A text that is accepted is not empty. So the fields of accepted settings can be accepted
again. -/
theorem ne_empty_of_textOf {raw : List (Value × Value)} {key s : String}
    (h : textOf raw key = .ok s) : s ≠ "" := by
  unfold textOf at h
  cases hvalue : valueOf raw key with
  | text t =>
    simp only [hvalue] at h
    by_cases ht : t = ""
    · rw [if_pos ht] at h
      cases h
    · rw [if_neg ht] at h
      cases h
      exact ht
  | _ =>
    simp only [hvalue] at h
    cases h

theorem textOf_of_text {raw : List (Value × Value)} {key s : String}
    (h : valueOf raw key = .text s) (hs : s ≠ "") : textOf raw key = .ok s := by
  unfold textOf
  rw [h]
  exact if_neg hs

/-- A list of texts is accepted as it is, also an empty one. -/
theorem textsOf_of_list {raw : List (Value × Value)} {key : String} {texts : List String}
    (h : valueOf raw key = .list (texts.map .text)) : textsOf raw key = .ok texts := by
  unfold textsOf
  rw [h, texts?_list]

/-- Every extension has its dot behind this, given with or without one. -/
theorem head?_dotted (extension : String) : (dotted extension).toList.head? = some '.' := by
  unfold dotted
  by_cases h : extension.toList.head? = some '.'
  · rw [if_pos h]
    exact h
  · rw [if_neg h, String.toList_append]
    rfl

/-- One that has it keeps it, so that a second loading changes nothing. -/
theorem dotted_eq_self {extension : String} (h : extension.toList.head? = some '.') :
    dotted extension = extension := if_pos h

/-- A folder is never written as the empty text, which would be refused. -/
theorem text_ne_empty (l : Location) : l.text ≠ "" := by
  intro h
  have hchars := Path.toList_text l
  rw [h] at hchars
  cases hchars

/-- **Settings in normal form**, which loading leaves as they are. -/
structure Normal (s : Settings) : Prop where
  src : s.src.Normal
  out : s.out.Normal
  extensions : ∀ e ∈ s.extensions, e.toList.head? = some '.'
  suffix : s.suffix ≠ ""

/-- **Accepted settings are in normal form.** Their folders are resolved, their extensions have
dots, and their suffix is some text, whatever the mapping was. -/
theorem normal_of_ofMapping (links : tree.LinkFree) {raw : List (Value × Value)} {base : String}
    {s : Settings} (h : ofMapping tree raw (.ofString base) = .ok s) : s.Normal := by
  have accepted := accepts_of_ofMapping h
  obtain ⟨here, src, out, hhere, -, hsrc, -, hout⟩ := accepted.folders
  obtain ⟨extensions, -, hdotted⟩ := accepted.extensions
  have hnormal : here.Normal :=
    normal_of_locate links (fun _ hname => absurd hname List.not_mem_nil) hhere
  refine ⟨normal_of_locate links hnormal hsrc, normal_of_locate links hnormal hout, ?_,
    ne_empty_of_textOf accepted.suffix⟩
  rw [hdotted, List.forall_mem_map]
  exact fun e _ => head?_dotted e

/-- The mapping of settings in normal form is accepted, and gives them back. -/
theorem Normal.accepts_fields {s : Settings} (normal : s.Normal)
    (settled : s.src.Settled ∧ s.out.Settled) (links : tree.LinkFree) {base : Path}
    (hbase : base.hasNul = false) : Accepts tree s.fields base s where
  keys := rfl
  folders := ⟨_, s.src.text, s.out.text, (locate_eq_ok_iff links).mpr ⟨hbase, rfl⟩,
    textOf_of_text rfl (text_ne_empty _), locate_text links normal.src settled.1 _,
    textOf_of_text rfl (text_ne_empty _), locate_text links normal.out settled.2 _⟩
  suffix := textOf_of_text rfl normal.suffix
  extensions := by
    have hdotted : s.extensions.map dotted = s.extensions.map id :=
      List.map_congr_left fun e he => dotted_eq_self (normal.extensions e he)
    exact ⟨s.extensions, textsOf_of_list rfl, (hdotted.trans (List.map_id _)).symm⟩
  exclude := textsOf_of_list rfl
  failFast := rfl

/-- From a base that no folder can have nothing is loaded. -/
theorem ofMapping_of_hasNul {raw : List (Value × Value)} {base : Path}
    (hkeys : checkKeys raw = .ok ()) (hbase : base.hasNul = true) :
    ofMapping tree raw base = .error .badPath := by
  unfold ofMapping
  rw [hkeys, locate, if_pos hbase]
  rfl

end Settings

/-- **Loading settings again changes nothing.** When a mapping is accepted, the folders it gives are
absolute, without parts that are empty or dots, and every extension starts with a dot. The settings
are loaded from their own fields as they are, from every base and in every tree without links; only
a base with the character that no name can hold is refused, as it is for every mapping. -/
theorem settings_reload {tree : Entry} (links : tree.LinkFree) {raw : List (Value × Value)}
    {base : String} {s : Settings} (h : Settings.ofMapping tree raw (.ofString base) = .ok s) :
    (∀ l ∈ [s.src, s.out], (Path.ofString l.text).isAbsolute = true ∧
      (l = [] ∨ Text.split '/' l.text = "" :: l) ∧
      ∀ name ∈ l, name ≠ "" ∧ name ≠ "." ∧ name ≠ "..") ∧
    (∀ e ∈ s.extensions, e.toList.head? = some '.') ∧
    ∀ (tree' : Entry) (base' : String), tree'.LinkFree →
      Settings.ofMapping tree' s.fields (.ofString base') =
        if (Path.ofString base').hasNul then .error .badPath else .ok s := by
  have normal := Settings.normal_of_ofMapping links h
  have settled := Settings.settled_of_ofMapping links h
  refine ⟨?_, normal.extensions, fun tree' base' links' => ?_⟩
  · simpa using ⟨normal.src.absolute, normal.out.absolute⟩
  · cases hbase : (Path.ofString base').hasNul with
    | true => exact Settings.ofMapping_of_hasNul rfl hbase
    | false => exact Settings.ofMapping_of_accepts (normal.accepts_fields settled links' hbase)

/-- Folders that lead up, once above the root, and extensions with and without their dot. -/
theorem settings_reload_upwards :
    let raw : List (Value × Value) := [(.text "src", .text "../a//./b/../c/"),
      (.text "out", .text "/../out"), (.text "extensions", .list [.text "wxml", .text ""])]
    let s : Settings := ⟨["x", "a", "c"], ["out"], [".wxml", "."], ".jsx",
      ["node_modules/", ".git/"], true⟩
    Settings.ofMapping (.folder []) raw (.ofString "/x/y") = .ok s ∧
      Settings.ofMapping (.folder []) s.fields (.ofString "elsewhere/..") = .ok s := by
  intro raw s
  have hload : Settings.ofMapping (.folder []) raw (.ofString "/x/y") = .ok s :=
    eq_ok_of_toOption (by decide +kernel)
  have hreload := (settings_reload Entry.linkFree_folder_nil hload).2.2 (.folder []) "elsewhere/.."
    Entry.linkFree_folder_nil
  rw [if_neg (by decide +kernel)] at hreload
  exact ⟨hload, hreload⟩

end Wxml
