import Wxml.Build
import Wxml.Proofs.PlainTrees

/-!
# Locations that settings give

In a tree without links the two folders of a build are settled: none of their names leads upwards,
and none holds the character that no name can hold (`Settings.settled_of_ofMapping`).

The name of an output is made of a stem of the old name and the suffix (`toList_withSuffix`), so it
leads nowhere else either.

**Not established**: that the two folders exist, or differ. Settings are accepted without that, and
a build asks for its source folder only.
-/

namespace Wxml

/-! ## Answers that may fail -/

/-- A row of steps has an answer if the first one has, and the rest has for that. -/
theorem bind_eq_ok {ε α β : Type} {x : Except ε α} {f : α → Except ε β} {b : β}
    (h : (x >>= f) = .ok b) : ∃ a, x = .ok a ∧ f a = .ok b := by
  cases x with
  | error e => cases h
  | ok a => exact ⟨a, rfl, h⟩

/-- An answer is had from the option that it is, where the answer can be compared and the whole
cannot. -/
theorem eq_ok_of_toOption {ε α : Type} {x : Except ε α} {a : α} (h : x.toOption = some a) :
    x = .ok a := by
  cases x with
  | error e => cases h
  | ok b => exact congrArg Except.ok (Option.some.inj h)

/-! ## Names -/

/-- Names that a location can end up with. -/
def Location.Settled (l : Location) : Prop :=
  ∀ name ∈ l, name ≠ ".." ∧ name.toList.contains '\x00' = false

theorem Location.Settled.descends {l : Location} (h : l.Settled) : l.Descends :=
  fun name hname => (h name hname).1

theorem Location.hasNul_eq_false {l : Location} :
    (Path.ofLocation l).hasNul = false ↔ ∀ name ∈ l, name.toList.contains '\x00' = false := by
  show l.any _ = false ↔ _
  rw [List.any_eq_false]
  simp only [Bool.not_eq_true]

theorem Location.Settled.hasNul {l : Location} (h : l.Settled) :
    (Path.ofLocation l).hasNul = false :=
  Location.hasNul_eq_false.mpr fun name hname => (h name hname).2

/-- Parts that lead upwards are used up, each with the name before it if there is one, so that none
is left in a location. -/
theorem Location.mem_along {here : Location} {parts : List String} {name : String}
    (h : name ∈ here.along parts) : name ∈ here ∨ (name ∈ parts ∧ name ≠ "..") := by
  induction parts generalizing here with
  | nil => exact .inl h
  | cons part rest ih =>
    unfold Location.along at h
    rw [List.foldl_cons] at h
    rcases ih h with hhere | ⟨hrest, hname⟩
    · by_cases hup : part = ".."
      · rw [if_pos hup] at hhere
        exact .inl ((List.dropLast_sublist here).mem hhere)
      · rw [if_neg hup, List.mem_append, List.mem_singleton] at hhere
        rcases hhere with hold | rfl
        · exact .inl hold
        · exact .inr ⟨List.mem_cons_self, hup⟩
    · exact .inr ⟨List.mem_cons_of_mem _ hrest, hname⟩

/-- Going along possible parts from a settled location ends at one: parts that lead up are used
up. -/
theorem Location.Settled.along {here : Location} (h : here.Settled) {parts : List String}
    (hparts : ∀ part ∈ parts, part.toList.contains '\x00' = false) :
    (here.along parts).Settled := by
  intro name hname
  rcases Location.mem_along hname with hold | ⟨hpart, hup⟩
  · exact h name hold
  · exact ⟨hup, hparts name hpart⟩

namespace Settings

variable {tree : Entry}

/-- Without links a path is taken part by part, from the root or from the folder it is seen from. -/
theorem locate_eq_ok_iff (links : tree.LinkFree) {here l : Location} {p : Path} :
    locate tree here p = .ok l ↔ p.hasNul = false ∧
      Location.along (if p.isAbsolute then [] else here) p.parts = l := by
  rw [locate]
  cases p.hasNul with
  | true => simp
  | false => simp [links.resolve_eq]

/-- A path that is accepted stands for a settled location. -/
theorem settled_of_locate (links : tree.LinkFree) {here l : Location} (h : here.Settled) {p : Path}
    (hl : locate tree here p = .ok l) : l.Settled := by
  obtain ⟨hnul, rfl⟩ := (locate_eq_ok_iff links).mp hl
  have hparts : ∀ part ∈ p.parts, part.toList.contains '\x00' = false :=
    Location.hasNul_eq_false.mp hnul
  cases p.isAbsolute with
  | true => exact Location.Settled.along (fun _ hname => absurd hname List.not_mem_nil) hparts
  | false => exact h.along hparts

/-- **What accepted settings are made of**, field by field. -/
structure Accepts (tree : Entry) (raw : List (Value × Value)) (base : Path) (s : Settings) :
    Prop where
  keys : checkKeys raw = .ok ()
  folders : ∃ here src out, locate tree [] base = .ok here ∧
    textOf raw "src" = .ok src ∧ locate tree here (.ofString src) = .ok s.src ∧
    textOf raw "out" = .ok out ∧ locate tree here (.ofString out) = .ok s.out
  suffix : textOf raw "suffix" = .ok s.suffix
  extensions : ∃ extensions, textsOf raw "extensions" = .ok extensions ∧
    s.extensions = extensions.map dotted
  exclude : textsOf raw "exclude" = .ok s.exclude
  failFast : boolOf raw "fail_fast" = .ok s.failFast

/-- Every field of accepted settings comes from its own key. What is asked in which order matters
for errors only. -/
theorem accepts_of_ofMapping {raw : List (Value × Value)} {base : Path} {s : Settings}
    (h : ofMapping tree raw base = .ok s) : Accepts tree raw base s := by
  unfold ofMapping at h
  obtain ⟨u, hkeys, h⟩ := bind_eq_ok h
  obtain ⟨here, hhere, h⟩ := bind_eq_ok h
  obtain ⟨src, hsrc, h⟩ := bind_eq_ok h
  obtain ⟨out, hout, h⟩ := bind_eq_ok h
  obtain ⟨suffix, hsuffix, h⟩ := bind_eq_ok h
  obtain ⟨extensions, hextensions, h⟩ := bind_eq_ok h
  obtain ⟨exclude, hexclude, h⟩ := bind_eq_ok h
  obtain ⟨failFast, hfailFast, h⟩ := bind_eq_ok h
  obtain ⟨srcPlace, hsrcPlace, h⟩ := bind_eq_ok h
  obtain ⟨outPlace, houtPlace, h⟩ := bind_eq_ok h
  cases h
  exact ⟨hkeys, ⟨here, src, out, hhere, hsrc, hsrcPlace, hout, houtPlace⟩, hsuffix,
    ⟨extensions, hextensions, rfl⟩, hexclude, hfailFast⟩

/-- **The folders of accepted settings are settled.** The base is taken as a path first, and the two
folders from there. -/
theorem settled_of_ofMapping (links : tree.LinkFree) {raw : List (Value × Value)} {base : Path}
    {s : Settings} (h : ofMapping tree raw base = .ok s) : s.src.Settled ∧ s.out.Settled := by
  obtain ⟨here, src, out, hhere, -, hsrc, -, hout⟩ := (accepts_of_ofMapping h).folders
  have settled : here.Settled :=
    settled_of_locate links (fun _ hname => absurd hname List.not_mem_nil) hhere
  exact ⟨settled_of_locate links settled hsrc, settled_of_locate links settled hout⟩

end Settings

/-! ## Output names -/

/-- An output name is a stem, of at least one character of the old name, and the suffix. -/
theorem toList_withSuffix {name : String} (hname : name ≠ "") (suffix : String) :
    ∃ stem, stem ≠ [] ∧ stem <+: name.toList ∧
      (withSuffix name suffix).toList = stem ++ suffix.toList := by
  unfold withSuffix
  have hchars : name.toList ≠ [] := fun h => hname (String.toList_eq_nil_iff.mp h)
  cases hdot : suffixStart? name.toList with
  | none => exact ⟨name.toList, hchars, List.prefix_rfl, String.toList_append⟩
  | some dot =>
    refine ⟨name.toList.take dot, ?_, List.take_prefix _ _, ?_⟩
    · have hpos : 0 < dot := by
        unfold suffixStart? at hdot
        dsimp only at hdot
        by_cases h : (name.toList.reverse.takeWhile (· != '.')).length < name.toList.length ∧
          0 < (name.toList.reverse.takeWhile (· != '.')).length ∧
          0 < name.toList.length - (name.toList.reverse.takeWhile (· != '.')).length - 1
        · rw [if_pos h] at hdot
          cases hdot
          exact h.2.2
        · rw [if_neg h] at hdot
          cases hdot
      intro hnil
      rcases List.take_eq_nil_iff.mp hnil with h | h
      · exact absurd h (Nat.ne_of_gt hpos)
      · exact hchars h
    · rw [String.toList_append, String.toList_ofList]

/-- An output name is never the two dots. Its stem has a character, and a possible suffix has
two. -/
theorem withSuffix_ne_up {name suffix : String} (hname : name ≠ "") (h : isSuffix suffix = true) :
    withSuffix name suffix ≠ ".." := by
  obtain ⟨stem, hstem, -, htext⟩ := toList_withSuffix hname suffix
  intro hup
  rw [isSuffix, Bool.and_eq_true, Bool.and_eq_true, beq_iff_eq, bne_iff_ne] at h
  rw [hup] at htext
  obtain ⟨c, stem, rfl⟩ := List.exists_cons_of_ne_nil hstem
  have hlen := congrArg List.length htext
  cases hs : suffix.toList with
  | nil =>
    rw [hs] at h
    cases h.1.1
  | cons d rest =>
    rw [hs, List.head?_cons] at h
    cases rest with
    | nil =>
      obtain rfl : d = '.' := Option.some.inj h.1.1
      exact h.1.2 (String.toList_inj.mp hs)
    | cons d' rest =>
      rw [hs] at hlen
      simp only [List.length_append, List.length_cons] at hlen
      have hdots : "..".toList.length = 2 := rfl
      omega

/-- A character of an output name is one of the old name or of the suffix. -/
theorem not_contains_withSuffix {name suffix : String} (hname : name ≠ "") {c : Char}
    (h : name.toList.contains c = false) (hs : suffix.toList.contains c = false) :
    (withSuffix name suffix).toList.contains c = false := by
  obtain ⟨stem, -, hstem, htext⟩ := toList_withSuffix hname suffix
  rw [htext]
  simp only [List.contains_eq_mem, decide_eq_false_iff_not, List.mem_append, not_or] at h hs ⊢
  exact ⟨fun hc => h (hstem.mem hc), hs⟩

end Wxml
