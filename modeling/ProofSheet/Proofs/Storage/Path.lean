import ProofSheet.Storage.FileSystem
import Mathlib.Tactic.Common

/-!
Names below a folder: the path that leads to one, and the place where it ends.

* `Path.IsName`: one ordinary name, which no slash divides and which leads neither up nor in place;
* `Path.components_join`, `Path.isAbsolute_join`: a name adds one component to the path of its
  folder, and nothing else changes;
* `FileSystem.walk_append`, `FileSystem.locate?_join`: the path of a name leads to the place
  directly below the place of the folder, which has to be there;
* `FileSystem.lookup_replace`, `FileSystem.write_eq_ok_iff`, `FileSystem.write_join_eq_ok_iff`: what
  writing to a path changes, and to the path of a name.
-/

namespace ProofSheet

/-! ### Paths -/

namespace Path

/-- An ordinary name of a file or folder. -/
structure IsName (name : String) : Prop where
  ne_empty : name ≠ ""
  ne_here : name ≠ "."
  ne_up : name ≠ ".."
  no_slash : '/' ∉ name.toList

variable {dir name : String}

lemma parts_append_slash (front back : List Char) :
    parts (String.ofList (front ++ '/' :: back)) =
      parts (String.ofList front) ++ parts (String.ofList back) := by
  simp only [parts, String.toList_ofList, List.splitOn_append_cons_self, List.map_append]

/-- Behind a slash the components are counted anew. -/
lemma components_append_slash (front back : List Char) :
    components (String.ofList (front ++ '/' :: back)) =
      components (String.ofList front) ++ components (String.ofList back) := by
  simp only [components, parts_append_slash, List.filter_append]

lemma IsName.parts (h : IsName name) : parts name = [name] := by
  rw [Path.parts, List.splitOn_eq_singleton h.no_slash, List.map_singleton, String.ofList_toList]

lemma IsName.components (h : IsName name) : components name = [name] := by
  rw [Path.components, h.parts]
  simp [h.ne_empty, h.ne_here]

lemma IsName.head?_ne (h : IsName name) : name.toList.head? ≠ some '/' :=
  fun hhead => h.no_slash (List.mem_of_head? hhead)

/-- A name below the folder with the empty path, below a path that ends in a slash, and below any
other. -/
lemma IsName.join_cases (h : IsName name) (dir : String) :
    (dir = "" ∧ join dir name = name) ∨
      (∃ front, dir.toList = front ++ ['/'] ∧
        join dir name = String.ofList (front ++ '/' :: name.toList)) ∨
      (dir ≠ "" ∧ join dir name = String.ofList (dir.toList ++ '/' :: name.toList)) := by
  rw [join, if_neg h.head?_ne]
  by_cases hempty : dir = ""
  · subst hempty
    exact .inl ⟨rfl, by simp⟩
  · by_cases hlast : dir.toList.getLast? = some '/'
    · obtain ⟨front, hfront⟩ := List.getLast?_eq_some_iff.1 hlast
      refine .inr (.inl ⟨front, hfront, ?_⟩)
      rw [if_pos (by simp [hlast]), ← String.toList_inj, String.toList_append, hfront]
      simp
    · refine .inr (.inr ⟨hempty, ?_⟩)
      rw [if_neg (by simp [hempty, hlast]), ← String.toList_inj]
      simp [String.toList_append]

/-- A name adds one component to the path of its folder. -/
lemma components_join (h : IsName name) :
    components (join dir name) = components dir ++ [name] := by
  obtain ⟨rfl, hjoin⟩ | ⟨front, hdir, hjoin⟩ | ⟨-, hjoin⟩ := h.join_cases dir
  · rw [hjoin, h.components]
    rfl
  · have hfront : dir = String.ofList (front ++ '/' :: []) := by
      rw [← hdir, String.ofList_toList]
    rw [hjoin, hfront, components_append_slash, components_append_slash, String.ofList_toList,
      h.components]
    simp [components, parts]
  · rw [hjoin, components_append_slash, String.ofList_toList, String.ofList_toList, h.components]

/-- A name leaves a path as absolute or as relative as it is. -/
lemma isAbsolute_join (h : IsName name) : isAbsolute (join dir name) = isAbsolute dir := by
  obtain ⟨rfl, hjoin⟩ | ⟨front, hdir, hjoin⟩ | ⟨hdir, hjoin⟩ := h.join_cases dir
  · rw [hjoin, isAbsolute, isAbsolute]
    simpa using h.head?_ne
  · rw [hjoin, isAbsolute, isAbsolute, hdir, String.toList_ofList]
    cases front <;> rfl
  · rw [hjoin, isAbsolute, isAbsolute, String.toList_ofList]
    cases hchars : dir.toList with
    | nil => exact absurd (String.toList_inj.1 hchars) hdir
    | cons c rest => rfl

/-- The path of a name is not written as that of a folder. -/
lemma namesFolder_join (h : IsName name) : namesFolder (join dir name) = false := by
  have hlast : (parts (join dir name)).getLast? = some name := by
    obtain ⟨-, hjoin⟩ | ⟨front, -, hjoin⟩ | ⟨-, hjoin⟩ := h.join_cases dir
    · rw [hjoin, h.parts]
      rfl
    · rw [hjoin, parts_append_slash, String.ofList_toList, h.parts, List.getLast?_concat]
    · rw [hjoin, parts_append_slash, String.ofList_toList, String.ofList_toList, h.parts,
        List.getLast?_concat]
  rw [namesFolder, hlast]
  simp [h.ne_empty, h.ne_here]

end Path

/-! ### Places -/

namespace FileSystem

variable {fs fs' : FileSystem} {dir name text : String}

/-- Some names and then the others. -/
lemma walk_append (fs : FileSystem) (place : Place) (names more : List String) :
    fs.walk place (names ++ more) = (fs.walk place names).bind (fs.walk · more) := by
  induction names generalizing place with
  | nil => rfl
  | cons name names ih =>
      rw [List.cons_append, walk, walk]
      split_ifs
      · rfl
      · exact ih _
      · exact ih _

/-- The path of a name leads to the place directly below its folder, which has to be there. -/
lemma locate?_join (h : Path.IsName name) :
    fs.locate? (Path.join dir name) = (fs.locate? dir).bind fun folder =>
      if fs.isFolder folder then some (folder ++ [name]) else none := by
  rw [locate?, locate?, Path.isAbsolute_join h, Path.components_join h, Path.namesFolder_join h,
    walk_append]
  split_ifs
  · rfl
  · cases fs.walk [] (Path.components dir) with
    | none => rfl
    | some folder =>
        cases hfolder : fs.isFolder folder with
        | true => simp [walk, hfolder, h.ne_up, Option.filter]
        | false => cases Path.namesFolder dir <;> simp [walk, hfolder, Option.filter]

/-! ### Writing -/

lemma lookup_cons_eq (place other : Place) (text : String) (files : List (Place × String)) :
    ((place, text) :: files).lookup other =
      if other = place then some text else files.lookup other := by
  rw [List.lookup_cons]
  by_cases h : other = place
  · rw [if_pos h, beq_iff_eq.2 h]
  · rw [if_neg h, beq_false_of_ne h]

/-- Of the files only the replaced one changes. -/
lemma lookup_replace (place other : Place) (text : String) (files : List (Place × String)) :
    (replace place text files).lookup other =
      if other = place then some text else files.lookup other := by
  induction files with
  | nil => exact lookup_cons_eq place other text []
  | cons file files ih =>
      rw [replace, lookup_cons_eq file.1 other file.2 files]
      by_cases hfile : file.1 = place
      · rw [if_pos hfile, lookup_cons_eq, hfile]
        split_ifs <;> rfl
      · rw [if_neg hfile, lookup_cons_eq file.1 other file.2, ih]
        by_cases h : other = file.1
        · rw [if_pos h, if_neg (h ▸ hfile), if_pos h]
        · rw [if_neg h, if_neg h]

/-- The empty path needs no mention here, since the current folder is a folder. -/
lemma filePlace_eq_ok_iff {path : String} {place : Place} :
    fs.filePlace path = .ok place ↔ fs.locate? path = some place ∧ fs.isFolder place = false := by
  rw [filePlace]
  cases hlocate : fs.locate? path with
  | none => exact iff_of_false nofun nofun
  | some found =>
      rw [Option.some_inj]
      dsimp only
      split_ifs with hempty hfolder
      · subst hempty
        obtain rfl : [] = found := Option.some.inj hlocate
        refine iff_of_false nofun ?_
        rintro ⟨rfl, hnot⟩
        cases hnot
      · refine iff_of_false nofun ?_
        rintro ⟨rfl, hnot⟩
        cases hfolder.symm.trans hnot
      · rw [Except.ok.injEq]
        refine (and_iff_left_of_imp ?_).symm
        rintro rfl
        exact Bool.eq_false_iff.2 hfolder

/-- Writing replaces the file at the place that the path leads to, unless that is a folder. -/
lemma write_eq_ok_iff {path : String} :
    fs.write path text = .ok fs' ↔
      ∃ place, fs.filePlace path = .ok place ∧
        fs' = { fs with files := replace place text fs.files } := by
  rw [write]
  cases fs.filePlace path with
  | error fault => simp [bind, Except.bind]
  | ok place => simp [bind, Except.bind, pure, Except.pure, @eq_comm _ fs']

/-- Writing to a name below a folder succeeds when the folder is there and the name is not that of a
folder, and changes the file with that name directly below it. -/
lemma write_join_eq_ok_iff (h : Path.IsName name) :
    fs.write (Path.join dir name) text = .ok fs' ↔
      ∃ folder, fs.locate? dir = some folder ∧ fs.isFolder folder = true ∧
        fs.isFolder (folder ++ [name]) = false ∧
        fs' = { fs with files := replace (folder ++ [name]) text fs.files } := by
  have hplace (place : Place) : fs.filePlace (Path.join dir name) = .ok place ↔
      ∃ folder, fs.locate? dir = some folder ∧ fs.isFolder folder = true ∧
        fs.isFolder (folder ++ [name]) = false ∧ place = folder ++ [name] := by
    rw [filePlace_eq_ok_iff, locate?_join h, Option.bind_eq_some_iff]
    constructor
    · rintro ⟨⟨folder, hfolder, hsome⟩, hnot⟩
      obtain ⟨hthere, hplace⟩ := Option.ite_none_right_eq_some.1 hsome
      obtain rfl := Option.some.inj hplace
      exact ⟨folder, hfolder, hthere, hnot, rfl⟩
    · rintro ⟨folder, hfolder, hthere, hnot, rfl⟩
      exact ⟨⟨folder, hfolder, if_pos hthere⟩, hnot⟩
  simp only [write_eq_ok_iff, hplace]
  constructor
  · rintro ⟨_, ⟨folder, hfolder, hthere, hnot, rfl⟩, rfl⟩
    exact ⟨folder, hfolder, hthere, hnot, rfl⟩
  · rintro ⟨folder, hfolder, hthere, hnot, rfl⟩
    exact ⟨_, ⟨folder, hfolder, hthere, hnot, rfl⟩, rfl⟩

end FileSystem

end ProofSheet
