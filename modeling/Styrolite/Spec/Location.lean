import Styrolite.ForStd.Fields
import Styrolite.ForStd.LexPath
import Styrolite.Native.CGroup
import Styrolite.Native.Mount

/-!
# Where a path leads

Paths to a file system without symlinks, such as that of the control groups, are
resolved lexically: `.` stays, `..` climbs, and an absolute path starts at the
root.

## Key results

- `locate_pathPush`: `PathBuf::push` resolves its argument from the path
- `locate_eq_append_iff`: when a path leads below its start by given names
-/

namespace Styrolite

open LexPath

/-- A call with this path is refused before it reaches the file system. -/
def HasNul (s : String) : Prop := s.toList.contains (Char.ofNat 0) = true

/-- Whether a string has a NUL byte can be computed. -/
instance (s : String) : Decidable (HasNul s) :=
  inferInstanceAs (Decidable (s.toList.contains (Char.ofNat 0) = true))

/-- A string without NUL bytes becomes a C string as it is. -/
theorem cString_of_not_nul {s : String} (hs : ¬ HasNul s) : cString s = .ok s := if_neg hs

/-- One with a NUL byte does not become a C string. -/
theorem cString_of_nul {s : String} (hs : HasNul s) : cString s = .error .nul := if_pos hs

/-- What has become a C string has no NUL byte. -/
theorem not_hasNul_of_cString {s t : String} (hs : cString s = .ok t) : ¬ HasNul s := by
  intro hnul
  rw [cString_of_nul hnul] at hs
  cases hs

/-- The C string has the text of the string. -/
theorem eq_of_cString {s t : String} (hs : cString s = .ok t) : t = s := by
  rw [cString_of_not_nul (not_hasNul_of_cString hs)] at hs
  exact (Except.ok.inj hs).symm

/-- A string that is no argument for a system call is replaced by the empty one. -/
theorem unpack_of_nul {s : String} (hs : HasNul s) : unpack (some s) = "" := by
  rw [unpack, Option.map_some, cString_of_nul hs]

/-- An optional string without NUL bytes is handed over as it is. -/
theorem unpack_of_not_nul {s : String} (hs : ¬ HasNul s) : unpack (some s) = s := by
  rw [unpack, Option.map_some, cString_of_not_nul hs]

/-- A joined string has no NUL byte if neither part has one. -/
theorem not_hasNul_append {s t : String} : ¬ HasNul (s ++ t) ↔ ¬ HasNul s ∧ ¬ HasNul t := by
  simp [HasNul]

/-- A file name. -/
abbrev FileName := List Char

/-- The step that a component stands for, with `..` taken literally. -/
def pathStep (c : FileName) : Step FileName := if c = ['.', '.'] then .up else .down c

/-- The steps of a path, its `.` and empty components left out. -/
def pathSteps (s : String) : List (Step FileName) := (pathComponents s).map pathStep

/-- A path is absolute if it begins with a slash. -/
def IsAbsolute (s : String) : Prop := s.toList.head? = some '/'

/-- Whether a path is absolute can be computed. -/
instance (s : String) : Decidable (IsAbsolute s) :=
  inferInstanceAs (Decidable (s.toList.head? = some '/'))

/-- The location a path leads to, for a process in the directory `cwd`. -/
def locate (cwd : List FileName) (s : String) : List FileName :=
  walk (if IsAbsolute s then [] else cwd) (pathSteps s)

/-- The components of a path are those before and those after a separator in it. -/
theorem pathComponents_append_slash (s t : String) :
    pathComponents (s ++ "/" ++ t) = pathComponents s ++ pathComponents t := by
  have hlist : (s ++ "/" ++ t).toList = s.toList ++ '/' :: t.toList := by simp
  rw [pathComponents, hlist, List.splitOn_append_cons_self, List.filter_append]
  rfl

/-- The empty path has no components. -/
@[simp] theorem pathComponents_empty : pathComponents "" = [] := by decide

/-- A separator at the end adds no component. -/
theorem pathComponents_append_of_slash {s : String} (hs : s.toList.getLast? = some '/')
    (t : String) : pathComponents (s ++ t) = pathComponents s ++ pathComponents t := by
  obtain ⟨front, hfront⟩ := List.getLast?_eq_some_iff.1 hs
  have heq : s = String.ofList front ++ "/" := by
    rw [← String.ofList_toList (s := s), hfront]
    simp
  have hend := pathComponents_append_slash (String.ofList front) ""
  rw [heq, pathComponents_append_slash]
  rw [pathComponents_empty, List.append_nil, String.append_empty] at hend
  rw [hend]

/-- Pushing a relative path puts at most one slash between the two. -/
theorem pathPush_of_relative {path child : String} (hrel : ¬ IsAbsolute child) :
    pathPush path child =
      if path.toList = [] ∨ path.toList.getLast? = some '/' then path ++ child
      else path ++ "/" ++ child := if_neg hrel

/-- Pushing a relative path appends its components. -/
theorem pathComponents_pathPush {path child : String} (hrel : ¬ IsAbsolute child) :
    pathComponents (pathPush path child) = pathComponents path ++ pathComponents child := by
  rw [pathPush_of_relative hrel]
  split
  · next hend =>
    rcases hend with hempty | hslash
    · obtain rfl : path = "" := String.toList_inj.1 hempty
      rw [pathComponents_empty, String.empty_append, List.nil_append]
    · exact pathComponents_append_of_slash hslash child
  · exact pathComponents_append_slash path child

/-- Pushing a relative path keeps the path absolute or relative. -/
theorem isAbsolute_pathPush {path child : String} (hrel : ¬ IsAbsolute child) :
    IsAbsolute (pathPush path child) ↔ IsAbsolute path := by
  rw [pathPush_of_relative hrel]
  cases hpath : path.toList with
  | nil =>
    -- the path is then the child
    obtain rfl : path = "" := String.toList_inj.1 hpath
    simpa [IsAbsolute] using hrel
  | cons c cs =>
    split <;> simp [IsAbsolute, hpath]

/-- `PathBuf::push` resolves its argument from where the path leads. -/
theorem locate_pathPush (cwd : List FileName) (path child : String) :
    locate cwd (pathPush path child) = locate (locate cwd path) child := by
  by_cases habs : IsAbsolute child
  · have hpush : pathPush path child = child := if_pos habs
    rw [hpush, locate, if_pos habs, locate, if_pos habs]
  · conv_rhs => rw [locate, if_neg habs]
    rw [locate, pathSteps, pathComponents_pathPush habs, List.map_append, walk_append,
      if_congr (isAbsolute_pathPush habs) rfl rfl]
    rfl

/-- The names a path climbs out of: those of its start, as far as it goes up. -/
def climbedNames (cwd : List FileName) (s : String) : List FileName :=
  (normalForm (pathSteps s)).climbed cwd

/-- The names a path goes down by, once its ups and downs are cancelled. -/
def downNames (s : String) : List FileName := (normalForm (pathSteps s)).names

/-- A path leads below the directory exactly if what it goes down does, from where it has climbed
    to. -/
theorem locate_eq_append_iff {cwd t : List FileName} {s : String} :
    locate cwd s = cwd ++ t ↔
      downNames s = (if IsAbsolute s then cwd else climbedNames cwd s) ++ t := by
  unfold locate
  by_cases habs : IsAbsolute s
  · rw [if_pos habs, if_pos habs, walk_root, downNames]
  · rw [if_neg habs, if_neg habs, walk_eq_append_iff, downNames, climbedNames]

/-- A path leads above the directory, or to it, exactly if what it goes down does. -/
theorem locate_prefix_iff {cwd : List FileName} {s : String} :
    locate cwd s <+: cwd ↔
      downNames s <+: if IsAbsolute s then cwd else climbedNames cwd s := by
  unfold locate
  by_cases habs : IsAbsolute s
  · rw [if_pos habs, if_pos habs, walk_root, downNames]
  · rw [if_neg habs, if_neg habs, walk_prefix_iff, downNames, climbedNames]

/-! ## The parent of a path -/

/-- Without the last component there is one component less. -/
theorem popComponent_eq_some {names front : List FileName} (hpop : popComponent names = some front) :
    front <+: names ∧ (front.filter fun c => c ≠ [] ∧ c ≠ ['.']) =
      (names.filter fun c => c ≠ [] ∧ c ≠ ['.']).dropLast := by
  -- What is dropped at the end is no component
  have hdrop : ∀ l : List FileName,
      ((l.rdropWhile fun c => c = [] ∨ c = ['.']).filter fun c => c ≠ [] ∧ c ≠ ['.']) =
        l.filter fun c => c ≠ [] ∧ c ≠ ['.'] := by
    intro l
    have hend : (l.rtakeWhile fun c => c = [] ∨ c = ['.']).filter (fun c => c ≠ [] ∧ c ≠ ['.']) =
        [] := by
      refine List.filter_eq_nil_iff.2 fun c hc => ?_
      have hno := List.mem_rtakeWhile_imp hc
      simpa [imp_iff_not_or] using hno
    conv_rhs => rw [← List.rdropWhile_append_rtakeWhile (p := fun c => c = [] ∨ c = ['.']) (l := l),
      List.filter_append, hend, List.append_nil]
  unfold popComponent at hpop
  split at hpop
  · cases hpop
  · next c cs hcs =>
    obtain rfl := Option.some.inj hpop
    have hpre : c :: cs <+: names := hcs ▸ List.rdropWhile_prefix _ names
    refine ⟨(List.rdropWhile_prefix _ _).trans ((List.dropLast_prefix _).trans hpre), ?_⟩
    -- And what stands last then is one
    have hlast := List.rdropWhile_last_not (fun c => c = [] ∨ c = ['.']) names (by rw [hcs]; simp)
    simp only [hcs] at hlast
    rw [hdrop, ← hdrop names, hcs]
    conv_rhs => rw [← List.dropLast_append_getLast (List.cons_ne_nil c cs)]
    rw [List.filter_append, List.filter_cons_of_pos (by simpa using hlast), List.filter_nil,
      List.dropLast_concat]

/-- Without a component there is none to be dropped. -/
theorem popComponent_eq_none {names : List FileName} (hpop : popComponent names = none) :
    (names.filter fun c => c ≠ [] ∧ c ≠ ['.']) = [] := by
  unfold popComponent at hpop
  split at hpop
  · next hnil =>
    refine List.filter_eq_nil_iff.2 fun c hc => ?_
    have hno := List.rdropWhile_eq_nil_iff.1 hnil c hc
    simpa [imp_iff_not_or] using hno
  · cases hpop

/-- An absolute path has nothing before its first separator. -/
theorem isAbsolute_iff (path : String) :
    IsAbsolute path ↔ ∃ c cs, path.toList.splitOn '/' = [] :: c :: cs := by
  unfold IsAbsolute
  cases path.toList with
  | nil => simp
  | cons x xs =>
    rw [List.splitOn_cons_eq_if_modifyHead]
    cases hxs : xs.splitOn '/' with
    | nil => exact absurd hxs (List.splitOn_ne_nil '/' xs)
    | cons d ds => by_cases hx : x = '/' <;> simp [hx]

/-- The components of names that are joined by separators. -/
theorem filter_splitOn_intercalate {names : List FileName} (hnames : ∀ c ∈ names, '/' ∉ c) :
    (((List.intercalate ['/'] names).splitOn '/').filter fun c => c ≠ [] ∧ c ≠ ['.']) =
      names.filter fun c => c ≠ [] ∧ c ≠ ['.'] := by
  by_cases hnil : names = []
  · rw [hnil]
    decide
  · rw [List.splitOn_intercalate '/' hnames hnil]

/-- A path made of a name and others is relative if the name is not empty. -/
theorem not_isAbsolute_intercalate {c : FileName} {names : List FileName}
    (hnames : ∀ d ∈ c :: names, '/' ∉ d) (hc : c ≠ []) :
    ¬ IsAbsolute (String.ofList (List.intercalate ['/'] (c :: names))) := by
  rw [isAbsolute_iff, String.toList_ofList, List.splitOn_intercalate '/' hnames (by simp)]
  rintro ⟨d, ds, heq⟩
  exact hc (List.cons.inj heq).1

/-- The parent of a path is as absolute as the path, and has its components but for the last. -/
theorem pathParent_eq_some {path parent : String} (hparent : pathParent path = some parent) :
    (IsAbsolute parent ↔ IsAbsolute path) ∧
      pathComponents parent = (pathComponents path).dropLast := by
  -- No piece between separators has one in it
  have hslash : ∀ c ∈ path.toList.splitOn '/', '/' ∉ c := fun c hc => Fields.not_mem_of_mem_splitOn hc
  unfold pathParent at hparent
  unfold pathComponents
  rw [isAbsolute_iff path]
  split at hparent
  · -- an absolute path
    next c cs hnames =>
    obtain ⟨names, hpop, rfl⟩ := Option.map_eq_some_iff.1 hparent
    obtain ⟨hpre, hfilter⟩ := popComponent_eq_some hpop
    rw [hnames] at hslash ⊢
    rw [String.toList_ofList, List.splitOn_cons_eq_if_modifyHead, if_pos (by decide),
      List.filter_cons_of_neg (by decide), List.filter_cons_of_neg (by decide),
      filter_splitOn_intercalate fun d hd => hslash d (List.mem_cons_of_mem _ (hpre.subset hd))]
    refine ⟨iff_of_true ?_ ⟨c, cs, rfl⟩, hfilter⟩
    rw [IsAbsolute, String.toList_ofList]
    rfl
  · -- one that begins with `.`
    next cs hnames =>
    have hrel : ¬ ∃ c cs', path.toList.splitOn '/' = [] :: c :: cs' := by
      rw [hnames]
      rintro ⟨c, cs', heq⟩
      cases (List.cons.inj heq).1
    rw [iff_false_right hrel]
    rw [hnames] at hslash ⊢
    rw [List.filter_cons_of_neg (by decide)]
    split at hparent
    · next names hpop =>
      obtain rfl := Option.some.inj hparent
      obtain ⟨hpre, hfilter⟩ := popComponent_eq_some hpop
      have hsub : ∀ d ∈ ['.'] :: names, '/' ∉ d := fun d hd =>
        hslash d ((List.cons_subset_cons _ hpre.subset) hd)
      rw [String.toList_ofList, filter_splitOn_intercalate hsub,
        List.filter_cons_of_neg (by decide)]
      exact ⟨not_isAbsolute_intercalate hsub (by decide), hfilter⟩
    · next hpop =>
      -- Nothing but `.` is left
      obtain rfl := Option.some.inj hparent
      rw [popComponent_eq_none hpop]
      exact ⟨by decide, by decide⟩
  · -- one that begins with a name
    next hnoslash hnodot =>
    obtain ⟨names, hpop, rfl⟩ := Option.map_eq_some_iff.1 hparent
    obtain ⟨hpre, hfilter⟩ := popComponent_eq_some hpop
    have hrel : ¬ ∃ c cs', path.toList.splitOn '/' = [] :: c :: cs' :=
      fun ⟨c, cs', heq⟩ => hnoslash c cs' heq
    have hsub : ∀ d ∈ names, '/' ∉ d := fun d hd => hslash d (hpre.subset hd)
    rw [iff_false_right hrel, String.toList_ofList, filter_splitOn_intercalate hsub]
    refine ⟨?_, hfilter⟩
    -- Either no name is left, or the one that comes first is not empty
    cases names with
    | nil => decide
    | cons d ds =>
      refine not_isAbsolute_intercalate hsub fun hnil => ?_
      subst hnil
      -- The empty name would come first, and be all there is
      obtain ⟨cs, hcs⟩ := hpre
      cases hrest : ds ++ cs with
      | nil =>
        rw [List.cons_append, hrest] at hcs
        rw [← hcs] at hpop
        have hnone : popComponent [[]] = none := by decide
        rw [hnone] at hpop
        cases hpop
      | cons c cs' =>
        rw [List.cons_append, hrest] at hcs
        exact hnoslash c cs' hcs.symm

/-- A path has the characters of its parent, but perhaps a separator. -/
theorem mem_of_mem_pathParent {path parent : String} (hparent : pathParent path = some parent)
    {c : Char} (hslash : c ≠ '/') (hc : c ∈ parent.toList) : c ∈ path.toList := by
  -- What is joined to the parent stands between separators of the path
  have hjoined : ∀ names : List FileName, (∀ d ∈ names, d ∈ path.toList.splitOn '/') →
      c ∈ List.intercalate ['/'] names → c ∈ path.toList := by
    intro names hnames hmem
    rcases Fields.mem_intercalate hmem with heq | ⟨name, hname, hin⟩
    · exact absurd heq hslash
    · exact Fields.subset_of_mem_splitOn (hnames name hname) hin
  unfold pathParent at hparent
  split at hparent
  · next d ds hnames =>
    obtain ⟨names, hpop, rfl⟩ := Option.map_eq_some_iff.1 hparent
    rw [String.toList_ofList] at hc
    -- The slash in front is no character of a piece
    refine hjoined names (fun e he => ?_) ((List.mem_cons.1 hc).resolve_left hslash)
    rw [hnames]
    exact List.mem_cons_of_mem _ ((popComponent_eq_some hpop).1.subset he)
  · next ds hnames =>
    split at hparent
    · next names hpop =>
      obtain rfl := Option.some.inj hparent
      rw [String.toList_ofList] at hc
      refine hjoined _ (fun e he => ?_) hc
      rw [hnames]
      exact List.cons_subset_cons _ (popComponent_eq_some hpop).1.subset he
    · obtain rfl := Option.some.inj hparent
      exact absurd hc (by simp)
  · obtain ⟨names, hpop, rfl⟩ := Option.map_eq_some_iff.1 hparent
    rw [String.toList_ofList] at hc
    exact hjoined names (fun e he => (popComponent_eq_some hpop).1.subset he) hc

end Styrolite
