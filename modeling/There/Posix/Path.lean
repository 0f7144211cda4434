import Mathlib.Data.List.DropRight

/-!
# Path resolution

A path is a list of segments between slashes. It is resolved from the root or from the
working directory, one segment after the other, and whatever is followed by a slash has
to be a directory. The nodes of the tree and what a directory has under a name, symbolic
links followed, are parameters.

An empty path is not resolved. A path without a slash has a directory all the same: the
one that its only segment is looked up in.
-/

namespace Posix

variable {ν : Type}

structure FileTree (ν : Type) where
  root : ν
  cwd : ν
  isDir : ν → Bool
  /-- What a directory has under a name, with symbolic links followed. -/
  entry : ν → List Char → Option ν
  root_isDir : isDir root
  cwd_isDir : isDir cwd

def segments (path : List Char) : List (List Char) := path.splitOn '/'

/-- The segment stands for the directory that it is looked up in. -/
def stays (segment : List Char) : Bool := segment == [] || segment == ['.']

/-- The segment is the name of an entry other than the directory and its parent. -/
def IsName (segment : List Char) : Prop := ¬ stays segment ∧ segment ≠ ['.', '.']

instance (segment : List Char) : Decidable (IsName segment) := inferInstanceAs (Decidable (_ ∧ _))

/-- The last segment of the path is a name. -/
def EndsInName (path : List Char) : Prop := ∀ last ∈ (segments path).getLast?, IsName last

instance (path : List Char) : Decidable (EndsInName path) := Option.decidableForallMem _

namespace FileTree

variable (t : FileTree ν)

def walk : ν → List (List Char) → Option ν
  | n, [] => some n
  | n, segment :: rest =>
      if t.isDir n then
        if stays segment then walk n rest else (t.entry n segment).bind (walk · rest)
      else
        none

/-- An absolute path begins with an empty segment. -/
def start (segments : List (List Char)) : ν :=
  if segments.head? = some [] then t.root else t.cwd

def resolve (path : List Char) : Option ν :=
  if path = [] then none else t.walk (t.start (segments path)) (segments path)

/-- Where the last segment of a path is looked up, and where it would be created. Slashes
at the end are not taken for a segment. -/
def container (path : List Char) : Option ν :=
  if path = [] then none
  else t.walk (t.start (segments path)) ((segments path).rdropWhile (· == [])).dropLast

/-- The segments lead to a directory. -/
def LeadsToDir (n : ν) (segments : List (List Char)) : Prop :=
  ∃ d ∈ t.walk n segments, t.isDir d

/-- There is a directory at the path. -/
def DirExists (path : List Char) : Prop := ∃ d ∈ t.resolve path, t.isDir d

/-- There is a directory for the last segment of the path to be created in. -/
def ContainerExists (path : List Char) : Prop := ∃ d ∈ t.container path, t.isDir d

variable {t : FileTree ν} {n : ν} {segment : List Char} {segs : List (List Char)}

theorem walk_append (n : ν) (segs segs' : List (List Char)) :
    t.walk n (segs ++ segs') = (t.walk n segs).bind (t.walk · segs') := by
  induction segs generalizing n with
  | nil => rfl
  | cons segment segs ih =>
      simp only [List.cons_append, walk]
      split
      · split
        · exact ih n
        · rw [Option.bind_assoc]
          exact congrArg _ (funext ih)
      · rfl

theorem leadsToDir_cons (dir : t.isDir n) (here : stays segment) :
    t.LeadsToDir n (segment :: segs) ↔ t.LeadsToDir n segs := by
  rw [LeadsToDir, walk, if_pos dir, if_pos here, LeadsToDir]

/-- A segment that stays can be left out at the end. -/
theorem leadsToDir_concat (here : stays segment) :
    t.LeadsToDir n (segs ++ [segment]) ↔ t.LeadsToDir n segs := by
  simp only [LeadsToDir, walk_append]
  cases t.walk n segs with
  | none => simp
  | some d => by_cases dir : t.isDir d <;> simp [walk, dir, here]

theorem leadsToDir_rdropWhile (n : ν) (segs : List (List Char)) :
    t.LeadsToDir n (segs.rdropWhile stays) ↔ t.LeadsToDir n segs := by
  induction segs using List.reverseRecOn with
  | nil => rw [List.rdropWhile_nil]
  | append_singleton segs segment ih =>
      by_cases here : stays segment
      · rw [List.rdropWhile_concat_pos _ _ _ here, ih, leadsToDir_concat here]
      · rw [List.rdropWhile_concat_neg _ _ _ here]

end FileTree

section Segments

theorem segments_ne_nil (path : List Char) : segments path ≠ [] := List.splitOn_ne_nil _ _

/-- There is no slash in a segment. -/
theorem slash_not_mem {path segment : List Char} (mem : segment ∈ segments path) :
    '/' ∉ segment := by
  rw [segments, List.splitOn] at mem
  induction path generalizing segment with
  | nil =>
      obtain rfl : segment = [] := by simpa using mem
      exact List.not_mem_nil
  | cons c path ih =>
      rw [List.splitOnP_cons_eq_if_modifyHead] at mem
      split at mem
      · rcases List.mem_cons.mp mem with rfl | mem
        · exact List.not_mem_nil
        · exact ih mem
      · rename_i ne
        cases parts : List.splitOnP (· == '/') path with
        | nil => exact absurd parts (List.splitOnP_ne_nil _ _)
        | cons head rest =>
            rw [parts] at ih mem
            rcases List.mem_cons.mp mem with rfl | mem
            · have free := ih List.mem_cons_self
              simp only [List.mem_cons, not_or]
              exact ⟨fun eq => ne (by simpa using eq.symm), free⟩
            · exact ih (List.mem_cons_of_mem _ mem)

theorem EndsInName.exists_concat {path : List Char} (name : EndsInName path) :
    ∃ init last, segments path = init ++ [last] ∧ IsName last := by
  obtain none | ⟨init, last, eq⟩ := List.eq_nil_or_concat' (segments path)
  · exact absurd none (segments_ne_nil path)
  · exact ⟨init, last, eq, name last (by simp [eq])⟩

/-- A path with a single segment has no slash in it. -/
theorem slash_mem_iff {path : List Char} {init : List (List Char)} {last : List Char}
    (eq : segments path = init ++ [last]) : '/' ∈ path ↔ init ≠ [] := by
  have back : ['/'].intercalate (segments path) = path := List.intercalate_splitOn '/'
  cases init with
  | nil =>
      rw [List.nil_append] at eq
      rw [eq, List.intercalate_singleton] at back
      subst back
      simpa using slash_not_mem (by rw [eq]; exact List.mem_cons_self)
  | cons first init =>
      refine iff_of_true ?_ (List.cons_ne_nil _ _)
      rw [← back, eq, List.cons_append, List.intercalate_cons_of_ne_nil (by simp)]
      simp

/-- A path is made of slashes and of its segments. -/
theorem mem_intercalate {segs : List (List Char)} {c : Char} (mem : c ∈ ['/'].intercalate segs) :
    c = '/' ∨ ∃ segment ∈ segs, c ∈ segment := by
  induction segs with
  | nil => simp at mem
  | cons segment segs ih =>
      by_cases last : segs = []
      · subst last
        rw [List.intercalate_singleton] at mem
        exact .inr ⟨segment, List.mem_cons_self, mem⟩
      · rw [List.intercalate_cons_of_ne_nil last, List.append_assoc, List.mem_append,
          List.mem_append, List.mem_singleton] at mem
        rcases mem with mem | rfl | mem
        · exact .inr ⟨segment, List.mem_cons_self, mem⟩
        · exact .inl rfl
        · exact (ih mem).imp_right fun ⟨seg, mem, mem'⟩ => ⟨seg, List.mem_cons_of_mem _ mem, mem'⟩

theorem mem_of_mem_segments {path segment : List Char} {c : Char} (mem : segment ∈ segments path)
    (mem' : c ∈ segment) : c ∈ path := by
  have back : ['/'].intercalate (segments path) = path := List.intercalate_splitOn '/'
  have within : ∀ segs : List (List Char), segment ∈ segs → c ∈ ['/'].intercalate segs := by
    intro segs mem
    induction segs with
    | nil => cases mem
    | cons first segs ih =>
        by_cases last : segs = []
        · subst last
          obtain rfl := List.mem_singleton.mp mem
          rwa [List.intercalate_singleton]
        · rw [List.intercalate_cons_of_ne_nil last]
          rcases List.mem_cons.mp mem with rfl | mem
          · simp [mem']
          · exact List.mem_append_right _ (ih mem)
  rw [← back]
  exact within _ mem

namespace FileTree

variable (t : FileTree ν) {segs : List (List Char)}

/-- The path of some segments, and what they lead to. -/
theorem dirExists_intercalate (ne : segs ≠ []) (free : ∀ segment ∈ segs, '/' ∉ segment)
    (something : segs ≠ [[]]) :
    t.DirExists (['/'].intercalate segs) ↔ t.LeadsToDir (t.start segs) segs := by
  have back : segments (['/'].intercalate segs) = segs := List.splitOn_intercalate '/' free ne
  have nonempty : ['/'].intercalate segs ≠ [] := by
    intro empty
    rw [empty] at back
    exact something back.symm
  rw [DirExists, resolve, if_neg nonempty, back, LeadsToDir]

theorem containerExists_iff {path : List Char} {init : List (List Char)} {last : List Char}
    (eq : segments path = init ++ [last]) (name : IsName last) :
    t.ContainerExists path ↔ t.LeadsToDir (t.start (init ++ [last])) init := by
  have something : last ≠ [] := by
    rintro rfl
    exact name.1 rfl
  have nonempty : path ≠ [] := by
    rintro rfl
    have single : [[]] = init ++ [last] := eq
    cases init with
    | nil => simp [something.symm] at single
    | cons first init => simp at single
  rw [ContainerExists, container, if_neg nonempty, eq,
    List.rdropWhile_concat_neg _ _ _ (by simpa using something), List.dropLast_concat, LeadsToDir]

/-- A name without a slash is created in the working directory. -/
theorem containerExists_of_no_slash {path : List Char} (name : EndsInName path)
    (free : '/' ∉ path) : t.ContainerExists path := by
  obtain ⟨init, last, eq, isName⟩ := name.exists_concat
  obtain rfl : init = [] := by simpa [slash_mem_iff eq] using free
  have relative : last ≠ [] := by
    rintro rfl
    exact isName.1 rfl
  rw [containerExists_iff t eq isName, start, if_neg (by simpa using relative)]
  exact ⟨_, rfl, t.cwd_isDir⟩

end FileTree

end Segments

namespace FileTree

/-- Nothing that was in the tree has gone. -/
structure Extends (t t' : FileTree ν) : Prop where
  root : t'.root = t.root
  cwd : t'.cwd = t.cwd
  isDir : ∀ n, t.isDir n → t'.isDir n
  entry : ∀ n segment m, t.entry n segment = some m → t'.entry n segment = some m

variable {t t' t'' : FileTree ν} {n m : ν} {path : List Char}

theorem Extends.refl (t : FileTree ν) : t.Extends t :=
  ⟨rfl, rfl, fun _ h => h, fun _ _ _ h => h⟩

theorem Extends.trans (h : t.Extends t') (h' : t'.Extends t'') : t.Extends t'' where
  root := h'.root.trans h.root
  cwd := h'.cwd.trans h.cwd
  isDir n dir := h'.isDir n (h.isDir n dir)
  entry n segment m found := h'.entry n segment m (h.entry n segment m found)

theorem Extends.walk (h : t.Extends t') {segs : List (List Char)} (found : t.walk n segs = some m) :
    t'.walk n segs = some m := by
  induction segs generalizing n with
  | nil => exact found
  | cons segment segs ih =>
      rw [FileTree.walk] at found ⊢
      split at found
      · rename_i dir
        rw [if_pos (h.isDir n dir)]
        split at found
        · rw [if_pos ‹_›]
          exact ih found
        · obtain ⟨child, entry, found⟩ := Option.bind_eq_some_iff.mp found
          rw [if_neg ‹_›, h.entry n segment child entry, Option.bind_some]
          exact ih found
      · cases found

/-- A path leads where it has led before. -/
theorem Extends.resolve (h : t.Extends t') (found : t.resolve path = some n) :
    t'.resolve path = some n := by
  have start : t'.start (segments path) = t.start (segments path) := by
    rw [FileTree.start, h.root, h.cwd, FileTree.start]
  rw [FileTree.resolve] at found ⊢
  split at found
  · cases found
  · rw [if_neg ‹_›, start]
    exact h.walk found

theorem Extends.dirExists (h : t.Extends t') (dir : t.DirExists path) : t'.DirExists path := by
  obtain ⟨d, found, isDir⟩ := dir
  exact ⟨d, h.resolve found, h.isDir d isDir⟩

end FileTree

end Posix
