import WireSchema.Command.Run
import Mathlib.Data.List.Basic

/-! # Writing below a directory

A path below a directory leads on from where the directory is (`locate_below`), also if the path of
the directory is empty, ends with a slash or has steps back in it. Making directories and writing
files only add to the locations that a path can lead through (`Grown`), so that all files of a list
are written below one location. `Writes.file?` says what is in the tree afterwards. -/

namespace WireSchema.Command

namespace FileTree

/-! ### Names in paths -/

theorem names_append_slash (front path : String) :
    names (front ++ "/" ++ path) = names front ++ names path := by
  have hslash : "/".toList = ['/'] := rfl
  simp only [names, String.toList_append, hslash, List.append_assoc, List.singleton_append,
    List.splitOn_append_cons_self, List.map_append]

theorem names_empty : names "" = [""] := rfl

theorem names_ne_nil (path : String) : names path ≠ [] := by
  simp [names]

/-- A name that leads one step down. -/
def IsPlain (name : String) : Prop := name ≠ "" ∧ name ≠ "." ∧ name ≠ ".."

/-- A path that leads down with every name. -/
def PlainPath (path : String) : Prop := ∀ name ∈ names path, IsPlain name

theorem PlainPath.toList_head {path : String} (h : PlainPath path) :
    path.toList.head?.isSome ∧ path.toList.head? ≠ some '/' := by
  unfold PlainPath names at h
  cases hpath : path.toList with
  | nil => simp [hpath, IsPlain] at h
  | cons c rest =>
    refine ⟨rfl, fun hc => ?_⟩
    cases hc
    simp [hpath, List.splitOn_cons_eq_if_modifyHead, IsPlain] at h

theorem startsWith_iff (path : String) : path.startsWith "/" ↔ path.toList.head? = some '/' := by
  rw [String.startsWith_string_iff]
  cases path.toList with
  | nil => simp
  | cons c rest => simp [eq_comm]

theorem endsWith_slash {path : String} (h : path.endsWith "/") : ∃ front, path = front ++ "/" := by
  rw [String.endsWith_eq_endsWith_toSlice, String.Slice.endsWith_string_iff,
    String.copy_toSlice] at h
  obtain ⟨front, hfront⟩ := h
  refine ⟨String.ofList front, String.toList_inj.1 ?_⟩
  simp only [← hfront, String.toList_append, String.toList_ofList]

/-! ### Following paths -/

variable {t t' : FileTree} {l l' : Location}

theorem follow_append (t : FileTree) (l : Location) (front rest : List String) :
    t.follow l (front ++ rest) = (t.follow l front).bind (t.follow · rest) := by
  induction front generalizing l with
  | nil => rfl
  | cons name front ih =>
    rw [List.cons_append, follow, follow]
    split_ifs with hdir hstay hback
    · exact ih l
    · exact ih l.dropLast
    · exact ih (l ++ [name])
    · rfl

/-- An empty name leads nowhere else. -/
theorem follow_empty_cons (t : FileTree) (l : Location) {rest : List String} (h : rest ≠ []) :
    t.follow l ("" :: rest) = t.follow l rest := by
  obtain ⟨name, rest, rfl⟩ := List.exists_cons_of_ne_nil h
  by_cases hdir : t.isDir l
  · rw [follow, if_pos hdir, if_pos (Or.inl rfl)]
  · rw [follow, follow, if_neg hdir, if_neg hdir]

theorem eq_append_of_follow {names : List String} (h : ∀ name ∈ names, IsPlain name)
    (hf : t.follow l names = some l') : l' = l ++ names := by
  induction names generalizing l with
  | nil =>
    cases hf
    rw [List.append_nil]
  | cons name names ih =>
    obtain ⟨hempty, hdot, hdots⟩ := h name List.mem_cons_self
    rw [follow] at hf
    split_ifs at hf with hdir hstay
    · exact absurd hstay (by simp [hempty, hdot])
    · rw [ih (fun name hn => h name (List.mem_cons_of_mem _ hn)) hf, List.append_assoc]
      rfl

/-- A path below a directory leads on from the directory. -/
theorem follow_below (t : FileTree) (l : Location) (directory path : String) :
    t.follow l (names (below directory path)) =
      (t.follow l (names directory)).bind (t.follow · (names path)) := by
  have hempty (l : Location) : t.follow l ("" :: names path) = t.follow l (names path) :=
    follow_empty_cons t l (names_ne_nil path)
  unfold below
  split_ifs with hend
  · rcases hend with rfl | hend
    · rw [String.empty_append, names_empty, ← follow_append]
      exact (hempty l).symm
    · obtain ⟨front, rfl⟩ := endsWith_slash hend
      have hfront : names (front ++ "/") = names front ++ [""] := by
        rw [← names_empty, ← names_append_slash, String.append_empty]
      rw [names_append_slash, hfront, ← follow_append, List.append_assoc, follow_append,
        follow_append]
      exact congrArg _ (funext fun l => (hempty l).symm)
  · rw [names_append_slash, follow_append]

theorem start_below (t : FileTree) (directory : String) {path : String} (h : PlainPath path) :
    t.start (below directory path) = t.start directory := by
  have hstart : (below directory path).startsWith "/" = directory.startsWith "/" := by
    rw [Bool.eq_iff_iff, startsWith_iff, startsWith_iff]
    unfold below
    by_cases hdirectory : directory = ""
    · subst hdirectory
      simp [h.toList_head.2]
    · have hne : directory.toList ≠ [] := by simpa using hdirectory
      obtain ⟨c, rest, hc⟩ := List.exists_cons_of_ne_nil hne
      split_ifs <;> simp [hc]
  unfold start
  rw [hstart]

theorem below_ne_empty (directory : String) {path : String} (h : PlainPath path) :
    below directory path ≠ "" := by
  obtain ⟨c, hc⟩ := Option.isSome_iff_exists.1 h.toList_head.1
  obtain ⟨rest, hrest⟩ := List.head?_eq_some_iff.1 hc
  rw [Ne, ← String.toList_inj]
  unfold below
  split_ifs <;> simp [hrest]

/-- Where a path below a directory is: below the location of the directory. -/
theorem locate_below {directory path : String} (h : PlainPath path)
    (hl : t.locate (below directory path) = some l) :
    ∃ base, t.follow (t.start directory) (names directory) = some base ∧
      l = base ++ names path := by
  unfold locate at hl
  rw [if_neg (below_ne_empty directory h), start_below t directory h, follow_below] at hl
  obtain ⟨base, hbase, hl⟩ := Option.bind_eq_some_iff.1 hl
  exact ⟨base, hbase, eq_append_of_follow h hl⟩

/-! ### Growing trees -/

/-- All directories of `t` are in `t'`. -/
structure Grown (t t' : FileTree) : Prop where
  current : t'.current = t.current
  isDir : ∀ l, t.isDir l → t'.isDir l

theorem Grown.refl (t : FileTree) : Grown t t := ⟨rfl, fun _ h => h⟩

theorem Grown.trans {t₁ t₂ t₃ : FileTree} (h : Grown t₁ t₂) (h' : Grown t₂ t₃) : Grown t₁ t₃ :=
  ⟨h'.current.trans h.current, fun l hl => h'.isDir l (h.isDir l hl)⟩

theorem Grown.start_eq (h : Grown t t') (path : String) : t'.start path = t.start path := by
  unfold start
  rw [h.current]

theorem Grown.follow (h : Grown t t') {names : List String} (hf : t.follow l names = some l') :
    t'.follow l names = some l' := by
  induction names generalizing l with
  | nil => exact hf
  | cons name names ih =>
    rw [FileTree.follow] at hf ⊢
    split_ifs at hf with hdir hstay hback
    · rw [if_pos (h.isDir l hdir), if_pos hstay]
      exact ih hf
    · rw [if_pos (h.isDir l hdir), if_neg hstay, if_pos hback]
      exact ih hf
    · rw [if_pos (h.isDir l hdir), if_neg hstay, if_neg hback]
      exact ih hf

theorem grown_makeDir (t : FileTree) (l : Location) : Grown t (t.makeDir l) := by
  unfold makeDir
  split_ifs
  · exact .refl t
  · refine ⟨rfl, fun l' hl' => ?_⟩
    simp only [FileTree.isDir, List.any_cons, Bool.or_eq_true] at hl' ⊢
    tauto

theorem files_makeDir (t : FileTree) (l : Location) : (t.makeDir l).files = t.files := by
  unfold makeDir
  split_ifs <;> rfl

theorem makeAlong_grown {names : List String} (h : t.makeAlong l names = some t') :
    Grown t t' ∧ t'.files = t.files := by
  induction names generalizing t l with
  | nil =>
    cases h
    exact ⟨.refl _, rfl⟩
  | cons name names ih =>
    rw [makeAlong] at h
    split_ifs at h with hstay hback hfile
    · exact ih h
    · exact ih h
    · obtain ⟨hgrown, hfiles⟩ := ih h
      exact ⟨(grown_makeDir t _).trans hgrown, hfiles.trans (files_makeDir t _)⟩

theorem lookup_filter_ne {files : List (Location × Bytes)} (hne : l' ≠ l) :
    (files.filter (·.1 != l)).lookup l' = files.lookup l' := by
  induction files with
  | nil => rfl
  | cons file files ih =>
    obtain ⟨place, bytes⟩ := file
    by_cases hplace : place = l
    · subst hplace
      rw [List.filter_cons_of_neg (by simp), ih, List.lookup_cons, beq_false_of_ne hne]
    · rw [List.filter_cons_of_pos (by simpa using hplace), List.lookup_cons, List.lookup_cons, ih]

/-- A file that is written is the only one that changes. -/
theorem writeText_eq_some {path text : String} (h : t.writeText path text = some t') :
    ∃ l, t.locate path = some l ∧ Grown t t' ∧ t'.file? l = some (Utf8.ofString text) ∧
      ∀ l', l' ≠ l → t'.file? l' = t.file? l' := by
  unfold writeText at h
  split at h
  · cases h
  · next l hl =>
    split_ifs at h with hdir
    cases h
    refine ⟨l, hl, ⟨rfl, fun place hplace => ?_⟩, ?_, fun l' hne => ?_⟩
    · unfold FileTree.isDir at hplace ⊢
      rw [Bool.or_eq_true] at hplace ⊢
      refine hplace.imp id fun hfile => ?_
      obtain ⟨file, hfile, hp⟩ := List.any_eq_true.1 hfile
      refine List.any_eq_true.2 ?_
      by_cases hat : file.1 = l
      · exact ⟨(l, _), List.mem_cons_self, hat ▸ hp⟩
      · exact ⟨file, List.mem_cons_of_mem _ (List.mem_filter.2 ⟨hfile, by simpa using hat⟩), hp⟩
    · rw [file?, List.lookup_cons, beq_self_eq_true]
    · rw [file?, List.lookup_cons, beq_false_of_ne hne]
      exact lookup_filter_ne hne

/-! ### Writing files -/

/-- Making directories and writing files below a directory, one after another, succeeds and leads to
a tree. -/
inductive Writes (directory : String) : FileTree → List OutputFile → FileTree → Prop
  | nil (t : FileTree) : Writes directory t [] t
  | cons {t t₁ t₂ t₃ : FileTree} {file : OutputFile} {files : List OutputFile}
    (hdirs : t.makeDirs (parent (below directory file.path)) = some t₁)
    (hwrite : t₁.writeText (below directory file.path) file.content = some t₂)
    (hrest : Writes directory t₂ files t₃) : Writes directory t (file :: files) t₃

variable {directory : String} {files : List OutputFile}

theorem Writes.grown (h : Writes directory t files t') : Grown t t' := by
  induction h with
  | nil t => exact .refl t
  | cons hdirs hwrite _ ih =>
    obtain ⟨-, -, hgrown, -⟩ := writeText_eq_some hwrite
    exact (makeAlong_grown hdirs).1.trans (hgrown.trans ih)

/-- One file, and where it is in the tree in the end. -/
theorem file?_of_write {t₁ t₂ : FileTree} {file : OutputFile}
    (hplain : PlainPath file.path)
    (hdirs : t.makeDirs (parent (below directory file.path)) = some t₁)
    (hwrite : t₁.writeText (below directory file.path) file.content = some t₂)
    (hgrown : Grown t₂ t') :
    ∃ base, t'.follow (t'.start directory) (names directory) = some base ∧
      t₂.file? (base ++ names file.path) = some (Utf8.ofString file.content) ∧
      ∀ l, l ≠ base ++ names file.path → t₂.file? l = t.file? l := by
  obtain ⟨l, hl, hgrown₁, hfile, hframe⟩ := writeText_eq_some hwrite
  obtain ⟨base, hbase, rfl⟩ := locate_below hplain hl
  have hall := hgrown₁.trans hgrown
  refine ⟨base, ?_, hfile, fun l hl => ?_⟩
  · rw [hall.start_eq]
    exact hall.follow hbase
  · rw [hframe l hl, file?, file?, (makeAlong_grown hdirs).2]

theorem Writes.exists_base (h : Writes directory t files t') (hne : files ≠ [])
    (hplain : ∀ file ∈ files, PlainPath file.path) :
    ∃ base, t'.follow (t'.start directory) (names directory) = some base := by
  cases h with
  | nil => exact absurd rfl hne
  | cons hdirs hwrite hrest =>
    obtain ⟨base, hbase, -⟩ := file?_of_write (hplain _ List.mem_cons_self) hdirs hwrite hrest.grown
    exact ⟨base, hbase⟩

/-- All files stand below the location of the directory, and nothing else changes. -/
theorem Writes.file? {base : Location} (h : Writes directory t files t')
    (hplain : ∀ file ∈ files, PlainPath file.path)
    (hsame : ∀ file ∈ files, ∀ other ∈ files, names file.path = names other.path →
      file.content = other.content)
    (hbase : t'.follow (t'.start directory) (names directory) = some base) :
    (∀ file ∈ files, t'.file? (base ++ names file.path) = some (Utf8.ofString file.content)) ∧
    ∀ l, (∀ file ∈ files, l ≠ base ++ names file.path) → t'.file? l = t.file? l := by
  induction h with
  | nil t => exact ⟨fun _ h => absurd h List.not_mem_nil, fun _ _ => rfl⟩
  | @cons t t₁ t₂ t₃ first files hdirs hwrite hrest ih =>
    obtain ⟨hfiles, hframe⟩ := ih (fun file hf => hplain file (List.mem_cons_of_mem _ hf))
      (fun file hf other ho => hsame file (List.mem_cons_of_mem _ hf) other
        (List.mem_cons_of_mem _ ho)) hbase
    obtain ⟨base', hbase', hfirst, hothers⟩ :=
      file?_of_write (hplain first List.mem_cons_self) hdirs hwrite hrest.grown
    obtain rfl : base' = base := Option.some.inj (hbase'.symm.trans hbase)
    refine ⟨fun file hfile => ?_, fun l hl => ?_⟩
    · -- a path that comes again is written again, with the same text
      by_cases hagain : ∃ other ∈ files, names file.path = names other.path
      · obtain ⟨other, hother, hpath⟩ := hagain
        rw [hpath, hfiles other hother,
          hsame file hfile other (List.mem_cons_of_mem _ hother) hpath]
      · have hnew : ∀ other ∈ files, base' ++ names file.path ≠ base' ++ names other.path :=
          fun other hother heq => hagain ⟨other, hother, List.append_cancel_left heq⟩
        rw [hframe _ hnew]
        rcases List.mem_cons.1 hfile with rfl | hmem
        · exact hfirst
        · exact absurd ⟨file, hmem, rfl⟩ hagain
    · rw [hframe l fun file hf => hl file (List.mem_cons_of_mem _ hf)]
      exact hothers l (hl first List.mem_cons_self)

end FileTree

end WireSchema.Command
