import McCortexM3.Dfs.Lookup

/-!
# Files that are open are not removed

`dfs_file_unlink` of `dfs_file.c`, with `fd_is_open` of `dfs.c`: a file is not to be removed while
a descriptor has it open.

The descriptor keeps the name that the file system has been given, and `fd_is_open` compares it
with the path behind the mount point.  This is another name in a file system that gets whole
paths, and for the mount point itself, whose name is `/` and not empty.

## Main definitions

* `fdIsOpen`, `fileUnlink` — the functions.
* `Names` — the file that a path leads to.
* `UnlinkSafe` — what is to hold of them.

## Main results

* `unlinkSafe_iff` — when it does.
-/

set_option linter.all false

namespace RtThread

open Option List

/-- A descriptor that is in use; `fops` is set once it has been opened. -/
structure OpenFd where
  fops : Bool
  fs : ℕ
  path : Option (List UInt8)

/-- `mountpath`: a path behind the mount point. -/
def Filesystem.mountpath (fs : Filesystem) (fullpath : List UInt8) : List UInt8 :=
  if fs.path = [slash] then fullpath else fullpath.drop fs.path.length

namespace Dfs

/-- `fd_is_open`. -/
def fdIsOpen (s : Dfs) (fds : List (Option OpenFd)) (mallocOk : Bool) (pathname : CString) :
    Except Fault Bool := do
  match ← dfsNormalizePath mallocOk s.workingDirectory none pathname with
  | none => .ok false
  | some fullpath =>
    match s.lookup fullpath with
    | none => .ok false
    | some (i, fs) => .ok (fds.any fun fd => fd.any fun fd =>
        fd.fops && fd.fs = i && fd.path = some (fs.mountpath fullpath))

/-- `dfs_file_unlink`: the file system whose `unlink` is called, and the name that it gets. -/
def fileUnlink (s : Dfs) (fds : List (Option OpenFd)) (mallocOk mallocOk' : Bool)
    (path : CString) : Except Fault (Except Errno (ℕ × List UInt8)) := do
  match ← dfsNormalizePath mallocOk s.workingDirectory none path with
  | none => .ok (.error .EINVAL)
  | some fullpath =>
    match s.lookup fullpath with
    | none => .ok (.error .ENOENT)
    | some (i, fs) =>
      if ← s.fdIsOpen fds mallocOk' (cString fullpath) then .ok (.error .EBUSY)
      else if fs.ops.hasUnlink = true then .ok (.ok (i, fs.pathname fullpath))
      else .ok (.error .ENOSYS)

/-- The file that a path leads to: its file system, and its name there. -/
def Names (s : Dfs) (path : CString) (i : ℕ) (fs : Filesystem) (name : List UInt8) : Prop :=
  ∃ J, fullPath s.workingDirectory none path = some J ∧
    s.lookup (resolve slash dot J) = some (i, fs) ∧ name = fs.pathname (resolve slash dot J)

/-- Some descriptor has the file open. -/
def IsOpen (fds : List (Option OpenFd)) (i : ℕ) (name : List UInt8) : Prop :=
  ∃ fd, some fd ∈ fds ∧ fd.fops = true ∧ fd.fs = i ∧ fd.path = some name

/-- **What is to hold of `dfs_file_unlink`**, whatever is open: the file system is not asked to
remove an open file, and is asked to remove the file that the path leads to when this is not
open. -/
def UnlinkSafe (s : Dfs) (mallocOk mallocOk' : Bool) (path : CString) : Prop :=
  ∀ fds,
    (∀ i name, s.fileUnlink fds mallocOk mallocOk' path = .ok (.ok (i, name)) →
      ¬ IsOpen fds i name) ∧
    ∀ i fs name, s.Names path i fs name → fs.ops.hasUnlink = true → ¬ IsOpen fds i name →
      s.fileUnlink fds mallocOk mallocOk' path = .ok (.ok (i, name))

/-- There is memory for the two paths, two dots are not met at the root, and the file system is
mounted at the root, or gets names behind its mount point and is not asked to remove this. -/
def UnlinkFits (s : Dfs) (mallocOk mallocOk' : Bool) (path : CString) : Prop :=
  ∀ J i fs, fullPath s.workingDirectory none path = some J →
    s.lookup (resolve slash dot J) = some (i, fs) → fs.ops.hasUnlink = true →
    mallocOk = true ∧ mallocOk' = true ∧ isAbsolute J = true ∧ pathEscapes J = 0 ∧
      (fs.path = [slash] ∨ fs.ops.flagFullpath = false ∧ resolve slash dot J ≠ fs.path)

variable {s : Dfs} {fds : List (Option OpenFd)} {m m' : Bool} {path : CString}
variable {fullpath J name : List UInt8} {table : List (Option Filesystem)} {fs : Filesystem}
variable {i j : ℕ}

/-! ### The search for the file system -/

theorem lookup_relative (hmounts : ∀ fs, some fs ∈ s.table → fs.path.head? = some slash)
    (h : fullpath.head? ≠ some slash) : s.lookup fullpath = none := by
  cases hlookup : s.lookup fullpath with
  | none => rfl
  | some r =>
    obtain ⟨i, fs⟩ := r
    obtain ⟨hget, ⟨⟨rest, hrest⟩, -⟩, -⟩ := lookup_some hlookup
    have hhead := hmounts fs (mem_of_getElem? hget)
    rw [← hrest, head?_append, hhead] at h
    exact absurd rfl h

/-! ### The name of a file -/

theorem head_ne_of_canonical {rest : List UInt8} (h : Canonical slash dot (slash :: rest)) :
    rest.head? ≠ some slash := by
  obtain ⟨names, hnames, hpath⟩ := h
  cases names with
  | nil =>
    obtain rfl : rest = [] := by simpa [absPath] using hpath
    simp
  | cons n names =>
    obtain ⟨hne, hs, -⟩ := hnames n mem_cons_self
    obtain ⟨c, n, rfl⟩ := exists_cons_of_ne_nil hne
    rw [absPath, trail_cons, dropLast_append_of_ne_nil (by simp), cons_append] at hpath
    intro hhead
    rw [(List.cons.inj hpath).2] at hhead
    simp_all

/-- What `dfs_subdir` gives for a path at the root or behind a mount point. -/
theorem dfsSubdir_append {directory rest : List UInt8} (hrest : rest ≠ [])
    (hroot : directory = [slash] → rest.head? ≠ some slash)
    (hbehind : directory ≠ [slash] → rest.head? = some slash) :
    dfsSubdir directory (directory ++ rest) =
      some (if directory = [slash] then directory ++ rest else rest) := by
  have hpos := length_pos_iff.2 hrest
  rw [dfsSubdir, if_neg (by rw [length_append]; omega), drop_left]
  by_cases hd : directory = [slash]
  · rw [if_pos ⟨hroot hd, by rw [hd]; decide⟩, if_pos hd, hd]
    rfl
  · rw [if_neg fun h => h.1 (hbehind hd), if_neg hd]

/-- The path behind the mount point is the name that the file system gets, at the root or when it
gets such names and the path is not the mount point. -/
theorem mountpath_eq_iff (hhead : fs.path.head? = some slash) (hcovers : Covers fs.path fullpath)
    (hcanon : Canonical slash dot fullpath) :
    fs.mountpath fullpath = fs.pathname fullpath ↔
      fs.path = [slash] ∨ fs.ops.flagFullpath = false ∧ fullpath ≠ fs.path := by
  obtain ⟨⟨rest, rfl⟩, hsep⟩ := hcovers
  have hne : fs.path ≠ [] := by
    intro h
    rw [h] at hhead
    cases hhead
  have hpos := length_pos_iff.2 hne
  have hroot : fs.path = [slash] → rest.head? ≠ some slash := by
    intro h
    rw [h] at hcanon
    exact head_ne_of_canonical hcanon
  have hbehind : rest ≠ [] → fs.path ≠ [slash] → rest.head? = some slash := by
    intro hrest hpath
    by_contra hnot
    have hlt : 1 < fs.path.length := by
      rcases Nat.lt_or_eq_of_le hpos with hlt | heq
      · exact hlt
      · obtain ⟨c, hc⟩ := length_eq_one_iff.1 heq.symm
        rw [hc] at hhead hpath
        exact absurd (congrArg (fun c => [c]) (some_inj.1 hhead)) hpath
    refine hsep ⟨hlt, ?_, ?_⟩
    · have hrest' := length_pos_iff.2 hrest
      rw [length_append]
      omega
    · rwa [getElem?_append_right (Nat.le_refl _), Nat.sub_self, ← head?_eq_getElem?]
  have hsame : fs.path ++ rest ≠ fs.path ↔ rest ≠ [] := by simp
  rw [Filesystem.mountpath, Filesystem.pathname, hsame, drop_left]
  by_cases hnil : rest = []
  · -- the mount point itself
    subst hnil
    have hsub : dfsSubdir fs.path (fs.path ++ []) = none := by simp [dfsSubdir]
    rw [hsub]
    by_cases hpath : fs.path = [slash]
    · simp [hpath]
    · cases hflag : fs.ops.flagFullpath <;> simp [hpath, Ne.symm hne]
  · rw [dfsSubdir_append hnil hroot (hbehind hnil)]
    by_cases hpath : fs.path = [slash]
    · simp [hpath]
    · cases hflag : fs.ops.flagFullpath <;> simp [hpath, hnil, hne]

/-! ### The calls -/

theorem zero_notMem_resolve (h : 0 ∉ J) : 0 ∉ resolve slash dot J := by
  have hs : (0 : UInt8) ≠ slash := by decide
  intro hmem
  rcases mem_cons.1 hmem with hmem | hmem
  · exact hs hmem
  · obtain ⟨n, hn, hmem⟩ := mem_flatMap.1 ((dropLast_sublist _).subset hmem)
    rcases mem_append.1 hmem with hmem | hmem
    · exact (mem_resolved h hn).2.2 hmem
    · exact hs (mem_singleton.1 hmem)

theorem bytes_cString (h : 0 ∉ fullpath) : (cString fullpath).bytes = fullpath := by
  refine takeWhile_eq_self_iff.2 fun c hc => ?_
  have hne : c ≠ 0 := by
    rintro rfl
    exact h hc
  simpa using hne

theorem head_normalize (hzero : 0 ∉ J) (hbad : ¬(isAbsolute J = true ∧ pathEscapes J = 0))
    (h : normalize J = .ok (some fullpath)) : fullpath.head? ≠ some slash := by
  have hroot : (isAbsolute J && pathEscapes J = 0) = false := by
    rw [← Bool.not_eq_true]
    simpa using hbad
  rcases Nat.lt_or_ge (isAbsolute J).toNat (pathEscapes J) with hlt | hle
  · rw [normalize_null hzero hlt] at h
    cases h
  · by_cases hnil : pathNames J = []
    · rw [normalize_nothing hzero hle hroot hnil] at h
      cases h
    · rw [normalize_path hzero hle hroot fun h => absurd h hnil] at h
      obtain ⟨n, names, hnames⟩ := exists_cons_of_ne_nil hnil
      obtain ⟨hne, hs, -⟩ := mem_resolved hzero (hnames ▸ mem_cons_self : n ∈ pathNames J)
      obtain ⟨c, n, rfl⟩ := exists_cons_of_ne_nil hne
      obtain rfl := some_inj.1 (Except.ok.inj h)
      rw [hnames, trail_cons, dropLast_append_of_ne_nil (by simp)]
      intro hhead
      simp_all

theorem fileUnlink_ne_ok (hmounts : ∀ fs, some fs ∈ s.table → fs.path.head? = some slash)
    (hfull : fullPath s.workingDirectory none path = some J)
    (hbad : ¬(m = true ∧ isAbsolute J = true ∧ pathEscapes J = 0)) :
    s.fileUnlink fds m m' path ≠ .ok (.ok (i, name)) := by
  cases m with
  | false =>
    have hnone : dfsNormalizePath false s.workingDirectory none path = .ok none := by
      simp [dfsNormalizePath, hfull]
    rw [fileUnlink, hnone]
    rintro ⟨⟩
  | true =>
    have hnormal : dfsNormalizePath true s.workingDirectory none path = normalize J := by
      simp [dfsNormalizePath, hfull]
    rw [fileUnlink, hnormal]
    cases hn : normalize J with
    | error e => rintro ⟨⟩
    | ok r =>
      cases r with
      | none => rintro ⟨⟩
      | some fullpath =>
        have hhead := head_normalize (zero_notMem_fullPath hfull) (by simpa using hbad) hn
        simp only [bind, Except.bind, lookup_relative hmounts hhead]
        rintro ⟨⟩

theorem any_iff (fds : List (Option OpenFd)) (i : ℕ) (name : List UInt8) :
    (fds.any fun fd => fd.any fun fd => fd.fops && fd.fs = i && fd.path = some name) = true ↔
      IsOpen fds i name := by
  rw [List.any_eq_true]
  constructor
  · rintro ⟨fd, hfd, h⟩
    obtain ⟨fd, rfl, h⟩ := (Option.any_eq_true _ _).1 h
    exact ⟨fd, hfd, by simpa [and_assoc] using h⟩
  · rintro ⟨fd, hfd, h⟩
    exact ⟨some fd, hfd, by simpa [and_assoc] using h⟩

theorem fdIsOpen_eq (fds : List (Option OpenFd)) (m' : Bool) (hzero : 0 ∉ J)
    (hlookup : s.lookup (resolve slash dot J) = some (i, fs)) :
    ∃ b, s.fdIsOpen fds m' (cString (resolve slash dot J)) = .ok b ∧
      (b = true ↔ m' = true ∧ IsOpen fds i (fs.mountpath (resolve slash dot J))) := by
  have hbytes := bytes_cString (zero_notMem_resolve hzero)
  cases m' with
  | false =>
    have habs : isAbsolute (cString (resolve slash dot J)).bytes = true := by
      rw [hbytes]
      rfl
    have hnone : dfsNormalizePath false s.workingDirectory none
        (cString (resolve slash dot J)) = .ok none := by
      rw [dfsNormalizePath, fullPath_of_absolute habs]
      rfl
    refine ⟨false, ?_, by simp⟩
    rw [fdIsOpen, hnone]
    rfl
  | true =>
    refine ⟨_, ?_, (any_iff fds i (fs.mountpath (resolve slash dot J))).trans (by simp)⟩
    rw [fdIsOpen, normalize_resolved hbytes]
    simp only [bind, Except.bind, hlookup]

theorem fileUnlink_eq (fds : List (Option OpenFd)) (m' : Bool)
    (hfull : fullPath s.workingDirectory none path = some J)
    (habs : isAbsolute J = true) (he : pathEscapes J = 0)
    (hlookup : s.lookup (resolve slash dot J) = some (i, fs)) :
    (s.fileUnlink fds true m' path = .ok (.error .EBUSY) ∧
      m' = true ∧ IsOpen fds i (fs.mountpath (resolve slash dot J))) ∨
    (s.fileUnlink fds true m' path = .ok (if fs.ops.hasUnlink = true then
        .ok (i, fs.pathname (resolve slash dot J)) else .error .ENOSYS) ∧
      ¬(m' = true ∧ IsOpen fds i (fs.mountpath (resolve slash dot J)))) := by
  have hzero := zero_notMem_fullPath hfull
  have hnormal : dfsNormalizePath true s.workingDirectory none path =
      .ok (some (resolve slash dot J)) := by
    rw [← normalize_resolve hzero habs he]
    simp [dfsNormalizePath, hfull]
  obtain ⟨b, hb, hopen⟩ := fdIsOpen_eq fds m' hzero hlookup
  rw [← hopen, fileUnlink, hnormal]
  simp only [bind, Except.bind, hlookup, hb]
  cases b with
  | true => exact .inl ⟨rfl, rfl⟩
  | false =>
    refine .inr ⟨?_, by simp⟩
    cases fs.ops.hasUnlink <;> rfl

theorem names_of_fileUnlink (hmounts : ∀ fs, some fs ∈ s.table → fs.path.head? = some slash)
    (h : s.fileUnlink fds m m' path = .ok (.ok (i, name))) :
    ∃ fs, s.Names path i fs name ∧ fs.ops.hasUnlink = true := by
  cases hfull : fullPath s.workingDirectory none path with
  | none =>
    have hnone : dfsNormalizePath m s.workingDirectory none path = .ok none := by
      rw [dfsNormalizePath, hfull]
    rw [fileUnlink, hnone] at h
    cases h
  | some J =>
    obtain ⟨rfl, habs, he⟩ : m = true ∧ isAbsolute J = true ∧ pathEscapes J = 0 := by
      by_contra hbad
      exact fileUnlink_ne_ok hmounts hfull hbad h
    cases hlookup : s.lookup (resolve slash dot J) with
    | none =>
      have hnormal : dfsNormalizePath true s.workingDirectory none path =
          .ok (some (resolve slash dot J)) := by
        rw [← normalize_resolve (zero_notMem_fullPath hfull) habs he]
        simp [dfsNormalizePath, hfull]
      rw [fileUnlink, hnormal] at h
      simp only [bind, Except.bind, hlookup] at h
      cases h
    | some r =>
      obtain ⟨j, fs⟩ := r
      rcases fileUnlink_eq fds m' hfull habs he hlookup with
        ⟨hcall, -⟩ | ⟨hcall, -⟩
      · rw [hcall] at h
        cases h
      · rw [hcall] at h
        split at h
        · next hhas =>
          obtain ⟨rfl, rfl⟩ := Prod.mk.inj (Except.ok.inj (Except.ok.inj h))
          exact ⟨fs, ⟨J, hfull, hlookup, rfl⟩, hhas⟩
        · cases h

/-- **When open files are safe.**  Mount points are absolute paths, since they are normalized
ones. -/
theorem unlinkSafe_iff (s : Dfs) (mallocOk mallocOk' : Bool) (path : CString)
    (hmounts : ∀ fs, some fs ∈ s.table → fs.path.head? = some slash) :
    s.UnlinkSafe mallocOk mallocOk' path ↔ s.UnlinkFits mallocOk mallocOk' path := by
  constructor
  · intro hsafe J i fs hfull hlookup hhas
    have hnames : s.Names path i fs (fs.pathname (resolve slash dot J)) := ⟨J, hfull, hlookup, rfl⟩
    have hnil : ¬ IsOpen [] i (fs.pathname (resolve slash dot J)) := by
      rintro ⟨fd, hfd, -⟩
      cases hfd
    have hreached := (hsafe []).2 i fs _ hnames hhas hnil
    obtain ⟨hm, habs, he⟩ : mallocOk = true ∧ isAbsolute J = true ∧ pathEscapes J = 0 := by
      by_contra hbad
      exact fileUnlink_ne_ok hmounts hfull hbad hreached
    subst hm
    obtain ⟨hget, hcovers, -⟩ := lookup_some hlookup
    -- one descriptor has the file open
    have hopen : IsOpen [some ⟨true, i, some (fs.pathname (resolve slash dot J))⟩] i
        (fs.pathname (resolve slash dot J)) := ⟨_, mem_singleton_self _, rfl, rfl, rfl⟩
    rcases fileUnlink_eq [some ⟨true, i, some (fs.pathname (resolve slash dot J))⟩]
      mallocOk' hfull habs he hlookup with ⟨-, hm', fd, hfd, -, -, hpath⟩ | ⟨hcall, -⟩
    · obtain rfl : fd = ⟨true, i, some (fs.pathname (resolve slash dot J))⟩ := by simpa using hfd
      have heq := some_inj.1 hpath
      have hhead := hmounts fs (mem_of_getElem? hget)
      exact ⟨rfl, hm', habs, he, (mountpath_eq_iff hhead hcovers (canonical_resolve J)).1 heq.symm⟩
    · rw [if_pos hhas] at hcall
      exact absurd hopen ((hsafe _).1 i _ hcall)
  · intro hfits fds
    -- for such a path, the file is compared with the open ones
    have hcase : ∀ {i fs name}, s.Names path i fs name → fs.ops.hasUnlink = true →
        s.fileUnlink fds mallocOk mallocOk' path = .ok (.error .EBUSY) ∧ IsOpen fds i name ∨
        s.fileUnlink fds mallocOk mallocOk' path = .ok (.ok (i, name)) ∧ ¬ IsOpen fds i name := by
      rintro i fs name ⟨J, hfull, hlookup, rfl⟩ hhas
      obtain ⟨rfl, rfl, habs, he, hplace⟩ := hfits J i fs hfull hlookup hhas
      obtain ⟨hget, hcovers, -⟩ := lookup_some hlookup
      have hhead := hmounts fs (mem_of_getElem? hget)
      have hpath := (mountpath_eq_iff hhead hcovers (canonical_resolve J)).2 hplace
      rcases fileUnlink_eq fds true hfull habs he hlookup with
        ⟨hcall, -, hopen⟩ | ⟨hcall, hopen⟩
      · exact .inl ⟨hcall, hpath ▸ hopen⟩
      · rw [if_pos hhas] at hcall
        exact .inr ⟨hcall, fun h => hopen ⟨rfl, hpath ▸ h⟩⟩
    constructor
    · intro i name hcall
      obtain ⟨fs, hnames, hhas⟩ := names_of_fileUnlink hmounts hcall
      rcases hcase hnames hhas with ⟨hbusy, -⟩ | ⟨-, hopen⟩
      · rw [hbusy] at hcall
        cases hcall
      · exact hopen
    · intro i fs name hnames hhas hopen
      rcases hcase hnames hhas with ⟨-, hopen'⟩ | ⟨hcall, -⟩
      · exact absurd hopen' hopen
      · exact hcall

/-- A file system at `/f` that gets whole paths, or not. -/
def fileSystemAt (flagFullpath : Bool) : Dfs :=
  ⟨[], [some ⟨[slash, 102], ⟨⟨[102], by decide⟩, flagFullpath, true, true, true, true⟩, none⟩],
    fun _ => ⟨false, false, false, false, false, false, 0⟩, fun _ => none,
    some ⟨[slash], zero_notMem_slash⟩⟩

/-- `/f/a`. -/
def fileA : CString := ⟨[slash, 102, slash, 97], by decide⟩

theorem mounts_fileSystemAt (b : Bool) (fs : Filesystem) (h : some fs ∈ (fileSystemAt b).table) :
    fs.path.head? = some slash := by
  obtain rfl := some_inj.1 (mem_singleton.1 h)
  rfl

theorem unlinkSafe_iff_fileA : (fileSystemAt false).UnlinkSafe true true fileA := by
  refine (unlinkSafe_iff (fileSystemAt false) true true fileA (mounts_fileSystemAt false)).2 ?_
  intro J i fs hfull hlookup _
  obtain rfl : fileA.bytes = J := some_inj.1 hfull
  obtain ⟨hget, -⟩ := lookup_some hlookup
  have hfs := some_inj.1 (mem_singleton.1 (mem_of_getElem? hget))
  rw [hfs]
  exact ⟨rfl, rfl, by decide, by decide, .inr ⟨rfl, by decide⟩⟩

/-- **An open file is removed** in a file system that gets whole paths. -/
theorem not_unlinkSafe :
    ¬ ∀ (s : Dfs) (mallocOk mallocOk' : Bool) (path : CString)
      (_ : ∀ fs, some fs ∈ s.table → fs.path.head? = some slash),
      s.UnlinkSafe mallocOk mallocOk' path := by
  intro hall
  have hsafe := hall (fileSystemAt true) true true fileA (mounts_fileSystemAt true)
    [some ⟨true, 0, some fileA.bytes⟩]
  have hcall : (fileSystemAt true).fileUnlink [some ⟨true, 0, some fileA.bytes⟩] true true fileA =
      .ok (.ok (0, fileA.bytes)) := by
    decide +kernel
  exact hsafe.1 0 _ hcall ⟨_, mem_singleton_self _, rfl, rfl, rfl⟩

end Dfs

end RtThread
