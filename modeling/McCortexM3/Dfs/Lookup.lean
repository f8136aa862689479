import McCortexM3.Dfs.Mounts

/-!
# The file system of a path

`dfs_filesystem_lookup` of `dfs_fs.c` scans the table of the mounted file systems, and keeps the
entry with the longest mount path so far that the path begins with.  The characters behind this
beginning have to be those of another component; only for mount paths of one character, which
should be `/`, they need not.  `dfs_subdir` of `dfs.c` is what is left of the path.

## Main definitions

* `ComponentPrefix` — the components of an absolute path begin with those of another one.
* `MountPath` — what `dfs_mount` stores.

## Main results

* `covers_iff` — what the scan tests.
* `run_lookup` — the file system that is found, after any calls.
-/

set_option linter.all false

namespace RtThread

open Option List

/-- The components of the path begin with those of an absolute one. -/
def ComponentPrefix (directory path : List UInt8) : Prop :=
  directory.head? = some slash ∧ components slash directory <+: components slash path

/-- A path that `dfs_mount` stores: it is not empty, and canonical if it is absolute. -/
def MountPath (path : List UInt8) : Prop :=
  path ≠ [] ∧ (path.head? = some slash → Canonical slash dot path)

variable {directory path : List UInt8}

theorem head_of_canonical (h : Canonical slash dot path) : path.head? = some slash := by
  obtain ⟨names, -, rfl⟩ := h
  rfl

theorem absPath_append_cases (names : List (List UInt8)) {comps : List (List UInt8)}
    (hcomps : comps ≠ []) :
    absPath slash names = [slash] ∨
      absPath slash (names ++ comps) = absPath slash names ++ absPath slash comps := by
  rcases names.eq_nil_or_concat with rfl | ⟨l, n, rfl⟩
  · exact .inl rfl
  · exact .inr (absPath_append (by simp) hcomps)

/-- **The test of the scan** on canonical paths. -/
theorem covers_iff (hd : Canonical slash dot directory) (hp : Canonical slash dot path) :
    Covers directory path ↔ components slash directory <+: components slash path := by
  constructor
  · rintro ⟨⟨rest, rfl⟩, hnext⟩
    by_cases hroot : components slash directory = []
    · rw [hroot]
      exact nil_prefix
    · have hlong : 1 < directory.length := by
        obtain ⟨t, rfl⟩ := head?_eq_some_iff.1 (head_of_canonical hd)
        cases t with
        | nil => simp at hroot
        | cons c t => simp
      cases rest with
      | nil => simp
      | cons c rest =>
        have hc : c = slash := by
          by_contra hne
          refine hnext ⟨hlong, by simp, ?_⟩
          simpa using hne
        rw [hc, components_append]
        exact prefix_append ..
  · rintro ⟨comps, hcomps⟩
    have hpath := hp.eq_absPath
    rw [← hcomps] at hpath
    by_cases hnil : comps = []
    · -- the same path
      rw [hnil, append_nil, ← hd.eq_absPath] at hpath
      rw [hpath]
      exact ⟨prefix_rfl, fun h => absurd h.2.1 (Nat.lt_irrefl _)⟩
    · rcases absPath_append_cases (components slash directory) hnil with hroot | happend
      · rw [← hd.eq_absPath] at hroot
        rw [hroot]
        refine ⟨?_, fun h => absurd h.1 (Nat.lt_irrefl _)⟩
        obtain ⟨t, rfl⟩ := head?_eq_some_iff.1 (head_of_canonical hp)
        exact ⟨t, rfl⟩
      · rw [happend, ← hd.eq_absPath] at hpath
        rw [hpath]
        refine ⟨prefix_append .., fun h => h.2.2 ?_⟩
        rw [getElem?_append_right le_rfl, Nat.sub_self]
        rfl

theorem dfsSubdir_spec (hd : Canonical slash dot directory) (hp : Canonical slash dot path)
    (hcovers : Covers directory path) :
    (∀ subdir ∈ dfsSubdir directory path, subdir.head? = some slash) ∧
      resolve slash dot (directory ++ (dfsSubdir directory path).getD []) = path := by
  have hresolve : resolve slash dot path = path := by
    obtain ⟨names, hnames, rfl⟩ := hp
    exact (resolve_absPath hnames).1
  obtain ⟨⟨rest, rfl⟩, hnext⟩ := hcovers
  rw [dfsSubdir, drop_left]
  by_cases hrest : rest = []
  · subst hrest
    rw [append_nil] at hresolve ⊢
    simpa using hresolve
  · have hlen : directory.length ≠ (directory ++ rest).length := by
      rw [length_append]
      have := length_pos_of_ne_nil hrest
      omega
    rw [if_neg hlen]
    obtain ⟨c, rest, rfl⟩ := exists_cons_of_ne_nil hrest
    obtain ⟨t, ht⟩ := head?_eq_some_iff.1 (head_of_canonical hd)
    by_cases hc : c = slash
    · subst hc
      simpa using hresolve
    · -- the rest begins with a name: the directory is the root
      have hroot : t = [] := by
        by_contra hne
        have hpos := length_pos_of_ne_nil hne
        exact hnext ⟨by simp [ht, hpos], by simp, by simpa using hc⟩
      subst hroot
      have hdouble : resolve slash dot (slash :: slash :: c :: rest) =
          resolve slash dot (slash :: c :: rest) := by
        rw [resolve, resolve, components_sep_cons]
      rw [ht] at hresolve ⊢
      simpa [hc, hdouble] using hresolve

/-! ### The scan -/

/-- **The scan**: no entry that is long enough covers the path, or the last of the longest entries
is found. -/
theorem lookupFrom_spec (path : List UInt8) (table : List (Option Filesystem)) (k : ℕ)
    (best : Option ℕ) (prefixlen : ℕ) :
    (lookupFrom path table k best prefixlen = best ∧
      ∀ fs, some fs ∈ table → Covers fs.path path → fs.path.length < prefixlen) ∨
    ∃ i fs, lookupFrom path table k best prefixlen = some (k + i) ∧
      table[i]? = some (some fs) ∧ Covers fs.path path ∧ prefixlen ≤ fs.path.length ∧
      ∀ fs', some fs' ∈ table → Covers fs'.path path → fs'.path.length ≤ fs.path.length := by
  induction table generalizing k prefixlen best with
  | nil => exact .inl ⟨rfl, nofun⟩
  | cons e table ih =>
    cases e with
    | none =>
      rw [lookupFrom]
      rcases ih (k + 1) best prefixlen with ⟨heq, hless⟩ | ⟨i, fs, heq, hget, hcovers, hlen, hmax⟩
      · exact .inl ⟨heq, fun fs hfs => hless fs (by simpa using hfs)⟩
      · refine .inr ⟨i + 1, fs, by rw [heq, Nat.add_right_comm, Nat.add_assoc], hget, hcovers, hlen,
          fun fs' hfs' => hmax fs' (by simpa using hfs')⟩
    | some iter =>
      rw [lookupFrom]
      split
      · next hskip =>
        -- the entry is shorter than the best one, or does not cover the path
        rcases ih (k + 1) best prefixlen with ⟨heq, hless⟩ | ⟨i, fs, heq, hget, hcovers, hlen, hmax⟩
        · refine .inl ⟨heq, fun fs hfs hcovers => ?_⟩
          rcases mem_cons.1 hfs with hiter | hfs
          · rw [some_inj.1 hiter] at hcovers ⊢
            exact hskip.resolve_right (not_not.2 hcovers)
          · exact hless fs hfs hcovers
        · refine .inr ⟨i + 1, fs, by rw [heq, Nat.add_right_comm, Nat.add_assoc], hget, hcovers,
            hlen, fun fs' hfs' hcovers' => ?_⟩
          rcases mem_cons.1 hfs' with hiter | hfs'
          · rw [some_inj.1 hiter] at hcovers' ⊢
            exact (hskip.resolve_right (not_not.2 hcovers')).le.trans hlen
          · exact hmax fs' hfs' hcovers'
      · next htake =>
        rw [not_or, not_lt, not_not] at htake
        rcases ih (k + 1) (some k) iter.path.length with
          ⟨heq, hless⟩ | ⟨i, fs, heq, hget, hcovers, hlen, hmax⟩
        · refine .inr ⟨0, iter, heq, rfl, htake.2, htake.1, fun fs' hfs' hcovers' => ?_⟩
          rcases mem_cons.1 hfs' with hiter | hfs'
          · rw [some_inj.1 hiter]
          · exact (hless fs' hfs' hcovers').le
        · refine .inr ⟨i + 1, fs, by rw [heq, Nat.add_right_comm, Nat.add_assoc], hget, hcovers,
            htake.1.trans hlen, fun fs' hfs' hcovers' => ?_⟩
          rcases mem_cons.1 hfs' with hiter | hfs'
          · rw [some_inj.1 hiter]
            exact hlen
          · exact hmax fs' hfs' hcovers'

namespace Dfs

variable {s s' : Dfs} {fs : Filesystem} {i : ℕ}

theorem lookup_some (h : s.lookup path = some (i, fs)) :
    s.table[i]? = some (some fs) ∧ Covers fs.path path ∧
      ∀ fs', some fs' ∈ s.table → Covers fs'.path path → fs'.path.length ≤ fs.path.length := by
  obtain ⟨j, hj, hfs⟩ := bind_eq_some_iff.1 h
  obtain ⟨fs₁, hfs₁, heq⟩ := map_eq_some_iff.1 hfs
  obtain ⟨rfl, rfl⟩ := Prod.mk.inj heq
  rw [dfsFilesystemLookup] at hj
  rcases lookupFrom_spec path s.table 0 none 0 with
    ⟨hnone, -⟩ | ⟨k, fs₂, hk, hget, hcovers, -, hmax⟩
  · rw [hnone] at hj
    cases hj
  · rw [hk, Nat.zero_add, some_inj] at hj
    subst hj
    rw [hget] at hfs₁
    obtain rfl : fs₂ = fs₁ := by simpa using hfs₁
    exact ⟨hget, hcovers, hmax⟩

theorem lookup_none (h : s.lookup path = none) (hfs : some fs ∈ s.table) :
    ¬ Covers fs.path path := by
  intro hcovers
  rw [lookup, dfsFilesystemLookup] at h
  rcases lookupFrom_spec path s.table 0 none 0 with
    ⟨-, hless⟩ | ⟨k, fs₂, hk, hget, -⟩
  · exact absurd (hless fs hfs hcovers) (Nat.not_lt_zero _)
  · rw [hk, Nat.zero_add] at h
    simp [hget] at h

/-! ### The mount points -/

theorem mountPath_of_normalize {mallocOk : Bool} {wd dir : Option CString} {filename : CString}
    (h : dfsNormalizePath mallocOk wd dir filename = .ok (some path)) : MountPath path := by
  rw [dfsNormalizePath] at h
  cases hfull : fullPath wd dir filename with
  | none => simp [hfull] at h
  | some J =>
    have hzero := zero_notMem_fullPath hfull
    have hnorm : normalize J = .ok (some path) := by
      simp only [hfull] at h
      split at h
      · exact h
      · cases h
    -- the dots are not met too often at the root
    have hesc : pathEscapes J ≤ (isAbsolute J).toNat := by
      by_contra hlt
      rw [normalize_null hzero (not_le.1 hlt)] at hnorm
      cases hnorm
    have hnames : ∀ n ∈ pathNames J, IsName slash dot n :=
      isName_foldl (by simp) fun _ => mem_components
    cases hroot : (isAbsolute J && pathEscapes J = 0) with
    | true =>
      rw [normalize_path hzero hesc hroot fun _ => rfl] at hnorm
      obtain rfl : absPath slash (pathNames J) = path := by simpa [absPath] using hnorm
      exact ⟨cons_ne_nil _ _, fun _ => ⟨_, hnames, rfl⟩⟩
    | false =>
      have hne : pathNames J ≠ [] := by
        intro hnil
        rw [normalize_nothing hzero hesc hroot hnil] at hnorm
        cases hnorm
      rw [normalize_path hzero hesc hroot fun hnil => absurd hnil hne] at hnorm
      obtain rfl : (trail slash (pathNames J)).dropLast = path := by simpa using hnorm
      -- the path begins with the first name, which is no separator
      obtain ⟨n, l, hl⟩ := exists_cons_of_ne_nil hne
      obtain ⟨hn, hs, -⟩ := hnames n (by simp [hl])
      obtain ⟨c, n, rfl⟩ := exists_cons_of_ne_nil hn
      rw [hl, trail_cons, dropLast_append_of_ne_nil (by simp), cons_append]
      refine ⟨cons_ne_nil _ _, fun hhead => ?_⟩
      obtain rfl : c = slash := by simpa using hhead
      simp at hs

theorem table_openDevice {devId : Option ℕ} {a : DeviceAnswers} {result : ℤ}
    (h : s.openDevice devId a = some (s', result)) : s'.table = s.table := by
  cases devId with
  | none =>
    cases h
    rfl
  | some k =>
    obtain ⟨r, -, hs⟩ := map_eq_some_iff.1 h
    cases hs
    rfl

theorem table_mountAt {a : MountAnswers} {r : Except (Option Errno) Unit}
    (h : s.mountAt i fs a = some (s', r)) :
    ∃ e, (e = some fs ∨ e = none) ∧ s'.table = s.table.set i e := by
  obtain ⟨⟨s₁, result⟩, hs₁, hs⟩ := map_eq_some_iff.1 h
  have htable := table_openDevice hs₁
  dsimp only at hs htable
  split at hs
  · cases hs
    exact ⟨none, .inr rfl, by rw [htable, set_set]⟩
  · split at hs
    · cases hs
      exact ⟨none, .inr rfl, by rw [table_closeDevice, htable, set_set]⟩
    · cases hs
      exact ⟨some fs, .inl rfl, htable⟩

/-- The paths of the table. -/
def Mounted (s : Dfs) : Prop := ∀ fs, some fs ∈ s.table → MountPath fs.path

theorem mounted_step {c : Call} {out : List (Except (Option Errno) Unit)} (hm : s.Mounted)
    (h : s.step c = some (s', out)) : s'.Mounted := by
  obtain ⟨⟨s₁, r⟩, hs, heq⟩ := map_eq_some_iff.1 h
  obtain ⟨rfl, rfl⟩ := Prod.mk.inj heq
  -- one entry is set
  have hkeep : ∀ {i e}, (∀ fs, some fs = e → MountPath fs.path) → s₁.table = s.table.set i e →
      s₁.Mounted := by
    intro i e he htable fs hfs
    rw [htable] at hfs
    rcases mem_or_eq_of_mem_set hfs with hfs | hfs
    · exact hm fs hfs
    · exact he fs hfs
  cases c with
  | mount deviceName filename filesystemtype a =>
    rcases dfsMount_cases hs with ⟨rfl, -⟩ | ⟨fs, i, hnorm, -, -, hat⟩
    · exact hm
    · obtain ⟨e, he, htable⟩ := table_mountAt hat
      refine hkeep (fun fs' hfs' => ?_) htable
      rcases he with rfl | rfl
      · rw [some_inj.1 hfs']
        exact mountPath_of_normalize hnorm
      · cases hfs'
  | unmount specialfile a =>
    rcases dfsUnmount_cases hs with ⟨rfl, -⟩ | ⟨fs, i, -, -, htable, -⟩
    · exact hm
    · exact hkeep (fun _ hfs' => by cases hfs') htable

/-- **The file system of a path**, after any calls of `dfs_mount` and `dfs_unmount`: the one with
the longest mount path whose components the path begins with.  Behind the mount path stands what
`dfs_subdir` returns. -/
theorem run_lookup (s₀ s : Dfs) (hempty : ∀ fs, some fs ∉ s₀.table)
    (returned : List (Except (Option Errno) Unit))
    (hrun : Run step (fun _ _ => True) s₀ returned s) (path : List UInt8)
    (hpath : Canonical slash dot path) :
    match s.lookup path with
    | none => ∀ fs, some fs ∈ s.table → ¬ ComponentPrefix fs.path path
    | some (i, fs) =>
      s.table[i]? = some (some fs) ∧ ComponentPrefix fs.path path ∧
      (∀ fs', some fs' ∈ s.table → ComponentPrefix fs'.path path →
        fs'.path.length ≤ fs.path.length) ∧
      (∀ subdir ∈ dfsSubdir fs.path path, subdir.head? = some slash) ∧
      resolve slash dot (fs.path ++ (dfsSubdir fs.path path).getD []) = path := by
  have hmounted : s.Mounted :=
    hrun.invariant (fun _ s => s.Mounted) (fun fs hfs => absurd hfs (hempty fs))
      fun hm _ hs => mounted_step hm hs
  have hcovers : ∀ fs, some fs ∈ s.table →
      (Covers fs.path path ↔ ComponentPrefix fs.path path) := by
    intro fs hfs
    obtain ⟨hne, hcanon⟩ := hmounted fs hfs
    constructor
    · intro hcov
      -- the path begins with the separator, and so does what covers it
      have hhead : fs.path.head? = some slash := by
        obtain ⟨⟨rest, hrest⟩, -⟩ := hcov
        obtain ⟨c, t, ht⟩ := exists_cons_of_ne_nil hne
        have hslash := head_of_canonical hpath
        rw [← hrest, ht] at hslash
        rw [ht]
        exact hslash
      exact ⟨hhead, (covers_iff (hcanon hhead) hpath).1 hcov⟩
    · rintro ⟨hhead, hcomps⟩
      exact (covers_iff (hcanon hhead) hpath).2 hcomps
  cases hlookup : s.lookup path with
  | none => exact fun fs hfs hbegin => lookup_none hlookup hfs ((hcovers fs hfs).2 hbegin)
  | some r =>
    obtain ⟨i, fs⟩ := r
    obtain ⟨hget, hcov, hmax⟩ := lookup_some hlookup
    have hfs := mem_of_getElem? hget
    have hbegin := (hcovers fs hfs).1 hcov
    obtain ⟨hslash, hresolve⟩ := dfsSubdir_spec ((hmounted fs hfs).2 hbegin.1) hpath hcov
    exact ⟨hget, hbegin, fun fs' hfs' hp => hmax fs' hfs' ((hcovers fs' hfs').2 hp), hslash,
      hresolve⟩

/-- `/dev/a`. -/
def devAPath : List UInt8 := [slash, 100, 101, 118, slash, 97]

theorem run_lookup_devA :
    ∃ (s : Dfs) (i : ℕ) (fs : Filesystem), s.lookup devAPath = some (i, fs) ∧
      fs.path = [slash, 100, 101, 118] ∧ dfsSubdir fs.path devAPath = some [slash, 97] ∧
      resolve slash dot (fs.path ++ (dfsSubdir fs.path devAPath).getD []) = devAPath := by
  obtain ⟨⟨s, out⟩, hs, hfound⟩ : ∃ r, noMounts.step (.mount none devPath ⟨[100], by decide⟩
      mountAnswers) = some r ∧ (r.1.lookup devAPath).any fun q =>
        q.2.path = [slash, 100, 101, 118] := by
    refine ⟨_, rfl, ?_⟩
    decide +kernel
  obtain ⟨⟨i, fs⟩, hlookup, hpath⟩ := (Option.any_eq_true _ _).1 hfound
  have hfs : fs.path = [slash, 100, 101, 118] := of_decide_eq_true hpath
  have hcanon : Canonical slash dot devAPath := by
    refine ⟨[[100, 101, 118], [97]], ?_, rfl⟩
    simp only [forall_mem_cons, IsName]
    decide
  have hrun : Run step (fun _ _ => True) noMounts ([] ++ out) s := Run.nil.snoc trivial hs
  have hresult := run_lookup noMounts s (by simp [noMounts]) _ hrun devAPath hcanon
  rw [hlookup] at hresult
  refine ⟨s, i, fs, hlookup, hfs, ?_, hresult.2.2.2.2⟩
  rw [hfs]
  decide

end Dfs

end RtThread
