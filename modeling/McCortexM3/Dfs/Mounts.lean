import McCortexM3.Dfs.NormalizePath
import McCortexM3.Run

/-!
# Mounting file systems

`dfs_mount` and `dfs_unmount` of `dfs_fs.c`, with `rt_device_open` and `rt_device_close` of
`device.c`.  What the drivers answer, and whether memory is allocated, is an input of every call.

`dfs_mount` looks for a mount point with the spelling that it has been called with, and stores its
normalized path.  And a driver that answers `-RT_ENOSYS` leaves its device open, which `dfs_mount`
takes for an error.

## Main definitions

* `Dfs` — the table of the file systems, and the devices.
* `dfsMount`, `dfsUnmount` — the functions.
* `KeepsTable` — what is to hold of a call.

## Main results

* `run_keepsTable` — it holds of the calls that meet `SpelledOut`.
* `not_run_keepsTable` — what happens in other runs.
-/

set_option linter.all false

namespace RtThread

open Function Option List

/-! ### Devices -/

/-- `RT_ENOSYS`. -/
def rtEnosys : ℤ := 6

/-- `RT_EBUSY`. -/
def rtEbusy : ℤ := 7

/-- `RT_ERROR`. -/
def rtError : ℤ := 1

/-- A device: some bits of its flags, which functions its driver has, and how often it is open. -/
structure Device where
  activated : Bool
  standalone : Bool
  opened : Bool
  hasInit : Bool
  hasOpen : Bool
  hasClose : Bool
  refCount : UInt8

/-- What a driver answers to `init`, `open` and `close`. -/
structure DeviceAnswers where
  init : ℤ
  open_ : ℤ
  close : ℤ

/-- `rt_device_open`, from the call of the driver on. -/
def Device.openActivated (a : DeviceAnswers) (d : Device) : Option (Device × ℤ) :=
  if d.standalone = true ∧ d.opened = true then some (d, -rtEbusy)
  else
    let result := if d.hasOpen = true then a.open_ else 0
    -- `RT_DEVICE_OFLAG_RDWR` does not contain `RT_DEVICE_OFLAG_OPEN`
    let d := if d.hasOpen = true then d else { d with opened := false }
    if result = 0 ∨ result = -rtEnosys then
      if d.refCount + 1 ≠ 0 then
        some ({ d with opened := true, refCount := d.refCount + 1 }, result)
      else none
    else some (d, result)

/-- `rt_device_open`; `none` for the failed `RT_ASSERT`. -/
def rtDeviceOpen (a : DeviceAnswers) (d : Device) : Option (Device × ℤ) :=
  if d.activated = true then d.openActivated a
  else if d.hasInit = true ∧ a.init ≠ 0 then some (d, a.init)
  else { d with activated := true }.openActivated a

/-- `rt_device_close`. -/
def rtDeviceClose (a : DeviceAnswers) (d : Device) : Device × ℤ :=
  if d.refCount = 0 then (d, -rtError)
  else
    let d := { d with refCount := d.refCount - 1 }
    if d.refCount ≠ 0 then (d, 0)
    else
      let result := if d.hasClose = true then a.close else 0
      if result = 0 ∨ result = -rtEnosys then ({ d with opened := false }, result) else (d, result)

/-! ### File systems -/

/-- Which operations a `struct dfs_filesystem_ops` has. -/
structure FsOps where
  name : CString
  /-- `flags & DFS_FS_FLAG_FULLPATH` -/
  flagFullpath : Bool
  /-- `fops->open` -/
  hasOpen : Bool
  hasMount : Bool
  hasUnmount : Bool
  hasUnlink : Bool

/-- A `struct dfs_filesystem` that is in use. -/
structure Filesystem where
  path : List UInt8
  ops : FsOps
  devId : Option ℕ

/-- The tables of `dfs.c` and the devices. -/
structure Dfs where
  operations : List (Option FsOps)
  table : List (Option Filesystem)
  devices : ℕ → Device
  /-- `rt_device_find` -/
  find : CString → Option ℕ
  workingDirectory : Option CString

/-- The C string in some memory. -/
def cString (l : List UInt8) : CString := ⟨l.takeWhile (· ≠ 0), fun h => by
  simpa using List.mem_takeWhile_imp h⟩

/-- The file system at `path` covers a path. -/
def Covers (path fullpath : List UInt8) : Prop :=
  path <+: fullpath ∧
    ¬(1 < path.length ∧ path.length < fullpath.length ∧ fullpath[path.length]? ≠ some slash)

instance (path fullpath : List UInt8) : Decidable (Covers path fullpath) :=
  inferInstanceAs (Decidable (_ ∧ _))

/-- The loop of `dfs_filesystem_lookup`, from the entry with index `i` on. -/
def lookupFrom (fullpath : List UInt8) : List (Option Filesystem) → ℕ → Option ℕ → ℕ → Option ℕ
  | [], _, fs, _ => fs
  | none :: table, i, fs, prefixlen => lookupFrom fullpath table (i + 1) fs prefixlen
  | some iter :: table, i, fs, prefixlen =>
    if iter.path.length < prefixlen ∨ ¬ Covers iter.path fullpath then
      lookupFrom fullpath table (i + 1) fs prefixlen
    else lookupFrom fullpath table (i + 1) (some i) iter.path.length

/-- `dfs_filesystem_lookup`: the index of the file system. -/
def dfsFilesystemLookup (table : List (Option Filesystem)) (fullpath : List UInt8) : Option ℕ :=
  lookupFrom fullpath table 0 none 0

/-- `dfs_subdir`. -/
def dfsSubdir (directory filename : List UInt8) : Option (List UInt8) :=
  if directory.length = filename.length then none
  else
    let dir := filename.drop directory.length
    if dir.head? ≠ some slash ∧ directory.length ≠ 0 then
      some (filename.drop (directory.length - 1))
    else some dir

/-- The name that the operations of a file system get for a path. -/
def Filesystem.pathname (fs : Filesystem) (fullpath : List UInt8) : List UInt8 :=
  if fs.ops.flagFullpath = true then fullpath else (dfsSubdir fs.path fullpath).getD [slash]

/-- The error numbers. -/
inductive Errno
  | ENOENT
  | ENOMEM
  | EBUSY
  | ENODEV
  | ENOTDIR
  | EINVAL
  | ENOSPC
  | ENOSYS
  deriving DecidableEq

namespace Dfs

/-- The file system that `dfs_filesystem_lookup` finds. -/
def lookup (s : Dfs) (fullpath : List UInt8) : Option (ℕ × Filesystem) :=
  (dfsFilesystemLookup s.table fullpath).bind fun i => s.table[i]?.join.map fun fs => (i, fs)

/-- `dfs_file_open`: the file system and the name of the file that is open then.  The driver has
answered `result` to `open`. -/
def fileOpen (s : Dfs) (mallocOk : Bool) (path : CString) (result : ℤ) :
    Except Fault (Except (Option Errno) (ℕ × List UInt8)) := do
  match ← dfsNormalizePath mallocOk s.workingDirectory none path with
  | none => .ok (.error (some .ENOMEM))
  | some fullpath =>
    match s.lookup fullpath with
    | none => .ok (.error (some .ENOENT))
    | some (i, fs) =>
      if fs.ops.hasOpen = false then .ok (.error (some .ENOSYS))
      else if result < 0 then .ok (.error none)
      else .ok (.ok (i, fs.pathname fullpath))

/-! ### `dfs_mount` -/

/-- What the calls that `dfs_mount` makes return: the two allocations for paths, the opening of the
mount point, the device, and the file system. -/
structure MountAnswers where
  mallocOk : Bool
  mallocOk' : Bool
  dirOpen : ℤ
  device : DeviceAnswers
  mount : ℤ

/-- The search in `filesystem_operation_table`. -/
def findOps (s : Dfs) (filesystemtype : CString) : Option FsOps :=
  s.operations.findSome? fun ops =>
    ops.filter fun ops => ops.name.bytes = filesystemtype.bytes

/-- The search in `filesystem_table`: whether something is mounted at `path`, and the first empty
entry. -/
def mountEntry (path : List UInt8) :
    List (Option Filesystem) → ℕ → Option ℕ → Except (Option Errno) ℕ
  | [], _, none => .error (some .ENOSPC)
  | [], _, some fs => .ok fs
  | none :: table, i, fs => mountEntry path table (i + 1) (fs.or (some i))
  | some iter :: table, i, fs =>
    if iter.path = path then .error (some .EINVAL) else mountEntry path table (i + 1) fs

/-- The device gets another state. -/
def setDevice (s : Dfs) (i : ℕ) (d : Device) : Dfs :=
  { s with devices := Function.update s.devices i d }

/-- The device of a new file system is opened; `none` in the result when there is none. -/
def openDevice (s : Dfs) (devId : Option ℕ) (a : DeviceAnswers) : Option (Dfs × ℤ) :=
  match devId with
  | none => some (s, 0)
  | some i => (rtDeviceOpen a (s.devices i)).map fun (d, result) => (s.setDevice i d, result)

/-- The device of a file system is closed. -/
def closeDevice (s : Dfs) (devId : Option ℕ) (a : DeviceAnswers) : Dfs :=
  match devId with
  | none => s
  | some i => s.setDevice i (rtDeviceClose a (s.devices i)).1

/-- `dfs_mount` from the registration in the entry `i` on. -/
def mountAt (s : Dfs) (i : ℕ) (fs : Filesystem) (a : MountAnswers) :
    Option (Dfs × Except (Option Errno) Unit) :=
  let s := { s with table := s.table.set i (some fs) }
  (s.openDevice fs.devId a.device).map fun (s, result) =>
    if result ≠ 0 then ({ s with table := s.table.set i none }, .error none)
    else if a.mount < 0 then
      let s := s.closeDevice fs.devId a.device
      ({ s with table := s.table.set i none }, .error none)
    else (s, .ok ())

/-- Whether the mount point can be opened; the root and `/dev` need not be there. -/
def mountPointExists (s : Dfs) (fullpath : List UInt8) (a : MountAnswers) : Except Fault Bool :=
  if fullpath ≠ [slash] ∧ fullpath ≠ [slash, 100, 101, 118] then
    (s.fileOpen a.mallocOk' (cString fullpath) a.dirOpen).map fun r => r.isOk
  else .ok true

/-- `dfs_mount`; `none` for an access outside of a path and for the failed `RT_ASSERT`. -/
def dfsMount (s : Dfs) (deviceName : Option CString) (path filesystemtype : CString)
    (a : MountAnswers) : Option (Dfs × Except (Option Errno) Unit) :=
  let devId := deviceName.bind s.find
  if deviceName.isSome ∧ devId = none then some (s, .error (some .ENODEV))
  else
    match s.findOps filesystemtype with
    | none => some (s, .error (some .ENODEV))
    | some ops =>
      if ops.hasMount = false then some (s, .error (some .ENOSYS))
      else
        match dfsNormalizePath a.mallocOk s.workingDirectory none path with
        | .error _ => none
        | .ok none => some (s, .error (some .ENOTDIR))
        | .ok (some fullpath) =>
          match s.mountPointExists fullpath a with
          | .error _ => none
          | .ok false => some (s, .error (some .ENOTDIR))
          | .ok true =>
            match mountEntry path.bytes s.table 0 none with
            | .error e => some (s, .error e)
            | .ok i => s.mountAt i ⟨fullpath, ops, devId⟩ a

/-! ### `dfs_unmount` -/

/-- What the calls that `dfs_unmount` makes return. -/
structure UnmountAnswers where
  mallocOk : Bool
  unmount : ℤ
  device : DeviceAnswers

/-- The search of `dfs_unmount`. -/
def findMounted (fullpath : List UInt8) : List (Option Filesystem) → ℕ → Option (ℕ × Filesystem)
  | [], _ => none
  | none :: table, i => findMounted fullpath table (i + 1)
  | some iter :: table, i =>
    if iter.path = fullpath then some (i, iter) else findMounted fullpath table (i + 1)

/-- `dfs_unmount`; `none` for an access outside of a path. -/
def dfsUnmount (s : Dfs) (specialfile : CString) (a : UnmountAnswers) :
    Option (Dfs × Except (Option Errno) Unit) :=
  match dfsNormalizePath a.mallocOk s.workingDirectory none specialfile with
  | .error _ => none
  | .ok none => some (s, .error (some .ENOTDIR))
  | .ok (some fullpath) =>
    match findMounted fullpath s.table 0 with
    | none => some (s, .error none)
    | some (i, fs) =>
      if fs.ops.hasUnmount = false ∨ a.unmount < 0 then some (s, .error none)
      else
        let s := s.closeDevice fs.devId a.device
        some ({ s with table := s.table.set i none }, .ok ())

/-! ### Calls one after the other -/

/-- A call, with what it is answered. -/
inductive Call
  | mount (deviceName : Option CString) (path filesystemtype : CString) (a : MountAnswers)
  | unmount (specialfile : CString) (a : UnmountAnswers)

/-- One call; it shows its result. -/
def step (s : Dfs) (c : Call) : Option (Dfs × List (Except (Option Errno) Unit)) :=
  (match c with
    | .mount deviceName path filesystemtype a => s.dfsMount deviceName path filesystemtype a
    | .unmount specialfile a => s.dfsUnmount specialfile a).map fun (s, r) => (s, [r])

/-- The mount points. -/
def mountPoints (s : Dfs) : List (List UInt8) := (s.table.filterMap id).map Filesystem.path

/-- A path whose normalized path is a mount point is spelled like this one, and the driver of the
device does not answer `-RT_ENOSYS`. -/
def SpelledOut (s : Dfs) : Call → Prop
  | .mount deviceName path _ a =>
    (∀ fullpath ∈ s.mountPoints, dfsNormalizePath a.mallocOk s.workingDirectory none path =
      .ok (some fullpath) → path.bytes = fullpath) ∧
    ∀ i, deviceName.bind s.find = some i → (s.devices i).hasOpen = true → a.device.open_ ≠ -rtEnosys
  | .unmount .. => True

/-- The tables of two states, and how often the devices are open, are the same. -/
structure SameTable (s s' : Dfs) : Prop where
  table : s'.table = s.table
  refCount : ∀ i, (s'.devices i).refCount = (s.devices i).refCount

/-- What is to hold of a call: when it fails, nothing has changed; a mount adds a file system
with the normalized path, which is new, and a removal removes what is mounted there. -/
def KeepsTable (s : Dfs) (c : Call) (s' : Dfs) (r : Except (Option Errno) Unit) : Prop :=
  match c, r with
  | _, .error _ => SameTable s s'
  | .mount _ path _ a, .ok () => ∃ fs,
    dfsNormalizePath a.mallocOk s.workingDirectory none path = .ok (some fs.path) ∧
    fs.path ∉ s.mountPoints ∧ ∀ fs', some fs' ∈ s'.table ↔ fs' = fs ∨ some fs' ∈ s.table
  | .unmount specialfile a, .ok () => ∃ fullpath ∈ s.mountPoints,
    dfsNormalizePath a.mallocOk s.workingDirectory none specialfile = .ok (some fullpath) ∧
    ∀ fs', some fs' ∈ s'.table ↔ some fs' ∈ s.table ∧ fs'.path ≠ fullpath

variable {s s' : Dfs} {c : Call} {r : Except (Option Errno) Unit} {path : List UInt8}
variable {table : List (Option Filesystem)} {fs : Filesystem} {i j : ℕ}

theorem mem_mountPoints : path ∈ s.mountPoints ↔ ∃ fs, some fs ∈ s.table ∧ fs.path = path := by
  simp [mountPoints]

/-! #### The searches -/

theorem mountEntry_spec {best : Option ℕ} (h : mountEntry path table i best = .ok j) :
    (∀ fs, some fs ∈ table → fs.path ≠ path) ∧
      (best = some j ∨ best = none ∧ i ≤ j ∧ table[j - i]? = some none) := by
  induction table generalizing i best with
  | nil =>
    cases best with
    | none => cases h
    | some b =>
      cases h
      exact ⟨nofun, .inl rfl⟩
  | cons e table ih =>
    cases e with
    | none =>
      obtain ⟨hne, hj⟩ := ih h
      refine ⟨fun fs hfs => hne fs (by simpa using hfs), ?_⟩
      cases best with
      | some b => exact .inl (hj.resolve_right (by simp))
      | none =>
        right
        rcases hj with hj | ⟨hbad, -⟩
        · obtain rfl : i = j := by simpa using hj
          simp
        · simp at hbad
    | some iter =>
      rw [mountEntry] at h
      split at h
      · cases h
      · next hpath =>
        obtain ⟨hne, hj⟩ := ih h
        refine ⟨fun fs hfs => ?_, hj.imp_right fun ⟨hbest, hle, hj⟩ => ⟨hbest, by omega, ?_⟩⟩
        · rcases mem_cons.1 hfs with hfs | hfs
          · rwa [some_inj.1 hfs]
          · exact hne fs hfs
        · obtain ⟨k, hk⟩ : ∃ k, j - i = k + 1 := ⟨j - i - 1, by omega⟩
          rw [hk, getElem?_cons_succ, ← hj]
          congr 1
          omega

theorem findMounted_some (h : findMounted path table i = some (j, fs)) :
    i ≤ j ∧ table[j - i]? = some (some fs) ∧ fs.path = path := by
  induction table generalizing i with
  | nil => cases h
  | cons e table ih =>
    have hrest : findMounted path table (i + 1) = some (j, fs) →
        i ≤ j ∧ (e :: table)[j - i]? = some (some fs) ∧ fs.path = path := by
      intro h
      obtain ⟨hle, hj, hpath⟩ := ih h
      obtain ⟨k, hk⟩ : ∃ k, j - i = k + 1 := ⟨j - i - 1, by omega⟩
      refine ⟨by omega, ?_, hpath⟩
      rw [hk, getElem?_cons_succ, ← hj]
      congr 1
      omega
    cases e with
    | none => exact hrest h
    | some iter =>
      rw [findMounted] at h
      split at h
      · next hpath =>
        obtain ⟨rfl, rfl⟩ : i = j ∧ iter = fs := by simpa using h
        simp [hpath]
      · exact hrest h

/-! #### The table -/

/-- No two entries have the same mount point. -/
def Distinct (table : List (Option Filesystem)) : Prop :=
  ∀ (i j : ℕ) (fs fs' : Filesystem), table[i]? = some (some fs) → table[j]? = some (some fs') →
    fs.path = fs'.path →
    i = j

theorem distinct_set_some (hd : Distinct table) (hne : ∀ fs', some fs' ∈ table → fs'.path ≠ fs.path) :
    Distinct (table.set i (some fs)) := by
  intro j k fs₁ fs₂ h₁ h₂ hpath
  rw [getElem?_set] at h₁ h₂
  split at h₁ <;> split at h₂
  · omega
  · next hij hik =>
    obtain rfl : fs = fs₁ := by
      split at h₁ <;> simp_all
    exact absurd hpath.symm (hne fs₂ (mem_of_getElem? h₂))
  · obtain rfl : fs = fs₂ := by
      split at h₂ <;> simp_all
    exact absurd hpath (hne fs₁ (mem_of_getElem? h₁))
  · exact hd j k fs₁ fs₂ h₁ h₂ hpath

theorem distinct_set_none (hd : Distinct table) : Distinct (table.set i none) := by
  intro j k fs₁ fs₂ h₁ h₂ hpath
  rw [getElem?_set] at h₁ h₂
  split at h₁
  · split at h₁ <;> simp at h₁
  · split at h₂
    · split at h₂ <;> simp at h₂
    · exact hd j k fs₁ fs₂ h₁ h₂ hpath

theorem mem_set_some (hi : table[i]? = some none) (fs' : Filesystem) :
    some fs' ∈ table.set i (some fs) ↔ fs' = fs ∨ some fs' ∈ table := by
  obtain ⟨hlt, hnone⟩ := List.getElem?_eq_some_iff.1 hi
  constructor
  · intro hmem
    rcases List.mem_or_eq_of_mem_set hmem with hmem | heq
    · exact .inr hmem
    · exact .inl (some_inj.1 heq)
  · rintro (rfl | hmem)
    · exact List.mem_set hlt _
    · obtain ⟨j, hj⟩ := mem_iff_getElem?.1 hmem
      have hne : i ≠ j := by
        rintro rfl
        rw [hi] at hj
        cases hj
      refine mem_iff_getElem?.2 ⟨j, ?_⟩
      rw [getElem?_set_ne hne, hj]

theorem mem_set_none (hd : Distinct table) (hi : table[i]? = some (some fs)) (fs' : Filesystem) :
    some fs' ∈ table.set i none ↔ some fs' ∈ table ∧ fs'.path ≠ fs.path := by
  constructor
  · intro hmem
    obtain ⟨j, hj⟩ := mem_iff_getElem?.1 hmem
    rw [getElem?_set] at hj
    split at hj
    · split at hj <;> simp at hj
    · next hij => exact ⟨mem_of_getElem? hj, fun hpath => hij (hd i j fs fs' hi hj hpath.symm)⟩
  · rintro ⟨hmem, hpath⟩
    obtain ⟨j, hj⟩ := mem_iff_getElem?.1 hmem
    have hne : i ≠ j := by
      rintro rfl
      rw [hi, some_inj, some_inj] at hj
      exact hpath (hj ▸ rfl)
    refine mem_iff_getElem?.2 ⟨j, ?_⟩
    rw [getElem?_set_ne hne, hj]

/-! #### The devices -/

theorem openActivated_refCount {a : DeviceAnswers} {d d' : Device} {result : ℤ}
    (h : d.openActivated a = some (d', result))
    (hopen : d.hasOpen = true → a.open_ ≠ -rtEnosys) :
    (result ≠ 0 → d'.refCount = d.refCount) ∧
      (result = 0 → d'.refCount = d.refCount + 1 ∧ d.refCount + 1 ≠ 0) := by
  rw [Device.openActivated] at h
  split at h
  · cases h
    exact ⟨fun _ => rfl, fun hr => absurd hr (by decide)⟩
  · have hkeep : (if d.hasOpen = true then d else { d with opened := false }).refCount =
        d.refCount := by
      split <;> rfl
    have hanswer : (if d.hasOpen = true then a.open_ else 0) ≠ -rtEnosys := by
      split
      · next hhas => exact hopen hhas
      · decide
    dsimp only at h
    generalize (if d.hasOpen = true then d else { d with opened := false }) = d₁ at h hkeep
    generalize (if d.hasOpen = true then a.open_ else 0) = answer at h hanswer
    rw [hkeep] at h
    split at h
    · next hresult =>
      split at h
      · next hcount =>
        cases h
        exact ⟨fun hne => absurd (hresult.resolve_right hanswer) hne, fun _ => ⟨rfl, hcount⟩⟩
      · cases h
    · next hresult =>
      cases h
      exact ⟨fun _ => hkeep, fun hr => absurd (.inl hr) hresult⟩

theorem rtDeviceOpen_refCount {a : DeviceAnswers} {d d' : Device} {result : ℤ}
    (h : rtDeviceOpen a d = some (d', result))
    (hopen : d.hasOpen = true → a.open_ ≠ -rtEnosys) :
    (result ≠ 0 → d'.refCount = d.refCount) ∧
      (result = 0 → d'.refCount = d.refCount + 1 ∧ d.refCount + 1 ≠ 0) := by
  rw [rtDeviceOpen] at h
  split at h
  · exact openActivated_refCount h hopen
  · have hopen' : ({ d with activated := true } : Device).hasOpen = true →
      a.open_ ≠ -rtEnosys := hopen
    split at h
    · next hinit =>
      cases h
      exact ⟨fun _ => rfl, fun hr => absurd hr hinit.2⟩
    · have hactivated := openActivated_refCount h hopen'
      exact hactivated

theorem rtDeviceClose_refCount {a : DeviceAnswers} {d : Device} (hne : d.refCount ≠ 0) :
    (rtDeviceClose a d).1.refCount = d.refCount - 1 := by
  rw [rtDeviceClose, if_neg hne]
  dsimp only
  generalize (if d.hasClose = true then a.close else 0) = answer
  split
  · rfl
  · split <;> rfl

/-- The device of a file system has been opened, or it is open as often as before. -/
theorem openDevice_spec {devId : Option ℕ} {a : DeviceAnswers} {result : ℤ}
    (h : s.openDevice devId a = some (s', result))
    (hopen : ∀ i, devId = some i → (s.devices i).hasOpen = true → a.open_ ≠ -rtEnosys) :
    s'.table = s.table ∧
      (result ≠ 0 → ∀ i, (s'.devices i).refCount = (s.devices i).refCount) ∧
      (result = 0 → ∀ i, ((s'.closeDevice devId a).devices i).refCount =
        (s.devices i).refCount) := by
  cases devId with
  | none =>
    cases h
    exact ⟨rfl, fun _ _ => rfl, fun _ _ => rfl⟩
  | some k =>
    obtain ⟨⟨d, result'⟩, hd, hs⟩ := map_eq_some_iff.1 h
    cases hs
    obtain ⟨hfail, hok⟩ := rtDeviceOpen_refCount hd (hopen k rfl)
    refine ⟨rfl, fun hr i => ?_, fun hr i => ?_⟩
    · simp only [setDevice, update_apply]
      split
      · next hik => rw [hfail hr, hik]
      · rfl
    · obtain ⟨hcount, hne⟩ := hok hr
      simp only [closeDevice, setDevice, update_apply, if_true]
      split
      · next hik =>
        -- it is closed again
        rw [rtDeviceClose_refCount (hcount ▸ hne), hcount, hik, UInt8.add_sub_cancel]
      · next hik => rfl

@[simp] theorem table_closeDevice (s : Dfs) (devId : Option ℕ) (a : DeviceAnswers) :
    (s.closeDevice devId a).table = s.table := by
  cases devId <;> rfl

/-! #### The calls -/

theorem set_set_none (hi : table[i]? = some none) (e : Option Filesystem) :
    (table.set i e).set i none = table := by
  rw [set_set]
  obtain ⟨hlt, hnone⟩ := List.getElem?_eq_some_iff.1 hi
  rw [← hnone, List.set_getElem_self]

theorem mountAt_spec {a : MountAnswers} (hi : s.table[i]? = some none)
    (h : s.mountAt i fs a = some (s', r))
    (hopen : ∀ k, fs.devId = some k → (s.devices k).hasOpen = true → a.device.open_ ≠ -rtEnosys) :
    (∀ e, r = .error e → SameTable s s') ∧ (r = .ok () → s'.table = s.table.set i (some fs)) := by
  obtain ⟨⟨s₁, result⟩, hs₁, hs⟩ := map_eq_some_iff.1 h
  obtain ⟨htable, hfail, hok⟩ := openDevice_spec hs₁ hopen
  dsimp only at hs htable
  split at hs
  · next hr =>
    cases hs
    refine ⟨fun _ _ => ⟨?_, hfail hr⟩, nofun⟩
    rw [htable, set_set_none hi]
  · next hr =>
    split at hs
    · cases hs
      refine ⟨fun _ _ => ⟨?_, hok (not_not.1 hr)⟩, nofun⟩
      rw [table_closeDevice, htable, set_set_none hi]
    · cases hs
      exact ⟨nofun, fun _ => htable⟩

/-- What `dfs_mount` does: it fails at once, or goes on with an entry of the table. -/
theorem dfsMount_cases {deviceName : Option CString} {filename filesystemtype : CString}
    {a : MountAnswers} (h : s.dfsMount deviceName filename filesystemtype a = some (s', r)) :
    (s' = s ∧ ∃ e, r = .error e) ∨
      ∃ fs i, dfsNormalizePath a.mallocOk s.workingDirectory none filename = .ok (some fs.path) ∧
        fs.devId = deviceName.bind s.find ∧ mountEntry filename.bytes s.table 0 none = .ok i ∧
        s.mountAt i fs a = some (s', r) := by
  have hfail : ∀ {e}, some (s, (.error e : Except (Option Errno) Unit)) = some (s', r) →
      s' = s ∧ ∃ e, r = .error e := by
    intro e he
    cases he
    exact ⟨rfl, e, rfl⟩
  rw [dfsMount] at h
  split at h
  · exact .inl (hfail h)
  · split at h
    · exact .inl (hfail h)
    · next ops _ =>
      split at h
      · exact .inl (hfail h)
      · split at h
        · cases h
        · exact .inl (hfail h)
        · next fullpath hnorm =>
          split at h
          · cases h
          · exact .inl (hfail h)
          · split at h
            · exact .inl (hfail h)
            · next i hi => exact .inr ⟨_, i, hnorm, rfl, hi, h⟩

/-- What `dfs_unmount` does: it fails, or clears an entry of the table. -/
theorem dfsUnmount_cases {specialfile : CString} {a : UnmountAnswers}
    (h : s.dfsUnmount specialfile a = some (s', r)) :
    (s' = s ∧ ∃ e, r = .error e) ∨
      ∃ fs i, dfsNormalizePath a.mallocOk s.workingDirectory none specialfile =
          .ok (some fs.path) ∧
        s.table[i]? = some (some fs) ∧ s'.table = s.table.set i none ∧ r = .ok () := by
  rw [dfsUnmount] at h
  split at h
  · cases h
  · cases h
    exact .inl ⟨rfl, _, rfl⟩
  · next fullpath hnorm =>
    split at h
    · cases h
      exact .inl ⟨rfl, _, rfl⟩
    · next i fs hfind =>
      obtain ⟨-, hi, hpath⟩ := findMounted_some hfind
      split at h
      · cases h
        exact .inl ⟨rfl, _, rfl⟩
      · cases h
        refine .inr ⟨fs, i, hpath ▸ hnorm, hi, ?_, rfl⟩
        rw [table_closeDevice]

theorem keepsTable_step {out : List (Except (Option Errno) Unit)} (hd : Distinct s.table)
    (hc : s.SpelledOut c) (h : s.step c = some (s', out)) :
    Distinct s'.table ∧ ∃ r, out = [r] ∧ KeepsTable s c s' r := by
  obtain ⟨⟨s₁, r⟩, hs, heq⟩ := map_eq_some_iff.1 h
  cases heq
  cases c with
  | mount deviceName filename filesystemtype a =>
    obtain ⟨hspelled, hopen⟩ := hc
    rcases dfsMount_cases hs with ⟨rfl, e, rfl⟩ | ⟨fs, i, hnorm, hdev, hi, hat⟩
    · exact ⟨hd, _, rfl, rfl, fun _ => rfl⟩
    · obtain ⟨hne, hentry⟩ := mountEntry_spec hi
      obtain ⟨-, -, hi'⟩ := hentry.resolve_left nofun
      obtain ⟨hfail, hok⟩ := mountAt_spec hi' hat fun k hk => hopen k (hdev ▸ hk)
      -- the spelling has been looked for, which is that of the normalized path if there is one
      have hnew : fs.path ∉ s.mountPoints := by
        intro hmem
        obtain ⟨fs', hfs', hpath⟩ := mem_mountPoints.1 hmem
        exact hne fs' hfs' (hpath.trans (hspelled _ hmem hnorm).symm)
      cases r with
      | error e =>
        have hsame := hfail e rfl
        exact ⟨hsame.table ▸ hd, _, rfl, hsame⟩
      | ok u =>
        have htable := hok rfl
        refine ⟨?_, _, rfl, fs, hnorm, hnew, fun fs' => ?_⟩
        · rw [htable]
          exact distinct_set_some hd fun fs' hfs' hpath => hnew (mem_mountPoints.2 ⟨fs', hfs', hpath⟩)
        · rw [htable]
          exact mem_set_some hi' fs'
  | unmount specialfile a =>
    rcases dfsUnmount_cases hs with ⟨rfl, e, rfl⟩ | ⟨fs, i, hnorm, hi, htable, rfl⟩
    · exact ⟨hd, _, rfl, rfl, fun _ => rfl⟩
    · refine ⟨htable ▸ distinct_set_none hd, _, rfl, fs.path,
        mem_mountPoints.2 ⟨fs, mem_of_getElem? hi, rfl⟩, hnorm, fun fs' => ?_⟩
      rw [htable]
      exact mem_set_none hd hi fs'

theorem Distinct.nodup (hd : Distinct table) :
    ((table.filterMap id).map Filesystem.path).Nodup := by
  induction table with
  | nil => exact nodup_nil
  | cons e table ih =>
    have htail : Distinct table := fun i j fs fs' hi hj hpath =>
      Nat.succ_injective (hd (i + 1) (j + 1) fs fs' hi hj hpath)
    cases e with
    | none => exact ih htail
    | some fs =>
      refine nodup_cons.2 ⟨fun hmem => ?_, ih htail⟩
      obtain ⟨fs', hfs', hpath⟩ := List.mem_map.1 hmem
      obtain ⟨e, he, rfl⟩ := mem_filterMap.1 hfs'
      obtain ⟨j, hj⟩ := mem_iff_getElem?.1 he
      exact absurd (hd 0 (j + 1) fs fs' rfl hj hpath.symm) (by omega)

/-- **In every run** whose calls meet the condition, no path is mounted twice, and every call that
meets it keeps the table in order. -/
theorem run_keepsTable (s₀ s : Dfs) (hempty : ∀ fs, some fs ∉ s₀.table)
    (returned : List (Except (Option Errno) Unit)) (hrun : Run step SpelledOut s₀ returned s) :
    s.mountPoints.Nodup ∧ ∀ c s' out, s.SpelledOut c → s.step c = some (s', out) →
      ∃ r, out = [r] ∧ KeepsTable s c s' r := by
  have hstart : Distinct s₀.table := fun i _ fs _ hi _ _ =>
    absurd (mem_of_getElem? hi) (hempty fs)
  have hd : Distinct s.table :=
    hrun.invariant (fun _ s => Distinct s.table) hstart fun hd hc hs => (keepsTable_step hd hc hs).1
  exact ⟨hd.nodup, fun c s' out hc hs => (keepsTable_step hd hc hs).2⟩

/-- A file system for `/dev` without a device. -/
def devfsOps : FsOps := ⟨⟨[100], by decide⟩, false, true, true, true, false⟩

/-- Nothing is mounted, and one file system is registered. -/
def noMounts : Dfs :=
  ⟨[some devfsOps, none], [none, none], fun _ => ⟨false, false, false, false, false, false, 0⟩,
    fun _ => none, some ⟨[slash], zero_notMem_slash⟩⟩

/-- `/dev`. -/
def devPath : CString := ⟨[slash, 100, 101, 118], by decide⟩

/-- `/dev/`. -/
def devSlashPath : CString := ⟨[slash, 100, 101, 118, slash], by decide⟩

/-- Everything is answered with success. -/
def mountAnswers : MountAnswers := ⟨true, true, 0, ⟨0, 0, 0⟩, 0⟩

theorem run_keepsTable_mountsOnce :
    ∃ s : Dfs, s.mountPoints = [[slash, 100, 101, 118]] ∧ s.mountPoints.Nodup := by
  obtain ⟨⟨s, out⟩, hs, hpoints⟩ : ∃ r, noMounts.step (.mount none devPath ⟨[100], by decide⟩
      mountAnswers) = some r ∧ r.1.mountPoints = [[slash, 100, 101, 118]] := by
    refine ⟨_, rfl, ?_⟩
    decide +kernel
  have hspelled : noMounts.SpelledOut (.mount none devPath ⟨[100], by decide⟩ mountAnswers) :=
    ⟨nofun, nofun⟩
  have hrun : Run step SpelledOut noMounts ([] ++ out) s := Run.nil.snoc hspelled hs
  exact ⟨s, hpoints, (run_keepsTable noMounts s (by simp [noMounts]) _ hrun).1⟩

/-- **A path is mounted twice** when it is spelled in two ways. -/
theorem not_run_keepsTable :
    ¬ ∀ (s₀ s : Dfs) (_ : ∀ fs, some fs ∉ s₀.table) (returned : List (Except (Option Errno) Unit))
      (_ : Run step (fun _ _ => True) s₀ returned s), s.mountPoints.Nodup := by
  intro hall
  have hsome : (exec step (fun _ _ => True) noMounts
      [.mount none devPath ⟨[100], by decide⟩ mountAnswers,
        .mount none devSlashPath ⟨[100], by decide⟩ mountAnswers]).any fun r =>
        decide (¬ r.1.mountPoints.Nodup) := by
    decide +kernel
  obtain ⟨s, returned, hrun, htwice⟩ := Run.of_any hsome
  exact htwice (hall noMounts s (by simp [noMounts]) returned hrun)

end Dfs

end RtThread
