import McCortexM3.ByteFiles
import McCortexM3.Run

/-!
# Files in memory

`dfs_ramfs.c`: the data of a file are one block of a memory heap, and its directory entry has their
address and size.  A descriptor has a size of its own, which is the size of the file when it was
opened or when the descriptor itself last extended it.

## Main definitions

* `RamDirent`, `RamFd`, `Ramfs` — the directory entries, the descriptors, and the file system.
* `Ramfs.step` — the operations on descriptors.
* `Ramfs.Fresh` — the size of the descriptor says as much as that of the file.
* `Ramfs.RefinesBytes` — every file is a byte string.

## Main results

* `Ramfs.run_refinesBytes` — so it is in every run in which the sizes of the descriptors do.
* `Ramfs.not_refinesBytes` — a write makes a file shorter.
-/

set_option linter.all false

namespace RtThread

open Function Option List
open Function (update)

/-- A directory entry: the block of the data, and `size`. -/
structure RamDirent where
  data : Option (List UInt8)
  size : ℕ
  deriving DecidableEq

/-- A descriptor: its file, `size` and `pos`. -/
structure RamFd (Name : Type) where
  file : Name
  size : ℕ
  pos : ℕ
  deriving DecidableEq

/-- The flags of `open`. -/
structure RamFlags where
  directory : Bool
  creat : Bool
  wronly : Bool
  trunc : Bool
  append : Bool

/-- What can happen next, on a descriptor: a file is opened (and whether there is memory for a new
directory entry), bytes are read or written (and whether there is memory for more data, and what is
in it), the position is set, and the descriptor is closed. -/
inductive RamAction (Fd Name : Type)
  | open' (fd : Fd) (name : Name) (flags : RamFlags) (memory : Bool)
  | read (fd : Fd) (count : ℕ)
  | write (fd : Fd) (bytes : List UInt8) (memory : Bool) (fill : ℕ → UInt8)
  | lseek (fd : Fd) (offset : ℤ) (whence : Whence)
  | close (fd : Fd)

/-- The directory entries by their names, and the descriptors in use. -/
structure Ramfs (Fd Name : Type) where
  dirent : Name → Option RamDirent
  fds : Fd → Option (RamFd Name)

namespace RamDirent

/-- The bytes of the data. -/
def bytes (d : RamDirent) : List UInt8 := d.data.getD []

/-- An access of `length` bytes at `pos` is in the data. -/
def Inside (d : RamDirent) (pos length : ℕ) : Prop :=
  length = 0 ∨ ∃ data ∈ d.data, pos + length ≤ data.length

instance (d : RamDirent) (pos length : ℕ) : Decidable (d.Inside pos length) := by
  unfold Inside
  cases d.data with
  | none => exact decidable_of_iff (length = 0) (by simp)
  | some data => exact decidable_of_iff (length = 0 ∨ pos + length ≤ data.length) (by simp)

/-- `rt_memheap_realloc`: the bytes that fit into the new block stay, and the others are what is in
the memory. -/
def realloc (d : RamDirent) (size : ℕ) (fill : ℕ → UInt8) : RamDirent where
  data := some (d.bytes.take size ++ (List.range (size - d.bytes.length)).map fill)
  size := size

/-- `memcpy` into the data. -/
def memcpy (d : RamDirent) (pos : ℕ) (bytes : List UInt8) : RamDirent :=
  { d with data := d.data.map fun data => data.overwrite pos bytes }

end RamDirent

namespace Ramfs

variable {Fd Name : Type} [DecidableEq Fd] [DecidableEq Name]

/-- The descriptor becomes `f`. -/
def setFd (s : Ramfs Fd Name) (fd : Fd) (f : RamFd Name) : Ramfs Fd Name :=
  { s with fds := update s.fds fd (some f) }

/-- The directory entry becomes `d`. -/
def setDirent (s : Ramfs Fd Name) (name : Name) (d : RamDirent) : Ramfs Fd Name :=
  { s with dirent := update s.dirent name (some d) }

/-- `dfs_ramfs_open` up to the descriptor: the directory entry, or none for `ENOSPC`, `ENOENT` and
`ENOMEM`. -/
def openDirent (s : Ramfs Fd Name) (name : Name) (flags : RamFlags) (memory : Bool) :
    Option RamDirent :=
  if flags.directory = true then
    if flags.creat = true then none else s.dirent name
  else
    let dirent := match s.dirent name with
      | some d => some d
      | none =>
        if flags.creat = true ∨ flags.wronly = true then
          if memory = true then some ⟨none, 0⟩ else none
        else none
    dirent.map fun d => if flags.trunc = true then ⟨none, 0⟩ else d

/-- `dfs_ramfs_open`. -/
def dfsRamfsOpen (s : Ramfs Fd Name) (fd : Fd) (name : Name) (flags : RamFlags) (memory : Bool) :
    Ramfs Fd Name × List (FileEvent Fd Name UInt8) :=
  match s.openDirent name flags memory with
  | none => (s, [.refused fd])
  | some d =>
    ((s.setDirent name d).setFd fd ⟨name, d.size, if flags.append = true then d.size else 0⟩,
      [.opened fd name (!flags.directory && flags.trunc) flags.append])

/-- `dfs_ramfs_read`. -/
def dfsRamfsRead (s : Ramfs Fd Name) (fd : Fd) (f : RamFd Name) (d : RamDirent) (count : ℕ) :
    Ramfs Fd Name × List (FileEvent Fd Name UInt8) :=
  let length := if count < f.size - f.pos then count else f.size - f.pos
  (s.setFd fd { f with pos := f.pos + length },
    if d.Inside f.pos length then [.read fd count ((d.bytes.drop f.pos).take length)]
    else [.fault fd])

/-- The second half of `dfs_ramfs_write`: the bytes are copied. -/
def writeBytes (s : Ramfs Fd Name) (fd : Fd) (f : RamFd Name) (d : RamDirent)
    (bytes : List UInt8) : Ramfs Fd Name × List (FileEvent Fd Name UInt8) :=
  if d.Inside f.pos bytes.length then
    ((s.setDirent f.file (d.memcpy f.pos bytes)).setFd fd { f with pos := f.pos + bytes.length },
      [.wrote fd bytes bytes.length])
  else (s.setFd fd { f with pos := f.pos + bytes.length }, [.fault fd])

/-- `dfs_ramfs_write`. -/
def dfsRamfsWrite (s : Ramfs Fd Name) (fd : Fd) (f : RamFd Name) (d : RamDirent)
    (bytes : List UInt8) (memory : Bool) (fill : ℕ → UInt8) :
    Ramfs Fd Name × List (FileEvent Fd Name UInt8) :=
  if bytes.length + f.pos > f.size then
    if memory = true then
      let d := d.realloc (f.pos + bytes.length) fill
      (s.setDirent f.file d).writeBytes fd { f with size := d.size } d bytes
    else (s, [.wrote fd bytes 0])
  else s.writeBytes fd f d bytes

/-- `lseek` and `dfs_ramfs_lseek`. -/
def lseek (s : Ramfs Fd Name) (fd : Fd) (f : RamFd Name) (offset : ℤ) (whence : Whence) :
    Ramfs Fd Name × List (FileEvent Fd Name UInt8) :=
  let target := ByteFiles.target f.size f.pos offset whence
  if target < 0 then (s, [.sought fd offset whence none])
  else if target ≤ f.size then
    (s.setFd fd { f with pos := target.toNat }, [.sought fd offset whence (some target.toNat)])
  else (s, [.sought fd offset whence none])

/-- One operation. -/
def step (s : Ramfs Fd Name) :
    RamAction Fd Name → Option (Ramfs Fd Name × List (FileEvent Fd Name UInt8))
  | .open' fd name flags memory =>
    if s.fds fd = none then some (s.dfsRamfsOpen fd name flags memory) else none
  | .read fd count => (s.fds fd).bind fun f => (s.dirent f.file).map fun d =>
    s.dfsRamfsRead fd f d count
  | .write fd bytes memory fill => (s.fds fd).bind fun f => (s.dirent f.file).map fun d =>
    s.dfsRamfsWrite fd f d bytes memory fill
  | .lseek fd offset whence => (s.fds fd).map fun f => s.lseek fd f offset whence
  | .close fd => (s.fds fd).map fun _ =>
    ({ s with fds := update s.fds fd none }, [.closed fd])

/-- `dfs_ramfs_create`. -/
def boot : Ramfs Fd Name := ⟨fun _ => none, fun _ => none⟩

/-! ### Statement -/

variable {s s' : Ramfs Fd Name} {fd : Fd} {name : Name} {f : RamFd Name} {d : RamDirent}
  {a : RamAction Fd Name} {out tr : List (FileEvent Fd Name UInt8)} {bytes : List UInt8} {pos n : ℕ}

/-- The files as byte strings. -/
def files (s : Ramfs Fd Name) : ByteFiles Fd Name UInt8 where
  content := fun name => (s.dirent name).map RamDirent.bytes
  descriptor := fun fd => (s.fds fd).map fun f => (f.file, f.pos)

/-- As many of the bytes to be read are in the size of the descriptor as in that of the file. -/
def ReadFresh (f : RamFd Name) (d : RamDirent) (count : ℕ) : Prop :=
  min count (f.size - f.pos) = min count (d.size - f.pos)

/-- The bytes to be written are in both sizes, or they extend the file from somewhere in it. -/
def WriteFresh (f : RamFd Name) (d : RamDirent) (bytes : List UInt8) (memory : Bool) : Prop :=
  bytes ≠ [] → if bytes.length + f.pos > f.size then
    memory = true → f.pos ≤ d.size ∧ d.size ≤ f.pos + bytes.length
  else f.pos + bytes.length ≤ d.size

/-- The position to be set is the same in both sizes, or in neither. -/
def SeekFresh (f : RamFd Name) (d : RamDirent) (offset : ℤ) (whence : Whence) : Prop :=
  let t := ByteFiles.target f.size f.pos offset whence
  let t' := ByteFiles.target d.size f.pos offset whence
  (0 ≤ t ∧ t ≤ f.size ↔ 0 ≤ t' ∧ t' ≤ d.size) ∧ (0 ≤ t → t ≤ f.size → t = t')

/-- For the operation, the size of the descriptor says as much as that of the file. -/
def Fresh (s : Ramfs Fd Name) : RamAction Fd Name → Prop
  | .read fd count => ∀ f ∈ s.fds fd, ∀ d ∈ s.dirent f.file, ReadFresh f d count
  | .write fd bytes memory _ => ∀ f ∈ s.fds fd, ∀ d ∈ s.dirent f.file, WriteFresh f d bytes memory
  | .lseek fd offset whence => ∀ f ∈ s.fds fd, ∀ d ∈ s.dirent f.file, SeekFresh f d offset whence
  | _ => True

/-- Every file is a byte string: what the operations return is what they return on the byte strings,
a write replaces its range and nothing else, and no access is outside of the data. -/
structure RefinesBytes (tr : List (FileEvent Fd Name UInt8)) (s : Ramfs Fd Name) : Prop where
  accepts : ByteFiles.Accepts tr s.files
  writes : ∀ pre fd bytes n post, tr = pre ++ FileEvent.wrote fd bytes n :: post → n ≠ 0 →
    ∃ b b' : ByteFiles Fd Name UInt8, ByteFiles.Accepts pre b ∧
      ByteFiles.Accepts (pre ++ [FileEvent.wrote fd bytes n]) b' ∧
        ∃ name pos, b.descriptor fd = some (name, pos) ∧ n = bytes.length ∧
          ByteFiles.Writes b.content b'.content name pos bytes
  noFault : ∀ fd, .fault fd ∉ tr

theorem RefinesBytes.of_accepts (h : ByteFiles.Accepts tr s.files) : RefinesBytes tr s := by
  refine ⟨h, fun pre fd bytes n post heq hn => ?_, h.no_fault⟩
  rw [heq] at h
  obtain ⟨b, b', hpre, haccept, hb'⟩ := h.of_append
  exact ⟨b, b', hpre, hb', ByteFiles.write_spec haccept hn⟩

/-! ### Operations -/

/-- The size of an entry is that of its data, and a descriptor has a file and a position in its own
size. -/
structure Inv (s : Ramfs Fd Name) : Prop where
  size : ∀ name, ∀ d ∈ s.dirent name, d.bytes.length = d.size
  file : ∀ fd, ∀ f ∈ s.fds fd, (s.dirent f.file).isSome = true ∧ f.pos ≤ f.size

theorem Inv.setFd (hs : Inv s) (hfile : (s.dirent f.file).isSome = true) (hpos : f.pos ≤ f.size) :
    Inv (s.setFd fd f) := by
  refine ⟨hs.size, fun fd' f' hf' => ?_⟩
  by_cases hfd : fd' = fd
  · subst hfd
    simp only [Ramfs.setFd, update_self, mem_def, some.injEq] at hf'
    subst hf'
    exact ⟨hfile, hpos⟩
  · simp only [Ramfs.setFd, update_of_ne hfd] at hf'
    exact hs.file fd' f' hf'

theorem Inv.setDirent (hs : Inv s) (hd : d.bytes.length = d.size) : Inv (s.setDirent name d) := by
  refine ⟨fun name' d' hd' => ?_, fun fd f hf => ⟨?_, (hs.file fd f hf).2⟩⟩
  · by_cases hname : name' = name
    · subst hname
      simp only [Ramfs.setDirent, update_self, mem_def, some.injEq] at hd'
      subst hd'
      exact hd
    · simp only [Ramfs.setDirent, update_of_ne hname] at hd'
      exact hs.size name' d' hd'
  · by_cases hname : f.file = name
    · simp [Ramfs.setDirent, hname]
    · simp only [Ramfs.setDirent, update_of_ne hname]
      exact (hs.file fd f hf).1

@[simp] theorem files_setFd (s : Ramfs Fd Name) (fd : Fd) (f : RamFd Name) :
    (s.setFd fd f).files = s.files.move fd f.file f.pos := by
  refine ByteFiles.ext rfl (funext fun fd' => ?_)
  by_cases hfd : fd' = fd
  · subst hfd
    simp [files, setFd, ByteFiles.move]
  · simp [files, setFd, ByteFiles.move, hfd]

@[simp] theorem files_setDirent (s : Ramfs Fd Name) (name : Name) (d : RamDirent) :
    (s.setDirent name d).files =
      { s.files with content := update s.files.content name (some d.bytes) } := by
  refine ByteFiles.ext (funext fun name' => ?_) rfl
  by_cases hname : name' = name
  · subst hname
    simp [files, setDirent]
  · simp [files, setDirent, hname]

theorem inside_of_le {length : ℕ} (hd : d.bytes.length = d.size)
    (h : length = 0 ∨ pos + length ≤ d.size) : d.Inside pos length := by
  rcases h with hzero | hle
  · exact .inl hzero
  · cases hdata : d.data with
    | none =>
      simp only [RamDirent.bytes, hdata, getD_none, length_nil] at hd
      exact .inl (by omega)
    | some data =>
      simp only [RamDirent.bytes, hdata, getD_some] at hd
      exact .inr ⟨data, hdata, by omega⟩

theorem bytes_realloc (d : RamDirent) (size : ℕ) (fill : ℕ → UInt8) :
    (d.realloc size fill).bytes.length = size := by
  simp only [RamDirent.bytes, RamDirent.realloc, getD_some, length_append,
    length_take, length_map, length_range]
  omega

/-- What is in the memory behind the data does not matter when the bytes reach the end of it. -/
theorem overwrite_realloc (fill : ℕ → UInt8) (hpos : pos ≤ d.bytes.length)
    (hend : d.bytes.length ≤ pos + bytes.length) :
    (d.realloc (pos + bytes.length) fill).bytes.overwrite pos bytes =
      d.bytes.overwrite pos bytes := by
  have hlength := bytes_realloc d (pos + bytes.length) fill
  have htake : (d.realloc (pos + bytes.length) fill).bytes.take pos = d.bytes.take pos := by
    simp only [RamDirent.realloc]
    rw [RamDirent.bytes, getD_some, take_of_length_le hend, take_append_of_le_length hpos]
  rw [List.overwrite, List.overwrite, htake, drop_of_length_le (by omega), drop_of_length_le hend]

theorem bytes_memcpy (h : d.Inside pos bytes.length) :
    (d.memcpy pos bytes).bytes = d.bytes.overwrite pos bytes := by
  simp only [RamDirent.bytes, RamDirent.memcpy]
  cases hdata : d.data with
  | none =>
    rcases h with hzero | ⟨data, hsome, -⟩
    · rw [eq_nil_of_length_eq_zero hzero]
      simp
    · rw [hdata] at hsome
      cases hsome
  | some data => rfl

theorem size_memcpy (hd : d.bytes.length = d.size) (h : d.Inside pos bytes.length) :
    (d.memcpy pos bytes).bytes.length = (d.memcpy pos bytes).size := by
  rw [bytes_memcpy h, RamDirent.memcpy, ← hd]
  rcases h with hzero | ⟨data, hdata, hle⟩
  · rw [eq_nil_of_length_eq_zero hzero, List.overwrite_nil]
  · have hbytes : d.bytes = data := by rw [RamDirent.bytes, mem_def.1 hdata, getD_some]
    rw [← hbytes] at hle
    rw [List.length_overwrite (by omega)]
    omega

/-- An operation does what it does on the byte strings. -/
def Matches (s : Ramfs Fd Name) (r : Ramfs Fd Name × List (FileEvent Fd Name UInt8)) : Prop :=
  Inv r.1 ∧ ∃ e, r.2 = [e] ∧ s.files.accept e = some r.1.files

theorem files_eq (hf : s.fds fd = some f) (hd : s.dirent f.file = some d) :
    s.files.descriptor fd = some (f.file, f.pos) ∧ s.files.content f.file = some d.bytes := by
  simp [files, hf, hd]

theorem matches_open (hs : Inv s) (flags : RamFlags) (memory : Bool) :
    Matches s (s.dfsRamfsOpen fd name flags memory) := by
  rw [dfsRamfsOpen]
  cases hopen : s.openDirent name flags memory with
  | none => exact ⟨hs, _, rfl, rfl⟩
  | some d =>
    -- the entry is the one of the file, a new one, or an empty one
    have hd : d.bytes.length = d.size ∧ d.bytes =
        if (!flags.directory && flags.trunc) = true then [] else (s.files.content name).getD [] := by
      unfold openDirent at hopen
      split at hopen
      · next hdirectory =>
        rw [ite_none_left_eq_some] at hopen
        exact ⟨hs.size name d hopen.2, by simp [hdirectory, files, hopen.2]⟩
      · next hdirectory =>
        obtain ⟨d₀, hd₀, rfl⟩ := map_eq_some_iff.1 hopen
        by_cases htrunc : flags.trunc = true
        · simp [htrunc, hdirectory, RamDirent.bytes]
        · rw [if_neg htrunc]
          cases hfile : s.dirent name with
          | some d₁ =>
            simp only [hfile, some.injEq] at hd₀
            subst hd₀
            exact ⟨hs.size name d₁ hfile, by simp [htrunc, files, hfile]⟩
          | none =>
            simp only [hfile, ite_none_right_eq_some, some.injEq] at hd₀
            obtain ⟨-, -, rfl⟩ := hd₀
            exact ⟨rfl, by simp [htrunc, files, hfile, RamDirent.bytes]⟩
    refine ⟨(hs.setDirent hd.1).setFd (by simp [setDirent]) (by dsimp only; split <;> omega), _, rfl, ?_⟩
    simp only [ByteFiles.accept, files_setFd, files_setDirent, ← hd.2, hd.1]

section

variable (hs : Inv s) (hf : s.fds fd = some f) (hd : s.dirent f.file = some d)
include hs hf hd

theorem matches_read {count : ℕ} (hfresh : ReadFresh f d count) :
    Matches s (s.dfsRamfsRead fd f d count) := by
  obtain ⟨hdescriptor, hcontent⟩ := files_eq hf hd
  have hpos := (hs.file fd f hf).2
  have hsize := hs.size _ d hd
  have hlength : (if count < f.size - f.pos then count else f.size - f.pos) =
      min count (d.size - f.pos) := by
    rw [← hfresh]
    split <;> omega
  have hinside : d.Inside f.pos (min count (d.size - f.pos)) := inside_of_le hsize (by omega)
  have htake : (d.bytes.drop f.pos).take (min count (d.size - f.pos)) =
      (d.bytes.drop f.pos).take count := by
    rw [take_eq_take_iff, length_drop, hsize]
    omega
  rw [dfsRamfsRead, hlength]
  simp only [if_pos hinside]
  refine ⟨hs.setFd (by simp [hd]) ?_, _, rfl, ?_⟩
  · rw [← hfresh]
    dsimp only
    omega
  · have hcount : ((d.bytes.drop f.pos).take (min count (d.size - f.pos))).length =
        min count (d.size - f.pos) := by
      rw [length_take, length_drop, hsize]
      omega
    simp only [ByteFiles.accept, hdescriptor, hcontent, bind_some, files_setFd, hcount]
    rw [if_pos htake]

theorem matches_writeBytes (hend : bytes = [] ∨ f.pos + bytes.length ≤ d.size)
    (hpos : f.pos + bytes.length ≤ f.size) :
    Matches s (s.writeBytes fd f d bytes) := by
  obtain ⟨hdescriptor, hcontent⟩ := files_eq hf hd
  have hsize := hs.size _ d hd
  have hinside : d.Inside f.pos bytes.length :=
    inside_of_le hsize (hend.imp (fun h => by rw [h]; rfl) id)
  rw [writeBytes, if_pos hinside]
  refine ⟨(hs.setDirent (size_memcpy hsize hinside)).setFd (by simp [setDirent]) hpos, _, rfl, ?_⟩
  simp only [ByteFiles.accept, hdescriptor, hcontent, bind_some, files_setFd,
    files_setDirent, bytes_memcpy hinside]
  by_cases hzero : bytes.length = 0
  · -- nothing is written
    obtain rfl := eq_nil_of_length_eq_zero hzero
    have hsame : update s.files.content f.file (some d.bytes) = s.files.content := by
      rw [← hcontent, update_eq_self]
    have hmove : s.files.move fd f.file f.pos = s.files := by
      rw [ByteFiles.move, ← hdescriptor, update_eq_self]
    simp [hsame, hmove]
  · have hle := hend.resolve_left fun h => hzero (by rw [h]; rfl)
    have hpos' : f.pos ≤ d.bytes.length := by omega
    rw [if_neg hzero, if_pos ⟨trivial, hpos'⟩]

theorem matches_write {memory : Bool} (fill : ℕ → UInt8) (hfresh : WriteFresh f d bytes memory) :
    Matches s (s.dfsRamfsWrite fd f d bytes memory fill) := by
  obtain ⟨hdescriptor, hcontent⟩ := files_eq hf hd
  have hpos := (hs.file fd f hf).2
  have hsize := hs.size _ d hd
  rw [dfsRamfsWrite]
  by_cases hgrows : bytes.length + f.pos > f.size
  · have hne : bytes ≠ [] := by
      rintro rfl
      rw [length_nil] at hgrows
      omega
    have hfresh := hfresh hne
    rw [if_pos hgrows] at hfresh ⊢
    by_cases hmemory : memory = true
    · obtain ⟨hstart, hend⟩ := hfresh hmemory
      rw [if_pos hmemory]
      have hblock := bytes_realloc d (f.pos + bytes.length) fill
      have hinside : (d.realloc (f.pos + bytes.length) fill).Inside f.pos bytes.length :=
        inside_of_le hblock (.inr le_rfl)
      have hzero : bytes.length ≠ 0 := fun hzero => hne (eq_nil_of_length_eq_zero hzero)
      dsimp only
      rw [writeBytes, if_pos hinside]
      refine ⟨((hs.setDirent hblock).setDirent (size_memcpy hblock hinside)).setFd
        (by simp [setDirent]) le_rfl, _, rfl, ?_⟩
      simp only [ByteFiles.accept, hdescriptor, hcontent, bind_some, files_setFd,
        files_setDirent, bytes_memcpy hinside, update_idem]
      rw [overwrite_realloc fill (by omega) (by omega), if_neg hzero, if_pos ⟨trivial, by omega⟩]
    · rw [if_neg hmemory]
      refine ⟨hs, _, rfl, ?_⟩
      simp only [ByteFiles.accept, hdescriptor, hcontent, bind_some, if_true]
  · rw [if_neg hgrows]
    refine matches_writeBytes hs hf hd ?_ (by omega)
    by_cases hnil : bytes = []
    · exact .inl hnil
    · have hfresh := hfresh hnil
      rw [if_neg hgrows] at hfresh
      exact .inr hfresh

theorem matches_lseek {offset : ℤ} {whence : Whence} (hfresh : SeekFresh f d offset whence) :
    Matches s (s.lseek fd f offset whence) := by
  obtain ⟨hdescriptor, hcontent⟩ := files_eq hf hd
  have hsize := hs.size _ d hd
  obtain ⟨hiff, hsame⟩ := hfresh
  rw [lseek]
  by_cases hin : 0 ≤ ByteFiles.target f.size f.pos offset whence ∧
      ByteFiles.target f.size f.pos offset whence ≤ f.size
  · rw [if_neg (by omega), if_pos hin.2]
    refine ⟨hs.setFd (by simp [hd]) (by dsimp only; omega), _, rfl, ?_⟩
    simp only [ByteFiles.accept, hdescriptor, hcontent, bind_some, files_setFd, hsize]
    rw [if_pos (hiff.1 hin), hsame hin.1 hin.2, if_pos rfl]
  · have hnone : Matches s (s, [.sought fd offset whence none]) := by
      refine ⟨hs, _, rfl, ?_⟩
      simp only [ByteFiles.accept, hdescriptor, hcontent, bind_some, hsize]
      rw [if_neg (mt hiff.2 hin), if_pos trivial]
    by_cases hneg : ByteFiles.target f.size f.pos offset whence < 0
    · rwa [if_pos hneg]
    · rwa [if_neg hneg, if_neg fun hle => hin ⟨by omega, hle⟩]

end

/-- **An operation refines one on byte strings**, when the size of its descriptor says as much as
that of the file. -/
theorem matches_step (hs : Inv s) (hfresh : Fresh s a) (h : s.step a = some (s', out)) :
    Matches s (s', out) := by
  cases a with
  | open' fd name flags memory =>
    simp only [step, ite_none_right_eq_some, some.injEq] at h
    rw [← h.2]
    exact matches_open hs flags memory
  | read fd count =>
    obtain ⟨f, hf, h⟩ := bind_eq_some_iff.1 h
    obtain ⟨d, hd, heq⟩ := map_eq_some_iff.1 h
    rw [← heq]
    exact matches_read hs hf hd (hfresh f hf d hd)
  | write fd bytes memory fill =>
    obtain ⟨f, hf, h⟩ := bind_eq_some_iff.1 h
    obtain ⟨d, hd, heq⟩ := map_eq_some_iff.1 h
    rw [← heq]
    exact matches_write hs hf hd fill (hfresh f hf d hd)
  | lseek fd offset whence =>
    obtain ⟨f, hf, heq⟩ := map_eq_some_iff.1 h
    obtain ⟨d, hd⟩ := isSome_iff_exists.1 (hs.file fd f hf).1
    rw [← heq]
    exact matches_lseek hs hf hd (hfresh f hf d hd)
  | close fd =>
    obtain ⟨f, hf, heq⟩ := map_eq_some_iff.1 h
    rw [← heq]
    refine ⟨⟨hs.size, fun fd' f' hf' => ?_⟩, _, rfl, ?_⟩
    · by_cases hfd : fd' = fd
      · subst hfd
        simp at hf'
      · simp only [update_of_ne hfd] at hf'
        exact hs.file fd' f' hf'
    · refine congrArg some (ByteFiles.ext rfl (funext fun fd' => ?_))
      by_cases hfd : fd' = fd
      · subst hfd
        simp [files]
      · simp [files, hfd]

/-- **Every file is a byte string**, in every run in which the size of every descriptor says as much
as that of its file whenever it is used. -/
theorem run_refinesBytes {s : Ramfs Fd Name} {tr : List (FileEvent Fd Name UInt8)}
    (h : Run step Fresh boot tr s) : RefinesBytes tr s := by
  have hinv : Inv s ∧ ByteFiles.Accepts tr s.files := by
    refine h.invariant (fun tr s => Inv s ∧ ByteFiles.Accepts tr s.files)
      ⟨⟨by simp [boot], by simp [boot]⟩, ByteFiles.accepts_nil⟩ ?_
    rintro tr s a s' out ⟨hs, haccepts⟩ hfresh hstep
    obtain ⟨hs', e, rfl, haccept⟩ := matches_step hs hfresh hstep
    exact ⟨hs', haccepts.append haccept⟩
  exact .of_accepts hinv.2

instance (s : Ramfs Bool Unit) (a : RamAction Bool Unit) : Decidable (Fresh s a) := by
  cases a with
  | read fd count => dsimp only [Fresh, ReadFresh]; infer_instance
  | write fd bytes memory fill => dsimp only [Fresh, WriteFresh]; infer_instance
  | lseek fd offset whence => dsimp only [Fresh, SeekFresh]; infer_instance
  | _ => exact isTrue trivial

/-- One descriptor writes, and another one reads what it has written. -/
def writeRead : List (RamAction Bool Unit) :=
  [.open' true () ⟨false, true, true, true, false⟩ true, .write true [1, 2, 3] true fun _ => 0,
    .open' false () ⟨false, false, false, false, false⟩ true, .lseek false 1 .seekSet,
    .read false 10]

theorem refinesBytes_writeRead : ∃ (s : Ramfs Bool Unit) (tr : List (FileEvent Bool Unit UInt8)),
    RefinesBytes tr s ∧ tr.getLast? = some (.read false 10 [2, 3]) := by
  have hrun : Run step Fresh (boot : Ramfs Bool Unit) _ _ :=
    Run.of_exec (rfl : exec step Fresh (boot : Ramfs Bool Unit) writeRead = some (_, _))
  exact ⟨_, _, run_refinesBytes hrun, rfl⟩

/-- Two descriptors are open for the empty file, and each of them writes at the beginning. -/
theorem not_refinesBytes : ¬ ∀ (s : Ramfs Bool Unit) (tr : List (FileEvent Bool Unit UInt8)),
    Run step (fun _ _ => True) boot tr s → RefinesBytes tr s := by
  intro hall
  have hrun : Run step (fun _ _ => True) (boot : Ramfs Bool Unit) _ _ :=
    Run.of_exec (rfl : exec step (fun _ _ => True) (boot : Ramfs Bool Unit)
      [.open' true () ⟨false, true, true, true, false⟩ true,
        .open' false () ⟨false, true, true, false, false⟩ true,
        .write true [1, 2, 3] true fun _ => 0, .write false [4] true fun _ => 0] = some (_, _))
  have hfiles := some.inj (hall _ _ hrun).accepts
  exact absurd (congrArg (fun b => b.content ()) hfiles) (by decide)

end Ramfs

end RtThread
