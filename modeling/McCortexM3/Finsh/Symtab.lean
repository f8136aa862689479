import McCortexM3.Finsh.Shell

/-!
# Looking up system calls and variables

`finsh_syscall_lookup` of `finsh_vm.c` and `finsh_sysvar_lookup` of `finsh_var.c` search the exported
table with `strcmp`, and the list of the appended items with `strncmp` up to the length of the
identifier: there an identifier matches every name that begins with it.

## Main definitions

* `rtStrcmp`, `rtStrncmp` — the comparisons.
* `Symtab`, `finshSyscallLookup`, `finshSysvarLookup` — the names, and the searches.
* `Symtab.Finds` — what a search is to return.

## Main results

* `finds_iff` — when both searches return it.
-/

set_option linter.all false

namespace RtThread

open List

/-- `rt_strcmp` of two strings, without the zeros behind them. -/
def rtStrcmp : List UInt8 → List UInt8 → ℤ
  | [], ct => 0 - (ct.headD 0).toNat
  | c :: cs, ct =>
    if c = ct.headD 0 then rtStrcmp cs ct.tail else (c.toNat : ℤ) - (ct.headD 0).toNat

/-- `rt_strncmp`, whose result is a byte. -/
def rtStrncmp (cs ct : List UInt8) : ℕ → UInt8
  | 0 => 0
  | count + 1 =>
    let res := cs.headD 0 - ct.headD 0
    if res ≠ 0 ∨ cs.headD 0 = 0 then res else rtStrncmp cs.tail ct.tail count

/-- A `struct finsh_syscall`. -/
structure FinshSyscall where
  name : FinshName
  func : UInt32

/-- A `struct finsh_sysvar`. -/
structure FinshSysvar where
  name : FinshName
  type : UInt8
  var : UInt32

/-- The exported entries between `_syscall_table_begin` and `_syscall_table_end`, and the appended
ones in the order of `global_syscall_list`; so it is for the variables. -/
structure Symtab (α : Type) where
  table : List α
  list : List α

namespace Symtab

variable {α : Type} {name : α → FinshName}

/-- `finsh_syscall_append` and `finsh_sysvar_append`, with what `rt_malloc` returns. -/
def append (s : Symtab α) (entry : α) (mallocOk : Bool) : Symtab α :=
  if mallocOk then { s with list := entry :: s.list } else s

/-- The search of both functions. -/
def lookup (name : α → FinshName) (s : Symtab α) (id : FinshName) : Option α :=
  match s.table.find? fun e => rtStrcmp (name e).1 id.1 = 0 with
  | some e => some e
  | none => s.list.find? fun e => rtStrncmp (name e).1 id.1 id.1.length = 0

/-- An entry with exactly this name if there is one, and none otherwise. -/
def Finds (name : α → FinshName) (s : Symtab α) (id : FinshName) (found : Option α) : Prop :=
  match found with
  | some e => e ∈ s.table ++ s.list ∧ name e = id
  | none => ∀ e ∈ s.table ++ s.list, name e ≠ id

/-- The identifier is exported, or the first appended name that begins with it is the identifier. -/
def Unambiguous (name : α → FinshName) (s : Symtab α) (id : FinshName) : Prop :=
  (∃ e ∈ s.table, name e = id) ∨ ∀ e ∈ s.list.find? fun e => id.1 <+: (name e).1, name e = id

end Symtab

/-- `finsh_syscall_lookup`. -/
def finshSyscallLookup : Symtab FinshSyscall → FinshName → Option FinshSyscall :=
  Symtab.lookup FinshSyscall.name

/-- `finsh_sysvar_lookup`. -/
def finshSysvarLookup : Symtab FinshSysvar → FinshName → Option FinshSysvar :=
  Symtab.lookup FinshSysvar.name

/-! ### The comparisons -/

theorem rtStrcmp_eq_zero_iff {cs ct : List UInt8} (hcs : (0 : UInt8) ∉ cs)
    (hct : (0 : UInt8) ∉ ct) : rtStrcmp cs ct = 0 ↔ cs = ct := by
  induction cs generalizing ct with
  | nil =>
    cases ct with
    | nil => decide
    | cons d ct =>
      have hd : d ≠ 0 := fun h => hct (h ▸ mem_cons_self)
      have hpos : d.toNat ≠ 0 := fun h => hd (UInt8.toNat_inj.1 h)
      simpa [rtStrcmp] using hpos
  | cons c cs ih =>
    rw [rtStrcmp]
    cases ct with
    | nil =>
      have hc : c ≠ 0 := fun h => hcs (h ▸ mem_cons_self)
      have hpos : c.toNat ≠ 0 := fun h => hc (UInt8.toNat_inj.1 h)
      simpa [hc] using hpos
    | cons d ct =>
      have hih := ih (fun h => hcs (mem_cons_of_mem _ h)) fun h => hct (mem_cons_of_mem _ h)
      by_cases hcd : c = d
      · simpa [hcd] using hih
      · have hne : (c.toNat : ℤ) ≠ d.toNat := by
          rw [Ne, Nat.cast_inj, UInt8.toNat_inj]
          exact hcd
        simpa [hcd, sub_eq_zero] using hne

/-- A name is equal to an identifier up to its length if it **begins with it**. -/
theorem rtStrncmp_eq_zero_iff {cs ct : List UInt8} (hct : (0 : UInt8) ∉ ct) :
    rtStrncmp cs ct ct.length = 0 ↔ ct <+: cs := by
  induction ct generalizing cs with
  | nil => exact iff_of_true rfl nil_prefix
  | cons d ct ih =>
    have hd : d ≠ 0 := fun h => hct (h ▸ mem_cons_self)
    rw [length_cons, rtStrncmp]
    cases cs with
    | nil => simpa using hd
    | cons c cs =>
      have hih := @ih cs fun h => hct (mem_cons_of_mem _ h)
      by_cases hcd : c = d
      · simpa [hcd, hd, cons_prefix_cons] using hih
      · have hres : c - d ≠ 0 := fun h => hcd (by simpa [UInt8.sub_eq_iff_eq_add] using h)
        simp [hres, cons_prefix_cons, Ne.symm hcd]

namespace Symtab

variable {α : Type} {name : α → FinshName} {s : Symtab α} {id : FinshName}

theorem lookup_eq : s.lookup name id = (s.table.find? fun e => name e = id).or
    (s.list.find? fun e => id.1 <+: (name e).1) := by
  have htable : (fun e => decide (rtStrcmp (name e).1 id.1 = 0)) = fun e => decide (name e = id) := by
    funext e
    rw [decide_eq_decide, rtStrcmp_eq_zero_iff (name e).2 id.2, Subtype.ext_iff]
  have hlist : (fun e => decide (rtStrncmp (name e).1 id.1 id.1.length = 0)) =
      fun e => decide (id.1 <+: (name e).1) := by
    funext e
    rw [decide_eq_decide, rtStrncmp_eq_zero_iff id.2]
  rw [lookup, htable, hlist]
  cases s.table.find? fun e => name e = id <;> rfl

/-- **A search** returns what it is to return exactly for an identifier that is unambiguous. -/
theorem lookup_iff : s.Finds name id (s.lookup name id) ↔ s.Unambiguous name id := by
  rw [lookup_eq, Unambiguous]
  cases htable : s.table.find? fun e => name e = id with
  | some e =>
    have he : name e = id := by simpa using find?_some htable
    have hmem := mem_of_find?_eq_some htable
    exact iff_of_true ⟨mem_append_left _ hmem, he⟩ (.inl ⟨e, hmem, he⟩)
  | none =>
    have hnone : ∀ e ∈ s.table, name e ≠ id := by simpa using htable
    rw [Option.none_or, or_iff_right fun ⟨e, hmem, he⟩ => hnone e hmem he]
    cases hlist : s.list.find? fun e => id.1 <+: (name e).1 with
    | some e =>
      have hmem := mem_append_right s.table (mem_of_find?_eq_some hlist)
      constructor
      · rintro hfinds e' ⟨⟩
        exact hfinds.2
      · exact fun h => ⟨hmem, h e rfl⟩
    | none =>
      refine iff_of_true (fun e hmem he => ?_) (by simp)
      rcases mem_append.1 hmem with hmem | hmem
      · exact hnone e hmem he
      · have hbegins : ¬ id.1 <+: (name e).1 := by simpa using find?_eq_none.1 hlist e hmem
        exact hbegins (he ▸ prefix_rfl)

end Symtab

/-- **Both searches** return an entry with exactly this name, or none if there is none, exactly when
the identifier is unambiguous. -/
theorem finds_iff (calls : Symtab FinshSyscall) (vars : Symtab FinshSysvar) (id : FinshName) :
    (calls.Finds FinshSyscall.name id (finshSyscallLookup calls id) ↔
        calls.Unambiguous FinshSyscall.name id) ∧
      (vars.Finds FinshSysvar.name id (finshSysvarLookup vars id) ↔
        vars.Unambiguous FinshSysvar.name id) :=
  ⟨Symtab.lookup_iff, Symtab.lookup_iff⟩

/-- `foo` and `foobar`. -/
def foo : FinshName := ⟨[102, 111, 111], by decide⟩
@[inherit_doc foo] def foobar : FinshName := ⟨[102, 111, 111, 98, 97, 114], by decide⟩

/-- With `foobar` appended, `foo` is found. -/
theorem not_finds :
    ¬ ∀ (calls : Symtab FinshSyscall) (vars : Symtab FinshSysvar) (id : FinshName),
      calls.Finds FinshSyscall.name id (finshSyscallLookup calls id) ∧
        vars.Finds FinshSysvar.name id (finshSysvarLookup vars id) := by
  intro h
  have hfinds := (h (.append ⟨[], []⟩ ⟨foobar, 1⟩ true) (.append ⟨[], []⟩ ⟨foobar, 0, 2⟩ true) foo).1
  rcases Symtab.lookup_iff.1 hfinds with ⟨e, he, -⟩ | hlist
  · cases he
  · exact absurd (hlist ⟨foobar, 1⟩ rfl) (by decide)

end RtThread
