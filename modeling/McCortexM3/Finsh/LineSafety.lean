import McCortexM3.Finsh.CodeParts
import McCortexM3.Finsh.ParserTrees

/-!
# Lines that stay in the text segment and in the stack

Nothing checks the bounds of `text_segment` and of `finsh_vm_stack`; that they are kept has to
follow from the number of nodes.  It does for the stack, if every variable has a type that can be
loaded; it does not for the text, as `++` and `--` take up to 18 bytes.

## Main definitions

* `RunsSafely` — what is written stays in the text segment, and the stack pointer in the stack.
* `lineSize`, `Supplied` — the sizes of the nodes, and that each finds the values that it takes.

## Main results

* `supplied_of_loadable` — the nodes find their values if every variable can be loaded.
* `runsSafely_iff` — when a line runs safely.
-/

set_option linter.all false

namespace RtThread

open Option List Nat

namespace FinshTree

/-- Every variable has a type that can be loaded. -/
def Loadable : FinshTree → Prop
  | null => True
  | node d child sibling =>
    (d.nodeType = .id → d.loaded = true) ∧ child.Loadable ∧ sibling.Loadable

end FinshTree

variable {t child sibling root : FinshTree} {d : FinshNode} {isAddr : Bool} {k n : ℕ}

/-! ### The check of the types -/

theorem typeCheck_node (d : FinshNode) (child sibling : FinshTree) (isAddr : Bool) :
    ∃ d', typeCheck (.node d child sibling) isAddr =
        .node d' (typeCheck child (d.childAddr isAddr)) (typeCheck sibling false) ∧
      d'.nodeType = d.nodeType ∧ d'.symbol = d.symbol := by
  have hset : (d.setAddr isAddr).nodeType = d.nodeType ∧ (d.setAddr isAddr).symbol = d.symbol := by
    rw [FinshNode.setAddr]
    split <;> exact ⟨rfl, rfl⟩
  rw [typeCheck]
  split
  · next c cc cs hchild =>
    exact ⟨{ d.setAddr isAddr with dataType := c.dataType }, by rw [hchild], hset⟩
  · next hchild =>
    exact ⟨{ d.setAddr isAddr with dataType := (d.setAddr isAddr).leafType }, by rw [hchild], hset⟩

theorem length_typeCheck (t : FinshTree) (isAddr : Bool) :
    (typeCheck t isAddr).length = t.length := by
  induction t generalizing isAddr with
  | null => rfl
  | node d child sibling _ ih =>
    obtain ⟨d', h, -, -⟩ := typeCheck_node d child sibling isAddr
    rw [h, FinshTree.length, FinshTree.length, ih]

theorem count_typeCheck (t : FinshTree) (isAddr : Bool) : (typeCheck t isAddr).count = t.count := by
  induction t generalizing isAddr with
  | null => rfl
  | node d child sibling ihc ihs =>
    obtain ⟨d', h, -, -⟩ := typeCheck_node d child sibling isAddr
    rw [h, FinshTree.count, FinshTree.count, ihc, ihs]

theorem FinshTree.WellFormed.typeCheck (h : t.WellFormed) (isAddr : Bool) :
    (typeCheck t isAddr).WellFormed := by
  induction t generalizing isAddr with
  | null => exact h
  | node d child sibling ihc ihs =>
    obtain ⟨d', hnode, htype, -⟩ := typeCheck_node d child sibling isAddr
    rw [hnode]
    refine ⟨?_, ihc h.2.1 _, ihs h.2.2 _⟩
    rw [length_typeCheck, FinshNode.HasArity, htype]
    exact h.1

theorem FinshTree.Loadable.typeCheck (h : t.Loadable) (isAddr : Bool) :
    (typeCheck t isAddr).Loadable := by
  induction t generalizing isAddr with
  | null => exact h
  | node d child sibling ihc ihs =>
    obtain ⟨d', hnode, htype, hsymbol⟩ := typeCheck_node d child sibling isAddr
    rw [hnode]
    refine ⟨?_, ihc h.2.1 _, ihs h.2.2 _⟩
    rw [htype, FinshNode.loaded, hsymbol]
    exact h.1

/-! ### Values -/

theorem siblings_add_one (h : t ≠ .null) : t.siblings + 1 = t.length := by
  induction t with
  | null => exact absurd rfl h
  | node d child sibling _ ih =>
    rw [FinshTree.siblings, FinshTree.length]
    split
    · next hnull =>
      rw [hnull]
      rfl
    · next hnull => rw [ih hnull]

theorem opSize_le (d : FinshNode) : d.opSize ≤ 1 := by
  rw [FinshNode.opSize]
  split
  · exact le_rfl
  · exact Nat.zero_le 1

theorem takes_le (harity : d.HasArity child.length) (hload : d.nodeType = .id → d.loaded = true)
    (hk : n + child.length ≤ k) :
    d.takes child ≤ k ∧ n + 1 ≤ k - d.takes child + d.gives child := by
  have hop := opSize_le d
  rw [FinshNode.HasArity] at harity
  rw [FinshNode.takes, FinshNode.gives]
  cases hd : d.nodeType with
  | id =>
    simp only [hload hd, if_true]
    omega
  | valueChar | valueInt | valueLong | valueString | valueNull =>
    dsimp only
    omega
  | sysAdd | sysSub | sysMul | sysDiv | sysMod | sysAnd | sysOr | sysXor | sysShl | sysShr =>
    simp only [hd] at harity ⊢
    omega
  | sysBitwise | sysPreinc | sysPredec | sysInc | sysDec | sysGetvalue | sysGetaddr =>
    simp only [hd] at harity ⊢
    omega
  | sysAssign =>
    simp only [hd] at harity ⊢
    split <;> omega
  | sysFunc =>
    simp only [hd] at harity ⊢
    have hne : child ≠ .null := by
      rintro rfl
      exact absurd harity (by decide)
    -- the parameters are counted in a byte
    have hbyte : (UInt8.ofNat child.siblings).toNat ≤ child.siblings := by
      rw [UInt8.toNat_ofNat']
      exact mod_le _ _
    have hlen := siblings_add_one hne
    rw [if_neg hne, if_neg hne]
    omega
  | sysCast | sysNull =>
    simp only [hd] at harity

theorem supply_treeParts (hform : t.WellFormed) (hload : t.Loadable) (k : ℕ) :
    ∃ k', supply (treeParts t) k = some k' ∧ k + t.length ≤ k' := by
  induction t generalizing k with
  | null => exact ⟨k, rfl, le_rfl⟩
  | node d child sibling ihc ihs =>
    obtain ⟨k₁, h₁, hk₁⟩ := ihc hform.2.1 hload.2.1 k
    obtain ⟨htakes, hgives⟩ := takes_le hform.1 hload.1 hk₁
    obtain ⟨k₂, h₂, hk₂⟩ := ihs hform.2.2 hload.2.2 (k₁ - d.takes child + d.gives child)
    refine ⟨k₂, ?_, by rw [FinshTree.length]; omega⟩
    rw [treeParts, supply_append, h₁, bind_some, supply, CodePart.takes, if_pos htakes]
    exact h₂

theorem supply_lineParts (hform : t.WellFormed) (hload : t.Loadable) (k : ℕ) :
    (supply (lineParts t) k).isSome = true := by
  induction t generalizing k with
  | null => rfl
  | node d child sibling _ ihs =>
    obtain ⟨k₁, h₁, hk₁⟩ := supply_treeParts hform.2.1 hload.2.1 k
    obtain ⟨htakes, hgives⟩ := takes_le hform.1 hload.1 hk₁
    rw [lineParts, supply_append, h₁, bind_some, supply, CodePart.takes, if_pos htakes]
    by_cases hnull : sibling = .null
    · rw [if_neg (not_not_intro hnull)]
      exact ihs hform.2.2 hload.2.2 _
    · rw [if_pos hnull]
      change (supply (.pop :: lineParts sibling) _).isSome = true
      have hpop : CodePart.pop.takes ≤ k₁ - d.takes child + d.gives child :=
        (Nat.le_add_left 1 k).trans hgives
      rw [supply, CodePart.gives, if_pos hpop]
      exact ihs hform.2.2 hload.2.2 _

theorem length_treeParts (t : FinshTree) : (treeParts t).length = t.count := by
  induction t with
  | null => rfl
  | node d child sibling ihc ihs =>
    rw [treeParts, length_append, length_cons, ihc, ihs, FinshTree.count]
    omega

theorem length_lineParts (t : FinshTree) : (lineParts t).length ≤ 2 * t.count := by
  induction t with
  | null => rfl
  | node d child sibling _ ihs =>
    have hpop : (if sibling ≠ .null then [CodePart.pop] else []).length ≤ 1 := by
      split
      · exact le_rfl
      · exact Nat.zero_le 1
    rw [lineParts, length_append, length_cons, length_append, length_treeParts, FinshTree.count]
    omega

/-! ### What the compiler writes -/

/-- What the compiler does for a line, in order: it writes a byte, or reports an error. -/
def compilerEvents (root : FinshTree) : List (Option UInt8) :=
  (lineParts (typeCheck root false)).flatMap CodePart.events

variable {ps : List CodePart} {es : List (Option UInt8)}

/-- No byte is written behind the first `n`, but for those behind an error. -/
def WithinText (n : ℕ) (es : List (Option UInt8)) : Prop :=
  ∀ (es₁ : List (Option UInt8)) b es₂, es = es₁ ++ some b :: es₂ → es₁.reduceOption.length < n ∨ none ∈ es₁

theorem withinText_iff (n : ℕ) (es : List (Option UInt8)) :
    WithinText n es ↔ (es.takeWhile isSome).length ≤ n := by
  induction es generalizing n with
  | nil => exact ⟨fun _ => Nat.zero_le n, fun _ es₁ b es₂ h => by simp at h⟩
  | cons a es ih =>
    cases a with
    | none =>
      refine ⟨fun _ => Nat.zero_le n, fun _ es₁ b es₂ h => .inr ?_⟩
      cases es₁ with
      | nil => cases h
      | cons a es₁ =>
        obtain ⟨rfl, -⟩ := List.cons.inj h
        exact mem_cons_self ..
    | some a =>
      rw [takeWhile_cons, if_pos (isSome_some), length_cons]
      constructor
      · intro h
        cases n with
        | zero =>
          have h₀ := h [] a es rfl
          simp at h₀
        | succ n =>
          refine succ_le_succ ((ih n).mp fun es₁ b es₂ heq => ?_)
          have h₁ := h (some a :: es₁) b es₂ (by rw [heq]; rfl)
          rw [reduceOption_cons_of_some, length_cons, mem_cons] at h₁
          rcases h₁ with h₁ | h₁ | h₁
          · exact .inl (lt_of_succ_lt_succ h₁)
          · cases h₁
          · exact .inr h₁
      · intro h es₁ b es₂ heq
        cases n with
        | zero => exact absurd h (not_succ_le_zero _)
        | succ n =>
          cases es₁ with
          | nil => exact .inl (succ_pos n)
          | cons a' es₁ =>
            obtain ⟨rfl, heq'⟩ := List.cons.inj heq
            rw [reduceOption_cons_of_some, length_cons]
            rcases (ih n).mpr (le_of_succ_le_succ h) es₁ b es₂ heq' with h₁ | h₁
            · exact .inl (succ_lt_succ h₁)
            · exact .inr (mem_cons_of_mem _ h₁)

/-- The sizes of the nodes up to the first that reports an error. -/
def partsSize (ps : List CodePart) : ℕ :=
  ((ps.takeWhile fun p => !p.fails).map CodePart.size).sum

theorem length_takeWhile_events (ps : List CodePart) :
    ((ps.flatMap CodePart.events).takeWhile isSome).length = partsSize ps := by
  induction ps with
  | nil => rfl
  | cons p ps ih =>
    have hsome : ∀ bs : List UInt8, ∀ a ∈ bs.map some, a.isSome = true := by
      intro bs a ha
      obtain ⟨b, -, rfl⟩ := List.mem_map.mp ha
      rfl
    rw [flatMap_cons, CodePart.events, partsSize, takeWhile_cons, p.error_eq,
      append_assoc, takeWhile_append_of_pos (hsome _)]
    cases hfails : p.fails with
    | true =>
      have hsize := p.size_of_fails hfails
      rw [← p.length_code] at hsize
      simp [hsize]
    | false =>
      rw [partsSize] at ih
      simp [p.length_code, ih]

/-! ### The text and the stack of a line -/

/-- No byte is written behind the text segment, but for those behind an error; and if there is no
error, the stack pointer stays in the stack while the code runs. -/
structure RunsSafely (sys : Syscalls) (stack : ℤ → BitVec 32) (mem : ℕ → UInt8)
    (root : FinshTree) : Prop where
  text : WithinText finshTextMax (compilerEvents root)
  stack : (compilerRun root).error = false →
    (finshVmRun sys (textSegment (compilerRun root).code) stack mem).escaped = false

/-- The number of bytes that the nodes of a line take, up to an assignment to something that has no
width. -/
def lineSize (root : FinshTree) : ℕ := partsSize (lineParts (typeCheck root false))

/-- Every node finds the values that it takes, unless there is an assignment to something that has
no width. -/
def Supplied (root : FinshTree) : Prop :=
  (∀ p ∈ lineParts (typeCheck root false), p.fails = false) →
    (supply (lineParts (typeCheck root false)) 0).isSome = true

theorem partsSize_of_fails (h : ∀ p ∈ ps, p.fails = false) :
    partsSize ps = (emitParts ps).code.length := by
  induction ps with
  | nil => rfl
  | cons p ps ih =>
    obtain ⟨hp, hps⟩ := forall_mem_cons.mp h
    have hrest := ih hps
    rw [partsSize] at hrest ⊢
    rw [takeWhile_cons, hp, emitParts, flatMap_cons, length_append, p.length_code]
    exact congrArg (p.size + ·) hrest

theorem escaped_of_supply (sys : Syscalls) (stack : ℤ → BitVec 32) (mem : ℕ → UInt8)
    (hcount : t.count ≤ finshNodeMax) (hlen : (emitParts (lineParts t)).code.length ≤ finshTextMax) :
    (finshVmRun sys (textSegment (emitParts (lineParts t)).code) stack mem).escaped =
      (supply (lineParts t) 0).isNone := by
  obtain ⟨is, hbytes, hdepth⟩ := exists_listing (lineParts t)
  have hparts := length_lineParts t
  have hroom : 0 + (lineParts t).length + 3 ≤ finshStackMax := by
    simp only [finshNodeMax] at hcount
    simp only [finshStackMax]
    omega
  rw [hbytes] at hlen ⊢
  rw [escaped_finshVmRun sys stack mem hlen, hdepth 0 hroom]

/-- **When a line runs safely**: if the sizes of its nodes fit in the text segment, and every node
finds its values. -/
theorem runsSafely_iff_size (sys : Syscalls) (stack : ℤ → BitVec 32) (mem : ℕ → UInt8)
    (hcount : root.count ≤ finshNodeMax) :
    RunsSafely sys stack mem root ↔ lineSize root ≤ finshTextMax ∧ Supplied root := by
  rw [← count_typeCheck root false] at hcount
  have htext : WithinText finshTextMax (compilerEvents root) ↔ lineSize root ≤ finshTextMax := by
    rw [withinText_iff, compilerEvents, length_takeWhile_events, lineSize]
  have herror : (compilerRun root).error = false ↔
      ∀ p ∈ lineParts (typeCheck root false), p.fails = false := by
    rw [compilerRun, compileStatements_eq_parts, emitParts, List.any_eq_false]
    simp only [Bool.not_eq_true]
  -- without an error the size is that of the code
  have hstack (hfails : ∀ p ∈ lineParts (typeCheck root false), p.fails = false)
      (hsize : lineSize root ≤ finshTextMax) :
      (finshVmRun sys (textSegment (compilerRun root).code) stack mem).escaped =
        (supply (lineParts (typeCheck root false)) 0).isNone := by
    rw [compilerRun, compileStatements_eq_parts]
    rw [lineSize, partsSize_of_fails hfails] at hsize
    exact escaped_of_supply sys stack mem hcount hsize
  constructor
  · intro h
    have hsize := htext.mp h.text
    refine ⟨hsize, fun hfails => ?_⟩
    have hescaped := h.stack (herror.mpr hfails)
    rw [hstack hfails hsize] at hescaped
    rw [← not_isNone, hescaped]
    rfl
  · rintro ⟨hsize, hsupplied⟩
    refine ⟨htext.mpr hsize, fun herr => ?_⟩
    have hfails := herror.mp herr
    rw [hstack hfails hsize, ← not_isSome, hsupplied hfails]
    rfl

theorem supplied_of_loadable (hform : root.WellFormed) (hload : root.Loadable) : Supplied root :=
  fun _ => supply_lineParts (hform.typeCheck false) (hload.typeCheck false) 0

/-- The names of a system without variables and functions. -/
def FinshNames.bare : FinshNames := ⟨fun _ => none, fun _ => none, fun i => BitVec.ofNat 32 (4 * i)⟩

/-- The tree of some statements `a++;`. -/
def incTree (s : FinshSymbol) : ℕ → FinshTree
  | 0 => .null
  | n + 1 => .node (.sys .sysInc) (.node (.ident s) .null .null) (incTree s n)

end RtThread
