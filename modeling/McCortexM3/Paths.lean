import Mathlib.Data.List.Basic

/-!
# Textual resolution of paths

A path is a list of characters, and its components are what stands between the separators, apart
from empty ones.  Resolving it goes through the components: one dot stays, two dots go up, and
stay at the root.

## Main definitions

* `components`, `absPath` — the components of a path, and the absolute path of some names.
* `descend`, `resolve`, `resolveFrom` — the resolution, from the root or a directory.
* `escapes` — how often two dots are met at the root.
* `Canonical` — the absolute paths of names.

## Main results

* `components_absPath` — the components of an absolute path are its names.
* `canonical_resolve`, `resolve_absPath` — a resolved path is canonical, and stays as it is.
* `absPath_append` — the path of some names begins with the path of the first ones.
-/

open List

set_option linter.all false

variable {α : Type*} [DecidableEq α] (sep dot : α)

/-- What stands between the separators, apart from empty components. -/
def components (s : List α) : List (List α) := (s.splitOn sep).filter (· ≠ [])

/-- Each name with a separator behind it. -/
def trail (names : List (List α)) : List α := names.flatMap (· ++ [sep])

/-- The absolute path of some names: separators in front and between them. -/
def absPath (names : List (List α)) : List α := sep :: (trail sep names).dropLast

/-- One component of a path: one dot stays, two dots go up or stay at the root. -/
def descend (names : List (List α)) (comp : List α) : List (List α) :=
  if comp = [dot] then names else if comp = [dot, dot] then names.dropLast else names ++ [comp]

/-- The absolute path that a path leads to from the root. -/
def resolve (s : List α) : List α := absPath sep ((components sep s).foldl (descend dot) [])

/-- The absolute path that a path leads to from a directory. -/
def resolveFrom (dir s : List α) : List α :=
  absPath sep (((if s.head? = some sep then [] else components sep dir) ++ components sep s).foldl
    (descend dot) [])

/-- How often two dots are met at the root. -/
def escapes : List (List α) → List (List α) → ℕ
  | _, [] => 0
  | names, comp :: comps =>
    (if comp = [dot, dot] ∧ names = [] then 1 else 0) + escapes (descend dot names comp) comps

/-- A component that is the name of something. -/
def IsName (n : List α) : Prop := n ≠ [] ∧ sep ∉ n ∧ n ≠ [dot] ∧ n ≠ [dot, dot]

/-- An absolute path without empty components, dots, and separators at its end. -/
def Canonical (s : List α) : Prop :=
  ∃ names, (∀ n ∈ names, IsName sep dot n) ∧ s = absPath sep names

variable {sep dot} {s n : List α} {names comps : List (List α)}

/-! ### Components -/

@[simp] theorem components_nil : components sep ([] : List α) = [] := by simp [components]

@[simp] theorem components_sep_cons (s : List α) : components sep (sep :: s) = components sep s := by
  have hsplit := splitOn_append_cons_self (a := sep) [] s
  simp only [nil_append, splitOn_nil] at hsplit
  simp [components, hsplit]

theorem components_append_sep (hs : sep ∉ n) (hn : n ≠ []) (s : List α) :
    components sep (n ++ sep :: s) = n :: components sep s := by
  simp [components, splitOn_append_cons_self, splitOn_eq_singleton hs, hn]

theorem components_append (s t : List α) :
    components sep (s ++ sep :: t) = components sep s ++ components sep t := by
  simp [components, splitOn_append_cons_self]

theorem components_of_notMem (hs : sep ∉ n) (hn : n ≠ []) : components sep n = [n] := by
  simp [components, splitOn_eq_singleton hs, hn]

theorem components_dropWhile (s : List α) :
    components sep (s.dropWhile (· = sep)) = components sep s := by
  induction s with
  | nil => rfl
  | cons c s ih =>
    by_cases hc : c = sep
    · subst hc
      simpa using ih
    · simp [hc]

theorem notMem_of_mem_splitOn (h : n ∈ s.splitOn sep) : sep ∉ n := by
  induction s generalizing n with
  | nil =>
    rw [splitOn_nil, mem_singleton] at h
    simp [h]
  | cons c s ih =>
    rw [splitOn_cons_eq_if_modifyHead] at h
    by_cases hc : c = sep
    · rw [if_pos (by simpa using hc)] at h
      rcases mem_cons.1 h with rfl | h
      · exact not_mem_nil
      · exact ih h
    · rw [if_neg (by simpa using hc)] at h
      obtain ⟨m, l, hsplit⟩ := exists_cons_of_ne_nil (splitOn_ne_nil sep s)
      rw [hsplit, modifyHead_cons] at h
      rw [hsplit] at ih
      -- the first piece is longer by one character
      rcases mem_cons.1 h with rfl | h
      · simpa [Ne.symm hc] using ih (mem_cons_self ..)
      · exact ih (mem_cons_of_mem _ h)

theorem subset_of_mem_splitOn (h : n ∈ s.splitOn sep) : n ⊆ s := by
  induction s generalizing n with
  | nil =>
    rw [splitOn_nil, mem_singleton] at h
    simp [h]
  | cons c s ih =>
    rw [splitOn_cons_eq_if_modifyHead] at h
    split at h
    · rcases mem_cons.1 h with rfl | h
      · exact nil_subset _
      · exact subset_cons_of_subset c (ih h)
    · obtain ⟨m, l, hsplit⟩ := exists_cons_of_ne_nil (splitOn_ne_nil sep s)
      rw [hsplit, modifyHead_cons] at h
      rw [hsplit] at ih
      rcases mem_cons.1 h with rfl | h
      · exact cons_subset_cons c (ih (mem_cons_self ..))
      · exact subset_cons_of_subset c (ih (mem_cons_of_mem _ h))

theorem subset_of_mem_components (h : n ∈ components sep s) : n ⊆ s :=
  subset_of_mem_splitOn (mem_filter.1 h).1

theorem mem_components (h : n ∈ components sep s) : n ≠ [] ∧ sep ∉ n := by
  obtain ⟨hmem, hne⟩ := mem_filter.1 h
  exact ⟨by simpa using hne, notMem_of_mem_splitOn hmem⟩

@[simp] theorem trail_nil : trail sep ([] : List (List α)) = [] := rfl

@[simp] theorem trail_cons (n : List α) (names : List (List α)) :
    trail sep (n :: names) = n ++ sep :: trail sep names := by simp [trail]

@[simp] theorem trail_append_singleton (names : List (List α)) (n : List α) :
    trail sep (names ++ [n]) = trail sep names ++ n ++ [sep] := by simp [trail]

theorem components_absPath (h : ∀ n ∈ names, n ≠ [] ∧ sep ∉ n) :
    components sep (absPath sep names) = names := by
  rw [absPath, components_sep_cons]
  induction names with
  | nil => rfl
  | cons n names ih =>
    obtain ⟨hn, hs⟩ := h n (mem_cons_self ..)
    cases names with
    | nil => simpa using components_of_notMem hs hn
    | cons m names =>
      have hne : trail sep (m :: names) ≠ [] := by simp
      rw [trail_cons, dropLast_append_of_ne_nil (by simp),
        dropLast_cons_of_ne_nil hne, components_append_sep hs hn,
        ih fun k hk => h k (mem_cons_of_mem _ hk)]

/-! ### Resolution -/

theorem descend_of_isName (h : IsName sep dot n) (names : List (List α)) :
    descend dot names n = names ++ [n] := by simp [descend, h.2.2.1, h.2.2.2]

theorem isName_foldl (hnames : ∀ n ∈ names, IsName sep dot n)
    (hcomps : ∀ n ∈ comps, n ≠ [] ∧ sep ∉ n) :
    ∀ n ∈ comps.foldl (descend dot) names, IsName sep dot n := by
  induction comps generalizing names with
  | nil => exact hnames
  | cons c comps ih =>
    refine ih ?_ fun n hn => hcomps n (mem_cons_of_mem _ hn)
    rw [descend]
    split
    · exact hnames
    · split
      · exact fun n hn => hnames n ((dropLast_sublist _).subset hn)
      · next hdot hdots =>
        intro n hn
        rcases mem_append.1 hn with hn | hn
        · exact hnames n hn
        · rw [mem_singleton.1 hn]
          obtain ⟨hne, hs⟩ := hcomps c (mem_cons_self ..)
          exact ⟨hne, hs, hdot, hdots⟩

theorem mem_of_mem_foldl (h : n ∈ comps.foldl (descend dot) names) : n ∈ names ∨ n ∈ comps := by
  induction comps generalizing names with
  | nil => exact .inl h
  | cons c comps ih =>
    rcases ih h with hn | hn
    · rw [descend] at hn
      split at hn
      · exact .inl hn
      · split at hn
        · exact .inl ((dropLast_sublist _).subset hn)
        · rcases mem_append.1 hn with hn | hn
          · exact .inl hn
          · exact .inr (mem_cons.2 (.inl (mem_singleton.1 hn)))
    · exact .inr (mem_cons_of_mem _ hn)

/-- **A resolved path is canonical.** -/
theorem canonical_resolve (s : List α) : Canonical sep dot (resolve sep dot s) :=
  ⟨_, isName_foldl (by simp) fun _ => mem_components, rfl⟩

theorem resolveFrom_of_head {s : List α} (h : s.head? = some sep) (dir : List α) :
    resolveFrom sep dot dir s = resolve sep dot s := by simp [resolveFrom, resolve, h]

theorem resolveFrom_of_head_ne {s : List α} (h : s.head? ≠ some sep) (dir : List α) :
    resolveFrom sep dot dir s = resolve sep dot (dir ++ sep :: s) := by
  simp [resolveFrom, resolve, h, components_append]

theorem foldl_descend_of_isName (h : ∀ n ∈ comps, IsName sep dot n) (names : List (List α)) :
    comps.foldl (descend dot) names = names ++ comps ∧ escapes dot names comps = 0 := by
  induction comps generalizing names with
  | nil => exact ⟨(append_nil _).symm, rfl⟩
  | cons c comps ih =>
    have hc := h c (mem_cons_self ..)
    obtain ⟨hfold, hesc⟩ := ih (fun n hn => h n (mem_cons_of_mem _ hn)) (names ++ [c])
    rw [foldl_cons, escapes, descend_of_isName hc]
    exact ⟨by simpa using hfold, by simp [hc.2.2.2, hesc]⟩

/-- **A canonical path stays as it is**, and does not go up. -/
theorem resolve_absPath (h : ∀ n ∈ names, IsName sep dot n) :
    resolve sep dot (absPath sep names) = absPath sep names ∧
      escapes dot [] (components sep (absPath sep names)) = 0 := by
  rw [resolve, components_absPath fun n hn => ⟨(h n hn).1, (h n hn).2.1⟩]
  obtain ⟨hfold, hesc⟩ := foldl_descend_of_isName h []
  exact ⟨by rw [hfold, nil_append], hesc⟩

/-! ### One path below another -/

theorem Canonical.eq_absPath (h : Canonical sep dot s) : s = absPath sep (components sep s) := by
  obtain ⟨names, hnames, rfl⟩ := h
  rw [components_absPath fun n hn => ⟨(hnames n hn).1, (hnames n hn).2.1⟩]

/-- **The path of some names** begins with the path of the first ones. -/
theorem absPath_append (hnames : names ≠ []) (hcomps : comps ≠ []) :
    absPath sep (names ++ comps) = absPath sep names ++ absPath sep comps := by
  have htrail : trail sep comps ≠ [] := by
    obtain ⟨n, comps, rfl⟩ := exists_cons_of_ne_nil hcomps
    simp
  obtain ⟨names, n, rfl⟩ : ∃ l n, names = l ++ [n] :=
    ⟨_, _, (dropLast_append_getLast hnames).symm⟩
  have hlast : (trail sep (names ++ [n])).dropLast ++ [sep] = trail sep (names ++ [n]) := by
    rw [trail_append_singleton, dropLast_concat]
  have hsplit : trail sep (names ++ [n] ++ comps) = trail sep (names ++ [n]) ++ trail sep comps :=
    flatMap_append
  rw [absPath, hsplit, dropLast_append_of_ne_nil htrail, absPath, absPath, cons_append, ← hlast]
  simp
