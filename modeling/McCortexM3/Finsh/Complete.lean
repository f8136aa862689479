import McCortexM3.Finsh.Editor

/-!
# The completions of finsh in the line

A completion replaces the line by what the editor on lists completes, if that fits.

## Main results

* `matchMsh_eq`, `matchFinsh_eq` — what the names that match have in common.
* `holds_mshAutoComplete`, `holds_listPrefix` — the line after a completion.
-/

set_option linter.all false

namespace RtThread

open Option List ByteMemory TextBuffer

/-! ### Names that match -/

section Names

variable {isFirst : NameMatch → Bool} {pre x : List UInt8} {n : ℕ}

/-- The names that begin with `pre`. -/
def matching (names : List FinshName) (pre : List UInt8) : List (List UInt8) :=
  (names.map Subtype.val).filter fun name => pre <+: name

theorem matching_cons (name : FinshName) (names : List FinshName) :
    matching (name :: names) pre =
      if pre <+: name.1 then name.1 :: matching names pre else matching names pre := by
  simp only [matching, map_cons, filter_cons, decide_eq_true_eq]

theorem commonPrefix_self (l : List UInt8) : commonPrefix l l = l := by
  induction l with
  | nil => rfl
  | cons a l ih => rw [commonPrefix, if_pos rfl, ih]

section

variable (hfirst : ∀ m : NameMatch, m.minLength ≠ 0 → m.namePtr ≠ none → isFirst m = false)
include hfirst

/-- Once a name has matched, the length becomes that of what it has in common with the others. -/
theorem foldl_next (hpre : pre ≠ []) (names : List FinshName) (hx : pre <+: x.take n) (hn : n ≤ x.length) :
    names.foldl (NameMatch.next isFirst pre) ⟨n, some x⟩ =
      ⟨((matching names pre).foldl commonPrefix (x.take n)).length, some x⟩ := by
  induction names generalizing n with
  | nil =>
    rw [foldl_nil, matching, map_nil, filter_nil, foldl_nil, length_take_of_le hn]
  | cons name names ih =>
    have hne : n ≠ 0 := by
      rintro rfl
      rw [take_zero, prefix_nil] at hx
      exact hpre hx
    rw [foldl_cons, NameMatch.next, matching_cons]
    split
    · next hname =>
      have hmin := commonPrefix_take n x name.1
      have hcommon : pre <+: commonPrefix (x.take n) name.1 := isPrefix_commonPrefix.mpr ⟨hx, hname⟩
      rw [hfirst ⟨n, some x⟩ hne (some_ne_none x), foldl_cons, hmin]
      rw [hmin] at hcommon
      simp only [Bool.false_eq_true, if_false, getD_some]
      split
      · next hlt =>
        rw [Nat.min_eq_right hlt.le] at hcommon ⊢
        exact ih hcommon (hlt.le.trans hn)
      · next hge =>
        rw [Nat.min_eq_left (by omega)]
        exact ih hx hn
    · exact ih hx hn

theorem foldl_next_none
    (hnone : isFirst ⟨0, none⟩ = true) (hpre : pre ≠ []) (names : List FinshName) :
    names.foldl (NameMatch.next isFirst pre) ⟨0, none⟩ =
      match matching names pre with
      | [] => ⟨0, none⟩
      | name :: names => ⟨(names.foldl commonPrefix name).length, some name⟩ := by
  induction names with
  | nil => rfl
  | cons name names ih =>
    rw [foldl_cons, NameMatch.next, matching_cons]
    split
    · next hname =>
      have hlater := foldl_next hfirst hpre names (x := name.1) (n := name.1.length)
        (by rw [take_length]; exact hname) le_rfl
      rw [take_length] at hlater
      simp only [getD_some, commonPrefix_self, lt_irrefl, if_false]
      exact hlater
    · exact ih

end

theorem matchMsh_eq (hpre : pre ≠ []) (names : List FinshName) :
    matchMsh pre names =
      match matching names pre with
      | [] => ⟨0, none⟩
      | name :: names => ⟨(names.foldl commonPrefix name).length, some name⟩ :=
  foldl_next_none (fun _ hm _ => decide_eq_false hm) rfl hpre names

theorem matchFinsh_eq (hpre : pre ≠ []) (names : List FinshName) :
    matchFinsh pre names =
      match matching names pre with
      | [] => ⟨0, none⟩
      | name :: names => ⟨(names.foldl commonPrefix name).length, some name⟩ :=
  foldl_next_none (fun _ _ hm => isNone_eq_false_iff.mpr (isSome_iff_ne_none.mpr hm)) rfl hpre names

end Names

/-! ### Completions in the line -/

section Complete

variable {line : ℕ → UInt8} {l pre : List UInt8} {names : List FinshName} {e : Completions}

theorem zero_notMem_of_mem_matching {name : List UInt8} (h : name ∈ matching names pre) :
    (0 : UInt8) ∉ name := by
  obtain ⟨hmem, -⟩ := mem_filter.mp h
  obtain ⟨c, -, rfl⟩ := List.mem_map.mp hmem
  exact c.2

theorem prefix_completeName (names : List FinshName) (pre : List UInt8) :
    pre <+: completeName names pre := by
  have hmem : ∀ name ∈ matching names pre, pre <+: name := fun name h =>
    of_decide_eq_true (mem_filter.mp h).2
  change pre <+: match matching names pre with
    | [] => pre
    | name :: names => names.foldl commonPrefix name
  split
  · exact prefix_rfl
  · next name rest hmatch =>
    rw [hmatch, forall_mem_cons] at hmem
    exact isPrefix_foldl_commonPrefix.mpr hmem

theorem completeName_of_cons {name : List UInt8} {rest : List (List UInt8)}
    (h : matching names pre = name :: rest) :
    completeName names pre = rest.foldl commonPrefix name := by
  change (match matching names pre with
    | [] => pre
    | name :: names => names.foldl commonPrefix name) = _
  rw [h]

theorem completeName_of_nil (h : matching names pre = []) : completeName names pre = pre := by
  change (match matching names pre with
    | [] => pre
    | name :: names => names.foldl commonPrefix name) = _
  rw [h]

theorem holds_copyName {name : List UInt8} {rest : List (List UInt8)} {k : ℕ}
    (h : Holds finshCmdSize line l) (hk : k ≤ l.length)
    (hmatch : matching names (l.drop k) = name :: rest)
    (hfits : k + (completeName names (l.drop k)).length < finshCmdSize) :
    ∃ line', copyName line k name (rest.foldl commonPrefix name).length = some line' ∧
      Holds finshCmdSize line' (l.take k ++ completeName names (l.drop k)) := by
  have hpre := (prefix_completeName names (l.drop k)).length_le
  rw [completeName_of_cons hmatch] at hfits hpre ⊢
  rw [length_drop] at hpre
  obtain ⟨t, ht⟩ : ∃ t, rest.foldl commonPrefix name = t := ⟨_, rfl⟩
  rw [ht] at hfits hpre ⊢
  have hname : t <+: name := by
    rw [← ht]
    exact (isPrefix_foldl_commonPrefix.mp prefix_rfl).1
  have hzero : (0 : UInt8) ∉ t := fun hmem =>
    zero_notMem_of_mem_matching (hmatch ▸ mem_cons_self) (hname.subset hmem)
  have hsrc : ∀ i < t.length, name.getD i 0 = t.getD i 0 := by
    intro i hi
    obtain ⟨r, rfl⟩ := hname
    rw [getD_eq_getElem?_getD, getElem?_append_left hi, getD_eq_getElem?_getD]
  exact ⟨_, if_pos hfits.le, h.replace hk (by omega) hfits hzero hsrc⟩

theorem nameIndex_le (path : List UInt8) (ptr index : ℕ) (h : index ≤ ptr) :
    nameIndex path ptr index ≤ ptr + path.length := by
  induction path generalizing ptr index with
  | nil => exact h
  | cons c path ih =>
    have hle := ih (ptr + 1) (if c = 0x2F then ptr + 1 else index) (by split <;> omega)
    rw [nameIndex, length_cons]
    omega

theorem prefix_completePath (e : Completions) (path : List UInt8) :
    path <+: completePath e path := by
  simp only [completePath]
  split
  · exact prefix_rfl
  · split
    · exact prefix_rfl
    · conv_lhs => rw [← take_append_drop (nameIndex path 0 0) path]
      exact (prefix_append_right_inj _).mpr (prefix_completeName _ _)

theorem holds_mshAutoCompletePath {start : ℕ} (h : Holds finshCmdSize line l)
    (hstart : start ≤ l.length)
    (hfits : start + (completePath e (l.drop start)).length < finshCmdSize) :
    ∃ line', mshAutoCompletePath e line start (l.drop start) = some line' ∧
      Holds finshCmdSize line' (l.take start ++ completePath e (l.drop start)) := by
  have hindex := nameIndex_le (l.drop start) 0 0 le_rfl
  rw [length_drop] at hindex
  simp only [mshAutoCompletePath, completePath] at hfits ⊢
  generalize nameIndex (l.drop start) 0 0 = index at hindex hfits ⊢
  have hsplit : l.take (start + index) = l.take start ++ (l.drop start).take index := take_add
  cases hdir : e.opendir (openedPath e.cwd.1 (l.drop start) ((l.drop start).take index)) with
  | none => exact ⟨line, rfl, by rw [take_append_drop]; exact h⟩
  | some entries =>
    rw [hdir] at hfits
    dsimp only at hfits ⊢
    by_cases hempty : (l.drop start).drop index = []
    · rw [if_pos hempty, if_pos hempty]
      exact ⟨line, rfl, by rw [take_append_drop]; exact h⟩
    rw [if_neg hempty] at hfits
    rw [if_neg hempty, if_neg hempty, matchMsh_eq hempty]
    cases hmatch : matching entries ((l.drop start).drop index) with
    | nil =>
      rw [completeName_of_nil hmatch, take_append_drop, take_append_drop]
      exact ⟨line, rfl, h⟩
    | cons name rest =>
      have hdrop : l.drop (start + index) = (l.drop start).drop index := drop_drop.symm
      have htake : ((l.drop start).take index).length = index :=
        length_take_of_le (by rw [length_drop]; omega)
      rw [length_append, htake, ← hdrop] at hfits
      have hpos : 0 < (completeName entries (l.drop (start + index))).length := by
        refine (length_pos_iff.mpr ?_).trans_le (prefix_completeName _ _).length_le
        rw [hdrop]
        exact hempty
      rw [← hdrop] at hmatch ⊢
      obtain ⟨line', hcopy, hline'⟩ := holds_copyName h (by omega) hmatch (by omega)
      have hlen : (rest.foldl commonPrefix name).length =
          (completeName entries (l.drop (start + index))).length := by
        rw [completeName_of_cons hmatch]
      have htake' : (l.take (start + index)).length = start + index :=
        length_take_of_le (by omega)
      -- the zero behind the name is behind the line
      have hzero := hline'.update_zero
        (i := start + index + (rest.foldl commonPrefix name).length)
        (by rw [length_append, htake', hlen])
      rw [hsplit, append_assoc] at hzero
      refine ⟨_, ?_, hzero⟩
      dsimp only
      rw [if_pos (by omega), getD_some, hcopy]
      exact if_pos (by omega)

theorem lastSpace_congr {n : ℕ} {line' : ℕ → UInt8} (h : ∀ i ≤ n, line i = line' i) :
    lastSpace line n = lastSpace line' n := by
  induction n with
  | zero => rfl
  | succ n ih => rw [lastSpace, lastSpace, h _ le_rfl, ih fun i hi => h i (by omega)]

theorem lastSpace_le {n ptr : ℕ} (h : lastSpace line n = some ptr) : ptr ≤ n ∧ line ptr = 0x20 := by
  induction n with
  | zero => cases h
  | succ n ih =>
    rw [lastSpace] at h
    split at h
    · next hspace =>
      cases h
      exact ⟨le_rfl, hspace⟩
    · obtain ⟨hle, hspace⟩ := ih h
      exact ⟨hle.trans (Nat.le_succ n), hspace⟩

theorem prefix_completeWord (e : Completions) (l : List UInt8) : l <+: completeWord e l := by
  rw [completeWord]
  split
  · exact prefix_rfl
  · next ptr _ =>
    conv_lhs => rw [← take_append_drop (ptr + 1) l]
    exact (prefix_append_right_inj _).mpr (prefix_completePath _ _)

theorem holds_mshAutoCompleteWord (h : Holds finshCmdSize line l)
    (hfits : (completeWord e l).length < finshCmdSize) :
    ∃ line', mshAutoCompleteWord e line l = some line' ∧
      Holds finshCmdSize line' (completeWord e l) := by
  have hspace : lastSpace line l.length = lastSpace (fun i => l.getD i 0) l.length :=
    lastSpace_congr fun i hi => h.bytes i (by have := h.fits; omega)
  rw [mshAutoCompleteWord, hspace]
  rw [completeWord] at hfits ⊢
  cases hptr : lastSpace (fun i => l.getD i 0) l.length with
  | none => exact ⟨line, rfl, h⟩
  | some ptr =>
    obtain ⟨hle, hbyte⟩ := lastSpace_le hptr
    have hlt : ptr < l.length := by
      by_contra hge
      rw [getD_of_le (by omega)] at hbyte
      cases hbyte
    rw [hptr] at hfits
    dsimp only at hfits
    rw [length_append, length_take_of_le hlt] at hfits
    exact holds_mshAutoCompletePath h hlt hfits

/-- `msh_auto_complete` completes the line. -/
theorem holds_mshAutoComplete (h : Holds finshCmdSize line l) (hl : l ≠ [])
    (hfits : (completeName e.commands (completeWord e l)).length < finshCmdSize) :
    ∃ line', mshAutoComplete e line = some line' ∧
      Holds finshCmdSize line' (completeName e.commands (completeWord e l)) := by
  have hne : completeWord e l ≠ [] := fun hnil =>
    hl (prefix_nil.mp (hnil ▸ prefix_completeWord e l))
  obtain ⟨line', hline', hholds'⟩ := holds_mshAutoCompleteWord (e := e) h
    ((prefix_completeName e.commands (completeWord e l)).length_le.trans_lt hfits)
  rw [mshAutoComplete, h.text_eq]
  simp only [bind_eq_bind, bind_some, if_neg hl, hline', hholds'.text_eq, matchMsh_eq hne]
  cases hmatch : matching e.commands (completeWord e l) with
  | nil =>
    rw [completeName_of_nil hmatch]
    exact ⟨line', rfl, hholds'⟩
  | cons name rest =>
    have hcopy := holds_copyName (k := 0) hholds' (Nat.zero_le _) hmatch
      (by rw [Nat.zero_add]; exact hfits)
    exact hcopy

/-- `list_prefix` completes the line. -/
theorem holds_listPrefix (h : Holds finshCmdSize line l) (hl : l ≠ [])
    (hfits : (completeName e.names l).length < finshCmdSize) :
    ∃ line', listPrefix e line = some line' ∧
      Holds finshCmdSize line' (completeName e.names l) := by
  rw [listPrefix, h.text_eq]
  simp only [bind_eq_bind, bind_some, if_neg hl, matchFinsh_eq hl]
  cases hmatch : matching e.names l with
  | nil =>
    rw [completeName_of_nil hmatch]
    exact ⟨line, rfl, h⟩
  | cons name rest =>
    have hcopy := holds_copyName (k := 0) h (Nat.zero_le _) hmatch
      (by rw [Nat.zero_add]; exact hfits)
    exact hcopy

end Complete

end RtThread
